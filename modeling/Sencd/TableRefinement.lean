import Sencd.ServerRun

/-!
# The session table as a finite map

What the session table is for: a finite map from session ids to sessions with at most
`maxSessions` keys. The calls on the table that succeed determine the map, and every call
behaves on the table as it should on the map.
-/
namespace Sencd
open ByteOrder CallProgram LabelledPath

variable {Buf : ℕ → Type}

/-- One call on the session table, with what it returned. -/
inductive TableCall (Buf : ℕ → Type)
  | connect (role : SessionRole) (socket : ℤ) (ip : List Char) (calls : Calls Buf)
      (result : Option (Session Buf))
  | add (s : Session Buf) (result : Option (Session Buf))
  | remove (sessionId : UInt64) (code : ℕ)
  | get (sessionId : UInt64) (result : Option (Session Buf))
  | disconnectAll (effects : List (Effect Buf))

variable (M : Memory Buf)

inductive TableCallStep : SessionManager Buf → TableCall Buf → SessionManager Buf → Prop
  | connect {m m' : SessionManager Buf} {role : SessionRole} {socket : ℤ} {ip : List Char}
      {calls : Calls Buf} {result : Option (Session Buf)} :
      Exec (sessionManagerConnect M m role socket ip) calls (.ret (m', result)) →
      TableCallStep m (.connect role socket ip calls result) m'
  | add (m : SessionManager Buf) (s : Session Buf) :
      TableCallStep m (.add s ((sessionManagerAdd m s).map Prod.snd))
        ((sessionManagerAdd m s).elim m Prod.fst)
  | remove (m : SessionManager Buf) (sessionId : UInt64) :
      TableCallStep m
        (.remove sessionId (if (sessionManagerRemove M m sessionId).isSome then 0 else 1))
        ((sessionManagerRemove M m sessionId).elim m Prod.fst)
  | get (m : SessionManager Buf) (sessionId : UInt64) :
      TableCallStep m (.get sessionId (sessionManagerGet m sessionId)) m
  | disconnectAll (m : SessionManager Buf) :
      TableCallStep m (.disconnectAll (sessionManagerDisconnectAll M m).2)
        (sessionManagerDisconnectAll M m).1

/-- Sequences of calls on the table of an empty manager. -/
abbrev TableCallRun (m₀ : SessionManager Buf) :
    List (SessionManager Buf × TableCall Buf) → SessionManager Buf → Prop :=
  Path (TableCallStep M) { m₀ with sessions := fun _ => none, sessionCount := 0 }

/-- The registered sessions by their ids. -/
abbrev SessionMap (Buf : ℕ → Type) := Finmap fun _ : UInt64 => Session Buf

/-- The session a call has added. -/
def TableCall.added : TableCall Buf → Option (Session Buf)
  | .connect _ _ _ _ result => result
  | .add _ result => result
  | _ => none

/-- The map after a call that returned as it did. -/
def TableCall.apply (A : SessionMap Buf) : TableCall Buf → SessionMap Buf
  | .connect _ _ _ _ (some s) => A.insert s.sessionId s
  | .add _ (some s) => A.insert s.sessionId s
  | .remove sessionId 0 => A.erase sessionId
  | .disconnectAll _ => ∅
  | _ => A

/-- The map a sequence of calls leaves: what was added and not removed since. -/
def registered (steps : List (SessionManager Buf × TableCall Buf)) : SessionMap Buf :=
  steps.foldl (fun A step => step.2.apply A) ∅

/-- The ids of the sessions a sequence of calls has added. -/
def addedIds (steps : List (SessionManager Buf × TableCall Buf)) : List UInt64 :=
  (steps.filterMap fun step => step.2.added).map Session.sessionId

/-- The frames among the effects of a call, with the sockets they were sent to. -/
def notices (effects : List (Effect Buf)) : List (ℤ × Packet Buf) :=
  effects.filterMap fun
    | .packetSend socket packet => some (socket, packet)
    | _ => none

/-- The notice of a session that is disconnected. -/
def Session.notice (s : Session Buf) : ℤ × Packet Buf :=
  (s.socket, ⟨.disconnect, s.protocolVersion, none⟩)

/-- The table of `m'` is that of `m` with `s` in a slot that was free. -/
def AddsOnly (m m' : SessionManager Buf) (s : Session Buf) : Prop :=
  ∃ i, m.sessions i = none ∧ m'.sessions = Function.update m.sessions i (some s)

/-- What a call on a table that stands for the map `A` returns and does. -/
def TableCall.Behaves (m : SessionManager Buf) (A : SessionMap Buf) (m' : SessionManager Buf) :
    TableCall Buf → Prop
  | .connect _ _ _ _ result =>
    (result = none → m' = m) ∧ ∀ s, result = some s → AddsOnly m m' s
  | .add s result =>
    (result = none ↔ A.keys.card = maxSessions) ∧ (result = none → m' = m) ∧
      ∀ s', result = some s' → s'.sessionId = s.sessionId ∧ AddsOnly m m' s'
  | .remove sessionId code =>
    (code = 0 ↔ sessionId ∈ A) ∧ (code ≠ 0 → m' = m) ∧ ∀ i s, m'.sessions i = some s ↔
      m.sessions i = some s ∧ s.sessionId ≠ sessionId
  | .get sessionId result => result = A.lookup sessionId ∧ m' = m
  | .disconnectAll effects =>
    notices effects = (List.finRange maxSessions).filterMap
      (fun i => (m.sessions i).map Session.notice) ∧ ∀ i, m'.sessions i = none

/-- The manager stands for the map. -/
structure StandsFor (m : SessionManager Buf) (A : SessionMap Buf) : Prop where
  table : SlotTable.Represents Session.sessionId m.sessions A
  sessionCount : m.sessionCount.toNat = A.keys.card

variable {M} {m m' : SessionManager Buf} {A : SessionMap Buf} {call : TableCall Buf}
  {s s' : Session Buf}

theorem StandsFor.get (h : StandsFor m A) (sessionId : UInt64) :
    sessionManagerGet m sessionId = A.lookup sessionId := h.table.map_find sessionId

/-- A connection returns with the table as it was or with one session added. -/
theorem sessionManagerConnect_added {role : SessionRole} {socket : ℤ} {ip : List Char}
    {calls : Calls Buf} {result : Option (Session Buf)}
    (hx : Exec (sessionManagerConnect M m role socket ip) calls (.ret (m', result))) :
    (m' = m ∧ result = none) ∨
      ∃ s s', sessionManagerAdd m s = some (m', s') ∧ result = some s' := by
  let Q : Calls Buf → SessionManager Buf × Option (Session Buf) → Prop := fun _ r =>
    (r.1 = m ∧ r.2 = none) ∨ ∃ s s', sessionManagerAdd m s = some (r.1, s') ∧ r.2 = some s'
  have hclose : ∀ h fds, Holds (fun _ _ => True) Q h
      (closeAll fds >>= fun _ => pure (m, (none : Option (Session Buf)))) := fun h fds =>
    (Holds.of_true (closeAll fds)).bind fun _ _ _ => .inl ⟨rfl, rfl⟩
  have hholds : Holds (fun _ _ => True) Q [] (sessionManagerConnect M m role socket ip) := by
    refine holds_perform trivial fun ok => holds_ite (fun _ => ?_) fun _ => .inl ⟨rfl, rfl⟩
    refine holds_perform trivial fun id => holds_ite (fun _ => .inl ⟨rfl, rfl⟩) fun _ => ?_
    apply (Holds.of_true (sessionServerConnect M _)).bind
    rintro h ⟨code, s⟩ -
    refine holds_ite (fun _ => hclose h _) fun _ => ?_
    unfold sessionManagerStore
    cases hadd : sessionManagerAdd m s with
    | none => exact hclose h _
    | some r => exact .inr ⟨s, r.2, hadd, rfl⟩
  exact hholds.post hx

/-- The added session is in a slot that was free. -/
theorem addsOnly_of_add (h : sessionManagerAdd m s = some (m', s')) : AddsOnly m m' s' := by
  obtain ⟨i, hfree, -, rfl⟩ := sessionManagerAdd_eq_some.mp h
  exact ⟨i, (SlotTable.free_eq_some.mp hfree).1, rfl⟩

theorem sessionId_of_add (h : sessionManagerAdd m s = some (m', s')) :
    s'.sessionId = s.sessionId := by
  obtain ⟨i, -, rfl, -⟩ := sessionManagerAdd_eq_some.mp h
  rfl

/-- Adding a session with a new id inserts it into the map. -/
theorem StandsFor.add (h : StandsFor m A) (hadd : sessionManagerAdd m s = some (m', s'))
    (hnew : s'.sessionId ∉ A) : StandsFor m' (A.insert s'.sessionId s') := by
  obtain ⟨i, hfree, -, rfl⟩ := sessionManagerAdd_eq_some.mp hadd
  have htable := h.table.insert (SlotTable.free_eq_some.mp hfree).1 hnew
  have hkeys : (A.insert s'.sessionId s').keys.card = A.keys.card + 1 := by
    rw [← htable.count, ← h.table.count,
      SlotTable.count_update_some (SlotTable.free_eq_some.mp hfree).1]
  have hle := htable.card_le
  have hcount := h.sessionCount
  refine ⟨htable, ?_⟩
  simp only [maxSessions] at hle
  simp only [SessionManager.stored, UInt32.toNat_add]
  change (m.sessionCount.toNat + 1) % 2 ^ 32 = _
  omega

/-- The manager with slot `i` freed. -/
def SessionManager.freed (m : SessionManager Buf) (i : Fin maxSessions) : SessionManager Buf :=
  { m with
    sessions := Function.update m.sessions i none
    sessionCount := m.sessionCount - 1 }

theorem sessionManagerRemove_absent {sessionId : UInt64}
    (h : sessionManagerFind m sessionId = none) : sessionManagerRemove M m sessionId = none := by
  unfold sessionManagerRemove
  rw [h]

theorem sessionManagerRemove_present {sessionId : UInt64} {i : Fin maxSessions}
    (h : sessionManagerFind m sessionId = some (i, s)) :
    sessionManagerRemove M m sessionId = some (m.freed i, (sessionDestroy M s).2.map .close) := by
  unfold sessionManagerRemove
  rw [h]
  rfl

/-- Removing a session erases its id from the map. -/
theorem StandsFor.remove (h : StandsFor m A) {i : Fin maxSessions} (hi : m.sessions i = some s) :
    StandsFor (m.freed i) (A.erase s.sessionId) := by
  have htable := h.table.erase hi
  have hkeys : (A.erase s.sessionId).keys.card + 1 = A.keys.card := by
    rw [← htable.count, ← h.table.count]
    exact SlotTable.count_update_none (by simp [hi])
  have hle := h.table.card_le
  have hcount := h.sessionCount
  refine ⟨htable, ?_⟩
  simp only [maxSessions] at hle
  have hpos : 1 ≤ m.sessionCount := by
    rw [UInt32.le_iff_toNat_le]
    change 1 ≤ _
    omega
  change (m.sessionCount - 1).toNat = _
  rw [UInt32.toNat_sub_of_le _ _ hpos]
  change m.sessionCount.toNat - 1 = _
  omega

/-- What the scan for an id finds in a table that stands for a map. -/
theorem StandsFor.find (h : StandsFor m A) (sessionId : UInt64) :
    (sessionManagerFind m sessionId = none ∧ sessionId ∉ A) ∨
      ∃ i s, sessionManagerFind m sessionId = some (i, s) ∧ m.sessions i = some s ∧
        s.sessionId = sessionId ∧ sessionId ∈ A := by
  have hget := h.get sessionId
  cases hfind : sessionManagerFind m sessionId with
  | none =>
      rw [sessionManagerGet, hfind] at hget
      exact .inl ⟨rfl, Finmap.lookup_eq_none.mp hget.symm⟩
  | some e =>
      obtain ⟨i, s⟩ := e
      obtain ⟨hi, hid, -⟩ := SlotTable.find_eq_some.mp hfind
      rw [sessionManagerGet, hfind] at hget
      exact .inr ⟨i, s, rfl, hi, of_decide_eq_true hid, Finmap.mem_of_lookup_eq_some hget.symm⟩

/-- A call takes a manager that stands for a map to one that stands for the map after it. -/
theorem StandsFor.step (h : StandsFor m A) (hstep : TableCallStep M m call m')
    (hnew : ∀ s, call.added = some s → s.sessionId ∉ A) : StandsFor m' (call.apply A) := by
  cases hstep with
  | connect hx =>
      obtain ⟨rfl, rfl⟩ | ⟨s, s', hadd, rfl⟩ := sessionManagerConnect_added hx
      · exact h
      · exact h.add hadd (hnew s' rfl)
  | add s =>
      cases hadd : sessionManagerAdd m s with
      | none => exact h
      | some r =>
          rw [hadd] at hnew
          exact h.add hadd (hnew r.2 rfl)
  | remove sessionId =>
      obtain ⟨hnone, -⟩ | ⟨i, s, hfind, hi, rfl, -⟩ := h.find sessionId
      · rw [sessionManagerRemove_absent hnone]
        exact h
      · rw [sessionManagerRemove_present hfind]
        exact h.remove hi
  | get sessionId => exact h
  | disconnectAll => exact ⟨.empty, rfl⟩

/-- The notices of `session_manager_disconnect_all`, slot by slot. -/
theorem notices_disconnectAll :
    notices (sessionManagerDisconnectAll M m).2 = (List.finRange maxSessions).filterMap
      fun i => (m.sessions i).map Session.notice := by
  have hslot : ∀ e : Option (Session Buf),
      notices (disconnectEffects M e) = (e.map Session.notice).toList := by
    intro e
    cases e with
    | none => rfl
    | some s =>
        have hcloses : notices ((sessionDestroy M s).2.map .close : List (Effect Buf)) = [] := by
          simp [notices, List.filterMap_map]
        rw [disconnectEffects, notices, List.filterMap_cons]
        exact congrArg (_ :: ·) hcloses
  have htun : notices (if m.tun then [.tunClose] else [] : List (Effect Buf)) = [] := by
    by_cases h : m.tun <;> simp [h, notices]
  have happend : ∀ u v : List (Effect Buf), notices (u ++ v) = notices u ++ notices v :=
    fun u v => List.filterMap_append
  rw [sessionManagerDisconnectAll, happend, htun, List.append_nil]
  induction List.finRange maxSessions with
  | nil => rfl
  | cons i slots ih =>
      rw [List.flatMap_cons, happend, hslot, ih, List.filterMap_cons]
      cases m.sessions i with
      | none => rfl
      | some s => rfl

/-- A call on a manager that stands for a map behaves as on the map. -/
theorem StandsFor.behaves (h : StandsFor m A) (hstep : TableCallStep M m call m') :
    call.Behaves m A m' := by
  cases hstep with
  | connect hx =>
      obtain ⟨rfl, rfl⟩ | ⟨s, s', hadd, rfl⟩ := sessionManagerConnect_added hx
      · exact ⟨fun _ => rfl, by simp⟩
      · refine ⟨by simp, fun t ht => ?_⟩
        obtain rfl := Option.some.inj ht
        exact addsOnly_of_add hadd
  | add s =>
      have hfull : (sessionManagerAdd m s).map Prod.snd = none ↔ A.keys.card = maxSessions := by
        rw [Option.map_eq_none_iff, sessionManagerAdd_eq_none, h.table.free_eq_none]
      refine ⟨hfull, ?_⟩
      cases hadd : sessionManagerAdd m s with
      | none => exact ⟨fun _ => rfl, by simp⟩
      | some r =>
          refine ⟨by simp, fun t ht => ?_⟩
          obtain rfl := Option.some.inj ht
          exact ⟨sessionId_of_add hadd, addsOnly_of_add hadd⟩
  | remove sessionId =>
      obtain ⟨hnone, habsent⟩ | ⟨i, s, hfind, hi, rfl, hmem⟩ := h.find sessionId
      · have hother : ∀ i s, m.sessions i = some s → s.sessionId ≠ sessionId := by
          intro i s hi
          have hid := SlotTable.find_eq_none.mp hnone i s hi
          exact of_decide_eq_false hid
        rw [sessionManagerRemove_absent hnone]
        refine ⟨by simp [habsent], fun _ => rfl, fun i s => ?_⟩
        exact ⟨fun hi => ⟨hi, hother i s hi⟩, fun hi => hi.1⟩
      · rw [sessionManagerRemove_present hfind]
        refine ⟨by simp [hmem], by simp, fun j t => ?_⟩
        by_cases hji : j = i
        · subst hji
          simp only [Option.elim_some, SessionManager.freed, Function.update_self]
          refine iff_of_false (by simp) fun ⟨ht, hid⟩ => ?_
          obtain rfl := Option.some.inj (hi.symm.trans ht)
          exact hid rfl
        · simp only [Option.elim_some, SessionManager.freed, Function.update_of_ne hji]
          refine ⟨fun ht => ⟨ht, fun hid => ?_⟩, fun ht => ht.1⟩
          exact hji (h.table.injective j i t s ht hi hid)
  | get sessionId => exact ⟨h.get sessionId, rfl⟩
  | disconnectAll => exact ⟨notices_disconnectAll, fun _ => rfl⟩

section Run

variable {m₀ : SessionManager Buf} {steps : List (SessionManager Buf × TableCall Buf)}

/-- A call registers no id but that of the session it adds. -/
theorem mem_apply {sessionId : UInt64} (h : sessionId ∈ call.apply A) :
    sessionId ∈ A ∨ ∃ s, call.added = some s ∧ s.sessionId = sessionId := by
  unfold TableCall.apply at h
  split at h
  · obtain rfl | h := Finmap.mem_insert.mp h
    · exact .inr ⟨_, rfl, rfl⟩
    · exact .inl h
  · obtain rfl | h := Finmap.mem_insert.mp h
    · exact .inr ⟨_, rfl, rfl⟩
    · exact .inl h
  · exact .inl (Finmap.mem_erase.mp h).2
  · exact absurd h Finmap.notMem_empty
  · exact .inl h

theorem addedIds_snoc (steps : List (SessionManager Buf × TableCall Buf))
    (m : SessionManager Buf) (call : TableCall Buf) :
    addedIds (steps ++ [(m, call)]) =
      addedIds steps ++ (call.added.map Session.sessionId).toList := by
  unfold addedIds
  rw [List.filterMap_append, List.map_append]
  cases h : call.added with
  | none => simp [h]
  | some s => simp [h]

theorem registered_snoc (steps : List (SessionManager Buf × TableCall Buf))
    (m : SessionManager Buf) (call : TableCall Buf) :
    registered (steps ++ [(m, call)]) = call.apply (registered steps) := by
  unfold registered
  rw [List.foldl_append]
  rfl

/-- While no id is added twice, the manager stands for the sessions registered in it. -/
theorem TableCallRun.standsFor (hrun : TableCallRun M m₀ steps m) (hids : (addedIds steps).Nodup) :
    StandsFor m (registered steps) ∧ ∀ id ∈ registered steps, id ∈ addedIds steps := by
  induction hrun with
  | nil => exact ⟨⟨.empty, rfl⟩, fun id hid => absurd hid Finmap.notMem_empty⟩
  | @snoc steps m m' call hpath hstep ih =>
      rw [addedIds_snoc] at hids ⊢
      rw [registered_snoc]
      obtain ⟨hstands, hadded⟩ := ih hids.of_append_left
      refine ⟨hstands.step hstep fun s hs hmem => ?_, fun id hid => ?_⟩
      · have hdisjoint := List.disjoint_of_nodup_append hids
        exact hdisjoint (hadded _ hmem) (by simp [hs])
      · obtain hmem | ⟨s, hs, rfl⟩ := mem_apply hid
        · exact List.mem_append_left _ (hadded id hmem)
        · simp [hs]

/-- While no id is added twice, the table is the finite map of the sessions registered in it,
and every call on it behaves as on that map. -/
theorem session_table_refines_map (hrun : TableCallRun M m₀ steps m)
    (hids : (addedIds steps).Nodup) :
    (∀ id, sessionManagerGet m id = (registered steps).lookup id) ∧
      m.sessionCount.toNat = SlotTable.count m.sessions ∧
      SlotTable.count m.sessions = (registered steps).keys.card ∧
      (registered steps).keys.card ≤ maxSessions ∧
      ∀ call m', TableCallStep M m call m' → call.Behaves m (registered steps) m' := by
  have hstands := (hrun.standsFor hids).1
  have hcount := hstands.table.count
  refine ⟨hstands.get, ?_, hcount, hstands.table.card_le, fun call m' => hstands.behaves⟩
  rw [hcount]
  exact hstands.sessionCount

/-- A manager with an empty table, and sessions to add to it. -/
def loneManager : SessionManager ByteBuf :=
  startedManager (byteMemory .little) (cryptoContextInit (byteMemory .little)) 5

def loneStart : SessionManager ByteBuf :=
  { loneManager with sessions := fun _ => none, sessionCount := 0 }

def numbered (id : UInt64) : Session ByteBuf :=
  { sessionInit (byteMemory .little) .server with sessionId := id, state := .established }

abbrev firstSlot : Fin maxSessions := ⟨0, Nat.zero_lt_succ 1023⟩

abbrev secondSlot : Fin maxSessions := ⟨1, by simp [maxSessions]⟩

def firstStored : SessionManager ByteBuf := loneStart.stored firstSlot ((numbered 7).placedAt 0)

def bothStored : SessionManager ByteBuf := firstStored.stored secondSlot ((numbered 8).placedAt 1)

def reusedManager : SessionManager ByteBuf :=
  (bothStored.freed firstSlot).stored firstSlot ((numbered 9).placedAt 0)

/-- Two sessions are added, the first is removed, and a third takes its slot. -/
def reuseSteps : List (SessionManager ByteBuf × TableCall ByteBuf) :=
  [(loneStart, .add (numbered 7) (some ((numbered 7).placedAt 0))),
    (firstStored, .add (numbered 8) (some ((numbered 8).placedAt 1))),
    (bothStored, .remove 7 0),
    (bothStored.freed firstSlot, .add (numbered 9) (some ((numbered 9).placedAt 0)))]

theorem tableCallStep_add {m : SessionManager ByteBuf} {s : Session ByteBuf} {i : Fin maxSessions}
    (h : SlotTable.free m.sessions = some i) :
    TableCallStep (byteMemory .little) m (.add s (some (s.placedAt i)))
      (m.stored i (s.placedAt i)) := by
  have hadd : sessionManagerAdd m s = some (m.stored i (s.placedAt i), s.placedAt i) :=
    sessionManagerAdd_eq_some.mpr ⟨i, h, rfl, rfl⟩
  have hstep := TableCallStep.add (M := byteMemory .little) m s
  rwa [hadd] at hstep

theorem reuseSteps_run :
    TableCallRun (byteMemory .little) loneManager reuseSteps reusedManager := by
  have hfree : SlotTable.free loneStart.sessions = some firstSlot :=
    SlotTable.free_eq_some.mpr ⟨rfl, fun j hj => absurd hj (Nat.not_lt_zero j)⟩
  have hfree' : SlotTable.free firstStored.sessions = some secondSlot := by
    refine SlotTable.free_eq_some.mpr ⟨rfl, fun j hj => ?_⟩
    obtain rfl : j = firstSlot := Fin.ext (Nat.lt_one_iff.mp hj)
    exact Option.some_ne_none ((numbered 7).placedAt 0)
  have hfind : sessionManagerFind bothStored 7 = some (firstSlot, (numbered 7).placedAt 0) :=
    SlotTable.find_eq_some.mpr ⟨rfl, rfl, fun j hj => absurd hj (Nat.not_lt_zero j)⟩
  have hremove : TableCallStep (byteMemory .little) bothStored (.remove 7 0)
      (bothStored.freed firstSlot) := by
    have hstep := TableCallStep.remove (M := byteMemory .little) bothStored 7
    rwa [sessionManagerRemove_present hfind] at hstep
  have hfree'' : SlotTable.free (bothStored.freed firstSlot).sessions = some firstSlot :=
    SlotTable.free_eq_some.mpr ⟨rfl, fun j hj => absurd hj (Nat.not_lt_zero j)⟩
  exact (((Path.nil.snoc (tableCallStep_add hfree)).snoc (tableCallStep_add hfree')).snoc
    hremove).snoc (tableCallStep_add hfree'')

theorem session_table_refines_map_reuse :
    (∀ id, sessionManagerGet reusedManager id = (registered reuseSteps).lookup id) ∧
    reusedManager.sessionCount.toNat = SlotTable.count reusedManager.sessions ∧
    SlotTable.count reusedManager.sessions = (registered reuseSteps).keys.card ∧
    (registered reuseSteps).keys.card ≤ maxSessions ∧
    ∀ call m', TableCallStep (byteMemory .little) reusedManager call m' →
      call.Behaves reusedManager (registered reuseSteps) m' :=
  session_table_refines_map reuseSteps_run (by decide)

end Run

end Sencd
