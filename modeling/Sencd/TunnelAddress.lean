import Sencd.Guests

/-!
# Tunnel addresses

`session_manager_add` derives the last octet of a session's tunnel address from its slot, in
8 bits. Of the 1024 slots only the first 253 get an octet of their own that is not reserved,
and since slots are filled from the bottom an address clashes as soon as another is needed.
-/
namespace Sencd
open LabelledPath

variable {Buf : ℕ → Type}

/-- The operations on the session table. -/
inductive TableOp (Buf : ℕ → Type)
  | add (s : Session Buf)
  | remove (sessionId : UInt64)
  | disconnectAll

variable (M : Memory Buf)

/-- The manager after one operation, whether or not it succeeded. -/
def tableStep (m : SessionManager Buf) : TableOp Buf → SessionManager Buf
  | .add s => (sessionManagerAdd m s).elim m Prod.fst
  | .remove sessionId => (sessionManagerRemove M m sessionId).elim m Prod.fst
  | .disconnectAll => (sessionManagerDisconnectAll M m).1

/-- Sequences of operations on the table of an empty manager. -/
abbrev TableRun (m₀ : SessionManager Buf) :
    List (SessionManager Buf × TableOp Buf) → SessionManager Buf → Prop :=
  Path (fun m op m' => tableStep M m op = m')
    { m₀ with sessions := fun _ => none, sessionCount := 0 }

/-- The last octets of the network, of `SERVER_DEFAULT_VNI` and of the broadcast address. -/
def reservedOctets : List UInt8 :=
  let host := serverDefaultVni.getD 3 0
  let mask := defaultNetmask.getD 3 0
  [host &&& mask, host, host ||| ~~~mask]

theorem reservedOctets_eq : reservedOctets = [0, 1, 255] := rfl

/-- Different sessions have different octets, none of them reserved. -/
structure AddressUnique (m : SessionManager Buf) : Prop where
  distinct : ∀ i j s t, m.sessions i = some s → m.sessions j = some t → i ≠ j →
    s.tunnelIpOctet ≠ t.tunnelIpOctet
  unreserved : ∀ i s, m.sessions i = some s → s.tunnelIpOctet ∉ reservedOctets
  lookup : ∀ octet i j s t, m.sessions i = some s → m.sessions j = some t →
    tunSenderAccepts octet s = true → tunSenderAccepts octet t = true → i = j

/-- The number of slots with an octet of their own. -/
abbrev addressSlots : ℕ := 253

/-- Sessions have the octet of their slot. -/
def Placed (m : SessionManager Buf) : Prop :=
  ∀ i s, m.sessions i = some s → s.tunnelIpOctet = UInt8.ofNat (i.val + 2)

/-- Only slots with an octet of their own are in use. -/
def LowSlots (m : SessionManager Buf) : Prop :=
  ∀ i s, m.sessions i = some s → i.val < addressSlots

/-- One of the slots with an octet of its own is free. -/
def LowSlotFree (m : SessionManager Buf) : Prop :=
  ∃ i : Fin maxSessions, i.val < addressSlots ∧ m.sessions i = none

variable {M} {m m₀ : SessionManager Buf}
  {steps : List (SessionManager Buf × TableOp Buf)}

theorem octet_toNat {i : ℕ} (h : i < addressSlots) : (UInt8.ofNat (i + 2)).toNat = i + 2 := by
  simp only [addressSlots] at h
  rw [UInt8.toNat_ofNat', Nat.mod_eq_of_lt (by omega)]

/-- Below `addressSlots` the octet names the slot and none is reserved. -/
theorem Placed.addressUnique (hplaced : Placed m) (hlow : LowSlots m) : AddressUnique m := by
  have hnat : ∀ i s, m.sessions i = some s → s.tunnelIpOctet.toNat = i.val + 2 := by
    intro i s hs
    rw [hplaced i s hs]
    exact octet_toNat (hlow i s hs)
  have hdistinct : ∀ i j s t, m.sessions i = some s → m.sessions j = some t →
      s.tunnelIpOctet = t.tunnelIpOctet → i = j := by
    intro i j s t hs ht he
    have hi := hnat i s hs
    have hj := hnat j t ht
    rw [he] at hi
    exact Fin.ext (by omega)
  refine ⟨fun i j s t hs ht hij he => hij (hdistinct i j s t hs ht he), fun i s hs hr => ?_, ?_⟩
  · have hi := hnat i s hs
    have hbound := hlow i s hs
    simp only [addressSlots] at hbound
    have hreserved : s.tunnelIpOctet.toNat = 0 ∨ s.tunnelIpOctet.toNat = 1 ∨
        s.tunnelIpOctet.toNat = 255 := by
      simp only [reservedOctets_eq, List.mem_cons, List.not_mem_nil, or_false] at hr
      obtain hr | hr | hr := hr
      · simp [hr]
      · simp [hr]
      · simp [hr]
    omega
  · intro octet i j s t hs ht has hat
    simp only [tunSenderAccepts, Bool.and_eq_true, decide_eq_true_eq] at has hat
    exact hdistinct i j s t hs ht (has.2.trans hat.2.symm)

theorem tableStep_add {i : Fin maxSessions} {s : Session Buf}
    (h : SlotTable.free m.sessions = some i) :
    tableStep M m (.add s) = m.stored i (s.placedAt i) := by
  have hadd : sessionManagerAdd m s = some (m.stored i (s.placedAt i), s.placedAt i) :=
    sessionManagerAdd_eq_some.mpr ⟨i, h, rfl, rfl⟩
  simp only [tableStep, hadd, Option.elim_some]

theorem tableStep_add_full {s : Session Buf} (h : SlotTable.free m.sessions = none) :
    tableStep M m (.add s) = m := by
  have hadd : sessionManagerAdd m s = none := sessionManagerAdd_eq_none.mpr h
  simp only [tableStep, hadd, Option.elim_none]

/-- An operation keeps or frees a slot, or puts a new session in the first free one. -/
theorem tableStep_slot (op : TableOp Buf) (i : Fin maxSessions) :
    (tableStep M m op).sessions i = m.sessions i ∨ (tableStep M m op).sessions i = none ∨
      ∃ s, op = .add s ∧ SlotTable.free m.sessions = some i ∧
        (tableStep M m op).sessions i = some (s.placedAt i) := by
  cases op with
  | add s =>
      cases hfree : SlotTable.free m.sessions with
      | none => exact .inl (by rw [tableStep_add_full hfree])
      | some j =>
          rw [tableStep_add hfree, SessionManager.stored_sessions]
          by_cases hij : i = j
          · subst hij
            simp
          · simp only [Function.update_of_ne hij, true_or]
  | remove id =>
      unfold tableStep sessionManagerRemove
      dsimp only
      cases sessionManagerFind m id with
      | none => exact .inl rfl
      | some e =>
          obtain ⟨j, s⟩ := e
          by_cases hij : i = j
          · subst hij
            simp
          · simp only [Option.elim_some, Function.update_of_ne hij, true_or]
  | disconnectAll => exact .inr (.inl rfl)

theorem Placed.step (h : Placed m) (op : TableOp Buf) : Placed (tableStep M m op) := by
  intro i s hs
  obtain hslot | hslot | ⟨t, -, -, hslot⟩ := tableStep_slot (M := M) (m := m) op i
  · exact h i s (hslot.symm.trans hs)
  · simp [hslot] at hs
  · rw [hslot] at hs
    obtain rfl := Option.some.inj hs
    rfl

theorem LowSlots.step (h : LowSlots m) {op : TableOp Buf}
    (hop : ∀ s, op = .add s → LowSlotFree m) : LowSlots (tableStep M m op) := by
  intro i s hs
  obtain hslot | hslot | ⟨t, hadd, hfree, -⟩ := tableStep_slot (M := M) (m := m) op i
  · exact h i s (hslot.symm.trans hs)
  · simp [hslot] at hs
  · obtain ⟨j, hj, hnone⟩ := hop t hadd
    have hle : ¬ j < i := fun hlt => (SlotTable.free_eq_some.mp hfree).2 j hlt hnone
    have hval : i.val ≤ j.val := not_lt.mp hle
    omega

/-- Tables of a run hold each session under the octet of its slot. -/
theorem TableRun.placed (h : TableRun M m₀ steps m) : Placed m := by
  refine h.invariant (I := Placed) (fun i s hs => by simp at hs) ?_
  rintro m op m' hinv rfl
  exact hinv.step op

/-- A session added when the low slots are in use gets the octet of the broadcast address, or
finds it taken. -/
theorem lowSlotFree_of_addressUnique (hplaced : Placed m) (hbefore : AddressUnique m)
    {s : Session Buf} (hafter : AddressUnique (tableStep M m (.add s))) : LowSlotFree m := by
  by_contra hfull
  have hused : ∀ i : Fin maxSessions, i.val < addressSlots → m.sessions i ≠ none :=
    fun i hi hnone => hfull ⟨i, hi, hnone⟩
  let last : Fin maxSessions := ⟨addressSlots, by simp [addressSlots, maxSessions]⟩
  have hreserved : UInt8.ofNat (last.val + 2) ∈ reservedOctets := by
    show UInt8.ofNat (addressSlots + 2) ∈ reservedOctets
    simp [addressSlots, reservedOctets_eq]
  have hlast : m.sessions last = none := by
    cases hs : m.sessions last with
    | none => rfl
    | some t =>
        apply absurd hreserved
        rw [← hplaced last t hs]
        exact hbefore.unreserved last t hs
  have hfree : SlotTable.free m.sessions = some last :=
    SlotTable.free_eq_some.mpr ⟨hlast, fun j hj => hused j hj⟩
  have hstored : (tableStep M m (.add s)).sessions last = some (s.placedAt last) := by
    rw [tableStep_add hfree, SessionManager.stored_sessions, Function.update_self]
  exact hafter.unreserved last _ hstored hreserved

/-- Addresses are unique in every table of a run exactly when every session is added while
one of the low slots is free. -/
theorem addressUnique_iff (h : TableRun M m₀ steps m) :
    (∀ before m', before <+: steps → TableRun M m₀ before m' → AddressUnique m') ↔
      ∀ m' s, (m', .add s) ∈ steps → LowSlotFree m' := by
  constructor
  · intro hunique m' s hm
    obtain ⟨before, after, m'', hsteps, hbefore, hstep, hnext⟩ := h.split hm
    obtain rfl : tableStep M m' (.add s) = m'' := hstep
    have hp : before ++ [(m', .add s)] <+: steps := ⟨after, by simp [hsteps]⟩
    have hpre := hunique before m' ((List.prefix_append _ _).trans hp) hbefore
    exact lowSlotFree_of_addressUnique (M := M) (TableRun.placed hbefore) hpre
      (hunique _ _ hp hnext)
  · intro hfree before m' hpre hrun
    have hlow : LowSlots m' := by
      refine hrun.invariant_of (C := fun m op => ∀ s, op = .add s → LowSlotFree m) ?_ ?_ ?_
      · intro i s hs
        simp at hs
      · rintro m op m' hinv hop rfl
        exact hinv.step hop
      · rintro ⟨m, op⟩ hm s rfl
        exact hfree m s (hpre.subset hm)
    exact (TableRun.placed hrun).addressUnique hlow

section Runs

/-- The sessions a run adds have different ids. -/
def DistinctAdded {Buf : ℕ → Type} (steps : List (SessionManager Buf × TableOp Buf)) : Prop :=
  steps.Pairwise fun p q => ∀ s t, p.2 = .add s → q.2 = .add t → s.sessionId ≠ t.sessionId

/-- The sessions of the first `n` guests, added to the empty table. -/
def additions (n : ℕ) : List (SessionManager MsgBuf × TableOp MsgBuf) :=
  (List.range n).map fun k => (guestManager k, .add (guestSession k))

theorem additions_run {n : ℕ} (h : n ≤ maxSessions) :
    TableRun msgMemory (guestManager 0) (additions n) (guestManager n) := by
  have hempty : { guestManager 0 with sessions := fun _ => none, sessionCount := 0 } =
      guestManager 0 := by
    simp [SessionManager.filled]
  rw [TableRun, hempty]
  refine Path.of_chain (s := guestManager) fun k hk => ?_
  have hlt : k < maxSessions := by omega
  rw [tableStep_add (SessionManager.free_filled hlt)]
  exact SessionManager.stored_filled guestSession hlt

theorem additions_distinct {n : ℕ} (h : n ≤ maxSessions) : DistinctAdded (additions n) := by
  refine List.pairwise_map.mpr (List.Pairwise.imp_of_mem ?_ List.pairwise_lt_range)
  intro j k hj hk hjk s t hs ht he
  obtain rfl : guestSession j = s := TableOp.add.inj hs
  obtain rfl : guestSession k = t := TableOp.add.inj ht
  have hk' : k < n := List.mem_range.mp hk
  have hsame := guestId_injective (by omega) (by omega) (show guestId j = guestId k from he)
  omega

/-- The first 253 sessions have an address each. -/
theorem addressUnique_first : AddressUnique (guestManager addressSlots) := by
  have hrun : TableRun msgMemory (guestManager 0) (additions addressSlots)
      (guestManager addressSlots) := additions_run (by simp [addressSlots, maxSessions])
  refine (addressUnique_iff hrun).mpr ?_ _ _ (List.prefix_refl _) hrun
  intro m' s hm
  obtain ⟨k, hk, he⟩ := List.mem_map.mp hm
  obtain ⟨rfl, -⟩ := Prod.mk.inj he
  have hlow : k < addressSlots := List.mem_range.mp hk
  have hslot : k < maxSessions := hlow.trans (by simp [addressSlots, maxSessions])
  exact ⟨⟨k, hslot⟩, hlow, (SlotTable.free_eq_some.mp (SessionManager.free_filled hslot)).1⟩

/-- The 254th session holds the octet of the broadcast address. -/
theorem not_addressUnique : ¬ ∀ steps m, TableRun msgMemory (guestManager 0) steps m →
    DistinctAdded steps → AddressUnique m := by
  intro hall
  have hunique := hall (additions 254) _ (additions_run (by simp [maxSessions]))
    (additions_distinct (by simp [maxSessions]))
  let last : Fin maxSessions := ⟨253, by simp [maxSessions]⟩
  have hlast : (guestManager 254).sessions last = some ((guestSession 253).placedAt last) :=
    SessionManager.filled_of_lt (by simp [last])
  apply hunique.unreserved last _ hlast
  simp [last, Session.placedAt, reservedOctets_eq]

end Runs

end Sencd
