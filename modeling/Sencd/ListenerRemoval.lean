import Sencd.NonceUniqueness
import Sencd.PointerTable
import Sencd.TableRefinement

/-!
# Removals under the listener

`session_manager_udp_listener` looks a session up under the lock and goes on with the pointer:
it takes the lock again to set the peer, and decodes and writes without it. In between, other
threads add and remove sessions. Slots are pointers here, and a step of the listener is a
critical section or what it does with the session after the last one. What a write through a
dangling pointer does to other memory is left open.
-/
namespace Sencd.Shared
open ByteOrder LabelledPath

variable {Buf : ℕ → Type}

/-- `SESSION_MANAGER_T` without its lock, with the objects its slots point to. -/
structure SharedManager (Buf : ℕ → Type) where
  sessions : PointerTable maxSessions (Session Buf)
  identity : CryptoContext Buf
  tun : Bool
  sessionCount : UInt32
  udpSocket : ℤ

/-- The manager with its sessions by value. -/
def SharedManager.values (m : SharedManager Buf) : SessionManager Buf :=
  ⟨m.sessions.values, m.identity, m.tun, m.sessionCount, m.udpSocket⟩

@[simp] theorem SharedManager.values_sessions (m : SharedManager Buf) :
    m.values.sessions = m.sessions.values := rfl

section Table

/-- The session comes in memory of its own, from `session_manager_connect`. `none` is the return
with code 1. -/
def sessionManagerAdd (m : SharedManager Buf) (s : Session Buf) : Option (SharedManager Buf) :=
  (SlotTable.free m.sessions.slots).map fun i =>
    { m with
      sessions := m.sessions.insert i (s.placedAt i)
      sessionCount := m.sessionCount + 1 }

/-- The scan of `session_manager_get` and `session_manager_remove`. -/
def sessionManagerFind (m : SharedManager Buf) (sessionId : UInt64) :
    Option (Fin maxSessions × ℕ) :=
  SlotTable.find m.sessions.slots fun session => (m.sessions.object session).sessionId = sessionId

/-- The pointer outlives the critical section. -/
def sessionManagerGet (m : SharedManager Buf) (sessionId : UInt64) : Option ℕ :=
  (sessionManagerFind m sessionId).map Prod.snd

/-- `none` is the return with code 1, which leaves the manager as it was. -/
def sessionManagerRemove (M : Memory Buf) (m : SharedManager Buf) (sessionId : UInt64) :
    Option (SharedManager Buf × List (Effect Buf)) :=
  (sessionManagerFind m sessionId).map fun (i, session) =>
    let (s, fds) := sessionDestroy M (m.sessions.object session)
    ({ m with
      sessions := (m.sessions.write session s).vacate i
      sessionCount := m.sessionCount - 1 }, fds.map .close)

end Table

/-- Where the listener stands in its turn, with the pointer it has looked up. -/
inductive ListenerTurn
  | waiting
  | update (session : ℕ) (sender : SockaddrIn) (buffer : Bytes)
  | decode (session : ℕ) (buffer : Bytes)
  | write (session : ℕ) (packet : Bytes)

def ListenerTurn.session : ListenerTurn → Option ℕ
  | waiting => none
  | update session _ _ | decode session _ | write session _ => some session

section Listener

variable (P : Platform Buf)

/-- The listener up to the end of `session_manager_get`. -/
def listenerLookup (m : SharedManager Buf) (sender : SockaddrIn) (datagram : Bytes) :
    ListenerTurn :=
  let buffer := datagram.take tunnelPacketMaxSize
  if m.udpSocket < 0 ∨ buffer = [] then .waiting else
  match tunnelPacketPeekSessionId P buffer with
  | none => .waiting
  | some sessionId =>
    match sessionManagerGet m sessionId with
    | none => .waiting
    | some session => .update session sender buffer

/-- The second critical section. -/
def listenerUpdate (m : SharedManager Buf) (session : ℕ) (sender : SockaddrIn) :
    SharedManager Buf :=
  { m with
    sessions := m.sessions.write session ((m.sessions.object session).withPeer sender) }

/-- From `tunnel_packet_decode` to the test of the TUN pointer. -/
def listenerDecode (m : SharedManager Buf) (session : ℕ) (buffer : Bytes) : ListenerTurn :=
  match tunnelPacketDecode P buffer (m.sessions.object session).crypto with
  | none => .waiting
  | some plaintext =>
    let packet := tunnelPipelineDecompress P plaintext tunnelPacketMaxPlaintext
    if packet = [] then .waiting
    else if m.tun then .write session packet else .waiting

end Listener

section Values

variable (P : Platform Buf)

theorem sessionManagerFind_values (m : SharedManager Buf) (sessionId : UInt64) :
    Sencd.sessionManagerFind m.values sessionId =
      (sessionManagerFind m sessionId).map fun e => (e.1, m.sessions.object e.2) := by
  unfold Sencd.sessionManagerFind sessionManagerFind
  rw [SharedManager.values_sessions, PointerTable.find_values]

/-- By value, the table functions are those of `SessionManager`. -/
theorem sessionManagerAdd_values (m : SharedManager Buf) (s : Session Buf) :
    (Sencd.sessionManagerAdd m.values s).map Prod.fst =
      (sessionManagerAdd m s).map SharedManager.values := by
  have hfree : SlotTable.free m.values.sessions = SlotTable.free m.sessions.slots := by
    rw [SharedManager.values_sessions, PointerTable.free_values]
  cases hi : SlotTable.free m.sessions.slots with
  | none =>
      rw [sessionManagerAdd, hi, sessionManagerAdd_eq_none.mpr (hfree.trans hi)]
      rfl
  | some i =>
      have hadd : Sencd.sessionManagerAdd m.values s =
          some (m.values.stored i (s.placedAt i), s.placedAt i) :=
        sessionManagerAdd_eq_some.mpr ⟨i, hfree.trans hi, rfl, rfl⟩
      rw [hadd, sessionManagerAdd, hi, Option.map_some, Option.map_some, Option.map_some]
      unfold SharedManager.values SessionManager.stored
      rw [PointerTable.values_insert]

theorem sessionManagerRemove_values (M : Memory Buf) (m : SharedManager Buf) (sessionId : UInt64) :
    Sencd.sessionManagerRemove M m.values sessionId =
      (sessionManagerRemove M m sessionId).map fun e => (e.1.values, e.2) := by
  have hvalue := sessionManagerFind_values m sessionId
  cases hfind : sessionManagerFind m sessionId with
  | none =>
      rw [hfind] at hvalue
      rw [sessionManagerRemove_absent hvalue, sessionManagerRemove, hfind]
      rfl
  | some e =>
      obtain ⟨i, session⟩ := e
      have hslot : m.sessions.slots i = some session := (SlotTable.find_eq_some.mp hfind).1
      rw [hfind] at hvalue
      rw [sessionManagerRemove_present hvalue, sessionManagerRemove, hfind, Option.map_some,
        Option.map_some]
      unfold SharedManager.values SessionManager.freed
      rw [PointerTable.values_vacate, PointerTable.values_write hslot, Function.update_idem]

theorem listenerUpdate_values {m : SharedManager Buf} {i : Fin maxSessions} {session : ℕ}
    (h : m.sessions.slots i = some session) (sender : SockaddrIn) :
    (listenerUpdate m session sender).values = { m.values with
      sessions := Function.update m.values.sessions i
        (some ((m.sessions.object session).withPeer sender)) } := by
  simp only [listenerUpdate, SharedManager.values, PointerTable.values_write h]

/-- The lookup finds no session, or a pointer to the one that the datagram is handled under. -/
theorem listenerLookup_values (m : SharedManager Buf) (sender : SockaddrIn) (datagram : Bytes) :
    (listenerLookup P m sender datagram = .waiting ∧ (m.udpSocket < 0 ∨
      udpListenerTarget P m.values (datagram.take tunnelPacketMaxSize) = none)) ∨
    ∃ i session, listenerLookup P m sender datagram =
        .update session sender (datagram.take tunnelPacketMaxSize) ∧
      m.sessions.slots i = some session ∧ 0 ≤ m.udpSocket ∧
      udpListenerTarget P m.values (datagram.take tunnelPacketMaxSize) =
        some (i, m.sessions.object session) := by
  unfold listenerLookup udpListenerTarget
  dsimp only
  by_cases hidle : m.udpSocket < 0 ∨ datagram.take tunnelPacketMaxSize = []
  · rw [if_pos hidle]
    refine .inl ⟨rfl, hidle.imp_right fun hnil => ?_⟩
    rw [hnil]
    simp [tunnelPacketPeekSessionId]
  · rw [if_neg hidle]
    cases hid : tunnelPacketPeekSessionId P (datagram.take tunnelPacketMaxSize) with
    | none => exact .inl ⟨rfl, .inr rfl⟩
    | some sessionId =>
        simp only [sessionManagerGet, sessionManagerFind_values]
        cases hfind : sessionManagerFind m sessionId with
        | none => exact .inl ⟨rfl, .inr rfl⟩
        | some e =>
            refine .inr ⟨e.1, e.2, rfl, (SlotTable.find_eq_some.mp hfind).1, ?_, rfl⟩
            exact not_lt.mp fun hsocket => hidle (.inl hsocket)

/-- The packet to be written that a datagram decodes to with the keys of `ctx`. -/
def decodedPacket (tun : Bool) (ctx : CryptoContext Buf) (buffer : Bytes) : Option Bytes :=
  match tunnelPacketDecode P buffer ctx with
  | none => none
  | some plaintext =>
    if tunnelPipelineDecompress P plaintext tunnelPacketMaxPlaintext = [] then none
    else if tun then some (tunnelPipelineDecompress P plaintext tunnelPacketMaxPlaintext) else none

/-- Decoding ends the turn or goes on to write. -/
theorem listenerDecode_eq (m : SharedManager Buf) (session : ℕ) (buffer : Bytes) :
    listenerDecode P m session buffer =
      (decodedPacket P m.tun (m.sessions.object session).crypto buffer).elim .waiting
        (.write session) := by
  unfold listenerDecode decodedPacket
  cases tunnelPacketDecode P buffer (m.sessions.object session).crypto with
  | none => rfl
  | some plaintext =>
      dsimp only
      split_ifs <;> rfl

/-- Setting the peer changes nothing that decoding looks at. -/
theorem listenerDecode_update (m : SharedManager Buf) (session : ℕ) (sender : SockaddrIn)
    (buffer : Bytes) : listenerDecode P (listenerUpdate m session sender) session buffer =
      (decodedPacket P m.tun (m.sessions.object session).crypto buffer).elim .waiting
        (.write session) := by
  have hcrypto : ((listenerUpdate m session sender).sessions.object session).crypto =
      (m.sessions.object session).crypto := by
    simp [listenerUpdate, Session.withPeer]
  rw [listenerDecode_eq, hcrypto]
  rfl

/-- By value, a datagram handled under a session is decoded after the peer has been set. -/
theorem sessionManagerUdpListener_values {m : SharedManager Buf} {i : Fin maxSessions}
    {session : ℕ} {sender : SockaddrIn} {datagram : Bytes}
    (hslot : m.sessions.slots i = some session) (hsocket : 0 ≤ m.udpSocket)
    (htarget : udpListenerTarget P m.values (datagram.take tunnelPacketMaxSize) =
      some (i, m.sessions.object session)) :
    sessionManagerUdpListener P m.values sender datagram =
      ((listenerUpdate m session sender).values, decodedPacket P m.tun
        (m.sessions.object session).crypto (datagram.take tunnelPacketMaxSize)) := by
  rw [sessionManagerUdpListener_handled P hsocket htarget, listenerUpdate_values hslot]
  rfl

end Values

section Steps

structure SharedState (Buf : ℕ → Type) where
  manager : SharedManager Buf
  listener : ListenerTurn

inductive SharedOp (Buf : ℕ → Type)
  | receive (sender : SockaddrIn) (datagram : Bytes)
  | proceed
  | add (s : Session Buf)
  | remove (sessionId : UInt64)
  | overwrite (session : ℕ) (s : Session Buf)

variable (M : Memory Buf) (P : Platform Buf)

/-- The listener takes its steps in order, other threads theirs at any time. Memory that no slot
points to may be overwritten. -/
inductive SharedStep : SharedState Buf → SharedOp Buf → SharedState Buf → Prop
  | receive (m : SharedManager Buf) (sender : SockaddrIn) (datagram : Bytes) :
      SharedStep ⟨m, .waiting⟩ (.receive sender datagram) ⟨m, listenerLookup P m sender datagram⟩
  | update (m : SharedManager Buf) (session : ℕ) (sender : SockaddrIn) (buffer : Bytes) :
      SharedStep ⟨m, .update session sender buffer⟩ .proceed
        ⟨listenerUpdate m session sender, .decode session buffer⟩
  | decode (m : SharedManager Buf) (session : ℕ) (buffer : Bytes) :
      SharedStep ⟨m, .decode session buffer⟩ .proceed ⟨m, listenerDecode P m session buffer⟩
  | write (m : SharedManager Buf) (session : ℕ) (packet : Bytes) :
      SharedStep ⟨m, .write session packet⟩ .proceed ⟨m, .waiting⟩
  | add (m : SharedManager Buf) (l : ListenerTurn) (s : Session Buf) :
      SharedStep ⟨m, l⟩ (.add s) ⟨(sessionManagerAdd m s).getD m, l⟩
  | remove (m : SharedManager Buf) (l : ListenerTurn) (sessionId : UInt64) :
      SharedStep ⟨m, l⟩ (.remove sessionId)
        ⟨(sessionManagerRemove M m sessionId).elim m Prod.fst, l⟩
  | overwrite {m : SharedManager Buf} {session : ℕ} (l : ListenerTurn) (s : Session Buf) :
      ¬ m.sessions.Holds session → SharedStep ⟨m, l⟩ (.overwrite session s)
        ⟨{ m with sessions := m.sessions.write session s }, l⟩

/-- The runs that find the listener between two turns. -/
abbrev SharedRun (m : SharedManager Buf) :
    List (SharedState Buf × SharedOp Buf) → SharedState Buf → Prop :=
  Path (SharedStep M P) ⟨m, .waiting⟩

end Steps

section Turn

variable {M : Memory Buf} {P : Platform Buf}

/-- The packet the listener's step writes to the TUN. -/
def writtenBy : SharedState Buf × SharedOp Buf → Option Bytes
  | (⟨_, .write _ packet⟩, .proceed) => some packet
  | _ => none

/-- A turn that nothing interrupts is the turn of `sessionManagerUdpListener`. -/
theorem uninterrupted_turn (m : SharedManager Buf) (sender : SockaddrIn) (datagram : Bytes) :
    ∃ steps m', SharedRun M P m steps ⟨m', .waiting⟩ ∧
      (∀ step ∈ steps, step.2 = .receive sender datagram ∨ step.2 = .proceed) ∧
      (sessionManagerUdpListener P m.values sender datagram).1 = m'.values ∧
      (sessionManagerUdpListener P m.values sender datagram).2.toList =
        steps.filterMap writtenBy := by
  have hreceive : SharedRun M P m [(⟨m, .waiting⟩, .receive sender datagram)]
      ⟨m, listenerLookup P m sender datagram⟩ := Path.snoc .nil (.receive m sender datagram)
  obtain ⟨hlookup, hidle⟩ | ⟨i, session, hlookup, hslot, hsocket, htarget⟩ :=
    listenerLookup_values P m sender datagram
  · rw [hlookup] at hreceive
    have hvalue : sessionManagerUdpListener P m.values sender datagram = (m.values, none) :=
      sessionManagerUdpListener_idle P hidle
    rw [hvalue]
    exact ⟨_, m, hreceive, by simp, rfl, rfl⟩
  · rw [hlookup] at hreceive
    have hupdate := hreceive.snoc
      (.update m session sender (datagram.take tunnelPacketMaxSize))
    have hdecode := hupdate.snoc
      (.decode (listenerUpdate m session sender) session (datagram.take tunnelPacketMaxSize))
    rw [listenerDecode_update] at hdecode
    rw [sessionManagerUdpListener_values P hslot hsocket htarget]
    cases hout : decodedPacket P m.tun (m.sessions.object session).crypto
        (datagram.take tunnelPacketMaxSize) with
    | none =>
        rw [hout] at hdecode
        exact ⟨_, _, hdecode, by simp, rfl, rfl⟩
    | some packet =>
        rw [hout] at hdecode
        have hwrite := hdecode.snoc (.write (listenerUpdate m session sender) session packet)
        exact ⟨_, _, hwrite, by simp, rfl, rfl⟩

end Turn

section Statement

/-- The session whose peer address, keys or packet the listener's step is about. -/
def used : SharedState Buf × SharedOp Buf → Option ℕ
  | (u, .proceed) => u.listener.session
  | _ => none

/-- The session that a call of `session_manager_remove` destroys and returns 0 for. -/
def removed : SharedState Buf × SharedOp Buf → Option ℕ
  | (u, .remove sessionId) => sessionManagerGet u.manager sessionId
  | _ => none

/-- The listener uses sessions of the table only, and none once it has been removed. -/
structure RemovalEffective (steps : List (SharedState Buf × SharedOp Buf)) : Prop where
  in_table : ∀ step ∈ steps, ∀ session, used step = some session →
    step.1.manager.sessions.Holds session
  not_after : ∀ before step between later after session,
    steps = before ++ step :: (between ++ later :: after) → removed step = some session →
    used later ≠ some session

/-- No removal hits the session that the listener has looked up and is not done with. -/
def RemovesOthers (steps : List (SharedState Buf × SharedOp Buf)) : Prop :=
  ∀ step ∈ steps, ∀ session, removed step = some session →
    step.1.listener.session ≠ some session

end Statement

section Step

variable {M : Memory Buf} {P : Platform Buf} {m : SharedManager Buf} {u v : SharedState Buf}
  {op : SharedOp Buf} {session : ℕ}

theorem holds_of_sessionManagerGet {sessionId : UInt64}
    (h : sessionManagerGet m sessionId = some session) : m.sessions.Holds session := by
  obtain ⟨⟨i, o⟩, hfind, rfl⟩ := Option.map_eq_some_iff.mp h
  exact PointerTable.holds_of_find hfind

/-- The return is 0 when there is something to remove. -/
theorem sessionManagerRemove_isSome (M : Memory Buf) (m : SharedManager Buf) (sessionId : UInt64) :
    (sessionManagerRemove M m sessionId).isSome = (sessionManagerGet m sessionId).isSome := by
  simp only [sessionManagerRemove, sessionManagerGet, Option.isSome_map]

/-- What a step does to the table. -/
theorem SharedStep.table (h : SharedStep M P u op v) :
    u.manager.sessions.Step (removed (u, op)) v.manager.sessions := by
  cases h with
  | receive m sender datagram => exact .same
  | update m session sender buffer => exact .write _ _
  | decode m session buffer => exact .same
  | write m session packet => exact .same
  | add m l s =>
      cases hfree : SlotTable.free m.sessions.slots with
      | none =>
          simp only [sessionManagerAdd, hfree]
          exact .same
      | some i =>
          simp only [sessionManagerAdd, hfree]
          exact .insert _ (SlotTable.free_eq_some.mp hfree).1
  | remove m l sessionId =>
      cases hfind : sessionManagerFind m sessionId with
      | none =>
          simp only [removed, sessionManagerGet, sessionManagerRemove, hfind]
          exact .same
      | some e =>
          simp only [removed, sessionManagerGet, sessionManagerRemove, hfind]
          exact .vacate _ (SlotTable.find_eq_some.mp hfind).1
  | overwrite l s _ => exact .write _ _

/-- The listener leaves the lookup with a pointer of the table. -/
theorem listenerLookup_holds {sender : SockaddrIn} {datagram : Bytes}
    (h : (listenerLookup P m sender datagram).session = some session) :
    m.sessions.Holds session := by
  unfold listenerLookup at h
  dsimp only at h
  split_ifs at h
  · simp [ListenerTurn.session] at h
  · cases hid : tunnelPacketPeekSessionId P (datagram.take tunnelPacketMaxSize) with
    | none => simp [hid, ListenerTurn.session] at h
    | some sessionId =>
        cases hget : sessionManagerGet m sessionId with
        | none => simp [hid, hget, ListenerTurn.session] at h
        | some o =>
            obtain rfl : o = session := by simpa [hid, hget, ListenerTurn.session] using h
            exact holds_of_sessionManagerGet hget

/-- After decoding it has the pointer it had, or none. -/
theorem listenerDecode_session {o : ℕ} {buffer : Bytes}
    (h : (listenerDecode P m session buffer).session = some o) : session = o := by
  unfold listenerDecode at h
  cases hplain : tunnelPacketDecode P buffer (m.sessions.object session).crypto with
  | none => simp [hplain, ListenerTurn.session] at h
  | some plaintext =>
      simp only [hplain] at h
      split_ifs at h
      · simp [ListenerTurn.session] at h
      · exact Option.some.inj h
      · simp [ListenerTurn.session] at h

/-- The pointer of the listener stays in the table as long as removals leave it alone. -/
theorem SharedStep.listener_holds (h : SharedStep M P u op v)
    (hi : ∀ o, u.listener.session = some o → u.manager.sessions.Holds o)
    (hothers : ∀ o, removed (u, op) = some o → u.listener.session ≠ some o) :
    ∀ o, v.listener.session = some o → v.manager.sessions.Holds o := by
  intro o ho
  have hstay : u.listener.session = some o → v.manager.sessions.Holds o := fun hu =>
    h.table.holds (hi o hu) fun hout => hothers o hout hu
  cases h with
  | receive m sender datagram =>
      dsimp only at ho
      exact listenerLookup_holds ho
  | update m session sender buffer => exact hstay ho
  | decode m session buffer => exact hstay (congrArg some (listenerDecode_session ho))
  | write m session packet => simp [ListenerTurn.session] at ho
  | add m l s => exact hstay ho
  | remove m l sessionId => exact hstay ho
  | overwrite l s _ => exact hstay ho

/-- The listener does not drop its pointer unused. -/
theorem SharedStep.keeps_session (h : SharedStep M P u op v)
    (hu : u.listener.session = some session) (hunused : used (u, op) ≠ some session) :
    v.listener.session = some session := by
  cases h with
  | receive m sender datagram => simp [ListenerTurn.session] at hu
  | update m o sender buffer => exact absurd hu hunused
  | decode m o buffer => exact absurd hu hunused
  | write m o packet => exact absurd hu hunused
  | add m l s => exact hu
  | remove m l sessionId => exact hu
  | overwrite l s _ => exact hu

theorem used_eq_some (h : used (u, op) = some session) : u.listener.session = some session := by
  cases op with
  | proceed => exact h
  | _ => simp [used] at h

theorem SharedStep.removes (h : SharedStep M P u op v) (hout : removed (u, op) = some session) :
    v.manager.sessions.Gone session ∧ v.listener = u.listener := by
  refine ⟨(hout ▸ h.table).gone_out, ?_⟩
  cases h with
  | remove m l sessionId => rfl
  | _ => simp [removed] at hout

end Step

section Runs

variable {M : Memory Buf} {P : Platform Buf} {m : SharedManager Buf} {u t : SharedState Buf}
  {steps : List (SharedState Buf × SharedOp Buf)} {session : ℕ}

/-- A removed session is out of the table for good. -/
theorem gone_of_path (h : Path (SharedStep M P) u steps t) (hu : u.manager.sessions.Gone session) :
    t.manager.sessions.Gone session :=
  h.invariant (I := fun v => v.manager.sessions.Gone session) hu
    fun _ _ _ hv hstep => hstep.table.gone hv

/-- Between two turns every pointer that was held has been used. -/
theorem exists_used (h : Path (SharedStep M P) u steps t) (hu : u.listener.session = some session)
    (ht : t.listener = .waiting) : ∃ step ∈ steps, used step = some session := by
  by_contra hnone
  push Not at hnone
  have hkept : t.listener.session = some session :=
    h.invariant_of (C := fun v op => used (v, op) ≠ some session)
      (I := fun v => v.listener.session = some session) hu
      (fun _ _ _ hv hunused hstep => hstep.keeps_session hv hunused) hnone
  simp [ht, ListenerTurn.session] at hkept

/-- Removal takes effect on the listener as long as it never hits the session that the listener
has looked up; where it does, the listener ends its turn by using a removed session. -/
theorem removal_effective (hrun : SharedRun M P m steps t) :
    (RemovesOthers steps → RemovalEffective steps) ∧
      (t.listener = .waiting → RemovalEffective steps → RemovesOthers steps) := by
  have hnever : ∀ before step between later after session,
      steps = before ++ step :: (between ++ later :: after) → removed step = some session →
      ¬ later.1.manager.sessions.Holds session := by
    rintro before ⟨u, op⟩ between ⟨v, op'⟩ after session rfl hout
    obtain ⟨-, u', hstep, hafter⟩ := Path.middle_iff.mp hrun
    obtain ⟨hbetween, -⟩ := Path.middle_iff.mp hafter
    exact (gone_of_path hbetween (hstep.removes hout).1).2
  constructor
  · intro hothers
    have htable : ∀ step ∈ steps, ∀ session, used step = some session →
        step.1.manager.sessions.Holds session := by
      rintro ⟨u, op⟩ hmem session hused
      obtain ⟨before, after, -, rfl, hbefore, -⟩ := hrun.split hmem
      refine hbefore.invariant_of (C := fun v op => ∀ o, removed (v, op) = some o →
          v.listener.session ≠ some o)
        (I := fun v => ∀ o, v.listener.session = some o → v.manager.sessions.Holds o)
        (by simp [ListenerTurn.session]) (fun _ _ _ hv hC hstep => hstep.listener_holds hv hC)
        (fun p hp => hothers p (List.mem_append_left _ hp)) session (used_eq_some hused)
    refine ⟨htable, fun before step between later after session hsteps hout hused => ?_⟩
    exact hnever before step between later after session hsteps hout
      (htable later (by simp [hsteps]) session hused)
  · rintro hwaiting heffective ⟨u, op⟩ hmem session hout hheld
    obtain ⟨before, after, rfl⟩ := List.append_of_mem hmem
    obtain ⟨-, u', hstep, hafter⟩ := Path.middle_iff.mp hrun
    obtain ⟨hgone, hlistener⟩ := hstep.removes hout
    rw [← hlistener] at hheld
    obtain ⟨later, hlater, hused⟩ := exists_used hafter hheld hwaiting
    obtain ⟨between, rest, rfl⟩ := List.append_of_mem hlater
    exact heffective.not_after before (u, op) between later rest session rfl hout hused

section Traffic

/-- The started server, and the same with its first guest in the table. -/
def startedShared : SharedManager MsgBuf :=
  ⟨.empty maxSessions (zeroSession msgMemory), identityOf 0, true, 0, 5⟩

def guestShared : SharedManager MsgBuf :=
  { startedShared with
    sessions := startedShared.sessions.insert ⟨0, by decide⟩ ((guestSession 0).placedAt 0)
    sessionCount := startedShared.sessionCount + 1 }

theorem sessionManagerAdd_guest :
    sessionManagerAdd startedShared (guestSession 0) = some guestShared := by
  have hfree : SlotTable.free startedShared.sessions.slots = some ⟨0, by decide⟩ :=
    SlotTable.free_eq_some.mpr ⟨rfl, fun j hj => absurd hj (Fin.not_lt_zero j)⟩
  rw [sessionManagerAdd, hfree]
  rfl

theorem sessionManagerGet_guest : sessionManagerGet guestShared (guestId 0) = some 0 := by
  have hfind : sessionManagerFind guestShared (guestId 0) = some (⟨0, by decide⟩, 0) :=
    SlotTable.find_eq_some.mpr
      ⟨rfl, decide_eq_true rfl, fun j hj => absurd hj (Fin.not_lt_zero j)⟩
  rw [sessionManagerGet, hfind]
  rfl

/-- The guest's datagram is looked up under its session. -/
theorem listenerLookup_guest : listenerLookup guestPlatform guestShared ⟨9, 9⟩ firstSent =
    .update 0 ⟨9, 9⟩ firstSent := by
  have htake : firstSent.take tunnelPacketMaxSize = firstSent := rfl
  have hactive : ¬ (guestShared.udpSocket < 0 ∨ firstSent = []) := by
    rintro (h | h)
    · exact absurd h (by decide)
    · cases h
  have hid : tunnelPacketPeekSessionId guestPlatform firstSent = some (guestId 0) :=
    tunnelPacketPeekSessionId_append guestPlatform (guestId 0) (by simp)
  unfold listenerLookup
  dsimp only
  rw [htake, if_neg hactive, hid]
  dsimp only
  rw [sessionManagerGet_guest]

/-- The guest connects and its datagram is looked up. -/
def lookedUp : List (SharedState MsgBuf × SharedOp MsgBuf) :=
  [(⟨startedShared, .waiting⟩, .add (guestSession 0)),
    (⟨guestShared, .waiting⟩, .receive ⟨9, 9⟩ firstSent)]

theorem lookedUp_run : SharedRun msgMemory guestPlatform startedShared lookedUp
    ⟨guestShared, .update 0 ⟨9, 9⟩ firstSent⟩ := by
  have hadd : SharedRun msgMemory guestPlatform startedShared _ _ :=
    Path.snoc .nil (.add startedShared .waiting (guestSession 0))
  rw [sessionManagerAdd_guest] at hadd
  have hreceive := hadd.snoc (.receive guestShared ⟨9, 9⟩ firstSent)
  rw [listenerLookup_guest] at hreceive
  exact hreceive

/-- The guest's packet is written, and the guest is removed afterwards. -/
def removedLater : List (SharedState MsgBuf × SharedOp MsgBuf) :=
  lookedUp ++ [(⟨guestShared, .update 0 ⟨9, 9⟩ firstSent⟩, .proceed),
    (⟨listenerUpdate guestShared 0 ⟨9, 9⟩, .decode 0 firstSent⟩, .proceed),
    (⟨listenerUpdate guestShared 0 ⟨9, 9⟩, .write 0 firstRead⟩, .proceed),
    (⟨listenerUpdate guestShared 0 ⟨9, 9⟩, .waiting⟩, .remove (guestId 0))]

def removedLaterEnd : SharedState MsgBuf :=
  ⟨(sessionManagerRemove msgMemory (listenerUpdate guestShared 0 ⟨9, 9⟩) (guestId 0)).elim
    (listenerUpdate guestShared 0 ⟨9, 9⟩) Prod.fst, .waiting⟩

theorem removedLater_run :
    SharedRun msgMemory guestPlatform startedShared removedLater removedLaterEnd := by
  have hdecode : listenerDecode guestPlatform (listenerUpdate guestShared 0 ⟨9, 9⟩) 0 firstSent =
      .write 0 firstRead := by
    rw [listenerDecode_eq]
    rfl
  have hupdate := lookedUp_run.snoc (.update guestShared 0 ⟨9, 9⟩ firstSent)
  have hproceed := hupdate.snoc (.decode (listenerUpdate guestShared 0 ⟨9, 9⟩) 0 firstSent)
  rw [hdecode] at hproceed
  have hwrite := hproceed.snoc (.write (listenerUpdate guestShared 0 ⟨9, 9⟩) 0 firstRead)
  exact hwrite.snoc (.remove (listenerUpdate guestShared 0 ⟨9, 9⟩) .waiting (guestId 0))

theorem removedLater_others : RemovesOthers removedLater := by
  intro step hmem session hout hheld
  simp only [removedLater, lookedUp, List.cons_append, List.nil_append, List.mem_cons,
    List.not_mem_nil, or_false] at hmem
  obtain rfl | rfl | rfl | rfl | rfl | rfl := hmem
  · simp [removed] at hout
  · simp [removed] at hout
  · simp [removed] at hout
  · simp [removed] at hout
  · simp [removed] at hout
  · simp [ListenerTurn.session] at hheld

theorem removal_effective_later : RemovesOthers removedLater ∧ RemovalEffective removedLater :=
  ⟨removedLater_others, (removal_effective removedLater_run).1 removedLater_others⟩

/-- The guest is removed between the lookup and the update. -/
def removedBetween : List (SharedState MsgBuf × SharedOp MsgBuf) :=
  lookedUp ++ [(⟨guestShared, .update 0 ⟨9, 9⟩ firstSent⟩, .remove (guestId 0)),
    (⟨(sessionManagerRemove msgMemory guestShared (guestId 0)).elim guestShared Prod.fst,
      .update 0 ⟨9, 9⟩ firstSent⟩, .proceed)]

/-- After the removal has returned 0 the listener sets the peer of the removed session. -/
theorem removed_session_updated :
    (∃ t, SharedRun msgMemory guestPlatform startedShared removedBetween t) ∧
      (sessionManagerRemove msgMemory guestShared (guestId 0)).isSome ∧
      ¬ RemovalEffective removedBetween := by
  refine ⟨?_, ?_, fun heffective => ?_⟩
  · have hremove := lookedUp_run.snoc
      (.remove guestShared (.update 0 ⟨9, 9⟩ firstSent) (guestId 0))
    exact ⟨_, hremove.snoc (.update _ 0 ⟨9, 9⟩ firstSent)⟩
  · rw [sessionManagerRemove_isSome, sessionManagerGet_guest]
    rfl
  · exact heffective.not_after lookedUp _ [] _ [] 0 rfl sessionManagerGet_guest rfl

end Traffic

end Runs

end Sencd.Shared
