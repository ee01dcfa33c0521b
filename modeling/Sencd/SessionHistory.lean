import Sencd.LabelledPath
import Sencd.ReplyRouting
import Sencd.TunnelNetwork

/-!
# The history of a session

Many sessions share one manager, one UDP socket and one TUN. A session is what its own
handshake established, changed by the datagrams handled under its slot and the packets encoded
for it; the traffic of the other sessions, their connections and their removals leave no trace
in it.
-/
namespace Sencd
open ByteOrder CallProgram EntryHistory LabelledPath

variable {Buf : ℕ → Type}

/-- An `AUTH_SUCCESS` frame was sent in full. -/
def isSuccess : Event (@Call.Answer Buf) → Bool
  | ⟨.packetSend _ packet, sent⟩ => sent && decide (packet.type = .authSuccess)
  | _ => false

def successSent (calls : Calls Buf) : Bool := calls.any isSuccess

/-- The step is a connection whose client was told of its success. -/
def tellsSuccess : SessionManager Buf × ServerOp Buf → Bool
  | (_, .connect _ _ _ calls) => successSent calls
  | _ => false

section Success

variable (M : Memory Buf) {P : Platform Buf} {m m' : SessionManager Buf} {h : Calls Buf}
  {identity : CryptoContext Buf} {s : Session Buf}

theorem successSent_append (h h' : Calls Buf) :
    successSent (h ++ h') = (successSent h || successSent h') := List.any_append

theorem NotAnnounced.not_sent (hq : NotAnnounced h) : successSent h = false := by
  refine List.any_eq_false.mpr ?_
  rintro ⟨call, answer⟩ hm
  cases call with
  | packetSend socket packet =>
      have htype := hq socket packet answer hm
      simp [isSuccess, htype]
  | _ => simp [isSuccess]

theorem sessionAnnounce_sent (hq : NotAnnounced h) :
    Holds (fun _ _ => True) (fun h' r => successSent h' = true ↔ r.1 = 0) h
      (sessionAnnounce M s) := by
  refine holds_perform trivial fun n => ?_
  have hn : NotAnnounced (h ++ [⟨.randombytesBuf sessionNonceSize, n⟩]) := hq.snoc (by simp)
  refine holds_packetConstruct trivial fun ok => ?_
  have halloc := (hn.snoc (c := .malloc) (r := ok) (by simp)).not_sent
  refine holds_perform trivial fun sent => holds_ite (fun hsent => ?_) fun hsent => ?_
  · change successSent _ = true ↔ _
    rw [successSent_append, halloc]
    simp [successSent, isSuccess, hsent]
  · change successSent _ = true ↔ _
    rw [successSent_append, halloc]
    simp [successSent, isSuccess, hsent]

/-- A handshake succeeds exactly when it sends `AUTH_SUCCESS`. -/
theorem sessionServerConnect_sent (hs : ServerReady identity s) (hq : NotAnnounced h)
    (hst : s.state ≠ .established) :
    Holds (fun _ _ => True) (fun h' r => successSent h' = true ↔ r.1 = 0) h
      (sessionServerConnect M s) := by
  have hfail : ∀ {h' : Calls Buf} (s' : Session Buf), NotAnnounced h' →
      (successSent h' = true ↔ ((1, s') : ℕ × Session Buf).1 = 0) := by
    intro h' s' hq'
    simp [hq'.not_sent]
  apply ((sessionServerHello_holds M hs hq hst).weaken fun _ _ _ => trivial).bind
  rintro h₁ ⟨code, s₁⟩ ⟨hq₁, hst₁, hs₁⟩
  refine holds_ite (fun _ => hfail s₁ hq₁) fun hcode => ?_
  have hs₁ := hs₁ (not_not.mp hcode)
  apply ((sessionAuthenticateServer_holds M hs₁ hq₁ hst₁).weaken fun _ _ _ => trivial).bind
  rintro h₂ ⟨code, s₂⟩ ⟨hq₂, hst₂, hs₂⟩
  refine holds_ite (fun _ => hfail s₂ hq₂) fun hcode => ?_
  obtain ⟨hs₂, hc₂⟩ := hs₂ (not_not.mp hcode)
  apply ((sessionVerifyClient_holds M hs₂ hc₂ hq₂ hst₂).weaken fun _ _ _ => trivial).bind
  rintro h₃ ⟨code, s₃⟩ ⟨hq₃, -, -⟩
  exact holds_ite (fun _ => hfail s₃ hq₃) fun _ => sessionAnnounce_sent M hq₃

/-- What a connection does to the table: it takes the first free slot if its client was told of
its success, and changes nothing otherwise. -/
def Registers (m : SessionManager Buf) (sent : Bool) (m' : SessionManager Buf) : Prop :=
  (m' = m ∧ (sent = true → SlotTable.free m.sessions = none)) ∨
    (sent = true ∧ ∃ i s, SlotTable.free m.sessions = some i ∧ m' = m.stored i s)

/-- Closing descriptors tells nobody anything. -/
theorem closes_not_sent (fds : List ℤ) :
    successSent (fds.map fun fd => (⟨.close fd, ()⟩ : Event (@Call.Answer Buf))) = false := by
  refine List.any_eq_false.mpr fun e he => ?_
  obtain ⟨fd, -, rfl⟩ := List.mem_map.mp he
  simp [isSuccess]

variable {M}

theorem ServerStep.registers {role : SessionRole} {socket : ℤ} {ip : List Char} {calls : Calls Buf}
    (h : ServerStep M P m (.connect role socket ip calls) m') :
    Registers m (successSent calls) m' := by
  have hready : ∀ id, ServerReady m.identity (sessionCreated M role socket ip m.identity id) :=
    fun id => ⟨rfl, rfl, rfl⟩
  have hsent : ∀ {id : UInt64} {handshake : Calls Buf} {code : ℕ} {s : Session Buf},
      Exec (sessionServerConnect M (sessionCreated M role socket ip m.identity id)) handshake
        (.ret (code, s)) → (successSent handshake = true ↔ code = 0) := by
    intro id handshake code s hx
    have hnone : NotAnnounced ([] : Calls Buf) := by simp [NotAnnounced]
    have hpost := (sessionServerConnect_sent M (hready id) hnone (by simp [sessionCreated])).post hx
    simpa using hpost
  have hopening : ∀ (id : UInt64) (rest : Calls Buf),
      successSent (⟨.malloc, true⟩ :: ⟨.generateSessionId, id⟩ :: rest) = successSent rest :=
    fun _ _ => rfl
  cases h with
  | connect hx =>
      cases sessionManagerConnect_calls hx with
      | unallocated => exact .inl ⟨rfl, fun htold => absurd htold Bool.false_ne_true⟩
      | refused hserver hrefused =>
          refine .inl ⟨rfl, fun htold => ?_⟩
          rw [hopening, successSent_append, closes_not_sent, Bool.or_false] at htold
          exact hrefused.resolve_left (not_not.mpr ((hsent hserver).mp htold))
      | stored hserver hadd =>
          obtain ⟨i, hfree, -, hstored⟩ := sessionManagerAdd_eq_some.mp hadd
          refine .inr ⟨?_, i, _, hfree, hstored⟩
          rw [hopening]
          exact (hsent hserver).mpr rfl

end Success

/-- What happens to a session in the table: a datagram from this sender is handled under it, or
a packet is encoded for it. -/
inductive SlotEvent
  | heard (sender : SockaddrIn)
  | sent

def SlotEvent.apply : SlotEvent → Session Buf → Session Buf
  | .heard sender, s => s.withPeer sender
  | .sent, s => s.counted

def SlotEvent.isSent : SlotEvent → Bool
  | .heard _ => false
  | .sent => true

def SlotEvent.sender : SlotEvent → Option SockaddrIn
  | .heard sender => some sender
  | .sent => none

section Step

variable (P : Platform Buf)

/-- The event a step holds for the session in slot `i`. -/
def slotEvent (i : Fin maxSessions) : SessionManager Buf × ServerOp Buf → Option SlotEvent
  | (m, .udpListener sender datagram) =>
    if m.udpSocket < 0 then none else
    (udpListenerTarget P m (datagram.take tunnelPacketMaxSize)).bind fun target =>
      if target.1 = i then some (.heard sender) else none
  | (m, .tunSender packet) => (tunSenderTarget P m packet).bind fun target =>
      if target.2.1 = i then some .sent else none
  | _ => none

variable {P} {m m' : SessionManager Buf} {i : Fin maxSessions}

theorem slotEvent_udpListener {sender : SockaddrIn} {datagram : Bytes} {j : Fin maxSessions}
    {s : Session Buf} (hsocket : 0 ≤ m.udpSocket)
    (h : udpListenerTarget P m (datagram.take tunnelPacketMaxSize) = some (j, s)) :
    slotEvent P i (m, .udpListener sender datagram) =
      if j = i then some (.heard sender) else none := by
  have hopen : ¬ m.udpSocket < 0 := by omega
  simp only [slotEvent, if_neg hopen, h, Option.bind_some]

theorem slotEvent_tunSender {packet compressed : Bytes} {j : Fin maxSessions} {s : Session Buf}
    (h : tunSenderTarget P m packet = some (compressed, j, s)) :
    slotEvent P i (m, .tunSender packet) = if j = i then some .sent else none := by
  simp only [slotEvent, h, Option.bind_some]

/-- A turn of the listener applies to each slot the event it holds for it. -/
theorem sessionManagerUdpListener_slot (sender : SockaddrIn) (datagram : Bytes) :
    (sessionManagerUdpListener P m sender datagram).1.sessions i = (m.sessions i).map fun s =>
      replay SlotEvent.apply s (slotEvent P i (m, .udpListener sender datagram)).toList := by
  by_cases hsocket : m.udpSocket < 0
  · rw [sessionManagerUdpListener_idle P (.inl hsocket)]
    simp [slotEvent, hsocket]
  cases htarget : udpListenerTarget P m (datagram.take tunnelPacketMaxSize) with
  | none =>
      rw [sessionManagerUdpListener_idle P (.inr htarget)]
      simp [slotEvent, htarget]
  | some target =>
      obtain ⟨j, s⟩ := target
      have hopen : 0 ≤ m.udpSocket := by omega
      rw [sessionManagerUdpListener_handled P hopen htarget, slotEvent_udpListener hopen htarget]
      by_cases hij : j = i
      · subst hij
        simp [mem_of_udpListenerTarget P htarget, SlotEvent.apply]
      · simp [hij, Function.update_of_ne (Ne.symm hij)]

/-- So does a turn of the TUN sender. -/
theorem sessionManagerTunSender_slot (packet : Bytes) :
    (sessionManagerTunSender P m packet).1.sessions i = (m.sessions i).map fun s =>
      replay SlotEvent.apply s (slotEvent P i (m, .tunSender packet)).toList := by
  cases htarget : tunSenderTarget P m packet with
  | none =>
      rw [sessionManagerTunSender_idle P htarget]
      simp [slotEvent, htarget]
  | some target =>
      obtain ⟨compressed, j, s⟩ := target
      rw [sessionManagerTunSender_target P htarget, slotEvent_tunSender htarget]
      by_cases hij : j = i
      · subst hij
        simp [mem_of_tunSenderTarget P htarget, SlotEvent.apply]
      · simp [hij, Function.update_of_ne (Ne.symm hij)]

end Step

section Run

variable (M : Memory Buf) (P : Platform Buf)

/-- The step connects a client, which is told of its success; `s₀` is what its handshake has
made of the session created for it, and is stored in the slot `i`. -/
structure Connected (identity : CryptoContext Buf) (i : Fin maxSessions) (m : SessionManager Buf)
    (op : ServerOp Buf) (s₀ : Session Buf) : Prop where
  free : SlotTable.free m.sessions = some i
  stored : ServerStep M P m op (m.stored i (s₀.placedAt i))
  succeeded : tellsSuccess (m, op) = true
  established : ∃ role socket ip calls, op = .connect role socket ip calls ∧
    Establishes M identity role socket ip calls s₀ ∧ ServerEstablished M identity calls s₀
  unused : s₀.crypto.txNonce = 0
  unheard : s₀.udp.peerKnown = false

variable {M P} {m m' : SessionManager Buf} {op : ServerOp Buf} {i : Fin maxSessions}

/-- The fields of the manager beside the table. -/
theorem ServerStep.frame (h : ServerStep M P m op m') : m'.identity = m.identity ∧
    (op ≠ .closeUdp → m'.udpSocket = m.udpSocket) ∧ (op ≠ .disconnectAll → m'.tun = m.tun) := by
  cases h with
  | connect hx =>
      obtain ⟨rfl, -⟩ | ⟨s, s', -, -, hadd⟩ := (ServerStep.connect (P := P) hx).connectResult
      · exact ⟨rfl, fun _ => rfl, fun _ => rfl⟩
      · obtain ⟨j, -, -, rfl⟩ := sessionManagerAdd_eq_some.mp hadd
        exact ⟨rfl, fun _ => rfl, fun _ => rfl⟩
  | remove id =>
      unfold sessionManagerRemove
      cases sessionManagerFind m id with
      | none => exact ⟨rfl, fun _ => rfl, fun _ => rfl⟩
      | some e => exact ⟨rfl, fun _ => rfl, fun _ => rfl⟩
  | udpListener sender datagram =>
      obtain he | ⟨j, s, -, -, he⟩ := sessionManagerUdpListener_state P (m := m) sender datagram
      · simp [he]
      · simp [he]
  | tunSender packet =>
      obtain he | ⟨compressed, j, s, -, he⟩ := sessionManagerTunSender_state P (m := m) packet
      · simp [he]
      · simp [he]
  | closeUdp => exact ⟨rfl, fun h => absurd rfl h, fun _ => rfl⟩
  | disconnectAll => exact ⟨rfl, fun _ => rfl, fun h => absurd rfl h⟩

theorem ServerRun.identity {identity : CryptoContext Buf} {udpSocket : ℤ}
    {steps : List (SessionManager Buf × ServerOp Buf)}
    (h : ServerRun M P identity udpSocket steps m) : m.identity = identity := by
  refine h.invariant (I := fun m => m.identity = identity) ?_ ?_
  · exact startedManager_identity M identity udpSocket
  · intro m op m' hm hstep
    rw [hstep.frame.1, hm]

/-- A connection that changes slot `i` puts the session there that its handshake established. -/
theorem ServerStep.connect_slot {role : SessionRole} {socket : ℤ} {ip : List Char}
    {calls : Calls Buf} (h : ServerStep M P m (.connect role socket ip calls) m') :
    m'.sessions i = m.sessions i ∨ ∃ s₀, m'.sessions i = some (s₀.placedAt i) ∧
      Connected M P m.identity i m (.connect role socket ip calls) s₀ := by
  obtain hsame | ⟨j, s₀, hfree, rfl, hs₀⟩ := h.connect_establishes
  · exact .inl (by rw [hsame])
  by_cases hij : i = j
  · subst hij
    refine .inr ⟨s₀, by simp, hfree, h, ?_, ⟨role, socket, ip, calls, rfl, hs₀, hs₀.established⟩,
      hs₀.counter, ?_⟩
    · obtain ⟨hsame, -⟩ | ⟨hsent, -⟩ := h.registers
      · have hnone := (SlotTable.free_eq_some.mp hfree).1
        rw [← hsame] at hnone
        simp at hnone
      · exact hsent
    · rw [hs₀.established.udp]
      rfl
  · exact .inl (by simp [Function.update_of_ne hij])

/-- What a step does to the session in slot `i`. -/
theorem slotTracks : Tracks (ServerStep M P) (fun m => m.sessions i) (slotEvent P i)
    SlotEvent.apply
    (fun m op s => ∃ s₀, s = s₀.placedAt i ∧ Connected M P m.identity i m op s₀) := by
  intro m op m' s hstep hs
  dsimp only at hs
  cases hstep with
  | connect hx =>
      obtain hsame | ⟨s₀, hslot, hs₀⟩ := (ServerStep.connect (P := P) hx).connect_slot (i := i)
      · exact .inr ⟨s, hsame.symm.trans hs, rfl⟩
      · exact .inl ⟨s₀, Option.some.inj (hs.symm.trans hslot), hs₀⟩
  | remove id =>
      unfold sessionManagerRemove at hs
      cases hfind : sessionManagerFind m id with
      | none =>
          rw [hfind] at hs
          exact .inr ⟨s, hs, rfl⟩
      | some e =>
          obtain ⟨j, t⟩ := e
          rw [hfind] at hs
          by_cases hij : i = j
          · simp [hij] at hs
          · simp only [Option.elim_some, Function.update_of_ne hij] at hs
            exact .inr ⟨s, hs, rfl⟩
  | udpListener sender datagram =>
      rw [sessionManagerUdpListener_slot] at hs
      obtain ⟨u, hu, rfl⟩ := Option.map_eq_some_iff.mp hs
      exact .inr ⟨u, hu, rfl⟩
  | tunSender packet =>
      rw [sessionManagerTunSender_slot] at hs
      obtain ⟨u, hu, rfl⟩ := Option.map_eq_some_iff.mp hs
      exact .inr ⟨u, hu, rfl⟩
  | closeUdp => exact .inr ⟨s, hs, rfl⟩
  | disconnectAll => simp [sessionManagerDisconnectAll] at hs

/-- The steps are those before the session of slot `i` was established as `s₀`, the connection
that established it, and the steps `after`, throughout which the slot has been occupied. -/
structure ConnectedBefore (M : Memory Buf) (P : Platform Buf) (identity : CryptoContext Buf)
    (i : Fin maxSessions) (steps after : List (SessionManager Buf × ServerOp Buf))
    (s₀ : Session Buf) : Prop where
  connected : ∃ before m₀ op, steps = before ++ (m₀, op) :: after ∧
    Connected M P identity i m₀ op s₀
  occupied : ∀ p ∈ after, p.1.sessions i ≠ none

theorem iterate_add_one (n : ℕ) : (fun c : UInt64 => c + 1)^[n] 0 = UInt64.ofNat n := by
  induction n with
  | zero => rfl
  | succ n ih =>
      rw [Function.iterate_succ_apply', ih]
      simp

/-- What can be read off the table: the counter of a session is the number of packets encoded
for it, modulo 2^64, its peer is where the last datagram handled under it came from, and the
rest is as its handshake left it. -/
structure Tally (s₀ s : Session Buf) (events : List SlotEvent) : Prop where
  counter : s.crypto.txNonce = UInt64.ofNat (events.countP SlotEvent.isSent)
  peer : s.udp.peerAddr = ((events.filterMap SlotEvent.sender).getLast?).getD s₀.udp.peerAddr
  known : s.udp.peerKnown = true ↔ events.filterMap SlotEvent.sender ≠ []
  rest : { s with
    udp := { s.udp with peerAddr := s₀.udp.peerAddr, peerKnown := s₀.udp.peerKnown }
    crypto := { s.crypto with txNonce := s₀.crypto.txNonce }
    tunnelIpOctet := s₀.tunnelIpOctet } = s₀

theorem replay_tally {s₀ : Session Buf} (hcounter : s₀.crypto.txNonce = 0)
    (hknown : s₀.udp.peerKnown = false) (i : Fin maxSessions) (events : List SlotEvent) :
    Tally s₀ (replay SlotEvent.apply (s₀.placedAt i) events) events where
  counter := by
    have hcount : (replay SlotEvent.apply (s₀.placedAt i) events).crypto.txNonce =
        (fun c => c + 1)^[events.countP SlotEvent.isSent] s₀.crypto.txNonce := by
      refine replay_count (f := fun s : Session Buf => s.crypto.txNonce) ?_ ?_ _ events
      · rintro (sender | _) s h
        · contradiction
        · rfl
      · rintro (sender | _) s h
        · rfl
        · contradiction
    rw [hcount, hcounter, iterate_add_one]
  peer := replay_last (f := fun s : Session Buf => s.udp.peerAddr)
    (by rintro (sender | _) s <;> rfl) (s₀.placedAt i) events
  known := by
    have hlast : (replay SlotEvent.apply (s₀.placedAt i) events).udp.peerKnown =
        ((events.filterMap fun e => e.sender.map fun _ => true).getLast?).getD s₀.udp.peerKnown :=
      replay_last (f := fun s : Session Buf => s.udp.peerKnown)
        (by rintro (sender | _) s <;> rfl) (s₀.placedAt i) events
    have hsenders : events.filterMap (fun e => e.sender.map fun _ => true) =
        (events.filterMap SlotEvent.sender).map fun _ => true := (List.map_filterMap ..).symm
    rw [hlast, hsenders, hknown, List.getLast?_map]
    cases events.filterMap SlotEvent.sender using List.reverseRecOn with
    | nil => simp
    | append_singleton => simp
  rest := replay_frame (f := fun s : Session Buf => { s with
      udp := { s.udp with peerAddr := s₀.udp.peerAddr, peerKnown := s₀.udp.peerKnown }
      crypto := { s.crypto with txNonce := s₀.crypto.txNonce }
      tunnelIpOctet := s₀.tunnelIpOctet })
    (by rintro (sender | _) s <;> rfl) (s₀.placedAt i) events

/-- A session in the table is the one its own handshake established, changed by its own events
only, whatever else the server has done before, meanwhile and since. -/
theorem session_history {identity : CryptoContext Buf} {udpSocket : ℤ}
    {steps : List (SessionManager Buf × ServerOp Buf)} {s : Session Buf}
    (h : ServerRun M P identity udpSocket steps m) (hs : m.sessions i = some s) :
    ∃ after s₀, ConnectedBefore M P identity i steps after s₀ ∧
      s = replay SlotEvent.apply (s₀.placedAt i) (after.filterMap (slotEvent P i)) ∧
      Tally s₀ s (after.filterMap (slotEvent P i)) := by
  obtain ⟨before, m₀, op, after, -, hsteps, hbefore, ⟨s₀, rfl, hs₀⟩, hoccupied, rfl⟩ :=
    slotTracks.origin (by simp) h hs
  rw [ServerRun.identity hbefore] at hs₀
  exact ⟨after, s₀, ⟨⟨before, m₀, op, hsteps, hs₀⟩, hoccupied⟩, rfl,
    replay_tally hs₀.unused hs₀.unheard i _⟩

/-- Two clients have connected and a datagram of the second one has been handled. -/
theorem session_history_heard : ∃ after s₀,
    ConnectedBefore msgMemory (copyPlatform MsgBuf) (identityOf 0) ⟨1, by decide⟩
      (guests 2 ++ [(guestManager 2, .udpListener ⟨9, 9⟩ (guestDatagram 1 guestPacket))])
      after s₀ ∧
    ((guestSession 1).placedAt 1).withPeer ⟨9, 9⟩ = replay SlotEvent.apply (s₀.placedAt 1)
      (after.filterMap (slotEvent (copyPlatform MsgBuf) ⟨1, by decide⟩)) ∧
    Tally s₀ (((guestSession 1).placedAt 1).withPeer ⟨9, 9⟩)
      (after.filterMap (slotEvent (copyPlatform MsgBuf) ⟨1, by decide⟩)) :=
  session_history (heard_run (show 2 ≤ maxSessions by decide) 1) (by
    rw [heardManager_eq (show 2 ≤ maxSessions by decide) (show 1 < 2 by decide)]
    dsimp only
    rw [Function.update_self])

end Run

end Sencd
