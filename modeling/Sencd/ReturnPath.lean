import Sencd.Guests

/-!
# Where the TUN sender sends a client's traffic

The listener stores the sender of a datagram as the peer of the session the datagram names,
and only then decodes it. The stored peer is authentic in the runs in which every rejected
datagram came from the peer that was stored already.
-/
namespace Sencd
open ByteOrder CallProgram LabelledPath

variable {Buf : ℕ → Type} (M : Memory Buf) (P : Platform Buf)

/-- The listener took the datagram for the session `s` in slot `i` of the manager `m`. -/
structure HandledUnder (m : SessionManager Buf) (datagram : Bytes) (i : Fin maxSessions)
    (s : Session Buf) : Prop where
  socket : 0 ≤ m.udpSocket
  target : udpListenerTarget P m (datagram.take tunnelPacketMaxSize) = some (i, s)

/-- `tunnel_packet_decode` on the received bytes under a session's keys. -/
def decodeReceived (datagram : Bytes) (s : Session Buf) : Option Bytes :=
  tunnelPacketDecode P (datagram.take tunnelPacketMaxSize) s.crypto

/-- A known peer sent a datagram that was accepted under the session's keys, and a datagram
that is rejected leaves every session as it was. -/
structure PeerAuthentic (steps : List (SessionManager Buf × ServerOp Buf))
    (m : SessionManager Buf) : Prop where
  peer : ∀ i s, m.sessions i = some s → s.udp.peerKnown = true →
    ∃ m₀ s₀ datagram, (m₀, .udpListener s.udp.peerAddr datagram) ∈ steps ∧
      HandledUnder P m₀ datagram i s₀ ∧ decodeReceived P datagram s₀ ≠ none ∧
      decodeReceived P datagram s ≠ none
  dropped : ∀ m₀ sender datagram i s, (m₀, .udpListener sender datagram) ∈ steps →
    HandledUnder P m₀ datagram i s → decodeReceived P datagram s = none →
    (sessionManagerUdpListener P m₀ sender datagram).1.sessions = m₀.sessions

/-- Every rejected datagram came from the peer the session had stored. -/
def RejectedFromPeer (steps : List (SessionManager Buf × ServerOp Buf)) : Prop :=
  ∀ m₀ sender datagram i s, (m₀, .udpListener sender datagram) ∈ steps →
    HandledUnder P m₀ datagram i s → decodeReceived P datagram s = none →
    s.udp.peerAddr = sender ∧ s.udp.peerKnown = true

variable {M P} {m m' : SessionManager Buf} {steps : List (SessionManager Buf × ServerOp Buf)}

theorem decodeReceived_congr {s s' : Session Buf} (h : s.crypto.rxKey = s'.crypto.rxKey)
    (datagram : Bytes) : decodeReceived P datagram s = decodeReceived P datagram s' :=
  tunnelPacketDecode_congr P h _

theorem withPeer_eq_self {s : Session Buf} {sender : SockaddrIn} :
    s.withPeer sender = s ↔ s.udp.peerAddr = sender ∧ s.udp.peerKnown = true := by
  constructor
  · intro h
    have hudp := congrArg Session.udp h
    exact ⟨(congrArg UdpTunnel.peerAddr hudp).symm, (congrArg UdpTunnel.peerKnown hudp).symm⟩
  · rintro ⟨rfl, hknown⟩
    unfold Session.withPeer
    rw [← hknown]

/-- A handled datagram leaves the sessions alone exactly when its sender was the known peer. -/
theorem HandledUnder.sessions_eq_iff {datagram : Bytes} {sender : SockaddrIn}
    {i : Fin maxSessions} {s : Session Buf} (h : HandledUnder P m datagram i s) :
    (sessionManagerUdpListener P m sender datagram).1.sessions = m.sessions ↔
      s.udp.peerAddr = sender ∧ s.udp.peerKnown = true := by
  have hi := mem_of_udpListenerTarget P h.target
  rw [sessionManagerUdpListener_handled P h.socket h.target, ← withPeer_eq_self]
  constructor
  · intro he
    have hslot := congrFun he i
    simp only [Function.update_self, hi] at hslot
    exact Option.some.inj hslot
  · intro he
    dsimp only
    rw [he, ← hi, Function.update_eq_self]

/-- A datagram that names the same session is handled under it as well. -/
theorem HandledUnder.of_peek {datagram datagram' : Bytes} {i : Fin maxSessions} {s : Session Buf}
    (h : HandledUnder P m datagram i s)
    (hid : tunnelPacketPeekSessionId P (datagram'.take tunnelPacketMaxSize) =
      tunnelPacketPeekSessionId P (datagram.take tunnelPacketMaxSize)) :
    HandledUnder P m datagram' i s := by
  have htarget := h.target
  refine ⟨h.socket, ?_⟩
  unfold udpListenerTarget at htarget ⊢
  rw [hid]
  exact htarget

/-- The datagram is handled under the same session when it comes again. -/
theorem HandledUnder.again {datagram : Bytes} {sender : SockaddrIn} {i : Fin maxSessions}
    {s : Session Buf} (h : HandledUnder P m datagram i s) :
    HandledUnder P (sessionManagerUdpListener P m sender datagram).1 datagram i
      (s.withPeer sender) := by
  have htarget := h.target
  rw [sessionManagerUdpListener_handled P h.socket h.target]
  refine ⟨h.socket, ?_⟩
  unfold udpListenerTarget at htarget ⊢
  cases hid : tunnelPacketPeekSessionId P (datagram.take tunnelPacketMaxSize) with
  | none => simp [hid] at htarget
  | some id =>
      rw [hid] at htarget
      have hfound : s.sessionId = id := of_decide_eq_true (SlotTable.find_eq_some.mp htarget).2.1
      exact SlotTable.find_update htarget (decide_eq_true hfound)

/-- One step keeps the peers authentic unless it is a rejected datagram from elsewhere. -/
theorem PeerAuthentic.step {op : ServerOp Buf}
    (h : ∀ i s, m.sessions i = some s → s.udp.peerKnown = true →
      ∃ m₀ s₀ datagram, (m₀, .udpListener s.udp.peerAddr datagram) ∈ steps ∧
        HandledUnder P m₀ datagram i s₀ ∧ decodeReceived P datagram s₀ ≠ none ∧
        decodeReceived P datagram s ≠ none)
    (hstep : ServerStep M P m op m') (hreject : RejectedFromPeer P (steps ++ [(m, op)])) :
    ∀ i s, m'.sessions i = some s → s.udp.peerKnown = true →
      ∃ m₀ s₀ datagram, (m₀, .udpListener s.udp.peerAddr datagram) ∈ steps ++ [(m, op)] ∧
        HandledUnder P m₀ datagram i s₀ ∧ decodeReceived P datagram s₀ ≠ none ∧
        decodeReceived P datagram s ≠ none := by
  intro i s hs hknown
  have hold : ∀ s' : Session Buf, m.sessions i = some s' → s'.udp.peerKnown = true →
      s'.udp.peerAddr = s.udp.peerAddr → s'.crypto.rxKey = s.crypto.rxKey →
      ∃ m₀ s₀ datagram, (m₀, .udpListener s.udp.peerAddr datagram) ∈ steps ++ [(m, op)] ∧
        HandledUnder P m₀ datagram i s₀ ∧ decodeReceived P datagram s₀ ≠ none ∧
        decodeReceived P datagram s ≠ none := by
    intro s' hs' hknown' haddr hkey
    obtain ⟨m₀, s₀, datagram, hm, hh, hd, hd'⟩ := h i s' hs' hknown'
    rw [haddr] at hm
    rw [decodeReceived_congr hkey] at hd'
    exact ⟨m₀, s₀, datagram, List.mem_append_left _ hm, hh, hd, hd'⟩
  have hslot := hstep.slot M P i
  rw [hs] at hslot
  generalize he : some s = e at hslot
  cases hslot with
  | keep => exact hold s he.symm hknown rfl rfl
  | free => contradiction
  | add _ ha =>
      obtain rfl := Option.some.inj he
      rw [ha.peerKnown] at hknown
      contradiction
  | @peer sender datagram s' hsocket htarget =>
      obtain rfl := Option.some.inj he
      have hh : HandledUnder P m datagram i s' := ⟨hsocket, htarget⟩
      by_cases hd : decodeReceived P datagram s' = none
      · obtain ⟨haddr, hknown'⟩ := hreject m sender datagram i s' (by simp) hh hd
        exact hold s' (mem_of_udpListenerTarget P htarget) hknown' haddr rfl
      · exact ⟨m, s', datagram, by simp [Session.withPeer], hh, hd, hd⟩
  | count htarget =>
      obtain rfl := Option.some.inj he
      exact hold _ (mem_of_tunSenderTarget P htarget) hknown rfl rfl

/-- The return path is authentic in exactly the runs whose rejected datagrams come from the
stored peer. -/
theorem peerAuthentic_iff {identity : CryptoContext Buf} {udpSocket : ℤ}
    (h : ServerRun M P identity udpSocket steps m) :
    PeerAuthentic P steps m ↔ RejectedFromPeer P steps := by
  constructor
  · intro ha m₀ sender datagram i s hm hh hd
    exact hh.sessions_eq_iff.mp (ha.dropped m₀ sender datagram i s hm hh hd)
  · intro hreject
    refine ⟨?_, fun m₀ sender datagram i s hm hh hd =>
      hh.sessions_eq_iff.mpr (hreject m₀ sender datagram i s hm hh hd)⟩
    induction h with
    | nil =>
        intro i s hs
        simp at hs
    | snoc hp hstep ih =>
        have hbefore := ih fun m₀ sender datagram i s hm =>
          hreject m₀ sender datagram i s (List.mem_append_left _ hm)
        exact PeerAuthentic.step hbefore hstep hreject

section Runs

/-- A datagram that carries the session id of the first guest. -/
def firstGuestDatagram (rest : Bytes) : Bytes := beBytes 8 (guestId 0).toNat ++ rest

theorem firstGuest_handled {rest : Bytes} (h : 8 ≤ rest.length)
    (hlen : rest.length ≤ tunnelPacketMaxSize - 8) :
    HandledUnder (copyPlatform MsgBuf) (guestManager 1) (firstGuestDatagram rest) 0
      ((guestSession 0).placedAt 0) := by
  exact ⟨guestManager_socket 1, guest_target _ (by simp [maxSessions]) one_pos h hlen⟩

/-- The first guest has connected and one datagram arrives from `sender`. -/
theorem firstGuest_run (sender : SockaddrIn) (datagram : Bytes) :
    ServerRun msgMemory (copyPlatform MsgBuf) (identityOf 0) 5
      (guests 1 ++ [(guestManager 1, .udpListener sender datagram)])
      (sessionManagerUdpListener (copyPlatform MsgBuf) (guestManager 1) sender datagram).1 :=
  .snoc (guests_run (by simp [maxSessions])) (.udpListener _ sender datagram)

/-- An accepted datagram keeps the return path authentic. -/
theorem peerAuthentic_accepted :
    PeerAuthentic (copyPlatform MsgBuf)
      (guests 1 ++
        [(guestManager 1, .udpListener ⟨9, 9⟩ (firstGuestDatagram (List.replicate 24 0)))])
      (sessionManagerUdpListener (copyPlatform MsgBuf) (guestManager 1) ⟨9, 9⟩
        (firstGuestDatagram (List.replicate 24 0))).1 := by
  apply (peerAuthentic_iff (firstGuest_run _ _)).mpr
  intro m₀ sender datagram i s hm _ hd
  simp only [guests, List.range_one, List.map_cons, List.map_nil, List.singleton_append,
    List.mem_cons, Prod.mk.injEq, reduceCtorEq, and_false, ServerOp.udpListener.injEq,
    List.not_mem_nil, or_false, false_or] at hm
  obtain ⟨-, -, rfl⟩ := hm
  have haccepted : decodeReceived (copyPlatform MsgBuf)
      (firstGuestDatagram (List.replicate 24 0)) s = some [] := rfl
  rw [haccepted] at hd
  contradiction

/-- A bare header is rejected, and still decides where the traffic goes. -/
theorem not_peerAuthentic : ¬ ∀ steps m,
    ServerRun msgMemory (copyPlatform MsgBuf) (identityOf 0) 5 steps m →
    PeerAuthentic (copyPlatform MsgBuf) steps m := by
  intro hall
  have hauthentic := hall _ _ (firstGuest_run ⟨9, 9⟩ (firstGuestDatagram (List.replicate 8 0)))
  have hhandled : HandledUnder (copyPlatform MsgBuf) (guestManager 1)
      (firstGuestDatagram (List.replicate 8 0)) 0 ((guestSession 0).placedAt 0) :=
    firstGuest_handled (by simp) (by simp [tunnelPacketMaxSize])
  have hrejected : decodeReceived (copyPlatform MsgBuf)
      (firstGuestDatagram (List.replicate 8 0)) ((guestSession 0).placedAt 0) = none := by
    refine tunnelPacketDecode_short _ ?_ _
    simp [firstGuestDatagram, tunnelPacketMaxSize, tunnelHeaderSize, tunnelAeadTagSize]
  have hunchanged := hauthentic.dropped _ _ _ _ _
    (List.mem_append_right _ (List.mem_singleton_self _)) hhandled hrejected
  have hpeer := hhandled.sessions_eq_iff.mp hunchanged
  have hunknown : ((guestSession 0).placedAt 0).udp.peerKnown = false := rfl
  rw [hunknown] at hpeer
  exact absurd hpeer.2 (by simp)

end Runs

end Sencd
