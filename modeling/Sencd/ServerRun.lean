import Sencd.LabelledPath
import Sencd.ServerSpec
import Sencd.SessionManager

/-!
# Runs of the server

The threads of `start_server_environment` act on one manager: accepted connections run a
handshake and enter the table, the UDP listener and the TUN sender handle one datagram or
packet at a time, and sessions are removed. `ServerStep.slot` says once what a step can do to
a slot; the invariants of the table are read off it.
-/
namespace Sencd
open ByteOrder CallProgram LabelledPath

variable {Buf : ℕ → Type}

/-- One step of a server thread, with what it received. -/
inductive ServerOp (Buf : ℕ → Type)
  | connect (role : SessionRole) (socket : ℤ) (ip : List Char) (calls : Calls Buf)
  | remove (sessionId : UInt64)
  | udpListener (sender : SockaddrIn) (datagram : Bytes)
  | tunSender (packet : Bytes)
  | closeUdp
  | disconnectAll

/-- The operation takes sessions with this id out of the table. -/
def ServerOp.Removes (op : ServerOp Buf) (sessionId : UInt64) : Prop :=
  op = .remove sessionId ∨ op = .disconnectAll

variable (M : Memory Buf) (P : Platform Buf)

/-- The manager after a step. A connection is one step, taken when its handshake returns. -/
inductive ServerStep : SessionManager Buf → ServerOp Buf → SessionManager Buf → Prop
  | connect {m m' : SessionManager Buf} {role : SessionRole} {socket : ℤ} {ip : List Char}
      {calls : Calls Buf} {s : Option (Session Buf)} :
      Exec (sessionManagerConnect M m role socket ip) calls (.ret (m', s)) →
      ServerStep m (.connect role socket ip calls) m'
  | remove (m : SessionManager Buf) (sessionId : UInt64) :
      ServerStep m (.remove sessionId) ((sessionManagerRemove M m sessionId).elim m Prod.fst)
  | udpListener (m : SessionManager Buf) (sender : SockaddrIn) (datagram : Bytes) :
      ServerStep m (.udpListener sender datagram) (sessionManagerUdpListener P m sender datagram).1
  | tunSender (m : SessionManager Buf) (packet : Bytes) :
      ServerStep m (.tunSender packet) (sessionManagerTunSender P m packet).1
  | closeUdp (m : SessionManager Buf) : ServerStep m .closeUdp { m with udpSocket := -1 }
  | disconnectAll (m : SessionManager Buf) :
      ServerStep m .disconnectAll (sessionManagerDisconnectAll M m).1

/-- The runs of a server that starts with the given identity and UDP socket. -/
abbrev ServerRun (identity : CryptoContext Buf) (udpSocket : ℤ) :
    List (SessionManager Buf × ServerOp Buf) → SessionManager Buf → Prop :=
  Path (ServerStep M P) (startedManager M identity udpSocket)

/-- What a step leads to is determined, for a connection by the answers to its calls. -/
theorem ServerStep.unique {M : Memory Buf} {P : Platform Buf} {m m₁ m₂ : SessionManager Buf}
    {op : ServerOp Buf} (h : ServerStep M P m op m₁) (h' : ServerStep M P m op m₂) : m₁ = m₂ := by
  cases h with
  | connect hx =>
      cases h' with
      | connect hx' =>
          have hsame := exec_unique hx hx'
          simp only [Prog.ret.injEq, Prod.mk.injEq] at hsame
          exact hsame.1
  | _ =>
      cases h'
      rfl

section Add

variable {m m' : SessionManager Buf}

/-- The session as `session_manager_add` stores it in slot `i`. -/
def Session.placedAt (s : Session Buf) (i : ℕ) : Session Buf :=
  { s with tunnelIpOctet := UInt8.ofNat (i + 2) }

/-- The manager with a session stored in slot `i`. -/
def SessionManager.stored (m : SessionManager Buf) (i : Fin maxSessions) (s : Session Buf) :
    SessionManager Buf :=
  { m with
    sessions := Function.update m.sessions i (some s)
    sessionCount := m.sessionCount + 1 }

theorem sessionManagerAdd_eq_some {s s' : Session Buf} :
    sessionManagerAdd m s = some (m', s') ↔ ∃ i, SlotTable.free m.sessions = some i ∧
      s' = s.placedAt i ∧ m' = m.stored i s' := by
  unfold sessionManagerAdd
  cases SlotTable.free m.sessions with
  | none => simp
  | some i =>
      constructor
      · intro h
        obtain ⟨rfl, rfl⟩ := Prod.mk.inj (Option.some.inj h)
        exact ⟨i, rfl, rfl, rfl⟩
      · rintro ⟨j, hj, rfl, rfl⟩
        obtain rfl := Option.some.inj hj
        rfl

theorem sessionManagerAdd_eq_none {s : Session Buf} :
    sessionManagerAdd m s = none ↔ SlotTable.free m.sessions = none := by
  unfold sessionManagerAdd
  cases SlotTable.free m.sessions with
  | none => simp
  | some i => simp

/-- The manager with the sessions of `f` in its first `k` slots and nothing else. -/
def SessionManager.filled (m : SessionManager Buf) (f : ℕ → Session Buf) (k : ℕ) :
    SessionManager Buf :=
  { m with
    sessions := SlotTable.filled (fun i => (f i).placedAt i) k
    sessionCount := UInt32.ofNat k }

@[simp] theorem SessionManager.stored_sessions (i : Fin maxSessions) (s : Session Buf) :
    (m.stored i s).sessions = Function.update m.sessions i (some s) := rfl

theorem SessionManager.filled_of_lt {f : ℕ → Session Buf} {k : ℕ} {i : Fin maxSessions}
    (h : i.val < k) : (m.filled f k).sessions i = some ((f i).placedAt i) :=
  SlotTable.filled_of_lt (f := fun i => (f i).placedAt i) h

theorem SessionManager.free_filled {f : ℕ → Session Buf} {k : ℕ} (h : k < maxSessions) :
    SlotTable.free (m.filled f k).sessions = some ⟨k, h⟩ :=
  SlotTable.free_filled (f := fun i => (f i).placedAt i) h

theorem SessionManager.free_filled_max {f : ℕ → Session Buf} :
    SlotTable.free (m.filled f maxSessions).sessions = none :=
  SlotTable.free_filled_self (f := fun i => (f i).placedAt i)

theorem SessionManager.stored_filled (f : ℕ → Session Buf) {k : ℕ} (h : k < maxSessions) :
    (m.filled f k).stored ⟨k, h⟩ ((f k).placedAt k) = m.filled f (k + 1) := by
  have hcount : UInt32.ofNat k + 1 = UInt32.ofNat (k + 1) := by simp
  unfold SessionManager.stored SessionManager.filled
  dsimp only
  rw [hcount, ← SlotTable.update_filled h]

end Add

section Connect

variable {m m' : SessionManager Buf}

theorem closeAll_holds {A : Calls Buf → Call Buf → Prop} {Q : Calls Buf → Unit → Prop}
    {h : Calls Buf} (fds : List ℤ) (hA : ∀ h fd, A h (.close fd))
    (hQ : Q h ()) (hstep : ∀ h fd, Q h () → Q (h ++ [⟨.close fd, ()⟩]) ()) :
    Holds A Q h (closeAll fds) := by
  induction fds generalizing h with
  | nil => exact hQ
  | cons fd fds ih => exact ⟨hA h fd, fun _ => ih (hstep h fd hQ)⟩

theorem exec_closeAll {calls : Calls Buf} {fds : List ℤ} {r : Unit} :
    Exec (closeAll fds) calls (.ret r) ↔
      calls = fds.map fun fd => (⟨.close fd, ()⟩ : Event (@Call.Answer Buf)) := by
  induction fds generalizing calls with
  | nil => simp [closeAll]
  | cons fd fds ih =>
      refine exec_call_ret.trans ⟨?_, ?_⟩
      · rintro ⟨u, rest, rfl, hrest⟩
        rw [ih.mp hrest]
        rfl
      · rintro rfl
        exact ⟨(), _, rfl, ih.mpr rfl⟩

/-- What `session_manager_connect` returns: the manager as it was, or with the established
session in its first free slot. A sent `AUTH_SUCCESS` belongs to that session or was sent
although the table is full. -/
def ConnectResult (m : SessionManager Buf) (h : Calls Buf) (m' : SessionManager Buf) : Prop :=
  (m' = m ∧ ∀ a, Announced M h a → SlotTable.free m.sessions = none) ∨
    ∃ s s', ServerEstablished M m.identity h s ∧
      (∀ a, Announced M h a → a = ⟨s.sessionNonce, s.sessionId⟩) ∧
      sessionManagerAdd m s = some (m', s')

theorem announced_close {h : Calls Buf} {fd : ℤ} {a : AuthSuccess Buf}
    (ha : Announced M (h ++ [⟨.close fd, ()⟩]) a) : Announced M h a := by
  obtain ⟨socket, packet, hm, ht, hp⟩ := ha
  refine ⟨socket, packet, ?_, ht, hp⟩
  simpa using hm

theorem sessionManagerConnect_holds (m : SessionManager Buf) (role : SessionRole) (socket : ℤ)
    (ip : List Char) :
    Holds (ServerSite M m.identity) (fun h r => ConnectResult M m h r.1) []
      (sessionManagerConnect M m role socket ip) := by
  have hnone : NotAnnounced ([] : Calls Buf) := by simp [NotAnnounced]
  have hclose : ∀ {h : Calls Buf} (fds : List ℤ),
      (∀ a, Announced M h a → SlotTable.free m.sessions = none) →
      Holds (ServerSite M m.identity) (fun h r => ConnectResult M m h r.1) h
        (closeAll fds >>= fun _ => pure (m, (none : Option (Session Buf)))) := by
    intro h fds hfull
    refine (closeAll_holds fds (Q := fun h _ => ∀ a, Announced M h a →
      SlotTable.free m.sessions = none) (fun _ _ => trivial) hfull ?_).bind ?_
    · intro h fd hq a ha
      exact hq a (announced_close M ha)
    · intro h _ hq
      exact .inl ⟨rfl, hq⟩
  refine holds_perform trivial fun ok => holds_ite (fun _ => ?_) fun _ => .inl ⟨rfl, ?_⟩
  · refine holds_perform trivial fun id => holds_ite (fun hcode => absurd rfl hcode) fun _ => ?_
    have hquiet : NotAnnounced ([] ++ [⟨.malloc, ok⟩] ++ [⟨.generateSessionId, id⟩] : Calls Buf) :=
      (hnone.snoc (by simp)).snoc (by simp)
    have hready : ServerReady m.identity (sessionCreated M role socket ip m.identity id) :=
      ⟨rfl, rfl, rfl⟩
    apply (sessionServerConnect_holds M hready hquiet (by simp [sessionCreated])).bind
    rintro h ⟨code, s⟩ ⟨hannounced, -, hs⟩
    refine holds_ite (fun hcode => ?_) fun hcode => ?_
    · exact hclose _ fun a ha => absurd (hannounced a ha).1 hcode
    · have hs := hs (not_not.mp hcode)
      unfold sessionManagerStore
      cases hadd : sessionManagerAdd m s with
      | none => exact hclose _ fun a _ => sessionManagerAdd_eq_none.mp hadd
      | some r => exact .inr ⟨s, r.2, hs, fun a ha => (hannounced a ha).2, hadd⟩
  · intro a ha
    exact absurd ha ((hnone.snoc (by simp)).not_announced M)

theorem ServerStep.connectResult {role : SessionRole} {socket : ℤ} {ip : List Char}
    {calls : Calls Buf} (h : ServerStep M P m (.connect role socket ip calls) m') :
    ConnectResult M m calls m' := by
  cases h with
  | connect hx => exact (sessionManagerConnect_holds M m role socket ip).post hx

/-- The session `s` is what the handshake of a connection with these arguments and calls has
made of the session that was created for it. -/
def Establishes (identity : CryptoContext Buf) (role : SessionRole) (socket : ℤ) (ip : List Char)
    (calls : Calls Buf) (s : Session Buf) : Prop :=
  ∃ id rest, calls = ⟨.malloc, true⟩ :: ⟨.generateSessionId, id⟩ :: rest ∧
    Exec (sessionServerConnect M (sessionCreated M role socket ip identity id)) rest (.ret (0, s)) ∧
    s = (sessionCreated M role socket ip identity id).handshaken s

variable {M}

theorem Establishes.established {identity : CryptoContext Buf} {role : SessionRole} {socket : ℤ}
    {ip : List Char} {calls : Calls Buf} {s : Session Buf}
    (h : Establishes M identity role socket ip calls s) : ServerEstablished M identity calls s := by
  obtain ⟨id, rest, rfl, hx, -⟩ := h
  have hready : ServerReady identity (sessionCreated M role socket ip identity id) :=
    ⟨rfl, rfl, rfl⟩
  have hquiet : NotAnnounced ([⟨.malloc, true⟩, ⟨.generateSessionId, id⟩] : Calls Buf) := by
    simp [NotAnnounced]
  exact ((sessionServerConnect_holds M hready hquiet (by simp [sessionCreated])).post hx).2.2 rfl

theorem Establishes.counter {identity : CryptoContext Buf} {role : SessionRole} {socket : ℤ}
    {ip : List Char} {calls : Calls Buf} {s : Session Buf}
    (h : Establishes M identity role socket ip calls s) : s.crypto.txNonce = 0 := by
  obtain ⟨id, rest, -, hx, -⟩ := h
  exact ((sessionServerConnect_kept (h := []) M _).post hx).counter

/-- The calls of `session_manager_connect`, the table as it leaves it, and the stored session. -/
inductive ConnectCalls (M : Memory Buf) (m : SessionManager Buf) (role : SessionRole) (socket : ℤ)
    (ip : List Char) : Calls Buf → SessionManager Buf → Option (Session Buf) → Prop
  | unallocated : ConnectCalls M m role socket ip [⟨.malloc, false⟩] m none
  | refused {id : UInt64} {handshake : Calls Buf} {code : ℕ} {s : Session Buf} :
      Exec (sessionServerConnect M (sessionCreated M role socket ip m.identity id)) handshake
        (.ret (code, s)) →
      (code ≠ 0 ∨ SlotTable.free m.sessions = none) →
      ConnectCalls M m role socket ip (⟨.malloc, true⟩ :: ⟨.generateSessionId, id⟩ :: (handshake ++
        (sessionDestroy M s).2.map fun fd => ⟨.close fd, ()⟩)) m none
  | stored {id : UInt64} {handshake : Calls Buf} {s s' : Session Buf} {m' : SessionManager Buf} :
      Exec (sessionServerConnect M (sessionCreated M role socket ip m.identity id)) handshake
        (.ret (0, s)) →
      sessionManagerAdd m s = some (m', s') →
      ConnectCalls M m role socket ip
        (⟨.malloc, true⟩ :: ⟨.generateSessionId, id⟩ :: handshake) m' (some s')

/-- A connection that is refused closes the descriptors of its session. -/
theorem exec_refused {fds : List ℤ} {u : Calls Buf} {r : Option (Session Buf)}
    (h : Exec (closeAll fds >>= fun _ => pure (m, none)) u (.ret (m', r))) :
    m' = m ∧ r = none ∧ u = fds.map fun fd => ⟨.close fd, ()⟩ := by
  obtain ⟨_, v, w, rfl, hfds, hret⟩ := exec_bind_ret.mp h
  obtain ⟨rfl, he⟩ := exec_ret.mp hret
  cases he
  exact ⟨rfl, rfl, by rw [List.append_nil, exec_closeAll.mp hfds]⟩

theorem sessionManagerConnect_calls {role : SessionRole} {socket : ℤ} {ip : List Char}
    {calls : Calls Buf} {r : Option (Session Buf)}
    (h : Exec (sessionManagerConnect M m role socket ip) calls (.ret (m', r))) :
    ConnectCalls M m role socket ip calls m' r := by
  obtain ⟨ok, rest, rfl, hmalloc⟩ := exec_call_ret.mp h
  cases ok with
  | false =>
      obtain ⟨rfl, he⟩ := exec_ret.mp hmalloc
      cases he
      exact .unallocated
  | true =>
      obtain ⟨id, rest, rfl, hcreate⟩ := exec_call_ret.mp hmalloc
      change Exec (sessionServerConnect M (sessionCreated M role socket ip m.identity id) >>=
        fun r => if r.1 ≠ 0 then closeAll (sessionDestroy M r.2).2 >>= fun _ =>
          pure (m, (none : Option (Session Buf))) else sessionManagerStore M m r.2) rest _
        at hcreate
      obtain ⟨⟨code, s⟩, handshake, last, rfl, hserver, hend⟩ := exec_bind_ret.mp hcreate
      dsimp only at hend
      by_cases hcode : code = 0
      · rw [if_neg (not_not.mpr hcode)] at hend
        subst hcode
        unfold sessionManagerStore at hend
        cases hadd : sessionManagerAdd m s with
        | none =>
            rw [hadd] at hend
            obtain ⟨rfl, rfl, rfl⟩ := exec_refused hend
            exact .refused hserver (.inr (sessionManagerAdd_eq_none.mp hadd))
        | some stored =>
            rw [hadd] at hend
            obtain ⟨rfl, he⟩ := exec_ret.mp hend
            cases he
            rw [List.append_nil]
            exact .stored hserver hadd
      · rw [if_pos hcode] at hend
        obtain ⟨rfl, rfl, rfl⟩ := exec_refused hend
        exact .refused hserver (.inl hcode)

/-- A connection leaves the manager as it is, or stores in its first free slot the session it
has established. -/
theorem ServerStep.connect_establishes {role : SessionRole} {socket : ℤ} {ip : List Char}
    {calls : Calls Buf} (h : ServerStep M P m (.connect role socket ip calls) m') :
    m' = m ∨ ∃ i s, SlotTable.free m.sessions = some i ∧ m' = m.stored i (s.placedAt i) ∧
      Establishes M m.identity role socket ip calls s := by
  cases h with
  | connect hx =>
      cases sessionManagerConnect_calls hx with
      | unallocated => exact .inl rfl
      | refused _ _ => exact .inl rfl
      | stored hserver hadd =>
          obtain ⟨i, hfree, rfl, rfl⟩ := sessionManagerAdd_eq_some.mp hadd
          refine .inr ⟨i, _, hfree, rfl, _, _, rfl, hserver, ?_⟩
          exact ((sessionServerConnect_kept (h := []) M _).post hserver).frame

end Connect

section Step

variable {m m' : SessionManager Buf} {op : ServerOp Buf}

/-- The session the listener stores before it decodes. -/
def Session.withPeer (s : Session Buf) (sender : SockaddrIn) : Session Buf :=
  { s with udp := { s.udp with peerAddr := sender, peerKnown := true } }

/-- The session the sender leaves after taking a counter. -/
def Session.counted (s : Session Buf) : Session Buf :=
  { s with crypto := { s.crypto with txNonce := s.crypto.txNonce + 1 } }

theorem mem_of_udpListenerTarget {buffer : Bytes} {i : Fin maxSessions} {s : Session Buf}
    (h : udpListenerTarget P m buffer = some (i, s)) : m.sessions i = some s := by
  unfold udpListenerTarget at h
  cases hid : tunnelPacketPeekSessionId P buffer with
  | none => simp [hid] at h
  | some id =>
      rw [hid] at h
      exact (SlotTable.find_eq_some.mp h).1

/-- Without a socket or without a session to handle the datagram under, nothing happens. -/
theorem sessionManagerUdpListener_idle {sender : SockaddrIn} {datagram : Bytes}
    (h : m.udpSocket < 0 ∨ udpListenerTarget P m (datagram.take tunnelPacketMaxSize) = none) :
    sessionManagerUdpListener P m sender datagram = (m, none) := by
  unfold sessionManagerUdpListener
  dsimp only
  by_cases hidle : m.udpSocket < 0 ∨ datagram.take tunnelPacketMaxSize = []
  · rw [if_pos hidle]
  · rw [if_neg hidle]
    have htarget := h.resolve_left fun hs => hidle (.inl hs)
    rw [htarget]

/-- A datagram handled under a session sets its peer, whatever decoding says. -/
theorem sessionManagerUdpListener_handled {sender : SockaddrIn} {datagram : Bytes}
    {i : Fin maxSessions} {s : Session Buf} (hsocket : 0 ≤ m.udpSocket)
    (h : udpListenerTarget P m (datagram.take tunnelPacketMaxSize) = some (i, s)) :
    sessionManagerUdpListener P m sender datagram =
      ({ m with sessions := Function.update m.sessions i (some (s.withPeer sender)) },
        match tunnelPacketDecode P (datagram.take tunnelPacketMaxSize) s.crypto with
        | none => none
        | some plaintext =>
          if tunnelPipelineDecompress P plaintext tunnelPacketMaxPlaintext = [] then none
          else if m.tun then
            some (tunnelPipelineDecompress P plaintext tunnelPacketMaxPlaintext)
          else none) := by
  have hne : datagram.take tunnelPacketMaxSize ≠ [] := by
    intro hnil
    rw [hnil] at h
    simp [udpListenerTarget, tunnelPacketPeekSessionId] at h
  have hactive : ¬ (m.udpSocket < 0 ∨ datagram.take tunnelPacketMaxSize = []) := by
    rintro (hs | hnil)
    · omega
    · exact hne hnil
  unfold sessionManagerUdpListener
  dsimp only
  rw [if_neg hactive, h]
  dsimp only
  cases tunnelPacketDecode P (datagram.take tunnelPacketMaxSize) s.crypto with
  | none => rfl
  | some plaintext =>
      dsimp only
      by_cases hempty : tunnelPipelineDecompress P plaintext tunnelPacketMaxPlaintext = []
      · rw [if_pos hempty, if_pos hempty]
        rfl
      · rw [if_neg hempty, if_neg hempty]
        rfl

/-- The listener touches the targeted session only, and only its peer. -/
theorem sessionManagerUdpListener_state (sender : SockaddrIn) (datagram : Bytes) :
    (sessionManagerUdpListener P m sender datagram).1 = m ∨
      ∃ i s, udpListenerTarget P m (datagram.take tunnelPacketMaxSize) = some (i, s) ∧
        0 ≤ m.udpSocket ∧ (sessionManagerUdpListener P m sender datagram).1 =
          { m with sessions := Function.update m.sessions i (some (s.withPeer sender)) } := by
  by_cases hsocket : m.udpSocket < 0
  · rw [sessionManagerUdpListener_idle P (.inl hsocket)]
    exact .inl rfl
  cases htarget : udpListenerTarget P m (datagram.take tunnelPacketMaxSize) with
  | none =>
      rw [sessionManagerUdpListener_idle P (.inr htarget)]
      exact .inl rfl
  | some target =>
      obtain ⟨i, s⟩ := target
      refine .inr ⟨i, s, rfl, by omega, ?_⟩
      rw [sessionManagerUdpListener_handled P (by omega) htarget]

/-- When the sender has a target, and which. -/
theorem tunSenderTarget_eq_some {packet compressed : Bytes} {i : Fin maxSessions}
    {s : Session Buf} : tunSenderTarget P m packet = some (compressed, i, s) ↔
      (m.tun = true ∧ 0 ≤ m.udpSocket ∧ 20 ≤ (packet.take tunnelPacketMaxPlaintext).length) ∧
      compressed = tunnelPipelineCompress P (packet.take tunnelPacketMaxPlaintext)
        tunnelPacketMaxPlaintext ∧ compressed ≠ [] ∧
      SlotTable.find m.sessions (tunSenderAccepts
        ((packet.take tunnelPacketMaxPlaintext).getD 19 0)) = some (i, s) := by
  unfold tunSenderTarget
  dsimp only
  generalize packet.take tunnelPacketMaxPlaintext = raw
  by_cases hidle : m.tun = false ∨ m.udpSocket < 0 ∨ raw.length < 20
  · rw [if_pos hidle]
    apply iff_of_false (by simp)
    rintro ⟨⟨htun, hsocket, hlen⟩, -⟩
    obtain h | h | h := hidle
    · simp [htun] at h
    · omega
    · omega
  rw [if_neg hidle]
  simp only [not_or, not_lt, Bool.not_eq_false] at hidle
  by_cases hpacked : tunnelPipelineCompress P raw tunnelPacketMaxPlaintext = []
  · rw [if_pos hpacked]
    apply iff_of_false (by simp)
    rintro ⟨-, rfl, hne, -⟩
    exact hne hpacked
  rw [if_neg hpacked, Option.map_eq_some_iff]
  constructor
  · rintro ⟨target, hfind, he⟩
    obtain ⟨rfl, rfl⟩ := Prod.mk.inj he
    exact ⟨hidle, rfl, hpacked, hfind⟩
  · rintro ⟨-, rfl, -, hfind⟩
    exact ⟨(i, s), hfind, rfl⟩

theorem mem_of_tunSenderTarget {packet compressed : Bytes} {i : Fin maxSessions} {s : Session Buf}
    (h : tunSenderTarget P m packet = some (compressed, i, s)) : m.sessions i = some s := by
  obtain ⟨-, -, -, hfind⟩ := (tunSenderTarget_eq_some P).mp h
  exact (SlotTable.find_eq_some.mp hfind).1

/-- Without a session to encode for, the sender does nothing. -/
theorem sessionManagerTunSender_idle {packet : Bytes} (h : tunSenderTarget P m packet = none) :
    sessionManagerTunSender P m packet = (m, none) := by
  rw [sessionManagerTunSender, h]

/-- With one, it takes a counter of that session, and sends what `tunnel_packet_encode` makes of
the packed packet. -/
theorem sessionManagerTunSender_target {packet compressed : Bytes} {i : Fin maxSessions}
    {s : Session Buf} (h : tunSenderTarget P m packet = some (compressed, i, s)) :
    sessionManagerTunSender P m packet =
      ({ m with sessions := Function.update m.sessions i (some s.counted) },
        (tunnelPacketEncode P ⟨s.sessionId, s.crypto.txNonce, compressed⟩ s.crypto).map
          fun datagram => ⟨i, s.udp.peerAddr, datagram⟩) := by
  rw [sessionManagerTunSender, h]
  dsimp only
  cases tunnelPacketEncode P ⟨s.sessionId, s.crypto.txNonce, compressed⟩ s.crypto with
  | none => rfl
  | some datagram => rfl

/-- What the sender hands to `sendto`. -/
theorem sessionManagerTunSender_eq_some {packet : Bytes} {send : TunSend} :
    (sessionManagerTunSender P m packet).2 = some send ↔ ∃ compressed i s datagram,
      tunSenderTarget P m packet = some (compressed, i, s) ∧
      tunnelPacketEncode P ⟨s.sessionId, s.crypto.txNonce, compressed⟩ s.crypto = some datagram ∧
      send = ⟨i, s.udp.peerAddr, datagram⟩ := by
  constructor
  · intro h
    cases htarget : tunSenderTarget P m packet with
    | none =>
        rw [sessionManagerTunSender_idle P htarget] at h
        contradiction
    | some target =>
        obtain ⟨compressed, i, s⟩ := target
        rw [sessionManagerTunSender_target P htarget] at h
        obtain ⟨datagram, hencode, hsend⟩ := Option.map_eq_some_iff.mp h
        exact ⟨compressed, i, s, datagram, rfl, hencode, hsend.symm⟩
  · rintro ⟨compressed, i, s, datagram, htarget, hencode, rfl⟩
    rw [sessionManagerTunSender_target P htarget, hencode]
    rfl

/-- The sender touches the session it encodes for only, and only its counter. -/
theorem sessionManagerTunSender_state (packet : Bytes) :
    (sessionManagerTunSender P m packet).1 = m ∨
      ∃ compressed i s, tunSenderTarget P m packet = some (compressed, i, s) ∧
        (sessionManagerTunSender P m packet).1 =
          { m with sessions := Function.update m.sessions i (some s.counted) } := by
  cases htarget : tunSenderTarget P m packet with
  | none =>
      rw [sessionManagerTunSender_idle P htarget]
      exact .inl rfl
  | some target =>
      obtain ⟨compressed, i, s⟩ := target
      rw [sessionManagerTunSender_target P htarget]
      exact .inr ⟨compressed, i, s, rfl, rfl⟩

/-- A new session, as `session_manager_add` stores it in slot `i`. -/
structure Session.Added (i : Fin maxSessions) (s : Session Buf) : Prop where
  state : s.state = .established
  peerKnown : s.udp.peerKnown = false
  octet : s.tunnelIpOctet = UInt8.ofNat (i.val + 2)

/-- What a step can do to the entry of slot `i`: keep it, free it, fill it, or rewrite the
peer or the counter of the session in it. -/
inductive SlotStep (m : SessionManager Buf) (i : Fin maxSessions) :
    ServerOp Buf → Option (Session Buf) → Prop
  | keep {op : ServerOp Buf} : SlotStep m i op (m.sessions i)
  | free {op : ServerOp Buf} : (∀ s, m.sessions i = some s → op.Removes s.sessionId) →
      SlotStep m i op none
  | add {role : SessionRole} {socket : ℤ} {ip : List Char} {calls : Calls Buf} {s : Session Buf} :
      SlotTable.free m.sessions = some i → s.Added i →
      SlotStep m i (.connect role socket ip calls) (some s)
  | peer {sender : SockaddrIn} {datagram : Bytes} {s : Session Buf} : 0 ≤ m.udpSocket →
      udpListenerTarget P m (datagram.take tunnelPacketMaxSize) = some (i, s) →
      SlotStep m i (.udpListener sender datagram) (some (s.withPeer sender))
  | count {packet compressed : Bytes} {s : Session Buf} :
      tunSenderTarget P m packet = some (compressed, i, s) →
      SlotStep m i (.tunSender packet) (some s.counted)

theorem ServerStep.slot (h : ServerStep M P m op m') (i : Fin maxSessions) :
    SlotStep P m i op (m'.sessions i) := by
  cases h with
  | connect hx =>
      obtain ⟨he, -⟩ | ⟨s, s', hs, -, hadd⟩ := (ServerStep.connect (P := P) hx).connectResult
      · rw [he]
        exact .keep
      · obtain ⟨j, hj, rfl, he⟩ := sessionManagerAdd_eq_some.mp hadd
        rw [he, SessionManager.stored]
        by_cases hij : i = j
        · subst hij
          simp only [Function.update_self]
          refine .add hj ⟨hs.state, ?_, rfl⟩
          simp [Session.placedAt, hs.udp, udpTunnelInit]
        · simp only [Function.update_of_ne hij]
          exact .keep
  | remove id =>
      unfold sessionManagerRemove
      cases hfind : sessionManagerFind m id with
      | none => exact .keep
      | some e =>
          obtain ⟨j, s⟩ := e
          obtain ⟨hs, hid, -⟩ := SlotTable.find_eq_some.mp hfind
          by_cases hij : i = j
          · subst hij
            simp only [Option.elim_some, Function.update_self]
            refine .free fun s' hs' => .inl ?_
            obtain rfl := Option.some.inj (hs.symm.trans hs')
            rw [of_decide_eq_true hid]
          · simp only [Option.elim_some, Function.update_of_ne hij]
            exact .keep
  | udpListener sender datagram =>
      obtain he | ⟨j, s, htarget, hsocket, he⟩ :=
        sessionManagerUdpListener_state P (m := m) sender datagram
      · rw [he]
        exact .keep
      · rw [he]
        by_cases hij : i = j
        · subst hij
          simp only [Function.update_self]
          exact .peer hsocket htarget
        · simp only [Function.update_of_ne hij]
          exact .keep
  | tunSender packet =>
      obtain he | ⟨compressed, j, s, htarget, he⟩ := sessionManagerTunSender_state P (m := m) packet
      · rw [he]
        exact .keep
      · rw [he]
        by_cases hij : i = j
        · subst hij
          simp only [Function.update_self]
          exact .count htarget
        · simp only [Function.update_of_ne hij]
          exact .keep
  | closeUdp => exact .keep
  | disconnectAll => exact .free fun _ _ => .inr rfl

theorem sessionManagerGet_ne_none {id : UInt64} :
    sessionManagerGet m id ≠ none ↔ ∃ i s, m.sessions i = some s ∧ s.sessionId = id := by
  unfold sessionManagerGet sessionManagerFind
  rw [Ne, Option.map_eq_none_iff, SlotTable.find_eq_none]
  simp

/-- A session id stays in the table until it is removed. -/
theorem ServerStep.get_ne_none (h : ServerStep M P m op m') {id : UInt64}
    (hget : sessionManagerGet m id ≠ none) (hop : ¬ op.Removes id) :
    sessionManagerGet m' id ≠ none := by
  obtain ⟨i, s, hs, hid⟩ := sessionManagerGet_ne_none.mp hget
  have hslot := h.slot M P i
  apply sessionManagerGet_ne_none.mpr
  generalize he : m'.sessions i = e at hslot
  cases hslot with
  | keep => exact ⟨i, s, he.trans hs, hid⟩
  | free hremoves =>
      have hremoved := hremoves s hs
      rw [hid] at hremoved
      exact absurd hremoved hop
  | add hfree _ =>
      have hnone := (SlotTable.free_eq_some.mp hfree).1
      simp [hnone] at hs
  | @peer sender datagram s' _ htarget =>
      obtain rfl := Option.some.inj (hs.symm.trans (mem_of_udpListenerTarget P htarget))
      exact ⟨i, _, he, hid⟩
  | count htarget =>
      obtain rfl := Option.some.inj (hs.symm.trans (mem_of_tunSenderTarget P htarget))
      exact ⟨i, _, he, hid⟩

/-- The established sessions of a run have the octet of their slot. -/
theorem ServerRun.placed {identity : CryptoContext Buf} {udpSocket : ℤ}
    {steps : List (SessionManager Buf × ServerOp Buf)}
    (h : ServerRun M P identity udpSocket steps m) :
    ∀ i s, m.sessions i = some s →
      s.state = .established ∧ s.tunnelIpOctet = UInt8.ofNat (i.val + 2) := by
  refine h.invariant (I := fun m => ∀ i s, m.sessions i = some s →
    s.state = .established ∧ s.tunnelIpOctet = UInt8.ofNat (i.val + 2)) ?_ ?_
  · intro i s hs
    simp at hs
  · intro m op m' hinv hstep i s hs
    have hslot := hstep.slot M P i
    rw [hs] at hslot
    generalize he : some s = e at hslot
    cases hslot with
    | keep => exact hinv i s he.symm
    | free _ => contradiction
    | add _ ha =>
        obtain rfl := Option.some.inj he
        exact ⟨ha.state, ha.octet⟩
    | peer _ htarget =>
        obtain rfl := Option.some.inj he
        have hold := hinv i _ (mem_of_udpListenerTarget P htarget)
        exact hold
    | count htarget =>
        obtain rfl := Option.some.inj he
        have hold := hinv i _ (mem_of_tunSenderTarget P htarget)
        exact hold

end Step

end Sencd
