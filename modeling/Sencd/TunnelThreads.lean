import Sencd.ClientEnv
import Sencd.ServerThreads

/-!
# The tunnel threads of a client

`client_tun_sender` and `client_udp_receiver` read the session without a lock, and the shell or
the receiver of the TCP connection may destroy it at any moment, also in the middle of a turn. As
long as the session has not been destroyed the turns are those of `ClientRun`; afterwards a
thread still hands over what it holds, and what else it does it does on a cleared session.
-/
namespace Sencd.Threads
open ByteOrder LabelledPath

variable {Buf : ℕ → Type}

section Positions

/-- Where `client_tun_sender` stands. -/
inductive ClientTunPc
  | start
  | check
  | select
  | recheck (ready : Bool)
  | read
  | encode (raw compressed : Bytes)
  | send (datagram : Bytes)
  | done

/-- Where `client_udp_receiver` stands. -/
inductive ClientUdpPc
  | start
  | check
  | select
  | recheck (ready : Bool)
  | receive
  | decode (buffer : Bytes)
  | write (packet : Bytes)
  | done

structure TunnelThreads (Buf : ℕ → Type) where
  client : Client Buf
  sender : ClientTunPc
  receiver : ClientUdpPc

/-- What a step does, besides moving its thread on. -/
inductive TunnelEvent
  | sender
  | receiver
  | encoded (packet : Bytes)
  | decoded (datagram : Bytes)
  | sent (socket : ℤ) (datagram : Bytes)
  | written (packet : Bytes)
  | destroyed
  deriving DecidableEq

/-- The turn of `ClientRun` that a step completes. -/
def TunnelEvent.op : TunnelEvent → Option ClientOp
  | encoded packet => some (.tunSender packet)
  | decoded datagram => some (.udpReceiver datagram)
  | destroyed => some .disconnect
  | _ => none

/-- What is handed to `send`. -/
def TunnelEvent.sends : TunnelEvent → Option Bytes
  | sent _ datagram => some datagram
  | _ => none

/-- What is handed to `tun_write`. -/
def TunnelEvent.writes : TunnelEvent → Option Bytes
  | written packet => some packet
  | _ => none

/-- What the sender will hand to `send` when it goes on from here. -/
def ClientTunPc.pending : ClientTunPc → Option Bytes
  | send datagram => some datagram
  | _ => none

def ClientUdpPc.pending : ClientUdpPc → Option Bytes
  | write packet => some packet
  | _ => none

end Positions

section Steps

variable (M : Memory Buf) (P : Platform Buf)

/-- The sender from `tun_read` to `tunnel_packet_encode`. -/
def clientRead (packet : Bytes) : ClientTunPc :=
  let raw := packet.take tunnelPacketMaxPlaintext
  if raw = [] then .check else
  let compressed := tunnelPipelineCompress P raw tunnelPacketMaxPlaintext
  if compressed = [] then .check else .encode raw compressed

/-- The counter is taken from the session as it is now, and so is the key. -/
def clientEncode (c : Client Buf) (compressed : Bytes) : Client Buf × ClientTunPc :=
  let s := c.session
  ({ c with session := { s with crypto := { s.crypto with txNonce := s.crypto.txNonce + 1 } } },
    match tunnelPacketEncode P ⟨s.sessionId, s.crypto.txNonce, compressed⟩ s.crypto with
    | none => .check
    | some datagram => .send datagram)

def clientReceive (datagram : Bytes) : ClientUdpPc :=
  let buffer := datagram.take tunnelPacketMaxSize
  if buffer = [] then .check else .decode buffer

/-- The receiver from `tunnel_packet_decode` to the test of the TUN pointer. -/
def clientDecode (c : Client Buf) (buffer : Bytes) : ClientUdpPc :=
  match Shared.decodedPacket P c.tun c.session.crypto buffer with
  | none => .check
  | some packet => .write packet

/-- `session_destroy`, called by `cmd_disconnect` or by `client_receiver`. -/
def clientDestroyed (c : Client Buf) : Client Buf :=
  { c with session := (sessionDestroy M c.session).1 }

/-- A step of the sender. `tun_read` may return nothing. -/
inductive SenderStep : Client Buf → ClientTunPc → TunnelEvent → Client Buf → ClientTunPc → Prop
  | start (c : Client Buf) (allocated : Bool) :
      SenderStep c .start .sender c (if allocated then .check else .done)
  | check (c : Client Buf) :
      SenderStep c .check .sender c (if c.connected then .select else .done)
  | select (c : Client Buf) (ready : Bool) : SenderStep c .select .sender c (.recheck ready)
  | recheck (c : Client Buf) (ready : Bool) :
      SenderStep c (.recheck ready) .sender c
        (if ¬ c.connected then .done else if ready then .read else .check)
  | read (c : Client Buf) (packet : Bytes) : SenderStep c .read .sender c (clientRead P packet)
  | encode (c : Client Buf) (raw compressed : Bytes) :
      SenderStep c (.encode raw compressed) (.encoded raw) (clientEncode P c compressed).1
        (clientEncode P c compressed).2
  | send (c : Client Buf) (datagram : Bytes) :
      SenderStep c (.send datagram) (.sent c.session.udp.socket datagram) c .check

/-- A step of the receiver. `recv` may return nothing. -/
inductive ReceiverStep : Client Buf → ClientUdpPc → TunnelEvent → ClientUdpPc → Prop
  | start (c : Client Buf) (allocated : Bool) :
      ReceiverStep c .start .receiver (if allocated then .check else .done)
  | check (c : Client Buf) :
      ReceiverStep c .check .receiver (if c.connected then .select else .done)
  | select (c : Client Buf) (ready : Bool) : ReceiverStep c .select .receiver (.recheck ready)
  | recheck (c : Client Buf) (ready : Bool) :
      ReceiverStep c (.recheck ready) .receiver
        (if ¬ c.connected then .done else if ready then .receive else .check)
  | receive (c : Client Buf) (datagram : Bytes) :
      ReceiverStep c .receive .receiver (clientReceive datagram)
  | decode (c : Client Buf) (buffer : Bytes) :
      ReceiverStep c (.decode buffer) (.decoded buffer) (clientDecode P c buffer)
  | write (c : Client Buf) (packet : Bytes) :
      ReceiverStep c (.write packet) (.written packet) .check

inductive TunnelStep : TunnelThreads Buf → TunnelEvent → TunnelThreads Buf → Prop
  | sender {s : TunnelThreads Buf} {e : TunnelEvent} {c : Client Buf} {pc : ClientTunPc} :
      SenderStep P s.client s.sender e c pc → TunnelStep s e { s with client := c, sender := pc }
  | receiver {s : TunnelThreads Buf} {e : TunnelEvent} {pc : ClientUdpPc} :
      ReceiverStep P s.client s.receiver e pc → TunnelStep s e { s with receiver := pc }
  | destroy (s : TunnelThreads Buf) :
      TunnelStep s .destroyed { s with client := clientDestroyed M s.client }

/-- The runs of a client's tunnel threads. -/
abbrev TunnelThreadRun (c₀ : Client Buf) :
    List (TunnelThreads Buf × TunnelEvent) → TunnelThreads Buf → Prop :=
  Path (TunnelStep M P) ⟨c₀, .start, .start⟩

end Steps

section Connected

variable {M : Memory Buf} {P : Platform Buf} {c c' c₀ : Client Buf} {s s' : TunnelThreads Buf}
  {e : TunnelEvent}

/-- What the threads hold while a turn is under way, with the TUN and the socket of the client. -/
structure UnderWay (P : Platform Buf) (c₀ : Client Buf) (s : TunnelThreads Buf) : Prop where
  tun : s.client.tun = c₀.tun
  socket : s.client.session.udp.socket = c₀.session.udp.socket
  raw : ∀ raw compressed, s.sender = .encode raw compressed →
    raw.take tunnelPacketMaxPlaintext = raw ∧ raw ≠ [] ∧ compressed ≠ [] ∧
      compressed = tunnelPipelineCompress P raw tunnelPacketMaxPlaintext
  buffer : ∀ buffer, s.receiver = .decode buffer →
    buffer.take tunnelPacketMaxSize = buffer ∧ buffer ≠ []

theorem clientRead_eq_encode {packet raw compressed : Bytes}
    (h : clientRead P packet = .encode raw compressed) :
    raw.take tunnelPacketMaxPlaintext = raw ∧ raw ≠ [] ∧ compressed ≠ [] ∧
      compressed = tunnelPipelineCompress P raw tunnelPacketMaxPlaintext := by
  unfold clientRead at h
  dsimp only at h
  split_ifs at h with hraw hpacked
  obtain ⟨rfl, rfl⟩ := ClientTunPc.encode.inj h
  exact ⟨List.take_take.trans (by rw [min_self]), hraw, hpacked, rfl⟩

theorem clientReceive_eq_decode {datagram buffer : Bytes}
    (h : clientReceive datagram = .decode buffer) :
    buffer.take tunnelPacketMaxSize = buffer ∧ buffer ≠ [] := by
  unfold clientReceive at h
  dsimp only at h
  split_ifs at h with hbuffer
  obtain rfl := ClientUdpPc.decode.inj h
  exact ⟨List.take_take.trans (by rw [min_self]), hbuffer⟩

/-- The sender changes no more than its counter. -/
theorem SenderStep.client {pc pc' : ClientTunPc} (h : SenderStep P c pc e c' pc') :
    c'.tun = c.tun ∧ c'.session.udp = c.session.udp ∧ c'.session.state = c.session.state := by
  cases h <;> exact ⟨rfl, rfl, rfl⟩

theorem SenderStep.raw {pc pc' : ClientTunPc} (h : SenderStep P c pc e c' pc')
    {raw compressed : Bytes} (hpc' : pc' = .encode raw compressed) :
    raw.take tunnelPacketMaxPlaintext = raw ∧ raw ≠ [] ∧ compressed ≠ [] ∧
      compressed = tunnelPipelineCompress P raw tunnelPacketMaxPlaintext := by
  cases h with
  | read packet => exact clientRead_eq_encode hpc'
  | start allocated => cases allocated <;> simp at hpc'
  | check => split at hpc' <;> simp at hpc'
  | recheck ready => split_ifs at hpc'
  | encode raw' compressed' =>
      unfold clientEncode at hpc'
      dsimp only at hpc'
      split at hpc' <;> simp at hpc'
  | _ => simp at hpc'

theorem ReceiverStep.buffer {pc pc' : ClientUdpPc} (h : ReceiverStep P c pc e pc')
    {buffer : Bytes} (hpc' : pc' = .decode buffer) :
    buffer.take tunnelPacketMaxSize = buffer ∧ buffer ≠ [] := by
  cases h with
  | receive datagram => exact clientReceive_eq_decode hpc'
  | start allocated => cases allocated <;> simp at hpc'
  | check => split at hpc' <;> simp at hpc'
  | recheck ready => split_ifs at hpc'
  | decode buffer' =>
      unfold clientDecode at hpc'
      split at hpc' <;> simp at hpc'
  | _ => simp at hpc'

theorem not_connected_destroyed (M : Memory Buf) (c : Client Buf) :
    ¬ (clientDestroyed M c).connected := by
  rintro ⟨hstate, -⟩
  simp [clientDestroyed, sessionDestroy] at hstate

/-- No step connects the client again. -/
theorem TunnelStep.connected (h : TunnelStep M P s e s') (hs' : s'.client.connected) :
    s.client.connected := by
  cases h with
  | sender h =>
      obtain ⟨-, hudp, hstate⟩ := h.client
      exact ⟨hstate ▸ hs'.1, hudp ▸ hs'.2⟩
  | receiver h => exact hs'
  | destroy => exact absurd hs' (not_connected_destroyed M s.client)

theorem UnderWay.step (hs : UnderWay P c₀ s) (h : TunnelStep M P s e s')
    (hs' : s'.client.connected) : UnderWay P c₀ s' := by
  cases h with
  | sender h =>
      obtain ⟨htun, hudp, -⟩ := h.client
      refine ⟨htun.trans hs.tun, ?_, fun raw compressed hpc => h.raw hpc, hs.buffer⟩
      exact (congrArg UdpTunnel.socket hudp).trans hs.socket
  | receiver h => exact ⟨hs.tun, hs.socket, hs.raw, fun buffer hpc => h.buffer hpc⟩
  | destroy => exact absurd hs' (not_connected_destroyed M s.client)

/-- Encoding completes a turn of `clientTunSender`. -/
theorem clientTunSender_encode (hc : c.connected) {raw compressed : Bytes}
    (hwhole : raw.take tunnelPacketMaxPlaintext = raw) (hraw : raw ≠ []) (hne : compressed ≠ [])
    (hpacked : compressed = tunnelPipelineCompress P raw tunnelPacketMaxPlaintext) :
    clientTunSender P c raw =
      ((clientEncode P c compressed).1, (clientEncode P c compressed).2.pending) := by
  subst hpacked
  rw [clientTunSender_packed hc (by rwa [hwhole]) (by rwa [hwhole]), hwhole]
  unfold clientEncode
  dsimp only
  cases tunnelPacketEncode P ⟨c.session.sessionId, c.session.crypto.txNonce,
    tunnelPipelineCompress P raw tunnelPacketMaxPlaintext⟩ c.session.crypto <;> rfl

/-- Decoding completes a turn of `clientUdpReceiver`. -/
theorem clientUdpReceiver_decode (hc : c.connected) {buffer : Bytes}
    (hwhole : buffer.take tunnelPacketMaxSize = buffer) (hne : buffer ≠ []) :
    clientUdpReceiver P c buffer = (clientDecode P c buffer).pending := by
  have hreads : ¬ (¬ c.connected ∨ buffer = []) := not_or.mpr ⟨not_not_intro hc, hne⟩
  unfold clientUdpReceiver clientDecode Shared.decodedPacket
  dsimp only
  rw [hwhole, if_neg hreads]
  cases tunnelPacketDecode P buffer c.session.crypto with
  | none => rfl
  | some plaintext =>
      dsimp only
      split_ifs <;> rfl

variable (P)

/-- What a turn sends, and what it writes to the TUN. -/
def clientSends : Client Buf × ClientOp → Option Bytes
  | (c, .tunSender packet) => (clientTunSender P c packet).2
  | _ => none

def clientWrites : Client Buf × ClientOp → Option Bytes
  | (c, .udpReceiver datagram) => clientUdpReceiver P c datagram
  | _ => none

/-- The turn that a step completes, if it does. -/
def clientTurn (step : TunnelThreads Buf × TunnelEvent) : Option (Client Buf × ClientOp) :=
  step.2.op.map fun op => (step.1.client, op)

/-- A step is a turn or changes nothing that a turn sees, and it sends and writes what the turns
have produced. -/
structure MakesTurns (M : Memory Buf) (s : TunnelThreads Buf) (e : TunnelEvent)
    (s' : TunnelThreads Buf) : Prop where
  step : e.op.elim (s'.client = s.client) fun op => clientStep P M s.client op = s'.client
  sends : s.sender.pending.toList ++ ((clientTurn (s, e)).bind (clientSends P)).toList =
    e.sends.toList ++ s'.sender.pending.toList
  writes : s.receiver.pending.toList ++ ((clientTurn (s, e)).bind (clientWrites P)).toList =
    e.writes.toList ++ s'.receiver.pending.toList

variable {P}

theorem sender_turns (hs : UnderWay P c₀ s) (hc : s.client.connected) {pc : ClientTunPc}
    (h : SenderStep P s.client s.sender e c pc) :
    MakesTurns P M s e { s with client := c, sender := pc } := by
  generalize hpc : s.sender = pc₀ at h
  have hquiet : ∀ {pc' : ClientTunPc}, s.sender.pending = none → pc'.pending = none →
      MakesTurns P M s .sender { s with sender := pc' } := by
    intro pc' hold hnew
    exact ⟨rfl, by simp [clientTurn, TunnelEvent.op, TunnelEvent.sends, hold, hnew],
      by simp [clientTurn, TunnelEvent.op, TunnelEvent.writes]⟩
  cases h with
  | start allocated => exact hquiet (by rw [hpc]; rfl) (by split <;> rfl)
  | check => exact hquiet (by rw [hpc]; rfl) (by split <;> rfl)
  | select ready => exact hquiet (by rw [hpc]; rfl) rfl
  | recheck ready => exact hquiet (by rw [hpc]; rfl) (by split_ifs <;> rfl)
  | read packet =>
      refine hquiet (by rw [hpc]; rfl) ?_
      unfold clientRead
      dsimp only
      split_ifs <;> rfl
  | encode raw compressed =>
      obtain ⟨hwhole, hraw, hne, hpacked⟩ := hs.raw raw compressed hpc
      have hturn := clientTunSender_encode hc hwhole hraw hne hpacked
      refine ⟨congrArg Prod.fst hturn, ?_, ?_⟩
      · simp [clientTurn, TunnelEvent.op, TunnelEvent.sends, clientSends, hturn, hpc,
          ClientTunPc.pending]
      · simp [clientTurn, TunnelEvent.op, TunnelEvent.writes, clientWrites]
  | send datagram =>
      refine ⟨rfl, ?_, by simp [clientTurn, TunnelEvent.op, TunnelEvent.writes]⟩
      simp [clientTurn, TunnelEvent.op, TunnelEvent.sends, hpc, ClientTunPc.pending]

theorem receiver_turns (hs : UnderWay P c₀ s) (hc : s.client.connected) {pc : ClientUdpPc}
    (h : ReceiverStep P s.client s.receiver e pc) :
    MakesTurns P M s e { s with receiver := pc } := by
  generalize hpc : s.receiver = pc₀ at h
  have hquiet : ∀ {pc' : ClientUdpPc}, s.receiver.pending = none → pc'.pending = none →
      MakesTurns P M s .receiver { s with receiver := pc' } := by
    intro pc' hold hnew
    exact ⟨rfl, by simp [clientTurn, TunnelEvent.op, TunnelEvent.sends],
      by simp [clientTurn, TunnelEvent.op, TunnelEvent.writes, hold, hnew]⟩
  cases h with
  | start allocated => exact hquiet (by rw [hpc]; rfl) (by split <;> rfl)
  | check => exact hquiet (by rw [hpc]; rfl) (by split <;> rfl)
  | select ready => exact hquiet (by rw [hpc]; rfl) rfl
  | recheck ready => exact hquiet (by rw [hpc]; rfl) (by split_ifs <;> rfl)
  | receive datagram =>
      refine hquiet (by rw [hpc]; rfl) ?_
      unfold clientReceive
      dsimp only
      split_ifs <;> rfl
  | decode buffer =>
      obtain ⟨hwhole, hne⟩ := hs.buffer buffer hpc
      have hturn := clientUdpReceiver_decode (P := P) hc hwhole hne
      refine ⟨rfl, by simp [clientTurn, TunnelEvent.op, TunnelEvent.sends, clientSends], ?_⟩
      simp [clientTurn, TunnelEvent.op, TunnelEvent.writes, clientWrites, hturn, hpc,
        ClientUdpPc.pending]
  | write packet =>
      refine ⟨rfl, by simp [clientTurn, TunnelEvent.op, TunnelEvent.sends], ?_⟩
      simp [clientTurn, TunnelEvent.op, TunnelEvent.writes, hpc, ClientUdpPc.pending]

theorem TunnelStep.turns (hs : UnderWay P c₀ s) (h : TunnelStep M P s e s')
    (hs' : s'.client.connected) : MakesTurns P M s e s' := by
  have hc := h.connected hs'
  cases h with
  | sender h => exact sender_turns hs hc h
  | receiver h => exact receiver_turns hs hc h
  | destroy => exact absurd hs' (not_connected_destroyed M s.client)

/-- The turns of the threads make a run of the client, with the same datagrams sent and the same
packets written in the same order, all sent on the client's own socket. -/
structure ClientTurns (M : Memory Buf) (P : Platform Buf) (c₀ : Client Buf)
    (steps : List (TunnelThreads Buf × TunnelEvent)) (s : TunnelThreads Buf) : Prop where
  run : ClientRun P M c₀ (steps.filterMap clientTurn) s.client
  sends : (steps.filterMap clientTurn).filterMap (clientSends P) =
    steps.filterMap (fun p => p.2.sends) ++ s.sender.pending.toList
  writes : (steps.filterMap clientTurn).filterMap (clientWrites P) =
    steps.filterMap (fun p => p.2.writes) ++ s.receiver.pending.toList
  socket : ∀ p ∈ steps, ∀ socket datagram, p.2 = .sent socket datagram →
    socket = c₀.session.udp.socket

theorem SenderStep.sent {pc pc' : ClientTunPc} (h : SenderStep P c pc e c' pc') {socket : ℤ}
    {datagram : Bytes} (he : e = .sent socket datagram) :
    socket = c.session.udp.socket ∧ pc = .send datagram := by
  cases h with
  | send datagram' =>
      obtain ⟨rfl, rfl⟩ := TunnelEvent.sent.inj he
      exact ⟨rfl, rfl⟩
  | _ => simp at he

theorem ReceiverStep.not_sent {pc pc' : ClientUdpPc} (h : ReceiverStep P c pc e pc') (socket : ℤ)
    (datagram : Bytes) : e ≠ .sent socket datagram := by
  cases h <;> simp

/-- The sender sends what it holds, on the socket in the session. -/
theorem TunnelStep.sent (h : TunnelStep M P s e s') {socket : ℤ} {datagram : Bytes}
    (he : e = .sent socket datagram) :
    socket = s.client.session.udp.socket ∧ s.sender = .send datagram := by
  cases h with
  | sender h => exact h.sent he
  | receiver h => exact absurd he (h.not_sent socket datagram)
  | destroy => simp at he

theorem TunnelThreadRun.turns {steps : List (TunnelThreads Buf × TunnelEvent)}
    (h : TunnelThreadRun M P c₀ steps s) (hs : s.client.connected) :
    ClientTurns M P c₀ steps s := by
  have hpath := h.strengthen (G := fun s => s.client.connected)
    (fun _ _ _ hstep hs' => hstep.connected hs') hs
  have hway : ∀ {before s}, Path (fun s e s' => TunnelStep M P s e s' ∧ s'.client.connected)
      ⟨c₀, .start, .start⟩ before s → UnderWay P c₀ s := fun hbefore =>
    hbefore.invariant (I := UnderWay P c₀) ⟨rfl, rfl, by simp, by simp⟩
      fun _ _ _ hs hstep => hs.step hstep.1 hstep.2
  refine ⟨?_, ?_, ?_, ?_⟩
  · exact hpath.turns (fun c op c' => clientStep P M c op = c') (fun s => s.client)
      (fun _ => TunnelEvent.op) fun _ _ _ _ hbefore hstep =>
        (hstep.1.turns (hway hbefore) hstep.2).step
  · exact hpath.delivered (clientSends P) (fun p => p.2.sends) (fun s => s.sender.pending) rfl
      fun _ _ _ _ hbefore hstep => (hstep.1.turns (hway hbefore) hstep.2).sends
  · exact hpath.delivered (clientWrites P) (fun p => p.2.writes) (fun s => s.receiver.pending) rfl
      fun _ _ _ _ hbefore hstep => (hstep.1.turns (hway hbefore) hstep.2).writes
  · rintro ⟨s₁, e⟩ hmem socket datagram he
    obtain ⟨before, after, s₂, -, hbefore, hstep, -⟩ := hpath.split hmem
    exact (hstep.1.sent he).1.trans (hway hbefore).socket

end Connected

section Destroyed

/-- How many steps the sender can still take once the session has been destroyed. -/
def ClientTunPc.left : ClientTunPc → ℕ
  | done => 0
  | check => 1
  | recheck _ => 1
  | start => 2
  | select => 2
  | send _ => 2
  | encode _ _ => 3
  | read => 4

def ClientUdpPc.left : ClientUdpPc → ℕ
  | done => 0
  | check => 1
  | recheck _ => 1
  | start => 2
  | select => 2
  | write _ => 2
  | decode _ => 3
  | receive => 4

/-- How many of them are sends. -/
def ClientTunPc.sendsLeft : ClientTunPc → ℕ
  | send _ => 1
  | encode _ _ => 1
  | read => 1
  | _ => 0

def ClientUdpPc.writesLeft : ClientUdpPc → ℕ
  | write _ => 1
  | decode _ => 1
  | receive => 1
  | _ => 0

variable {M : Memory Buf} {P : Platform Buf} {c c' : Client Buf} {s s' : TunnelThreads Buf}
  {e : TunnelEvent}

/-- What `session_destroy` leaves of what the threads use. -/
structure Cleared (M : Memory Buf) (c : Client Buf) : Prop where
  closed : ¬ c.connected
  sessionId : c.session.sessionId = 0
  socket : c.session.udp.socket = 0
  txKey : c.session.crypto.txKey = M.zero _
  rxKey : c.session.crypto.rxKey = M.zero _

theorem cleared_destroyed (M : Memory Buf) (c : Client Buf) : Cleared M (clientDestroyed M c) :=
  ⟨not_connected_destroyed M c, rfl, rfl, rfl, rfl⟩

theorem clientRead_left (packet : Bytes) :
    (clientRead P packet).left ≤ 3 ∧ (clientRead P packet).sendsLeft ≤ 1 := by
  unfold clientRead
  dsimp only
  split_ifs <;> simp [ClientTunPc.left, ClientTunPc.sendsLeft]

theorem clientEncode_left (c : Client Buf) (compressed : Bytes) :
    (clientEncode P c compressed).2.left ≤ 2 ∧ (clientEncode P c compressed).2.sendsLeft ≤ 1 := by
  unfold clientEncode
  dsimp only
  split <;> simp [ClientTunPc.left, ClientTunPc.sendsLeft]

theorem clientReceive_left (datagram : Bytes) :
    (clientReceive datagram).left ≤ 3 ∧ (clientReceive datagram).writesLeft ≤ 1 := by
  unfold clientReceive
  dsimp only
  split_ifs <;> simp [ClientUdpPc.left, ClientUdpPc.writesLeft]

theorem clientDecode_left (c : Client Buf) (buffer : Bytes) :
    (clientDecode P c buffer).left ≤ 2 ∧ (clientDecode P c buffer).writesLeft ≤ 1 := by
  unfold clientDecode
  split <;> simp [ClientUdpPc.left, ClientUdpPc.writesLeft]

theorem SenderStep.left_lt {pc pc' : ClientTunPc} (h : SenderStep P c pc e c' pc')
    (hc : ¬ c.connected) : pc'.left < pc.left ∧
      pc'.sendsLeft + (if e.sends.isSome then 1 else 0) ≤ pc.sendsLeft := by
  cases h with
  | start allocated => cases allocated <;> simp [ClientTunPc.left, ClientTunPc.sendsLeft,
      TunnelEvent.sends]
  | check => simp [hc, ClientTunPc.left, ClientTunPc.sendsLeft, TunnelEvent.sends]
  | recheck ready => simp [hc, ClientTunPc.left, ClientTunPc.sendsLeft, TunnelEvent.sends]
  | read packet =>
      obtain ⟨hleft, hsends⟩ := clientRead_left (P := P) packet
      exact ⟨Nat.lt_succ_of_le hleft, hsends⟩
  | encode raw compressed =>
      obtain ⟨hleft, hsends⟩ := clientEncode_left (P := P) c compressed
      exact ⟨Nat.lt_succ_of_le hleft, hsends⟩
  | select ready | send datagram =>
      simp [ClientTunPc.left, ClientTunPc.sendsLeft, TunnelEvent.sends]

theorem ReceiverStep.left_lt {pc pc' : ClientUdpPc} (h : ReceiverStep P c pc e pc')
    (hc : ¬ c.connected) : pc'.left < pc.left ∧
      pc'.writesLeft + (if e.writes.isSome then 1 else 0) ≤ pc.writesLeft := by
  cases h with
  | start allocated => cases allocated <;> simp [ClientUdpPc.left, ClientUdpPc.writesLeft,
      TunnelEvent.writes]
  | check => simp [hc, ClientUdpPc.left, ClientUdpPc.writesLeft, TunnelEvent.writes]
  | recheck ready => simp [hc, ClientUdpPc.left, ClientUdpPc.writesLeft, TunnelEvent.writes]
  | receive datagram =>
      obtain ⟨hleft, hwrites⟩ := clientReceive_left datagram
      exact ⟨Nat.lt_succ_of_le hleft, hwrites⟩
  | decode buffer =>
      obtain ⟨hleft, hwrites⟩ := clientDecode_left (P := P) c buffer
      exact ⟨Nat.lt_succ_of_le hleft, hwrites⟩
  | select ready | write packet =>
      simp [ClientUdpPc.left, ClientUdpPc.writesLeft, TunnelEvent.writes]

theorem SenderStep.cleared {pc pc' : ClientTunPc} (h : SenderStep P c pc e c' pc')
    (hc : Cleared M c) : Cleared M c' := by
  cases h <;> exact ⟨hc.closed, hc.sessionId, hc.socket, hc.txKey, hc.rxKey⟩

theorem TunnelStep.cleared (hs : Cleared M s.client) (h : TunnelStep M P s e s') :
    Cleared M s'.client := by
  cases h with
  | sender h => exact h.cleared hs
  | receiver h => exact hs
  | destroy => exact cleared_destroyed M s.client

theorem SenderStep.event {pc pc' : ClientTunPc} (h : SenderStep P c pc e c' pc') :
    e ≠ .destroyed ∧ e.writes = none := by
  cases h <;> simp [TunnelEvent.writes]

theorem ReceiverStep.event {pc pc' : ClientUdpPc} (h : ReceiverStep P c pc e pc') :
    e ≠ .destroyed ∧ e.sends = none := by
  cases h <;> simp [TunnelEvent.sends]

/-- On a cleared session every step of a thread is one of its last. -/
theorem TunnelStep.left_lt (h : TunnelStep M P s e s') (hs : Cleared M s.client) :
    s'.sender.left + s'.receiver.left + (if e ≠ .destroyed then 1 else 0) ≤
        s.sender.left + s.receiver.left ∧
      s'.sender.sendsLeft + (if e.sends.isSome then 1 else 0) ≤ s.sender.sendsLeft ∧
      s'.receiver.writesLeft + (if e.writes.isSome then 1 else 0) ≤ s.receiver.writesLeft := by
  cases h with
  | sender h =>
      obtain ⟨hleft, hsends⟩ := h.left_lt hs.closed
      obtain ⟨hmoves, hwrites⟩ := h.event
      refine ⟨?_, hsends, by simp [hwrites]⟩
      rw [if_pos hmoves]
      dsimp only
      omega
  | receiver h =>
      obtain ⟨hleft, hwrites⟩ := h.left_lt hs.closed
      obtain ⟨hmoves, hsends⟩ := h.event
      refine ⟨?_, by simp [hsends], hwrites⟩
      rw [if_pos hmoves]
      dsimp only
      omega
  | destroy => simp [TunnelEvent.sends, TunnelEvent.writes]

/-- A datagram the sender may still hand over when the session has been destroyed in `s₁`: the
one it held then, sealed under the key there was, or one sealed under the cleared key. -/
def SentLast (M : Memory Buf) (P : Platform Buf) (s₁ : TunnelThreads Buf) (datagram : Bytes) :
    Prop :=
  s₁.sender = .send datagram ∨
    ∃ c compressed, Cleared M c ∧ (clientEncode P c compressed).2 = .send datagram

/-- Likewise a packet the receiver may still write. -/
def WrittenLast (M : Memory Buf) (P : Platform Buf) (s₁ : TunnelThreads Buf) (packet : Bytes) :
    Prop :=
  s₁.receiver = .write packet ∨ ∃ c buffer, Cleared M c ∧ clientDecode P c buffer = .write packet

/-- After the session has been destroyed in `s₁` each thread comes to its end. It completes the
turn it is in, and sends on descriptor 0, the one in the cleared session. -/
structure Stops (M : Memory Buf) (P : Platform Buf) (s₁ : TunnelThreads Buf)
    (after : List (TunnelThreads Buf × TunnelEvent)) : Prop where
  steps : after.countP (fun p => p.2 ≠ .destroyed) ≤ 8
  sends : after.countP (fun p => p.2.sends.isSome) ≤ 1
  writes : after.countP (fun p => p.2.writes.isSome) ≤ 1
  sent : ∀ p ∈ after, ∀ socket datagram, p.2 = .sent socket datagram →
    socket = 0 ∧ SentLast M P s₁ datagram
  written : ∀ p ∈ after, ∀ packet, p.2 = .written packet → WrittenLast M P s₁ packet

/-- What the threads are about to hand over after the session has been destroyed in `s₁`. -/
structure LastTurns (M : Memory Buf) (P : Platform Buf) (s₁ s : TunnelThreads Buf) : Prop where
  cleared : Cleared M s.client
  sender : ∀ datagram, s.sender = .send datagram → SentLast M P s₁ datagram
  receiver : ∀ packet, s.receiver = .write packet → WrittenLast M P s₁ packet

theorem SenderStep.made {pc pc' : ClientTunPc} (h : SenderStep P c pc e c' pc') {datagram : Bytes}
    (hpc' : pc' = .send datagram) :
    ∃ compressed, (clientEncode P c compressed).2 = .send datagram := by
  cases h with
  | encode raw compressed => exact ⟨compressed, hpc'⟩
  | start allocated => cases allocated <;> simp at hpc'
  | check => split at hpc' <;> simp at hpc'
  | recheck ready => split_ifs at hpc'
  | read packet =>
      unfold clientRead at hpc'
      dsimp only at hpc'
      split_ifs at hpc'
  | _ => simp at hpc'

theorem ReceiverStep.made {pc pc' : ClientUdpPc} (h : ReceiverStep P c pc e pc') {packet : Bytes}
    (hpc' : pc' = .write packet) : ∃ buffer, clientDecode P c buffer = .write packet := by
  cases h with
  | decode buffer => exact ⟨buffer, hpc'⟩
  | start allocated => cases allocated <;> simp at hpc'
  | check => split at hpc' <;> simp at hpc'
  | recheck ready => split_ifs at hpc'
  | receive datagram =>
      unfold clientReceive at hpc'
      dsimp only at hpc'
      split_ifs at hpc'
  | _ => simp at hpc'

theorem LastTurns.step {s₁ : TunnelThreads Buf} (hs : LastTurns M P s₁ s)
    (h : TunnelStep M P s e s') : LastTurns M P s₁ s' := by
  have hcleared := h.cleared hs.cleared
  cases h with
  | sender h =>
      refine ⟨hcleared, fun datagram hpc => ?_, hs.receiver⟩
      obtain ⟨compressed, hencode⟩ := h.made hpc
      exact .inr ⟨_, compressed, hs.cleared, hencode⟩
  | receiver h =>
      refine ⟨hcleared, hs.sender, fun packet hpc => ?_⟩
      obtain ⟨buffer, hdecode⟩ := h.made hpc
      exact .inr ⟨_, buffer, hs.cleared, hdecode⟩
  | destroy => exact ⟨hcleared, hs.sender, hs.receiver⟩

theorem ReceiverStep.written {pc pc' : ClientUdpPc} (h : ReceiverStep P c pc e pc')
    {packet : Bytes} (he : e = .written packet) : pc = .write packet := by
  cases h with
  | write packet' => exact congrArg _ (TunnelEvent.written.inj he)
  | _ => simp at he

theorem TunnelStep.written (h : TunnelStep M P s e s') {packet : Bytes}
    (he : e = .written packet) : s.receiver = .write packet := by
  cases h with
  | sender h =>
      have hwrites := h.event.2
      simp [he, TunnelEvent.writes] at hwrites
  | receiver h => exact h.written he
  | destroy => simp at he

theorem ClientTunPc.left_le (pc : ClientTunPc) : pc.left ≤ 4 ∧ pc.sendsLeft ≤ 1 := by
  cases pc <;> simp [left, sendsLeft]

theorem ClientUdpPc.left_le (pc : ClientUdpPc) : pc.left ≤ 4 ∧ pc.writesLeft ≤ 1 := by
  cases pc <;> simp [left, writesLeft]

theorem LastTurns.stops {s₁ : TunnelThreads Buf} {after : List (TunnelThreads Buf × TunnelEvent)}
    (h : Path (TunnelStep M P) s after s') (hs : LastTurns M P s₁ s) : Stops M P s₁ after := by
  obtain ⟨hleft, hsends⟩ := s.sender.left_le
  obtain ⟨hleft', hwrites⟩ := s.receiver.left_le
  have hsteps := (h.countP_le (I := fun s => Cleared M s.client)
    (f := fun s => s.sender.left + s.receiver.left)
    (p := fun e : TunnelEvent => decide (e ≠ .destroyed)) hs.cleared fun s e s' hs hstep =>
      ⟨hstep.cleared hs, by simpa using (hstep.left_lt hs).1⟩).2
  have hsent := (h.countP_le (I := fun s => Cleared M s.client) (f := fun s => s.sender.sendsLeft)
    (p := fun e => e.sends.isSome) hs.cleared fun s e s' hs hstep =>
      ⟨hstep.cleared hs, (hstep.left_lt hs).2.1⟩).2
  have hwritten := (h.countP_le (I := fun s => Cleared M s.client)
    (f := fun s => s.receiver.writesLeft) (p := fun e => e.writes.isSome) hs.cleared
    fun s e s' hs hstep => ⟨hstep.cleared hs, (hstep.left_lt hs).2.2⟩).2
  have hmember : ∀ p ∈ after, LastTurns M P s₁ p.1 ∧ ∃ t, TunnelStep M P p.1 p.2 t := by
    rintro ⟨t, e⟩ hp
    obtain ⟨before, rest, t', -, hbefore, hstep, -⟩ := h.split hp
    exact ⟨hbefore.invariant (I := LastTurns M P s₁) hs fun _ _ _ hs hstep => hs.step hstep,
      t', hstep⟩
  refine ⟨by omega, by omega, by omega, fun p hp socket datagram he => ?_, fun p hp packet he => ?_⟩
  · obtain ⟨hlast, t, hstep⟩ := hmember p hp
    obtain ⟨hsocket, hsender⟩ := hstep.sent he
    exact ⟨hsocket.trans hlast.cleared.socket, hlast.sender datagram hsender⟩
  · obtain ⟨hlast, t, hstep⟩ := hmember p hp
    exact hlast.receiver packet (hstep.written he)

theorem TunnelStep.lastTurns (h : TunnelStep M P s .destroyed s') : LastTurns M P s s' := by
  cases h with
  | sender h => exact absurd rfl h.event.1
  | receiver h => exact absurd rfl h.event.1
  | destroy => exact ⟨cleared_destroyed M s.client, fun _ => .inl, fun _ => .inl⟩

/-- Until the session is destroyed the threads of a client make the turns of `ClientRun`, and
from then on they stop, wherever the destruction has caught them. -/
theorem client_threads {c₀ : Client Buf} {steps : List (TunnelThreads Buf × TunnelEvent)}
    (h : TunnelThreadRun M P c₀ steps s) :
    (s.client.connected → ClientTurns M P c₀ steps s) ∧
      ∀ before s₁ after, steps = before ++ (s₁, .destroyed) :: after → Stops M P s₁ after := by
  refine ⟨fun hs => TunnelThreadRun.turns h hs, ?_⟩
  rintro before s₁ after rfl
  obtain ⟨-, s₂, hdestroy, hafter⟩ := Path.middle_iff.mp h
  exact LastTurns.stops hafter hdestroy.lastTurns

/-- The first guest's sender when it is about to send, its session open or already destroyed. -/
def sendingGuest (c : Client MsgBuf) : TunnelThreads MsgBuf := ⟨c, .send firstSent, .start⟩

theorem sendingGuest_run : ∃ before, TunnelThreadRun msgMemory guestPlatform (guestTunnel 0) before
    (sendingGuest (clientEncode guestPlatform (guestTunnel 0) firstPacked).1) := by
  have hstarted : TunnelThreadRun msgMemory guestPlatform (guestTunnel 0) _ _ :=
    Path.nil.snoc (.sender (.start (guestTunnel 0) true))
  have hready := (hstarted.snoc (.sender (.check _))).snoc (.sender (.select _ true))
  have hread := (hready.snoc (.sender (.recheck _ true))).snoc (.sender (.read _ firstRead))
  exact ⟨_, hread.snoc (.sender (.encode _ firstRead firstPacked))⟩

/-- The session is destroyed between the encoding of a datagram and its sending. The datagram is
then sent on descriptor 0 as it is. -/
theorem client_threads_sending : ∃ before s₁, s₁.sender = .send firstSent ∧
    ClientTurns msgMemory guestPlatform (guestTunnel 0) before s₁ ∧
    Stops msgMemory guestPlatform s₁
      [(sendingGuest (clientDestroyed msgMemory s₁.client), .sent 0 firstSent)] := by
  obtain ⟨before, hrun⟩ := sendingGuest_run
  have hsent := (hrun.snoc (.destroy _)).snoc (.sender (.send _ firstSent))
  rw [List.append_assoc] at hsent
  exact ⟨before, _, rfl, (client_threads hrun).1 (guestTunnel_connected 0),
    (client_threads hsent).2 before _ _ rfl⟩

end Destroyed

end Sencd.Threads
