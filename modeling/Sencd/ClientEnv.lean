import Sencd.LabelledPath
import Sencd.Session
import Sencd.Tunnel

/-!
# The client's end of the tunnel

The tunnel threads of `client_env.c` and the steps in which they and a disconnect act on one
client. As in the manager, a loop body is a function of one received datagram or packet.
-/
namespace Sencd
open ByteOrder LabelledPath

/-- `CLIENT_DEFAULT_VNI`, the address of every client's TUN interface, in network order. -/
def clientDefaultVni : Bytes := [10, 8, 0, 2]

/-- What the tunnel threads use of `CLIENT_T`; `tun` says whether the TUN pointer is set. -/
structure Client (Buf : ℕ → Type) where
  session : Session Buf
  tun : Bool

variable {Buf : ℕ → Type}

/-- The condition of both loops. -/
def Client.connected (c : Client Buf) : Prop :=
  c.session.state = .established ∧ 0 ≤ c.session.udp.socket

instance (c : Client Buf) : Decidable c.connected := inferInstanceAs (Decidable (_ ∧ _))

variable (P : Platform Buf)

/-- One turn of `client_tun_sender` on a packet read from the TUN: the datagram handed to
`send`. -/
def clientTunSender (c : Client Buf) (packet : Bytes) : Client Buf × Option Bytes :=
  let raw := packet.take tunnelPacketMaxPlaintext
  if ¬ c.connected ∨ raw = [] then (c, none) else
  let compressed := tunnelPipelineCompress P raw tunnelPacketMaxPlaintext
  if compressed = [] then (c, none) else
  let s := c.session
  let counted := { s with crypto := { s.crypto with txNonce := s.crypto.txNonce + 1 } }
  ({ c with session := counted },
    tunnelPacketEncode P ⟨s.sessionId, s.crypto.txNonce, compressed⟩ s.crypto)

/-- One turn of `client_udp_receiver` on a datagram: the packet written to the TUN. -/
def clientUdpReceiver (c : Client Buf) (datagram : Bytes) : Option Bytes :=
  let buffer := datagram.take tunnelPacketMaxSize
  if ¬ c.connected ∨ buffer = [] then none else
  match tunnelPacketDecode P buffer c.session.crypto with
  | none => none
  | some plaintext =>
    let packet := tunnelPipelineDecompress P plaintext tunnelPacketMaxPlaintext
    if packet = [] then none else if c.tun then some packet else none

/-- One step of a client's threads. `disconnect` is the command and the end of the receiver. -/
inductive ClientOp
  | udpReceiver (datagram : Bytes)
  | tunSender (packet : Bytes)
  | disconnect

variable (M : Memory Buf)

def clientStep (c : Client Buf) : ClientOp → Client Buf
  | .udpReceiver _ => c
  | .tunSender packet => (clientTunSender P c packet).1
  | .disconnect =>
    if c.session.state = .established then { c with session := (sessionDestroy M c.session).1 }
    else c

/-- The runs of a client from the moment its tunnel threads start. -/
abbrev ClientRun (c₀ : Client Buf) : List (Client Buf × ClientOp) → Client Buf → Prop :=
  Path (fun c op c' => clientStep P M c op = c') c₀

variable {P} {c : Client Buf} {datagram : Bytes}

/-- The sender does nothing when it is not connected, has read nothing or cannot pack it. -/
theorem clientTunSender_idle {packet : Bytes}
    (h : ¬ c.connected ∨ packet.take tunnelPacketMaxPlaintext = [] ∨
      tunnelPipelineCompress P (packet.take tunnelPacketMaxPlaintext)
        tunnelPacketMaxPlaintext = []) : clientTunSender P c packet = (c, none) := by
  unfold clientTunSender
  dsimp only
  by_cases hidle : ¬ c.connected ∨ packet.take tunnelPacketMaxPlaintext = []
  · exact if_pos hidle
  · rw [if_neg hidle, if_pos ((or_assoc.mpr h).resolve_left hidle)]

/-- Otherwise it takes a counter, and sends what `tunnel_packet_encode` makes of the packed
packet. -/
theorem clientTunSender_packed {packet : Bytes} (hc : c.connected)
    (hraw : packet.take tunnelPacketMaxPlaintext ≠ [])
    (hpacked : tunnelPipelineCompress P (packet.take tunnelPacketMaxPlaintext)
      tunnelPacketMaxPlaintext ≠ []) :
    clientTunSender P c packet =
      ({ c with session := { c.session with
          crypto := { c.session.crypto with txNonce := c.session.crypto.txNonce + 1 } } },
        tunnelPacketEncode P ⟨c.session.sessionId, c.session.crypto.txNonce,
          tunnelPipelineCompress P (packet.take tunnelPacketMaxPlaintext)
            tunnelPacketMaxPlaintext⟩ c.session.crypto) := by
  have hreads : ¬ (¬ c.connected ∨ packet.take tunnelPacketMaxPlaintext = []) :=
    not_or.mpr ⟨not_not_intro hc, hraw⟩
  unfold clientTunSender
  dsimp only
  rw [if_neg hreads, if_neg hpacked]

/-- What the sender hands to `send`. -/
theorem clientTunSender_eq_some {packet : Bytes} :
    (clientTunSender P c packet).2 = some datagram ↔
      c.connected ∧ packet.take tunnelPacketMaxPlaintext ≠ [] ∧
      tunnelPipelineCompress P (packet.take tunnelPacketMaxPlaintext)
        tunnelPacketMaxPlaintext ≠ [] ∧
      tunnelPacketEncode P ⟨c.session.sessionId, c.session.crypto.txNonce,
        tunnelPipelineCompress P (packet.take tunnelPacketMaxPlaintext)
          tunnelPacketMaxPlaintext⟩ c.session.crypto = some datagram := by
  constructor
  · intro h
    by_cases hidle : ¬ c.connected ∨ packet.take tunnelPacketMaxPlaintext = [] ∨
        tunnelPipelineCompress P (packet.take tunnelPacketMaxPlaintext)
          tunnelPacketMaxPlaintext = []
    · rw [clientTunSender_idle hidle] at h
      contradiction
    · simp only [not_or, not_not] at hidle
      obtain ⟨hc, hraw, hpacked⟩ := hidle
      rw [clientTunSender_packed hc hraw hpacked] at h
      exact ⟨hc, hraw, hpacked, h⟩
  · rintro ⟨hc, hraw, hpacked, hencode⟩
    rw [clientTunSender_packed hc hraw hpacked]
    exact hencode

/-- A connected client sends every packet that fits. -/
theorem clientTunSender_sends (hP : P.Seals) (hc : c.connected) {packet : Bytes}
    (hne : packet ≠ [])
    (hlen : packet.length + tunnelCompressHeaderSize ≤ tunnelPacketMaxPlaintext) :
    ∃ datagram, (clientTunSender P c packet).2 = some datagram := by
  have hmax : packet.length ≤ tunnelPacketMaxPlaintext := by omega
  have htake : packet.take tunnelPacketMaxPlaintext = packet := List.take_of_length_le hmax
  have hpacked := (tunnelPipelineCompress_ne_nil P (hP.le_compressBound hmax)
    tunnelPacketMaxPlaintext).mpr hlen
  obtain ⟨datagram, hencode⟩ := tunnelPacketEncode_packed P hP hlen c.session.sessionId
    c.session.crypto.txNonce c.session.crypto
  refine ⟨datagram, clientTunSender_eq_some.mpr ?_⟩
  rw [htake]
  exact ⟨hc, hne, hpacked, hencode⟩

/-- A client that is not connected writes nothing. -/
theorem clientUdpReceiver_idle (h : ¬ c.connected) : clientUdpReceiver P c datagram = none := by
  unfold clientUdpReceiver
  exact if_pos (.inl h)

/-- Nor does a client without a TUN. -/
theorem clientUdpReceiver_no_tun (h : c.tun = false) : clientUdpReceiver P c datagram = none := by
  unfold clientUdpReceiver
  dsimp only
  by_cases hidle : ¬ c.connected ∨ datagram.take tunnelPacketMaxSize = []
  · exact if_pos hidle
  rw [if_neg hidle]
  cases tunnelPacketDecode P (datagram.take tunnelPacketMaxSize) c.session.crypto with
  | none => rfl
  | some plaintext => simp [h]

end Sencd
