import Sencd.Session
import Sencd.SlotTable
import Sencd.Tunnel

/-!
# The session manager

`session_manager.c`. Sessions are kept by value in the slots of the table, and `tun` says
whether the TUN pointer is set. A loop body of a thread is a function of one received
datagram or packet; where the C code says `continue`, the body returns without output.
-/
namespace Sencd
open ByteOrder CallProgram

abbrev maxSessions : ℕ := 1024

/-- `SERVER_DEFAULT_VNI`, in network order. -/
def serverDefaultVni : Bytes := [10, 8, 0, 1]

/-- `DEFAULT_NETMASK`, in network order. -/
def defaultNetmask : Bytes := [255, 255, 255, 0]

/-- `SESSION_MANAGER_T` without its lock. -/
structure SessionManager (Buf : ℕ → Type) where
  sessions : SlotTable.Table maxSessions (Session Buf)
  identity : CryptoContext Buf
  tun : Bool
  sessionCount : UInt32
  udpSocket : ℤ

/-- What a manager function does to the outside, in order. -/
inductive Effect (Buf : ℕ → Type)
  | packetSend (socket : ℤ) (packet : Packet Buf)
  | close (fd : ℤ)
  | tunClose

variable {Buf : ℕ → Type}

section Setup

variable (M : Memory Buf)

/-- `session_manager_init`, given the identity loaded or created and whether the TUN device
could be opened. -/
def sessionManagerInit (identity : Option (CryptoContext Buf)) (tunOpened : Bool) :
    ℕ × SessionManager Buf :=
  let m : SessionManager Buf := ⟨fun _ => none, cryptoContextInit M, false, 0, -1⟩
  match identity with
  | none => (1, m)
  | some identity =>
    let m := { m with identity := identity }
    if tunOpened then (0, { m with tun := true }) else (1, m)

/-- `session_manager_udp_bind`, given the results of `socket` and `bind`. -/
def sessionManagerUdpBind (m : SessionManager Buf) (socket : ℤ) (bound : Bool) :
    ℕ × SessionManager Buf × List (Effect Buf) :=
  if socket < 0 then (1, { m with udpSocket := socket }, [])
  else if bound then (0, { m with udpSocket := socket }, [])
  else (1, { m with udpSocket := -1 }, [.close socket])

/-- The manager when the threads of `start_server_environment` begin. -/
def startedManager (identity : CryptoContext Buf) (udpSocket : ℤ) : SessionManager Buf :=
  (sessionManagerUdpBind (sessionManagerInit M (some identity) true).2 udpSocket true).2.1

@[simp] theorem startedManager_sessions (identity : CryptoContext Buf) (udpSocket : ℤ) :
    (startedManager M identity udpSocket).sessions = fun _ => none := by
  by_cases h : udpSocket < 0 <;>
    simp [startedManager, sessionManagerUdpBind, sessionManagerInit, h]

@[simp] theorem startedManager_tun (identity : CryptoContext Buf) (udpSocket : ℤ) :
    (startedManager M identity udpSocket).tun = true := by
  by_cases h : udpSocket < 0 <;>
    simp [startedManager, sessionManagerUdpBind, sessionManagerInit, h]

@[simp] theorem startedManager_identity (identity : CryptoContext Buf) (udpSocket : ℤ) :
    (startedManager M identity udpSocket).identity = identity := by
  by_cases h : udpSocket < 0 <;>
    simp [startedManager, sessionManagerUdpBind, sessionManagerInit, h]

@[simp] theorem startedManager_udpSocket (identity : CryptoContext Buf) (udpSocket : ℤ) :
    (startedManager M identity udpSocket).udpSocket = udpSocket := by
  by_cases h : udpSocket < 0 <;>
    simp [startedManager, sessionManagerUdpBind, sessionManagerInit, h]

end Setup

section Table

/-- Put the session in the first free slot; `none` is the return with code 1, which leaves
the manager as it was. The stored session is returned as well. -/
def sessionManagerAdd (m : SessionManager Buf) (s : Session Buf) :
    Option (SessionManager Buf × Session Buf) :=
  match SlotTable.free m.sessions with
  | none => none
  | some i =>
    let s := { s with tunnelIpOctet := UInt8.ofNat (i.val + 2) }
    some ({ m with
      sessions := Function.update m.sessions i (some s)
      sessionCount := m.sessionCount + 1 }, s)

/-- The scan of `session_manager_get` and `session_manager_remove`. -/
def sessionManagerFind (m : SessionManager Buf) (sessionId : UInt64) :
    Option (Fin maxSessions × Session Buf) :=
  SlotTable.find m.sessions fun s => s.sessionId = sessionId

def sessionManagerGet (m : SessionManager Buf) (sessionId : UInt64) : Option (Session Buf) :=
  (sessionManagerFind m sessionId).map Prod.snd

/-- `none` is the return with code 1, which leaves the manager as it was. -/
def sessionManagerRemove (M : Memory Buf) (m : SessionManager Buf) (sessionId : UInt64) :
    Option (SessionManager Buf × List (Effect Buf)) :=
  match sessionManagerFind m sessionId with
  | none => none
  | some (i, s) =>
    some ({ m with
      sessions := Function.update m.sessions i none
      sessionCount := m.sessionCount - 1 }, (sessionDestroy M s).2.map .close)

/-- The notice and the closes `session_manager_disconnect_all` issues for one slot. -/
def disconnectEffects (M : Memory Buf) : Option (Session Buf) → List (Effect Buf)
  | none => []
  | some s => .packetSend s.socket ⟨.disconnect, s.protocolVersion, none⟩ ::
      (sessionDestroy M s).2.map .close

def sessionManagerDisconnectAll (M : Memory Buf) (m : SessionManager Buf) :
    SessionManager Buf × List (Effect Buf) :=
  ({ m with sessions := fun _ => none, sessionCount := 0, tun := false },
    (List.finRange maxSessions).flatMap (fun i => disconnectEffects M (m.sessions i)) ++
      if m.tun then [.tunClose] else [])

/-- Close descriptors from inside a handshake. -/
def closeAll : List ℤ → Handshake Buf Unit
  | [] => pure ()
  | fd :: fds => do
      perform (.close fd)
      closeAll fds

/-- The end of `session_manager_connect`: store the session or destroy it. -/
def sessionManagerStore (M : Memory Buf) (m : SessionManager Buf) (s : Session Buf) :
    Handshake Buf (SessionManager Buf × Option (Session Buf)) :=
  match sessionManagerAdd m s with
  | some (m', s') => return (m', some s')
  | none => do
    closeAll (sessionDestroy M s).2
    return (m, none)

/-- Of the manager, the handshake reads the identity only, which never changes; the table is
touched by the final `session_manager_add` alone. `m` is therefore the manager at that
moment, whatever other threads did to it while the handshake was under way. -/
def sessionManagerConnect (M : Memory Buf) (m : SessionManager Buf) (role : SessionRole)
    (socket : ℤ) (ip : List Char) :
    Handshake Buf (SessionManager Buf × Option (Session Buf)) := do
  if ← perform .malloc then
    let (code, s) ← sessionCreate M role socket ip m.identity none
    if code ≠ 0 then return (m, none) else
    let (code, s) ← sessionServerConnect M s
    if code ≠ 0 then
      closeAll (sessionDestroy M s).2
      return (m, none)
    else
      sessionManagerStore M m s
  else
    return (m, none)

end Table

section Threads

variable (P : Platform Buf)

/-- The session a datagram is handled under: the one its clear session id names. -/
def udpListenerTarget (m : SessionManager Buf) (buffer : Bytes) :
    Option (Fin maxSessions × Session Buf) :=
  match tunnelPacketPeekSessionId P buffer with
  | none => none
  | some id => sessionManagerFind m id

/-- One turn of `session_manager_udp_listener` on a datagram from `sender`. `recvfrom` cuts
the datagram to the buffer. The second component is the packet written to the TUN. -/
def sessionManagerUdpListener (m : SessionManager Buf) (sender : SockaddrIn) (datagram : Bytes) :
    SessionManager Buf × Option Bytes :=
  let buffer := datagram.take tunnelPacketMaxSize
  if m.udpSocket < 0 ∨ buffer = [] then (m, none) else
  match udpListenerTarget P m buffer with
  | none => (m, none)
  | some (i, s) =>
    let s := { s with udp := { s.udp with peerAddr := sender, peerKnown := true } }
    let m := { m with sessions := Function.update m.sessions i (some s) }
    match tunnelPacketDecode P buffer s.crypto with
    | none => (m, none)
    | some plaintext =>
      let packet := tunnelPipelineDecompress P plaintext tunnelPacketMaxPlaintext
      if packet = [] then (m, none)
      else (m, if m.tun then some packet else none)

/-- The test of the lookup loop in `session_manager_tun_sender`. -/
def tunSenderAccepts (destOctet : UInt8) (s : Session Buf) : Bool :=
  decide (s.state = .established) && s.udp.peerKnown && decide (s.tunnelIpOctet = destOctet)

/-- A datagram handed to `sendto`, with the slot whose session it was encoded for. -/
structure TunSend where
  slot : Fin maxSessions
  peer : SockaddrIn
  datagram : Bytes

/-- The packed packet and the session one turn of `session_manager_tun_sender` encodes it
for, up to the end of the lookup loop. `tun_read` cuts the packet to the buffer. -/
def tunSenderTarget (m : SessionManager Buf) (packet : Bytes) :
    Option (Bytes × Fin maxSessions × Session Buf) :=
  let raw := packet.take tunnelPacketMaxPlaintext
  if m.tun = false ∨ m.udpSocket < 0 ∨ raw.length < 20 then none else
  let compressed := tunnelPipelineCompress P raw tunnelPacketMaxPlaintext
  if compressed = [] then none else
  (SlotTable.find m.sessions (tunSenderAccepts (raw.getD 19 0))).map fun target =>
    (compressed, target)

/-- One turn of `session_manager_tun_sender` on a packet read from the TUN. -/
def sessionManagerTunSender (m : SessionManager Buf) (packet : Bytes) :
    SessionManager Buf × Option TunSend :=
  match tunSenderTarget P m packet with
  | none => (m, none)
  | some (compressed, i, s) =>
    let sent := { s with crypto := { s.crypto with txNonce := s.crypto.txNonce + 1 } }
    let m := { m with sessions := Function.update m.sessions i (some sent) }
    match tunnelPacketEncode P ⟨s.sessionId, s.crypto.txNonce, compressed⟩ s.crypto with
    | none => (m, none)
    | some datagram => (m, some ⟨i, s.udp.peerAddr, datagram⟩)

end Threads

end Sencd
