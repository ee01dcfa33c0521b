import Sencd.Crypto
import Sencd.Packet
import Sencd.StreamNetwork

/-!
# Frames on the wire

The frame functions of `packet.c` down to the calls of `send` and `recv`. The kernel may take or
deliver any part of what it is asked to transfer, so the two transfer loops accumulate offsets.
A frame is an eight-byte header, with two bytes of padding, followed by its payload.
-/
namespace Sencd
open ByteOrder CallProgram StreamNetwork

abbrev maxPacketSize : ℕ := 0x1000000

/-- The calls of a handshake that stay on the machine. The bytes of a structure's padding are
whatever its memory held. -/
inductive LocalCall
  | headerPadding
  | malloc
  | close (fd : ℤ)
  | generateSessionId
  | randombytesBuf (size : ℕ)
  | cryptoKxKeypair
  | cryptoSignDetached (message : ByteBuf sizeofSignBuf) (privateKey : ByteBuf cryptoPrivateKeySize)
  | cryptoSignVerifyDetached (signature : ByteBuf cryptoSignatureSize)
      (message : ByteBuf sizeofSignBuf) (publicKey : ByteBuf cryptoPublicKeySize)
  | cryptoKxServerSessionKeys (serverPk : ByteBuf cryptoKxPublicKeyBytes)
      (serverSk : ByteBuf cryptoKxSecretKeyBytes) (clientPk : ByteBuf cryptoKxPublicKeyBytes)
  | cryptoKxClientSessionKeys (clientPk : ByteBuf cryptoKxPublicKeyBytes)
      (clientSk : ByteBuf cryptoKxSecretKeyBytes) (serverPk : ByteBuf cryptoKxPublicKeyBytes)
  | cryptoConfigPath (filename : String)
  | fopenRead
  | fread (size : ℕ)
  | fopenWrite
  | fwrite (data : Bytes)

/-- The file calls are on the file of the trusted key; `fwrite` is answered by the number of
bytes in the file once it has been closed. -/
@[reducible] def LocalCall.Answer : LocalCall → Type
  | .headerPadding => ByteBuf 2
  | .malloc => Bool
  | .close _ => Unit
  | .generateSessionId => UInt64
  | .randombytesBuf size => ByteBuf size
  | .cryptoKxKeypair => Option (ByteBuf cryptoKxPublicKeyBytes × ByteBuf cryptoKxSecretKeyBytes)
  | .cryptoSignDetached _ _ => Option (ByteBuf cryptoSignatureSize)
  | .cryptoSignVerifyDetached _ _ _ => Bool
  | .cryptoKxServerSessionKeys _ _ _ =>
      Option (ByteBuf cryptoSessionKeySize × ByteBuf cryptoSessionKeySize)
  | .cryptoKxClientSessionKeys _ _ _ =>
      Option (ByteBuf cryptoSessionKeySize × ByteBuf cryptoSessionKeySize)
  | .cryptoConfigPath _ => Bool
  | .fopenRead => Bool
  | .fread size => { bytes : Bytes // bytes.length ≤ size }
  | .fopenWrite => Bool
  | .fwrite data => Fin (data.length + 1)

/-- Programs over sockets and local calls. -/
abbrev Wire (α : Type) := StreamProg UInt8 LocalCall.Answer α

/-- The answered calls of one such program. -/
abbrev WireCalls := List (Event (StreamCall.Answer (α := UInt8) LocalCall.Answer))

namespace Wire

def send (data : Bytes) : Wire (Fin (data.length + 1)) :=
  Prog.call (StreamCall.send data) Prog.ret

def recv (limit : ℕ) : Wire { chunk : Bytes // chunk.length ≤ limit } :=
  Prog.call (StreamCall.recv limit) Prog.ret

def own (i : LocalCall) : Wire i.Answer := Prog.call (StreamCall.own i) Prog.ret

variable {α : Type}

@[simp] theorem send_bind (data : Bytes) (f : Fin (data.length + 1) → Wire α) :
    send data >>= f = .call (.send data) f := rfl

@[simp] theorem recv_bind (limit : ℕ) (f : { chunk : Bytes // chunk.length ≤ limit } → Wire α) :
    recv limit >>= f = .call (.recv limit) f := rfl

@[simp] theorem own_bind (i : LocalCall) (f : i.Answer → Wire α) :
    own i >>= f = .call (.own i) f := rfl

end Wire

open Wire

/-- `send_all`, with `totalSent` bytes sent; `false` is the return of -1. -/
def sendAll (buffer : Bytes) (totalSent : ℕ) : Wire Bool := do
  if _h : totalSent < buffer.length then
    let sent ← send (buffer.drop totalSent)
    if _hsent : sent.val = 0 then return false
    else sendAll buffer (totalSent + sent.val)
  else return true
termination_by buffer.length - totalSent

/-- The bytes in a buffer of the given length that is being filled. -/
abbrev Filled (length : ℕ) : Type := { bytes : Bytes // bytes.length ≤ length }

def Filled.empty (length : ℕ) : Filled length := ⟨[], Nat.zero_le _⟩

/-- Fill up with a chunk that fits into the rest. -/
def Filled.more {length : ℕ} (received : Filled length)
    (chunk : Filled (length - received.1.length)) : Filled length :=
  ⟨received.1 ++ chunk.1, by
    have hle := received.2
    have hfit := chunk.2
    rw [List.length_append]
    omega⟩

/-- `recv_all`, with the bytes received so far. -/
def recvAll (length : ℕ) (received : Filled length) : Wire (Option (ByteBuf length)) := do
  if h : received.1.length < length then
    let chunk ← recv (length - received.1.length)
    if _hchunk : chunk.1 = [] then return none
    else recvAll length (received.more chunk)
  else return some ⟨received.1, le_antisymm received.2 (not_lt.mp h)⟩
termination_by length - received.1.length
decreasing_by
  have hpos : 0 < chunk.1.length := List.length_pos_iff.mpr _hchunk
  simp only [Filled.more, List.length_append]
  omega

/-- The byte of a `PACKET_HEADER_T` in the header. -/
def PacketType.toByte : PacketType → UInt8
  | .clientHello => 0
  | .serverHello => 1
  | .authRequest => 2
  | .authResponse => 3
  | .authSuccess => 4
  | .authFail => 5
  | .keyExchange => 6
  | .keyConfirm => 7
  | .ping => 8
  | .pong => 9
  | .tunnelData => 10
  | .disconnect => 11
  | .error => 12

/-- The type of a header byte, unless it is above `PACKET_ERROR`. -/
def PacketType.ofByte (b : UInt8) : Option PacketType :=
  match b.toNat with
  | 0 => some .clientHello
  | 1 => some .serverHello
  | 2 => some .authRequest
  | 3 => some .authResponse
  | 4 => some .authSuccess
  | 5 => some .authFail
  | 6 => some .keyExchange
  | 7 => some .keyConfirm
  | 8 => some .ping
  | 9 => some .pong
  | 10 => some .tunnelData
  | 11 => some .disconnect
  | 12 => some .error
  | _ => none

theorem PacketType.ofByte_eq_some {b : UInt8} {type : PacketType} :
    PacketType.ofByte b = some type ↔ b = type.toByte := by
  constructor
  · intro h
    rw [← UInt8.toNat_inj]
    unfold PacketType.ofByte at h
    split at h <;> cases h <;> assumption
  · rintro rfl
    cases type <;> rfl

def Packet.payloadLength (packet : Packet ByteBuf) : ℕ :=
  match packet.payload with
  | none => 0
  | some payload => payload.length

def Packet.payloadBytes (packet : Packet ByteBuf) : Bytes :=
  match packet.payload with
  | none => []
  | some payload => payload.data.1

@[simp] theorem Packet.payloadBytes_length (packet : Packet ByteBuf) :
    packet.payloadBytes.length = packet.payloadLength := by
  obtain ⟨type, version, _ | payload⟩ := packet
  · rfl
  · exact payload.data.2

abbrev sizeofPacketHeader : ℕ := 8

/-- `PACKET_HEADER` in the memory of the sender. -/
def packetHeader (host : Endian) (packet : Packet ByteBuf) (padding : ByteBuf 2) : Bytes :=
  objectBytes host 4 (htobe32 host (.ofNat packet.payloadLength)).toNat ++
    (packet.version :: packet.type.toByte :: padding.1)

def packetSend (host : Endian) (packet : Packet ByteBuf) : Wire Bool := do
  let padding ← own .headerPadding
  if packet.payloadLength > maxPacketSize then return false else
  if ← sendAll (packetHeader host packet padding) 0 then
    if packet.payloadLength > 0 then sendAll packet.payloadBytes 0 else return true
  else return false

/-- The payload of a frame whose header has been accepted. -/
def packetReceivePayload (type : PacketType) (version : UInt8) (payloadLength : ℕ) :
    Wire (Option (Packet ByteBuf)) := do
  if payloadLength > 0 then
    if ← own .malloc then
      let some data ← recvAll payloadLength (.empty _) | return none
      return some ⟨type, version, some ⟨payloadLength, data⟩⟩
    else return none
  else return some ⟨type, version, none⟩

/-- `payload_length` in host order, out of a received header. -/
def headerPayloadLength (host : Endian) (header : Bytes) : ℕ :=
  (be32toh host (.ofNat (ofObjectBytes host (header.take 4)))).toNat

/-- The checks of a received header. -/
def packetReceiveChecked (host : Endian) (header : Bytes) : Wire (Option (Packet ByteBuf)) :=
  let payloadLength := headerPayloadLength host header
  let version := header.getD 4 0
  if version ≠ currentProtocolVersion then return none else
  match PacketType.ofByte (header.getD 5 0) with
  | none => return none
  | some type =>
    if payloadLength > maxPacketSize then return none else
    packetReceivePayload type version payloadLength

/-- `packet_receive`; `none` is the return of 1. -/
def packetReceive (host : Endian) : Wire (Option (Packet ByteBuf)) := do
  let some header ← recvAll sizeofPacketHeader (.empty _) | return none
  packetReceiveChecked host header.1

end Sencd
