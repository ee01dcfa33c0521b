import Sencd.CallProgram
import Sencd.Crypto

/-!
# Frames and handshake messages

A frame carries a type, a protocol version and a payload that knows its own length, as
`PACKET` does with `payload_length`. The three handshake structs are copied field by field
into arrays of exactly their size and read back at the same offsets.
-/
namespace Sencd
open CallProgram

abbrev currentProtocolVersion : UInt8 := 1

/-- `PACKET_HEADER_T`. -/
inductive PacketType
  | clientHello
  | serverHello
  | authRequest
  | authResponse
  | authSuccess
  | authFail
  | keyExchange
  | keyConfirm
  | ping
  | pong
  | tunnelData
  | disconnect
  | error
  deriving DecidableEq, Repr

/-- A nonempty payload: `payload_length` and that many bytes. -/
structure Payload (Buf : ℕ → Type) where
  length : ℕ
  data : Buf length

/-- `PACKET`; no payload stands for `payload_length = 0` with a `NULL` pointer. -/
structure Packet (Buf : ℕ → Type) where
  type : PacketType
  version : UInt8
  payload : Option (Payload Buf)

variable {Buf : ℕ → Type}

/-- The payload as an `n`-byte object, provided `payload_length` is `n`. -/
def Packet.read (n : ℕ) (p : Packet Buf) : Option (Buf n) :=
  match p.payload with
  | none => none
  | some ⟨length, data⟩ => if h : length = n then some (h ▸ data) else none

theorem Packet.read_eq_some {n : ℕ} {p : Packet Buf} {x : Buf n} :
    p.read n = some x ↔ p.payload = some ⟨n, x⟩ := by
  obtain ⟨type, version, payload⟩ := p
  cases payload with
  | none => simp [Packet.read]
  | some payload =>
      obtain ⟨length, data⟩ := payload
      by_cases h : length = n
      · subst h
        simp [Packet.read]
      · simp [Packet.read, h]

/-- `AUTH_CHALLENGE_T`. -/
structure AuthChallenge (Buf : ℕ → Type) where
  signature : Buf cryptoSignatureSize
  publicKey : Buf cryptoPublicKeySize
  ephPublicKey : Buf cryptoKxPublicKeyBytes
  nonce : Buf authNonceSize

/-- `AUTH_RESPONSE_T`. -/
structure AuthResponse (Buf : ℕ → Type) where
  signature : Buf cryptoSignatureSize
  publicKey : Buf cryptoPublicKeySize
  ephPublicKey : Buf cryptoKxPublicKeyBytes

/-- `AUTH_SUCCESS_T`. -/
structure AuthSuccess (Buf : ℕ → Type) where
  sessionNonce : Buf sessionNonceSize
  sessionId : UInt64

abbrev sizeofAuthChallenge : ℕ :=
  cryptoSignatureSize + (cryptoPublicKeySize + (cryptoKxPublicKeyBytes + authNonceSize))

abbrev sizeofAuthResponse : ℕ :=
  cryptoSignatureSize + (cryptoPublicKeySize + cryptoKxPublicKeyBytes)

abbrev sizeofAuthSuccess : ℕ := sessionNonceSize + 8

/-- Both handshake signatures cover a challenge nonce followed by an ephemeral public key. -/
abbrev sizeofSignBuf : ℕ := authNonceSize + cryptoKxPublicKeyBytes

variable (M : Memory Buf)

def AuthChallenge.toBuf (c : AuthChallenge Buf) : Buf sizeofAuthChallenge :=
  M.append c.signature (M.append c.publicKey (M.append c.ephPublicKey c.nonce))

def AuthChallenge.ofBuf (x : Buf sizeofAuthChallenge) : AuthChallenge Buf :=
  let afterSignature := M.right _ _ x
  let afterKey := M.right _ _ afterSignature
  ⟨M.left _ _ x, M.left _ _ afterSignature, M.left _ _ afterKey, M.right _ _ afterKey⟩

@[simp] theorem AuthChallenge.ofBuf_toBuf (c : AuthChallenge Buf) :
    AuthChallenge.ofBuf M (c.toBuf M) = c := by
  simp [AuthChallenge.ofBuf, AuthChallenge.toBuf]

def AuthResponse.toBuf (r : AuthResponse Buf) : Buf sizeofAuthResponse :=
  M.append r.signature (M.append r.publicKey r.ephPublicKey)

def AuthResponse.ofBuf (x : Buf sizeofAuthResponse) : AuthResponse Buf :=
  let afterSignature := M.right _ _ x
  ⟨M.left _ _ x, M.left _ _ afterSignature, M.right _ _ afterSignature⟩

@[simp] theorem AuthResponse.ofBuf_toBuf (r : AuthResponse Buf) :
    AuthResponse.ofBuf M (r.toBuf M) = r := by
  simp [AuthResponse.ofBuf, AuthResponse.toBuf]

def AuthSuccess.toBuf (a : AuthSuccess Buf) : Buf sizeofAuthSuccess :=
  M.append a.sessionNonce (M.ofUInt64 a.sessionId)

def AuthSuccess.ofBuf (x : Buf sizeofAuthSuccess) : AuthSuccess Buf :=
  ⟨M.left _ _ x, M.toUInt64 (M.right _ _ x)⟩

@[simp] theorem AuthSuccess.ofBuf_toBuf (a : AuthSuccess Buf) :
    AuthSuccess.ofBuf M (a.toBuf M) = a := by
  simp [AuthSuccess.ofBuf, AuthSuccess.toBuf]

/-- `sign_buf`, `verify_buf` and `resp_sign_buf`. -/
def signBuf (nonce : Buf authNonceSize) (eph : Buf cryptoKxPublicKeyBytes) : Buf sizeofSignBuf :=
  M.append nonce eph

/-- Calls of the handshake into libc, libsodium and the frame functions of `packet.c`. -/
inductive Call (Buf : ℕ → Type)
  | malloc
  | close (fd : ℤ)
  | packetReceive (socket : ℤ)
  | packetSend (socket : ℤ) (packet : Packet Buf)
  | generateSessionId
  | randombytesBuf (size : ℕ)
  | cryptoKxKeypair
  | cryptoSignDetached (message : Buf sizeofSignBuf) (privateKey : Buf cryptoPrivateKeySize)
  | cryptoSignVerifyDetached (signature : Buf cryptoSignatureSize) (message : Buf sizeofSignBuf)
      (publicKey : Buf cryptoPublicKeySize)
  | cryptoKxServerSessionKeys (serverPk : Buf cryptoKxPublicKeyBytes)
      (serverSk : Buf cryptoKxSecretKeyBytes) (clientPk : Buf cryptoKxPublicKeyBytes)
  | cryptoKxClientSessionKeys (clientPk : Buf cryptoKxPublicKeyBytes)
      (clientSk : Buf cryptoKxSecretKeyBytes) (serverPk : Buf cryptoKxPublicKeyBytes)
  | cryptoConfigPath (filename : String)
  | cryptoTrustKeySave (key : Buf cryptoPublicKeySize)

/-- Answers: `false` and `none` stand for the failure return of the call. Key derivation
returns `rx` and `tx` in this order. -/
@[reducible] def Call.Answer : Call Buf → Type
  | .malloc => Bool
  | .close _ => Unit
  | .packetReceive _ => Option (Packet Buf)
  | .packetSend _ _ => Bool
  | .generateSessionId => UInt64
  | .randombytesBuf size => Buf size
  | .cryptoKxKeypair => Option (Buf cryptoKxPublicKeyBytes × Buf cryptoKxSecretKeyBytes)
  | .cryptoSignDetached _ _ => Option (Buf cryptoSignatureSize)
  | .cryptoSignVerifyDetached _ _ _ => Bool
  | .cryptoKxServerSessionKeys _ _ _ => Option (Buf cryptoSessionKeySize × Buf cryptoSessionKeySize)
  | .cryptoKxClientSessionKeys _ _ _ => Option (Buf cryptoSessionKeySize × Buf cryptoSessionKeySize)
  | .cryptoConfigPath _ => Bool
  | .cryptoTrustKeySave _ => Bool

/-- Programs over the calls of the handshake. -/
abbrev Handshake (Buf : ℕ → Type) (α : Type) := Prog (Call Buf) Call.Answer α

/-- The answered calls of one handshake. -/
abbrev Calls (Buf : ℕ → Type) := List (Event (@Call.Answer Buf))

/-- Issue a call. -/
def perform (c : Call Buf) : Handshake Buf c.Answer := Prog.perform c

@[simp] theorem perform_bind {α : Type} (c : Call Buf) (f : c.Answer → Handshake Buf α) :
    perform c >>= f = Prog.call c f := rfl

section Rules

variable {α : Type} {P : Calls Buf → Call Buf → Prop} {Q : Calls Buf → α → Prop} {h : Calls Buf}

theorem holds_perform {c : Call Buf} {f : c.Answer → Handshake Buf α} (hc : P h c)
    (hf : ∀ r, Holds P Q (h ++ [⟨c, r⟩]) (f r)) : Holds P Q h (perform c >>= f) := ⟨hc, hf⟩

variable {w : Call Buf → ℕ} {b : ℕ}

/-- A call of no weight leaves the bound to the rest. -/
theorem atMost_perform {c : Call Buf} {f : c.Answer → Handshake Buf α} (hc : w c = 0)
    (hf : ∀ r, AtMost w b (f r)) : AtMost w b (perform c >>= f) := by
  refine atMost_call.mpr ⟨by omega, fun r => ?_⟩
  rw [hc]
  exact hf r

theorem atMost_ite {c : Prop} [Decidable c] {p q : Handshake Buf α} (hp : AtMost w b p)
    (hq : AtMost w b q) : AtMost w b (if c then p else q) := by
  split_ifs
  · exact hp
  · exact hq

end Rules

/-- `packet_construct`: when the payload cannot be allocated, the frame goes out empty. -/
def packetConstruct (type : PacketType) (version : UInt8) (payload : Option (Payload Buf)) :
    Handshake Buf (Packet Buf) :=
  match payload with
  | none => pure ⟨type, version, none⟩
  | some data => do
      if ← perform .malloc then pure ⟨type, version, some data⟩ else pure ⟨type, version, none⟩

/-- A constructed frame carries its payload or nothing, after at most one allocation. -/
theorem holds_packetConstruct {α : Type} {P : Calls Buf → Call Buf → Prop}
    {Q : Calls Buf → α → Prop} {h : Calls Buf} {type : PacketType} {version : UInt8}
    {payload : Payload Buf} {f : Packet Buf → Handshake Buf α} (hm : P h .malloc)
    (hf : ∀ ok : Bool, Holds P Q (h ++ [⟨.malloc, ok⟩])
      (f ⟨type, version, if ok then some payload else none⟩)) :
    Holds P Q h (packetConstruct type version (some payload) >>= f) := by
  refine ⟨hm, fun ok => ?_⟩
  cases ok with
  | true => exact hf true
  | false => exact hf false

theorem atMost_packetConstruct {α : Type} {w : Call Buf → ℕ} {b : ℕ} {type : PacketType}
    {version : UInt8} {payload : Option (Payload Buf)} {f : Packet Buf → Handshake Buf α}
    (hm : w .malloc = 0) (hf : ∀ packet, AtMost w b (f packet)) :
    AtMost w b (packetConstruct type version payload >>= f) := by
  cases payload with
  | none => exact hf _
  | some payload =>
      refine atMost_perform hm fun ok => ?_
      cases ok with
      | true => exact hf _
      | false => exact hf _

section Frames

/-- The frames that were sent completely, in order. -/
def sentFrames (h : Calls Buf) : List (Packet Buf) :=
  h.filterMap fun
    | ⟨.packetSend _ packet, true⟩ => some packet
    | _ => none

/-- The frames that were received, in order. -/
def receivedFrames (h : Calls Buf) : List (Packet Buf) :=
  h.filterMap fun
    | ⟨.packetReceive _, answer⟩ => answer
    | _ => none

@[simp] theorem sentFrames_append (h h' : Calls Buf) :
    sentFrames (h ++ h') = sentFrames h ++ sentFrames h' := List.filterMap_append

@[simp] theorem receivedFrames_append (h h' : Calls Buf) :
    receivedFrames (h ++ h') = receivedFrames h ++ receivedFrames h' := List.filterMap_append

/-- Closing descriptors moves no frames. -/
@[simp] theorem sentFrames_closes (fds : List ℤ) :
    sentFrames (fds.map fun fd => ⟨.close fd, ()⟩ : Calls Buf) = [] := by
  induction fds with
  | nil => rfl
  | cons fd fds ih => exact ih

@[simp] theorem receivedFrames_closes (fds : List ℤ) :
    receivedFrames (fds.map fun fd => ⟨.close fd, ()⟩ : Calls Buf) = [] := by
  induction fds with
  | nil => rfl
  | cons fd fds ih => exact ih

theorem mem_sentFrames {h : Calls Buf} {packet : Packet Buf} (hm : packet ∈ sentFrames h) :
    ∃ socket, ⟨.packetSend socket packet, true⟩ ∈ h := by
  obtain ⟨e, he, hframe⟩ := List.mem_filterMap.mp hm
  split at hframe
  · obtain rfl := Option.some.inj hframe
    exact ⟨_, he⟩
  · contradiction

theorem mem_receivedFrames {h : Calls Buf} {socket : ℤ} {packet : Packet Buf}
    (hm : ⟨.packetReceive socket, some packet⟩ ∈ h) : packet ∈ receivedFrames h :=
  List.mem_filterMap.mpr ⟨_, hm, rfl⟩

end Frames

end Sencd
