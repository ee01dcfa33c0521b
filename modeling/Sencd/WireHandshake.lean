import Sencd.FrameTransfer
import Sencd.Session

/-!
# The handshake on the wire

The handshake with its frame calls replaced by the transfer of their bytes. The local calls are
answered by a device: the bytes it draws, the files it holds, and the functions of libsodium,
which are parameters.
-/
namespace Sencd
open ByteOrder CallProgram StreamNetwork Wire

/-- The functions of libsodium, and the pairs its key generations return. -/
structure Sodium where
  sign : ByteBuf sizeofSignBuf → ByteBuf cryptoPrivateKeySize → ByteBuf cryptoSignatureSize
  verify : ByteBuf cryptoSignatureSize → ByteBuf sizeofSignBuf → ByteBuf cryptoPublicKeySize → Bool
  serverKeys : ByteBuf cryptoKxPublicKeyBytes → ByteBuf cryptoKxSecretKeyBytes →
    ByteBuf cryptoKxPublicKeyBytes →
    Option (ByteBuf cryptoSessionKeySize × ByteBuf cryptoSessionKeySize)
  clientKeys : ByteBuf cryptoKxPublicKeyBytes → ByteBuf cryptoKxSecretKeyBytes →
    ByteBuf cryptoKxPublicKeyBytes →
    Option (ByteBuf cryptoSessionKeySize × ByteBuf cryptoSessionKeySize)
  signPair : ByteBuf cryptoPublicKeySize → ByteBuf cryptoPrivateKeySize → Prop
  kxPair : ByteBuf cryptoKxPublicKeyBytes → ByteBuf cryptoKxSecretKeyBytes → Prop

/-- Signatures verify, and the two ends derive the same keys. -/
structure Sodium.Lawful (S : Sodium) : Prop where
  verify_sign {pk : ByteBuf cryptoPublicKeySize} {sk : ByteBuf cryptoPrivateKeySize} :
    S.signPair pk sk → ∀ message, S.verify (S.sign message sk) message pk = true
  agree {pk pk' : ByteBuf cryptoKxPublicKeyBytes} {sk sk' : ByteBuf cryptoKxSecretKeyBytes} :
    S.kxPair pk sk → S.kxPair pk' sk' → ∃ rx tx, S.clientKeys pk sk pk' = some (rx, tx) ∧
      S.serverKeys pk' sk' pk = some (tx, rx)

/-- The laws are satisfiable: a signature is the signer's key and the start of the message, and
the session keys are the ephemeral public keys. -/
def plainSodium : Sodium where
  sign message sk := ⟨sk.1.drop 32 ++ message.1.take 32, by
    rw [List.length_append, List.length_drop, List.length_take, sk.2, message.2]
    rfl⟩
  verify signature message pk := signature.1 = pk.1 ++ message.1.take 32
  serverKeys serverPk _ clientPk := some (clientPk, serverPk)
  clientKeys clientPk _ serverPk := some (serverPk, clientPk)
  signPair pk sk := sk.1.drop 32 = pk.1
  kxPair pk sk := pk = sk

theorem plainSodium_lawful : plainSodium.Lawful where
  verify_sign {pk sk} h message := by
    have hpair : sk.1.drop 32 = pk.1 := h
    apply decide_eq_true
    rw [← hpair]
    rfl
  agree _ _ := ⟨_, _, rfl, rfl⟩

/-- What a machine answers during one handshake. It draws every size of random bytes once;
`file` is the file of the trusted key as it is found, `written` what a save leaves of a key. -/
structure Device where
  padding : ℕ → ByteBuf 2
  random : (size : ℕ) → ByteBuf size
  sessionId : UInt64
  ephPublicKey : ByteBuf cryptoKxPublicKeyBytes
  ephPrivateKey : ByteBuf cryptoKxSecretKeyBytes
  configPath : Bool
  file : Option Bytes
  opened : Bool
  written : (data : Bytes) → Fin (data.length + 1)

/-- The answer to the local call number `n`; allocations succeed. -/
def Device.answer (S : Sodium) (D : Device) (n : ℕ) : (i : LocalCall) → i.Answer
  | .headerPadding => D.padding n
  | .malloc => true
  | .close _ => ()
  | .generateSessionId => D.sessionId
  | .randombytesBuf size => D.random size
  | .cryptoKxKeypair => some (D.ephPublicKey, D.ephPrivateKey)
  | .cryptoSignDetached message privateKey => some (S.sign message privateKey)
  | .cryptoSignVerifyDetached signature message publicKey => S.verify signature message publicKey
  | .cryptoKxServerSessionKeys serverPk serverSk clientPk => S.serverKeys serverPk serverSk clientPk
  | .cryptoKxClientSessionKeys clientPk clientSk serverPk => S.clientKeys clientPk clientSk serverPk
  | .cryptoConfigPath _ => D.configPath
  | .fopenRead => D.file.isSome
  | .fread size => ⟨(D.file.getD []).take size, List.length_take_le _ _⟩
  | .fopenWrite => D.opened
  | .fwrite data => D.written data

/-- An array of one byte repeated. -/
def plainBuf (n : ℕ) (b : UInt8) : ByteBuf n := ⟨List.replicate n b, List.length_replicate⟩

/-- A machine whose ephemeral key is `b` repeated, and whose files cannot be written. -/
def plainDevice (b : UInt8) : Device where
  padding _ := plainBuf 2 0
  random size := plainBuf size b
  sessionId := 1
  ephPublicKey := plainBuf _ b
  ephPrivateKey := plainBuf _ b
  configPath := true
  file := none
  opened := false
  written _ := 0

/-- An identity whose key is `b` repeated. -/
def plainIdentity (host : Endian) (b : UInt8) : CryptoContext ByteBuf :=
  { cryptoContextInit (byteMemory host) with
    publicKey := plainBuf _ b, privateKey := plainBuf _ b }

theorem plainIdentity_pair (host : Endian) (b : UInt8) :
    plainSodium.signPair (plainIdentity host b).publicKey (plainIdentity host b).privateKey := rfl

/-- The sessions of a client with key 1 and a server with key 2. -/
def plainClient (host : Endian) : Session ByteBuf :=
  sessionCreated (byteMemory host) .client 4 [] (plainIdentity host 1) 0

def plainServer (host : Endian) (id : UInt64) : Session ByteBuf :=
  sessionCreated (byteMemory host) .server 5 [] (plainIdentity host 2) id

/-- `crypto_trust_key_save`; the results of `fwrite`, `fclose` and `chmod` are not looked at. -/
def cryptoTrustKeySave (key : ByteBuf cryptoPublicKeySize) : Wire Bool := do
  if ← own .fopenWrite then
    let _ ← own (.fwrite key.1)
    return true
  else return false

/-- What the calls of the handshake are on the wire. -/
def wireCall (host : Endian) : (c : Call ByteBuf) → Wire c.Answer
  | .malloc => own .malloc
  | .close fd => own (.close fd)
  | .packetReceive _ => packetReceive host
  | .packetSend _ packet => packetSend host packet
  | .generateSessionId => own .generateSessionId
  | .randombytesBuf size => own (.randombytesBuf size)
  | .cryptoKxKeypair => own .cryptoKxKeypair
  | .cryptoSignDetached message privateKey => own (.cryptoSignDetached message privateKey)
  | .cryptoSignVerifyDetached signature message publicKey =>
      own (.cryptoSignVerifyDetached signature message publicKey)
  | .cryptoKxServerSessionKeys serverPk serverSk clientPk =>
      own (.cryptoKxServerSessionKeys serverPk serverSk clientPk)
  | .cryptoKxClientSessionKeys clientPk clientSk serverPk =>
      own (.cryptoKxClientSessionKeys clientPk clientSk serverPk)
  | .cryptoConfigPath filename => own (.cryptoConfigPath filename)
  | .cryptoTrustKeySave key => cryptoTrustKeySave key

/-- A handshake function down to the calls of `send` and `recv`. -/
def onWire {α : Type} (host : Endian) (p : Handshake ByteBuf α) : Wire α :=
  p.interpret (wireCall host)

theorem wireCall_fragmentable (host : Endian) (c : Call ByteBuf) :
    Fragmentable (wireCall host c) := by
  cases c with
  | packetReceive _ => exact packetReceive_fragmentable host
  | packetSend _ packet => exact packetSend_fragmentable host packet
  | cryptoTrustKeySave key =>
      intro ok
      cases ok with
      | false => trivial
      | true => exact fun _ => trivial
  | _ => exact fun _ => trivial

theorem onWire_fragmentable {α : Type} (host : Endian) (p : Handshake ByteBuf α) :
    Fragmentable (onWire host p) := by
  induction p with
  | ret a => trivial
  | call c k ih => exact (wireCall_fragmentable host c).bind ih

/-- A call and its answer when the sockets and the device do their work. -/
def Granted (S : Sodium) (D : Device) : Event (@Call.Answer ByteBuf) → Prop
  | ⟨.malloc, ok⟩ => ok = true
  | ⟨.close _, _⟩ => True
  | ⟨.packetReceive _, r⟩ => ∃ packet, r = some packet ∧ packet.Valid
  | ⟨.packetSend _ packet, ok⟩ => ok = true ∧ packet.payloadLength ≤ maxPacketSize
  | ⟨.generateSessionId, id⟩ => id = D.sessionId
  | ⟨.randombytesBuf size, bytes⟩ => bytes = D.random size
  | ⟨.cryptoKxKeypair, r⟩ => r = some (D.ephPublicKey, D.ephPrivateKey)
  | ⟨.cryptoSignDetached message privateKey, r⟩ => r = some (S.sign message privateKey)
  | ⟨.cryptoSignVerifyDetached signature message publicKey, ok⟩ =>
      ok = S.verify signature message publicKey
  | ⟨.cryptoKxServerSessionKeys serverPk serverSk clientPk, r⟩ =>
      r = S.serverKeys serverPk serverSk clientPk
  | ⟨.cryptoKxClientSessionKeys clientPk clientSk serverPk, r⟩ =>
      r = S.clientKeys clientPk clientSk serverPk
  | ⟨.cryptoConfigPath _, ok⟩ => ok = D.configPath
  | ⟨.cryptoTrustKeySave _, ok⟩ => ok = D.opened

variable {S : Sodium} {D : Device} {host : Endian}

/-- A granted call runs on the wire: it takes the frame it receives and leaves the one it
sends. -/
theorem runs_wireCall {c : Call ByteBuf} {r : c.Answer} (h : Granted S D ⟨c, r⟩) {bytes : Bytes}
    (hbytes : FramesOf (receivedFrames [⟨c, r⟩]) bytes) (n : ℕ) (rest : Bytes) :
    ∃ m out, FramesOf (sentFrames [⟨c, r⟩]) out ∧
      Runs (D.answer S) ⟨wireCall host c, n⟩ (bytes ++ rest) ⟨.ret r, m⟩ rest out := by
  have hlocal : ∀ {i : LocalCall} {r : i.Answer} {inbox : Bytes}, r = D.answer S n i →
      Runs (D.answer S) ⟨own i, n⟩ inbox ⟨.ret r, n + 1⟩ inbox [] := by
    rintro i r inbox rfl
    exact .own (.refl _ _)
  cases c with
  | packetReceive socket =>
      obtain ⟨packet, rfl, hvalid⟩ := h
      cases hbytes with
      | cons padding hnil =>
          cases hnil
          have hmalloc : ∀ n, D.answer S n .malloc = true := fun _ => rfl
          obtain ⟨m, hrun⟩ := runs_packetReceive host n hvalid (fun _ => hmalloc) padding rest
          refine ⟨m, [], .nil, ?_⟩
          rw [List.append_nil]
          exact hrun
  | packetSend socket packet =>
      obtain ⟨rfl, hlen⟩ := h
      cases hbytes
      have hrun := runs_packetSend host (D.answer S) n hlen rest
      refine ⟨n + 1, _, .cons (D.padding n) .nil, ?_⟩
      rw [List.append_nil]
      exact hrun
  | cryptoTrustKeySave key =>
      cases hbytes
      obtain rfl : r = D.opened := h
      have hopen : Runs (D.answer S) ⟨cryptoTrustKeySave key, n⟩ rest
          ⟨if D.opened then own (.fwrite key.1) >>= fun _ => return true else return false, n + 1⟩
          rest [] := .own (.refl _ _)
      cases hopened : D.opened with
      | true =>
          rw [hopened] at hopen
          exact ⟨n + 2, [], .nil, hopen.trans (.own (.refl _ _))⟩
      | false =>
          rw [hopened] at hopen
          exact ⟨n + 1, [], .nil, hopen⟩
  | close fd =>
      cases hbytes
      exact ⟨n + 1, [], .nil, hlocal rfl⟩
  | _ =>
      cases hbytes
      exact ⟨n + 1, [], .nil, hlocal h⟩

/-- Granted calls of a handshake run on the wire. -/
theorem runs_onWire {α : Type} (host : Endian) {p q : Handshake ByteBuf α} {t : Calls ByteBuf}
    (hx : Exec p t q) (h : ∀ e ∈ t, Granted S D e) {bytes : Bytes}
    (hbytes : FramesOf (receivedFrames t) bytes)
    (n : ℕ) (rest : Bytes) :
    ∃ m out, FramesOf (sentFrames t) out ∧
      Runs (D.answer S) ⟨onWire host p, n⟩ (bytes ++ rest) ⟨onWire host q, m⟩ rest out := by
  induction hx generalizing n bytes with
  | nil =>
      cases hbytes
      exact ⟨n, [], .nil, .refl _ _⟩
  | @cons c r k t q _ ih =>
      have hreceived : receivedFrames (⟨c, r⟩ :: t) = receivedFrames [⟨c, r⟩] ++ receivedFrames t :=
        receivedFrames_append [⟨c, r⟩] t
      have hsent : sentFrames (⟨c, r⟩ :: t) = sentFrames [⟨c, r⟩] ++ sentFrames t :=
        sentFrames_append [⟨c, r⟩] t
      rw [hreceived] at hbytes
      obtain ⟨front, back, rfl, hfront, hback⟩ := hbytes.split
      obtain ⟨l, out, hout, hfirst⟩ := runs_wireCall (h _ (by simp)) hfront n (back ++ rest)
      obtain ⟨m, out', hout', hrest⟩ := ih (fun e he => h e (by simp [he])) hback l
      refine ⟨m, out ++ out', ?_, ?_⟩
      · rw [hsent]
        exact hout.append hout'
      · rw [List.append_assoc]
        exact (hfirst.bind fun r => onWire host (k r)).trans hrest

end Sencd
