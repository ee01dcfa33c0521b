import Sencd.ClientSpec
import Sencd.ServerRun

/-!
# Handshakes that succeed

When every call is answered in its favour a handshake runs to its end. The calls are listed
for the server up to and after the challenge it sends, and for the client up to and after the
response it sends. Received payloads are arbitrary arrays of the right size.

A connection whose handshake succeeds fills the first free slot. With a full table the same
handshake, `AUTH_SUCCESS` included, ends with the session destroyed.
-/
namespace Sencd
open CallProgram

variable {Buf : ℕ → Type} (M : Memory Buf)

/-- The answers with which a server completes its handshake. -/
structure ServerAnswers (Buf : ℕ → Type) where
  nonce : Buf authNonceSize
  ephPublicKey : Buf cryptoKxPublicKeyBytes
  ephPrivateKey : Buf cryptoKxSecretKeyBytes
  signature : Buf cryptoSignatureSize
  response : Buf sizeofAuthResponse
  rxKey : Buf cryptoSessionKeySize
  txKey : Buf cryptoSessionKeySize
  sessionNonce : Buf sessionNonceSize

/-- The calls of `session_server_connect` up to the challenge. -/
def serverOpening (s : Session Buf) (v : ServerAnswers Buf) : Calls Buf :=
  [⟨.packetReceive s.socket, some ⟨.clientHello, currentProtocolVersion, none⟩⟩,
    ⟨.packetSend s.socket ⟨.serverHello, s.protocolVersion, none⟩, true⟩,
    ⟨.randombytesBuf authNonceSize, v.nonce⟩,
    ⟨.cryptoKxKeypair, some (v.ephPublicKey, v.ephPrivateKey)⟩,
    ⟨.cryptoSignDetached (signBuf M v.nonce v.ephPublicKey) s.crypto.privateKey, some v.signature⟩,
    ⟨.malloc, true⟩,
    ⟨.packetSend s.socket ⟨.authRequest, s.protocolVersion, some ⟨_, AuthChallenge.toBuf M
      ⟨v.signature, s.crypto.publicKey, v.ephPublicKey, v.nonce⟩⟩⟩, true⟩]

/-- The calls of `session_server_connect` from the response on. -/
def serverClosing (s : Session Buf) (v : ServerAnswers Buf) : Calls Buf :=
  [⟨.packetReceive s.socket, some ⟨.authResponse, currentProtocolVersion, some ⟨_, v.response⟩⟩⟩,
    verifyResponse M v.nonce (AuthResponse.ofBuf M v.response) true,
    ⟨.cryptoKxServerSessionKeys v.ephPublicKey v.ephPrivateKey
      (AuthResponse.ofBuf M v.response).ephPublicKey, some (v.rxKey, v.txKey)⟩,
    ⟨.randombytesBuf sessionNonceSize, v.sessionNonce⟩,
    ⟨.malloc, true⟩,
    ⟨.packetSend s.socket ⟨.authSuccess, s.protocolVersion, some ⟨_, AuthSuccess.toBuf M
      ⟨v.sessionNonce, s.sessionId⟩⟩⟩, true⟩]

/-- The session such a handshake leaves. -/
def serverFinal (s : Session Buf) (v : ServerAnswers Buf) : Session Buf :=
  { s with
    crypto := { s.crypto with
      ephPublicKey := v.ephPublicKey
      ephPrivateKey := v.ephPrivateKey
      peerPublicKey := (AuthResponse.ofBuf M v.response).publicKey
      rxKey := v.rxKey
      txKey := v.txKey
      verified := true }
    authNonce := v.nonce
    sessionNonce := v.sessionNonce
    state := .established }

theorem sessionServerConnect_exec (s : Session Buf) (v : ServerAnswers Buf) :
    Exec (sessionServerConnect M s) (serverOpening M s v ++ serverClosing M s v)
      (.ret (0, serverFinal M s v)) := by
  refine .cons (.cons (.cons (.cons (.cons (.cons (.cons ?_))))))
  exact .cons (.cons (.cons (.cons (.cons (.cons (.nil _))))))

/-- The answers with which a client that trusts a key completes its handshake. -/
structure ClientAnswers (Buf : ℕ → Type) where
  challenge : Buf sizeofAuthChallenge
  ephPublicKey : Buf cryptoKxPublicKeyBytes
  ephPrivateKey : Buf cryptoKxSecretKeyBytes
  rxKey : Buf cryptoSessionKeySize
  txKey : Buf cryptoSessionKeySize
  signature : Buf cryptoSignatureSize
  success : Buf sizeofAuthSuccess

/-- The calls of `session_client_connect` up to the response. -/
def clientOpening (s : Session Buf) (v : ClientAnswers Buf) : Calls Buf :=
  let c := AuthChallenge.ofBuf M v.challenge
  [⟨.packetSend s.socket ⟨.clientHello, currentProtocolVersion, none⟩, true⟩,
    ⟨.packetReceive s.socket, some ⟨.serverHello, currentProtocolVersion, none⟩⟩,
    ⟨.packetReceive s.socket, some ⟨.authRequest, currentProtocolVersion, some ⟨_, v.challenge⟩⟩⟩,
    verifyChallenge M c true,
    ⟨.cryptoKxKeypair, some (v.ephPublicKey, v.ephPrivateKey)⟩,
    ⟨.cryptoKxClientSessionKeys v.ephPublicKey v.ephPrivateKey c.ephPublicKey,
      some (v.rxKey, v.txKey)⟩,
    ⟨.cryptoSignDetached (signBuf M c.nonce v.ephPublicKey) s.crypto.privateKey, some v.signature⟩,
    ⟨.malloc, true⟩,
    ⟨.packetSend s.socket ⟨.authResponse, s.protocolVersion, some ⟨_, AuthResponse.toBuf M
      ⟨v.signature, s.crypto.publicKey, v.ephPublicKey⟩⟩⟩, true⟩]

/-- The last call of `session_client_connect`. -/
def clientClosing (s : Session Buf) (v : ClientAnswers Buf) : Calls Buf :=
  [⟨.packetReceive s.socket, some ⟨.authSuccess, currentProtocolVersion, some ⟨_, v.success⟩⟩⟩]

/-- The session such a handshake leaves. -/
def clientFinal (s : Session Buf) (v : ClientAnswers Buf) : Session Buf :=
  { s with
    crypto := { s.crypto with
      peerPublicKey := (AuthChallenge.ofBuf M v.challenge).publicKey
      ephPublicKey := v.ephPublicKey
      ephPrivateKey := v.ephPrivateKey
      rxKey := v.rxKey
      txKey := v.txKey }
    sessionId := (AuthSuccess.ofBuf M v.success).sessionId
    sessionNonce := (AuthSuccess.ofBuf M v.success).sessionNonce
    state := .established }

theorem sessionReadChallenge_exec [DecidableEq (Buf cryptoPublicKeySize)] (s : Session Buf)
    (x : Buf sizeofAuthChallenge) (hhas : s.hasTrustedPeerKey = true)
    (hkey : (AuthChallenge.ofBuf M x).publicKey = s.trustedPeerKey) :
    Exec (sessionReadChallenge M s)
      [⟨.packetReceive s.socket, some ⟨.authRequest, currentProtocolVersion, some ⟨_, x⟩⟩⟩]
      (.ret (some (AuthChallenge.ofBuf M x), s)) := by
  refine .cons ?_
  change Exec (if s.hasTrustedPeerKey then (if _ then _ else _) else _) _ _
  rw [if_pos hhas, if_neg (not_not.mpr hkey)]
  exact .nil _

theorem sessionClientConnect_exec [DecidableEq (Buf cryptoPublicKeySize)] (s : Session Buf)
    (v : ClientAnswers Buf) (hhas : s.hasTrustedPeerKey = true)
    (hkey : (AuthChallenge.ofBuf M v.challenge).publicKey = s.trustedPeerKey) :
    Exec (sessionClientConnect M s) (clientOpening M s v ++ clientClosing s v)
      (.ret (0, clientFinal M s v)) := by
  refine .cons (.cons ?_)
  change Exec (sessionAuthenticateClient M s) _ _
  have hread := sessionReadChallenge_exec M s v.challenge hhas hkey
  refine exec_bind_ret.mpr ⟨_, _, _, List.singleton_append.symm, hread, ?_⟩
  exact .cons (.cons (.cons (.cons (.cons (.cons (.cons (.nil _)))))))

/-- The session once its client has settled which server key it trusts. -/
def Session.trusting (s : Session Buf) (key : Buf cryptoPublicKeySize) : Session Buf :=
  if s.hasTrustedPeerKey then s else { s with trustedPeerKey := key, hasTrustedPeerKey := true }

/-- The calls of a client that pins a key, unless it has one: whether it finds the path of the
file and whether it saves the key there. -/
def clientTrust (s : Session Buf) (key : Buf cryptoPublicKeySize) (path saved : Bool) : Calls Buf :=
  if s.hasTrustedPeerKey then []
  else ⟨.cryptoConfigPath "server_trusted.key", path⟩ ::
    if path then [⟨.cryptoTrustKeySave key, saved⟩] else []

/-- A client without a trusted key accepts any, another one only its own. -/
theorem sessionReadChallenge_exec_trusting [DecidableEq (Buf cryptoPublicKeySize)]
    (s : Session Buf) (x : Buf sizeofAuthChallenge) (path saved : Bool)
    (hkey : s.hasTrustedPeerKey = true → (AuthChallenge.ofBuf M x).publicKey = s.trustedPeerKey) :
    Exec (sessionReadChallenge M s)
      (⟨.packetReceive s.socket, some ⟨.authRequest, currentProtocolVersion, some ⟨_, x⟩⟩⟩ ::
        clientTrust s (AuthChallenge.ofBuf M x).publicKey path saved)
      (.ret (some (AuthChallenge.ofBuf M x), s.trusting (AuthChallenge.ofBuf M x).publicKey)) := by
  unfold clientTrust Session.trusting
  cases hhas : s.hasTrustedPeerKey with
  | true =>
      rw [if_pos rfl, if_pos rfl]
      exact sessionReadChallenge_exec M s x hhas (hkey hhas)
  | false =>
      rw [if_neg Bool.false_ne_true, if_neg Bool.false_ne_true]
      refine .cons ?_
      change Exec (if s.hasTrustedPeerKey then _ else _) _ _
      rw [if_neg (by simp [hhas])]
      cases path with
      | true => exact .cons (.cons (.nil _))
      | false => exact .cons (.nil _)

/-- The calls of a client from the response it has sent to the hello up to the settled key. -/
def clientReading (s : Session Buf) (v : ClientAnswers Buf) (path saved : Bool) : Calls Buf :=
  ⟨.packetReceive s.socket, some ⟨.serverHello, currentProtocolVersion, none⟩⟩ ::
    ⟨.packetReceive s.socket, some ⟨.authRequest, currentProtocolVersion, some ⟨_, v.challenge⟩⟩⟩ ::
    clientTrust s (AuthChallenge.ofBuf M v.challenge).publicKey path saved

/-- The calls of a client from there up to its response. -/
def clientResponding (s : Session Buf) (v : ClientAnswers Buf) : Calls Buf :=
  let c := AuthChallenge.ofBuf M v.challenge
  [verifyChallenge M c true,
    ⟨.cryptoKxKeypair, some (v.ephPublicKey, v.ephPrivateKey)⟩,
    ⟨.cryptoKxClientSessionKeys v.ephPublicKey v.ephPrivateKey c.ephPublicKey,
      some (v.rxKey, v.txKey)⟩,
    ⟨.cryptoSignDetached (signBuf M c.nonce v.ephPublicKey) s.crypto.privateKey, some v.signature⟩,
    ⟨.malloc, true⟩,
    ⟨.packetSend s.socket ⟨.authResponse, s.protocolVersion, some ⟨_, AuthResponse.toBuf M
      ⟨v.signature, s.crypto.publicKey, v.ephPublicKey⟩⟩⟩, true⟩]

theorem sessionClientConnect_exec_trusting [DecidableEq (Buf cryptoPublicKeySize)]
    (s : Session Buf) (v : ClientAnswers Buf) (path saved : Bool)
    (hkey : s.hasTrustedPeerKey = true →
      (AuthChallenge.ofBuf M v.challenge).publicKey = s.trustedPeerKey) :
    Exec (sessionClientConnect M s)
      (⟨.packetSend s.socket ⟨.clientHello, currentProtocolVersion, none⟩, true⟩ ::
        (clientReading M s v path saved ++ clientResponding M s v) ++ clientClosing s v)
      (.ret (0, clientFinal M (s.trusting (AuthChallenge.ofBuf M v.challenge).publicKey) v)) := by
  have hread := sessionReadChallenge_exec_trusting M s v.challenge path saved hkey
  have hsame : (s.trusting (AuthChallenge.ofBuf M v.challenge).publicKey).crypto = s.crypto ∧
      (s.trusting (AuthChallenge.ofBuf M v.challenge).publicKey).protocolVersion =
        s.protocolVersion ∧
      (s.trusting (AuthChallenge.ofBuf M v.challenge).publicKey).socket = s.socket := by
    unfold Session.trusting
    split_ifs <;> exact ⟨rfl, rfl, rfl⟩
  generalize s.trusting (AuthChallenge.ofBuf M v.challenge).publicKey = s' at hread hsame
  obtain ⟨hcrypto, hversion, hsocket⟩ := hsame
  refine .cons (.cons ?_)
  change Exec (sessionAuthenticateClient M s) _ _
  refine exec_bind_ret.mpr ⟨_, _, clientResponding M s v ++ clientClosing s v,
    List.append_assoc (_ :: clientTrust s _ path saved) _ _, hread, ?_⟩
  unfold clientResponding clientClosing
  rw [← hcrypto, ← hversion, ← hsocket]
  exact .cons (.cons (.cons (.cons (.cons (.cons (.cons (.nil _)))))))

/-- A session fresh from `session_create`. -/
def Created (role : SessionRole) (identity : CryptoContext Buf)
    (trusted : Option (Buf cryptoPublicKeySize)) (s : Session Buf) : Prop :=
  ∃ socket ip calls, Exec (sessionCreate M role socket ip identity trusted) calls (.ret (0, s))

theorem sessionCreated_created (role : SessionRole) (socket : ℤ) (ip : List Char)
    (identity : CryptoContext Buf) (id : UInt64) :
    Created M role identity none (sessionCreated M role socket ip identity id) :=
  ⟨socket, ip, [⟨.generateSessionId, id⟩], .cons (.nil _)⟩

/-- What a handshake finds in a fresh session. -/
structure Fresh (identity : CryptoContext Buf) (trusted : Option (Buf cryptoPublicKeySize))
    (s : Session Buf) : Prop where
  publicKey : s.crypto.publicKey = identity.publicKey
  privateKey : s.crypto.privateKey = identity.privateKey
  protocolVersion : s.protocolVersion = currentProtocolVersion
  state : s.state = .connecting
  hasTrusted : s.hasTrustedPeerKey = trusted.isSome
  trustedKey : ∀ key, trusted = some key → s.trustedPeerKey = key

theorem Created.fresh {role : SessionRole} {identity : CryptoContext Buf}
    {trusted : Option (Buf cryptoPublicKeySize)} {s : Session Buf}
    (h : Created M role identity trusted s) : Fresh identity trusted s := by
  obtain ⟨socket, ip, calls, hx⟩ := h
  cases trusted with
  | none =>
      obtain ⟨id, rest, -, hrest⟩ := exec_call_ret.mp hx
      obtain ⟨-, he⟩ := exec_ret.mp hrest
      obtain rfl := (Prod.mk.inj (Prog.ret.inj he)).2
      exact ⟨rfl, rfl, rfl, rfl, rfl, by simp⟩
  | some key =>
      obtain ⟨id, rest, -, hrest⟩ := exec_call_ret.mp hx
      obtain ⟨-, he⟩ := exec_ret.mp hrest
      obtain rfl := (Prod.mk.inj (Prog.ret.inj he)).2
      exact ⟨rfl, rfl, rfl, rfl, rfl, fun key' hkey => Option.some.inj hkey⟩

section Connection

variable (P : Platform Buf)

/-- The calls of `session_manager_connect` until the table is looked at. -/
def connectCalls (identity : CryptoContext Buf) (socket : ℤ) (id : UInt64)
    (v : ServerAnswers Buf) : Calls Buf :=
  let s := sessionCreated M .server socket [] identity id
  [⟨.malloc, true⟩, ⟨.generateSessionId, id⟩] ++ (serverOpening M s v ++ serverClosing M s v)

/-- The session they leave. -/
def connectedSession (identity : CryptoContext Buf) (socket : ℤ) (id : UInt64)
    (v : ServerAnswers Buf) : Session Buf :=
  serverFinal M (sessionCreated M .server socket [] identity id) v

variable {m : SessionManager Buf} (socket : ℤ) (id : UInt64) (v : ServerAnswers Buf)

/-- With the handshake answered in its favour, a connection comes down to the table. -/
theorem sessionManagerConnect_exec {closes : Calls Buf} {m' : SessionManager Buf}
    {s : Option (Session Buf)}
    (hstore : Exec (sessionManagerStore M m (connectedSession M m.identity socket id v)) closes
      (.ret (m', s))) :
    Exec (sessionManagerConnect M m .server socket [])
      (connectCalls M m.identity socket id v ++ closes) (.ret (m', s)) := by
  have hserver := sessionServerConnect_exec M
    (sessionCreated M .server socket [] m.identity id) v
  refine .cons (.cons ?_)
  change Exec (sessionServerConnect M (sessionCreated M .server socket [] m.identity id) >>=
    fun r => if r.1 ≠ 0 then (do
      closeAll (sessionDestroy M r.2).2
      return (m, none)) else sessionManagerStore M m r.2) _ _
  refine exec_bind_ret.mpr ⟨_, serverOpening M _ v ++ serverClosing M _ v, closes, rfl, hserver, ?_⟩
  rw [if_neg (by simp)]
  exact hstore

/-- A completed connection fills the first free slot. -/
theorem connect_step {i : Fin maxSessions} (hfree : SlotTable.free m.sessions = some i) :
    ServerStep M P m (.connect .server socket [] (connectCalls M m.identity socket id v))
      (m.stored i ((connectedSession M m.identity socket id v).placedAt i)) := by
  have hadd : sessionManagerAdd m (connectedSession M m.identity socket id v) = some _ :=
    sessionManagerAdd_eq_some.mpr ⟨i, hfree, rfl, rfl⟩
  have hstore : Exec (sessionManagerStore M m (connectedSession M m.identity socket id v)) []
      (.ret (m.stored i ((connectedSession M m.identity socket id v).placedAt i),
        some ((connectedSession M m.identity socket id v).placedAt i))) := by
    unfold sessionManagerStore
    rw [hadd]
    exact .nil _
  have hx := sessionManagerConnect_exec M socket id v hstore
  rw [List.append_nil] at hx
  exact .connect hx

/-- The calls that destroy the session of a connection the table has no slot for. -/
def closeCalls (identity : CryptoContext Buf) : Calls Buf :=
  (sessionDestroy M (connectedSession M identity socket id v)).2.map fun fd => ⟨.close fd, ()⟩

/-- With a full table the session is destroyed after its handshake has succeeded. -/
theorem connect_step_full (hfree : SlotTable.free m.sessions = none) :
    ServerStep M P m (.connect .server socket [] (connectCalls M m.identity socket id v ++
      closeCalls M socket id v m.identity)) m := by
  have hadd : sessionManagerAdd m (connectedSession M m.identity socket id v) = none :=
    sessionManagerAdd_eq_none.mpr hfree
  refine .connect (s := none) (sessionManagerConnect_exec M socket id v ?_)
  unfold sessionManagerStore
  rw [hadd]
  exact exec_bind_ret.mpr ⟨(), _, [], (List.append_nil _).symm, exec_closeAll.mpr rfl, .nil _⟩

end Connection

end Sencd
