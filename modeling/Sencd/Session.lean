import Sencd.Packet

/-!
# Sessions and their handshake

The functions of `session.c` as programs over `Call`. A function takes the session it would
mutate and returns its return code, 0 for success, with the session as it leaves it, so the
fields written before a failure are visible. Log messages are left out.
-/
namespace Sencd
open CallProgram

/-- `SESSION_STATE_T`. -/
inductive SessionState
  | connecting
  | waitAuth
  | authenticated
  | established
  | disconnected
  deriving DecidableEq, Repr

/-- `SESSION_ROLE_T`. -/
inductive SessionRole
  | server
  | client
  deriving DecidableEq, Repr

/-- `struct sockaddr_in` of family `AF_INET`. -/
structure SockaddrIn where
  addr : UInt32
  port : UInt16
  deriving DecidableEq, Repr

/-- `UDP_TUNNEL_T`. -/
structure UdpTunnel where
  peerAddr : SockaddrIn
  sessionId : UInt64
  socket : ℤ
  peerKnown : Bool

def udpTunnelInit (sessionId : UInt64) : UdpTunnel := ⟨⟨0, 0⟩, sessionId, -1, false⟩

/-- The closed tunnel and the descriptors handed to `close`. -/
def udpTunnelClose (tunnel : UdpTunnel) : UdpTunnel × List ℤ :=
  ({ tunnel with socket := -1, peerKnown := false },
    if tunnel.socket ≥ 0 then [tunnel.socket] else [])

/-- `SESSION_T`. -/
structure Session (Buf : ℕ → Type) where
  crypto : CryptoContext Buf
  udp : UdpTunnel
  sessionId : UInt64
  trustedPeerKey : Buf cryptoPublicKeySize
  sessionNonce : Buf sessionNonceSize
  authNonce : Buf authNonceSize
  ip : List Char
  hasTrustedPeerKey : Bool
  protocolVersion : UInt8
  tunnelIpOctet : UInt8
  state : SessionState
  role : SessionRole
  socket : ℤ

abbrev inetAddrstrlen : ℕ := 16

variable {Buf : ℕ → Type}

section Lifecycle

variable (M : Memory Buf)

/-- `memset` of a whole session; `SESSION_SERVER` is the zero role. -/
def zeroSession : Session Buf where
  crypto := cryptoContextInit M
  udp := ⟨⟨0, 0⟩, 0, 0, false⟩
  sessionId := 0
  trustedPeerKey := M.zero _
  sessionNonce := M.zero _
  authNonce := M.zero _
  ip := []
  hasTrustedPeerKey := false
  protocolVersion := 0
  tunnelIpOctet := 0
  state := .connecting
  role := .server
  socket := 0

def sessionInit (role : SessionRole) : Session Buf :=
  { zeroSession M with socket := -1, state := .disconnected, role := role }

def sessionCreate (role : SessionRole) (socket : ℤ) (ip : List Char) (identity : CryptoContext Buf)
    (trustedPeerKey : Option (Buf cryptoPublicKeySize)) : Handshake Buf (ℕ × Session Buf) := do
  let s := sessionInit M role
  let s := { s with
    crypto := { s.crypto with publicKey := identity.publicKey, privateKey := identity.privateKey } }
  let s := match trustedPeerKey with
    | some key => { s with trustedPeerKey := key, hasTrustedPeerKey := true }
    | none => s
  let id ← perform .generateSessionId
  return (0, { s with
    socket := socket
    sessionId := id
    udp := udpTunnelInit id
    protocolVersion := currentProtocolVersion
    ip := ip.take (inetAddrstrlen - 1)
    state := .connecting })

/-- The cleared session and the descriptors handed to `close`, in order. -/
def sessionDestroy (s : Session Buf) : Session Buf × List ℤ :=
  ({ zeroSession M with socket := -1, state := .disconnected },
    (if s.socket ≥ 0 then [s.socket] else []) ++ (udpTunnelClose s.udp).2)

end Lifecycle

section Server

variable (M : Memory Buf)

def sessionAuthenticateServer (s : Session Buf) : Handshake Buf (ℕ × Session Buf) := do
  let nonce ← perform (.randombytesBuf authNonceSize)
  let s := { s with authNonce := nonce }
  let some (ephPublicKey, ephPrivateKey) ← perform .cryptoKxKeypair | return (1, s)
  let s := { s with
    crypto := { s.crypto with ephPublicKey := ephPublicKey, ephPrivateKey := ephPrivateKey } }
  let some signature ←
    perform (.cryptoSignDetached (signBuf M s.authNonce s.crypto.ephPublicKey) s.crypto.privateKey)
    | return (1, s)
  let challenge : AuthChallenge Buf :=
    ⟨signature, s.crypto.publicKey, s.crypto.ephPublicKey, s.authNonce⟩
  let packet ← packetConstruct .authRequest s.protocolVersion (some ⟨_, challenge.toBuf M⟩)
  if ← perform (.packetSend s.socket packet) then
    return (0, { s with state := .waitAuth })
  else
    return (1, s)

def sessionVerifyClient (s : Session Buf) : Handshake Buf (ℕ × Session Buf) := do
  let some packet ← perform (.packetReceive s.socket) | return (1, s)
  if packet.type ≠ .authResponse then
    return (1, s)
  else
  let some payload := packet.read sizeofAuthResponse | return (1, s)
  let response := AuthResponse.ofBuf M payload
  let s := { s with crypto := { s.crypto with peerPublicKey := response.publicKey } }
  if ← perform (.cryptoSignVerifyDetached response.signature
      (signBuf M s.authNonce response.ephPublicKey) response.publicKey) then
    let some (rxKey, txKey) ← perform (.cryptoKxServerSessionKeys s.crypto.ephPublicKey
      s.crypto.ephPrivateKey response.ephPublicKey) | return (1, s)
    return (0, { s with
      crypto := { s.crypto with rxKey := rxKey, txKey := txKey, verified := true } })
  else
    return (1, s)

/-- The part of `session_server_connect` after the client has been verified. -/
def sessionAnnounce (s : Session Buf) : Handshake Buf (ℕ × Session Buf) := do
  let nonce ← perform (.randombytesBuf sessionNonceSize)
  let s := { s with sessionNonce := nonce }
  let success : AuthSuccess Buf := ⟨s.sessionNonce, s.sessionId⟩
  let packet ← packetConstruct .authSuccess s.protocolVersion (some ⟨_, success.toBuf M⟩)
  if ← perform (.packetSend s.socket packet) then
    return (0, { s with state := .established })
  else
    return (1, s)

/-- The hello exchange that opens `session_server_connect`. -/
def sessionServerHello (s : Session Buf) : Handshake Buf (ℕ × Session Buf) := do
  let some packet ← perform (.packetReceive s.socket) | return (1, s)
  if packet.type ≠ .clientHello ∨ packet.version ≠ currentProtocolVersion then
    return (1, s)
  else
  let hello ← packetConstruct .serverHello s.protocolVersion none
  if ← perform (.packetSend s.socket hello) then
    return (0, { s with state := .waitAuth })
  else
    return (1, s)

def sessionServerConnect (s : Session Buf) : Handshake Buf (ℕ × Session Buf) := do
  let (code, s) ← sessionServerHello s
  if code ≠ 0 then return (1, s) else
  let (code, s) ← sessionAuthenticateServer M s
  if code ≠ 0 then return (1, s) else
  let (code, s) ← sessionVerifyClient M s
  if code ≠ 0 then return (1, s) else
  sessionAnnounce M s

end Server

section Client

variable (M : Memory Buf)

/-- The branch of `session_authenticate_client` without a trusted key: pin the key and try
to save it. -/
def sessionTrustFirst (s : Session Buf) (key : Buf cryptoPublicKeySize) :
    Handshake Buf (Session Buf) := do
  let s := { s with trustedPeerKey := key, hasTrustedPeerKey := true }
  if ← perform (.cryptoConfigPath "server_trusted.key") then
    let _ ← perform (.cryptoTrustKeySave key)
    return s
  else
    return s

/-- The part of `session_authenticate_client` that answers an accepted challenge key. -/
def sessionRespond (s : Session Buf) (challenge : AuthChallenge Buf) :
    Handshake Buf (ℕ × Session Buf) := do
  let s := { s with crypto := { s.crypto with peerPublicKey := challenge.publicKey } }
  if ← perform (.cryptoSignVerifyDetached challenge.signature
      (signBuf M challenge.nonce challenge.ephPublicKey) challenge.publicKey) then
    let some (ephPublicKey, ephPrivateKey) ← perform .cryptoKxKeypair | return (1, s)
    let s := { s with
      crypto := { s.crypto with ephPublicKey := ephPublicKey, ephPrivateKey := ephPrivateKey } }
    let some (rxKey, txKey) ← perform (.cryptoKxClientSessionKeys s.crypto.ephPublicKey
      s.crypto.ephPrivateKey challenge.ephPublicKey) | return (1, s)
    let s := { s with crypto := { s.crypto with rxKey := rxKey, txKey := txKey } }
    let some signature ← perform (.cryptoSignDetached
      (signBuf M challenge.nonce s.crypto.ephPublicKey) s.crypto.privateKey) | return (1, s)
    let response : AuthResponse Buf := ⟨signature, s.crypto.publicKey, s.crypto.ephPublicKey⟩
    let reply ← packetConstruct .authResponse s.protocolVersion (some ⟨_, response.toBuf M⟩)
    if ← perform (.packetSend s.socket reply) then
      return (0, { s with state := .waitAuth })
    else
      return (1, s)
  else
    return (1, s)

/-- The final part of `session_authenticate_client`: wait for `AUTH_SUCCESS`. -/
def sessionFinish (s : Session Buf) : Handshake Buf (ℕ × Session Buf) := do
  let some result ← perform (.packetReceive s.socket) | return (1, s)
  if result.type ≠ .authSuccess then
    return (1, s)
  else
  let some payload := result.read sizeofAuthSuccess | return (1, s)
  let success := AuthSuccess.ofBuf M payload
  return (0, { s with
    sessionId := success.sessionId
    sessionNonce := success.sessionNonce
    state := .established })

/-- The opening of `session_authenticate_client`: read the challenge and settle which server
key is trusted. `none` is the return with code 1. -/
def sessionReadChallenge [DecidableEq (Buf cryptoPublicKeySize)] (s : Session Buf) :
    Handshake Buf (Option (AuthChallenge Buf) × Session Buf) := do
  let some packet ← perform (.packetReceive s.socket) | return (none, s)
  if packet.type ≠ .authRequest then
    return (none, s)
  else
  let some payload := packet.read sizeofAuthChallenge | return (none, s)
  let challenge := AuthChallenge.ofBuf M payload
  if s.hasTrustedPeerKey then
    if challenge.publicKey ≠ s.trustedPeerKey then return (none, s)
    else return (some challenge, s)
  else
    let s ← sessionTrustFirst s challenge.publicKey
    return (some challenge, s)

def sessionAuthenticateClient [DecidableEq (Buf cryptoPublicKeySize)] (s : Session Buf) :
    Handshake Buf (ℕ × Session Buf) := do
  match ← sessionReadChallenge M s with
  | (none, s) => return (1, s)
  | (some challenge, s) =>
    let (code, s) ← sessionRespond M s challenge
    if code ≠ 0 then return (1, s) else
    sessionFinish M s

/-- The hello exchange that opens `session_client_connect`. -/
def sessionClientHello (s : Session Buf) : Handshake Buf (ℕ × Session Buf) := do
  let hello ← packetConstruct .clientHello currentProtocolVersion none
  if ← perform (.packetSend s.socket hello) then
    let some response ← perform (.packetReceive s.socket) | return (1, s)
    if response.type ≠ .serverHello ∨ response.version ≠ currentProtocolVersion then
      return (1, s)
    else
      return (0, s)
  else
    return (1, s)

def sessionClientConnect [DecidableEq (Buf cryptoPublicKeySize)] (s : Session Buf) :
    Handshake Buf (ℕ × Session Buf) := do
  let (code, s) ← sessionClientHello s
  if code ≠ 0 then return (1, s) else
  sessionAuthenticateClient M s

end Client

section Connection

variable (M : Memory Buf)

/-- What `session_manager_connect` runs on a new connection before it stores the session. -/
def serverHandshake (socket : ℤ) (ip : List Char) (identity : CryptoContext Buf) :
    Handshake Buf (ℕ × Session Buf) := do
  let (code, s) ← sessionCreate M .server socket ip identity none
  if code ≠ 0 then return (1, s) else
  sessionServerConnect M s

/-- What `client_listener` runs once its TCP connection is open. -/
def clientHandshake [DecidableEq (Buf cryptoPublicKeySize)] (socket : ℤ) (ip : List Char)
    (identity : CryptoContext Buf) (trustedPeerKey : Option (Buf cryptoPublicKeySize)) :
    Handshake Buf (ℕ × Session Buf) := do
  let (_, s) ← sessionCreate M .client socket ip identity trustedPeerKey
  sessionClientConnect M s

/-- The session `session_create` hands to the server's handshake. -/
def sessionCreated (role : SessionRole) (socket : ℤ) (ip : List Char)
    (identity : CryptoContext Buf) (id : UInt64) : Session Buf :=
  { sessionInit M role with
    crypto := { (sessionInit M role).crypto with
      publicKey := identity.publicKey, privateKey := identity.privateKey }
    socket := socket
    sessionId := id
    udp := udpTunnelInit id
    protocolVersion := currentProtocolVersion
    ip := ip.take (inetAddrstrlen - 1)
    state := .connecting }

end Connection

end Sencd
