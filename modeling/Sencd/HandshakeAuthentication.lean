import Sencd.HandshakeCompletion
import Sencd.NetworkInvariant

/-!
# What a completed handshake says about the other party

The response signature covers the server's nonce and the client's ephemeral key, nothing else.
It ties an established server session to one client run; it does not say which server that
run was talking to, nor in which role the signature was made. The final `AUTH_SUCCESS` frame
is not authenticated at all.

When each identity key is used in one role only, an ephemeral key accepted under an honest
party's signature was generated by that party. Both exponents of the shared point are then
secrets, and no message the intruder can build contains such a point.

In the runs looked at, one server and one client each run one handshake to its end, with the
intruder between them. The frames that carry payloads are whatever it delivers in place of what
was sent; the log is a run as soon as it could build them and the signature checks pass.
-/
namespace Sencd
open CallProgram Interleaving Intruder

section Runs

/-- Run 0 is a server with key 0; every other run is a client with key 1. -/
def twoParties (trusted : Msg) : ℕ → Agent
  | 0 => ⟨.server, 0, none, 3, []⟩
  | _ => ⟨.client, 1, some trusted, 4, []⟩

/-- The sessions of such runs as `session_create` leaves them. -/
def serverStart : Session MsgBuf :=
  { zeroSession msgMemory with
    crypto := identityOf 0
    socket := 3
    sessionId := 100
    udp := udpTunnelInit 100
    protocolVersion := currentProtocolVersion }

def clientStart (trusted : Msg) : Session MsgBuf :=
  { zeroSession msgMemory with
    crypto := identityOf 1
    trustedPeerKey := trusted
    hasTrustedPeerKey := true
    role := .client
    socket := 4
    sessionId := 200
    udp := udpTunnelInit 200
    protocolVersion := currentProtocolVersion }

/-- Where a handshake stands: its two runs, and the length of the log before it. -/
structure Place where
  server : ℕ
  client : ℕ
  start : ℕ

variable (p : Place) (challenge response success : Msg)

def serverAnswers : ServerAnswers MsgBuf where
  nonce := .name (.nonce (p.start + 3))
  ephPublicKey := ephPublic (p.start + 4)
  ephPrivateKey := .name (.scalar (p.start + 4))
  signature := .sign (.name (.key 0))
    (signBuf msgMemory (.name (.nonce (p.start + 3))) (ephPublic (p.start + 4)))
  response := response
  rxKey := kxKey 1 ((AuthResponse.ofBuf msgMemory response).ephPublicKey.scale
    (.scalar (p.start + 4))) (AuthResponse.ofBuf msgMemory response).ephPublicKey
    (ephPublic (p.start + 4))
  txKey := kxKey 0 ((AuthResponse.ofBuf msgMemory response).ephPublicKey.scale
    (.scalar (p.start + 4))) (AuthResponse.ofBuf msgMemory response).ephPublicKey
    (ephPublic (p.start + 4))
  sessionNonce := .name (.nonce (p.start + 21))

def clientAnswers : ClientAnswers MsgBuf where
  challenge := challenge
  ephPublicKey := ephPublic (p.start + 13)
  ephPrivateKey := .name (.scalar (p.start + 13))
  rxKey := kxKey 0 ((AuthChallenge.ofBuf msgMemory challenge).ephPublicKey.scale
    (.scalar (p.start + 13))) (ephPublic (p.start + 13))
    (AuthChallenge.ofBuf msgMemory challenge).ephPublicKey
  txKey := kxKey 1 ((AuthChallenge.ofBuf msgMemory challenge).ephPublicKey.scale
    (.scalar (p.start + 13))) (ephPublic (p.start + 13))
    (AuthChallenge.ofBuf msgMemory challenge).ephPublicKey
  signature := .sign (.name (.key 1))
    (signBuf msgMemory (AuthChallenge.ofBuf msgMemory challenge).nonce (ephPublic (p.start + 13)))
  success := success

/-- The four stretches of the handshake. -/
def firstTurn : Log (@Call.Answer MsgBuf) :=
  (⟨.generateSessionId, 100⟩ :: serverOpening msgMemory serverStart (serverAnswers p response)).map
    fun e => (p.server, e)

def secondTurn : Log (@Call.Answer MsgBuf) :=
  (⟨.generateSessionId, 200⟩ :: clientOpening msgMemory
    (clientStart (AuthChallenge.ofBuf msgMemory challenge).publicKey)
    (clientAnswers p challenge success)).map fun e => (p.client, e)

def thirdTurn : Log (@Call.Answer MsgBuf) :=
  (serverClosing msgMemory serverStart (serverAnswers p response)).map fun e => (p.server, e)

def fourthTurn : Log (@Call.Answer MsgBuf) :=
  (clientClosing (clientStart (AuthChallenge.ofBuf msgMemory challenge).publicKey)
    (clientAnswers p challenge success)).map fun e => (p.client, e)

def handshakeLog : Log (@Call.Answer MsgBuf) :=
  firstTurn p response ++ secondTurn p challenge success ++ thirdTurn p response ++
    fourthTurn p challenge success

/-- What the two runs see of it. -/
def serverView : Calls MsgBuf :=
  ⟨.generateSessionId, 100⟩ :: (serverOpening msgMemory serverStart (serverAnswers p response) ++
    serverClosing msgMemory serverStart (serverAnswers p response))

def clientView : Calls MsgBuf :=
  ⟨.generateSessionId, 200⟩ :: (clientOpening msgMemory
    (clientStart (AuthChallenge.ofBuf msgMemory challenge).publicKey)
    (clientAnswers p challenge success) ++ clientClosing
    (clientStart (AuthChallenge.ofBuf msgMemory challenge).publicKey)
    (clientAnswers p challenge success))

theorem handshakeLog_server (h : p.client ≠ p.server) :
    view (handshakeLog p challenge response success) p.server = serverView p response := by
  simp only [handshakeLog, firstTurn, secondTurn, thirdTurn, fourthTurn, view_append,
    view_map_self, view_map_ne h, List.append_nil, List.cons_append, serverView]

theorem handshakeLog_client (h : p.server ≠ p.client) :
    view (handshakeLog p challenge response success) p.client = clientView p challenge success := by
  simp only [handshakeLog, firstTurn, secondTurn, thirdTurn, fourthTurn, view_append,
    view_map_self, view_map_ne h, List.nil_append, List.append_nil, List.cons_append, clientView]

theorem handshakeLog_other {t : ℕ} (hs : p.server ≠ t) (hc : p.client ≠ t) :
    view (handshakeLog p challenge response success) t = [] := by
  simp only [handshakeLog, firstTurn, secondTurn, thirdTurn, fourthTurn, view_append,
    view_map_ne hs, view_map_ne hc, List.append_nil]

/-- The server's session at the end. -/
abbrev servedSession : Session MsgBuf :=
  serverFinal msgMemory serverStart (serverAnswers p response)

/-- The client's session at the end. -/
abbrev clientSession : Session MsgBuf :=
  clientFinal msgMemory (clientStart (AuthChallenge.ofBuf msgMemory challenge).publicKey)
    (clientAnswers p challenge success)

theorem serverView_exec : Exec (serverHandshake msgMemory 3 [] (identityOf 0))
    (serverView p response) (.ret (0, servedSession p response)) :=
  .cons (sessionServerConnect_exec msgMemory serverStart (serverAnswers p response))

theorem clientView_exec : Exec (clientHandshake msgMemory 4 [] (identityOf 1)
    (some (AuthChallenge.ofBuf msgMemory challenge).publicKey)) (clientView p challenge success)
    (.ret (0, clientSession p challenge success)) :=
  .cons (sessionClientConnect_exec msgMemory
    (clientStart (AuthChallenge.ofBuf msgMemory challenge).publicKey)
    (clientAnswers p challenge success) rfl rfl)

variable {p} in
/-- The answers are admissible when the intruder can build what it delivers and the checks
pass. -/
theorem handshakeLog_admissible {before : Log (@Call.Answer MsgBuf)} (hp : before.length = p.start)
    (hchallenge : Derives {m | Known (before ++ firstTurn p response) m} challenge)
    (hcheck : Term.Verifies (AuthChallenge.ofBuf msgMemory challenge).publicKey
      (signBuf msgMemory (AuthChallenge.ofBuf msgMemory challenge).nonce
        (AuthChallenge.ofBuf msgMemory challenge).ephPublicKey)
      (AuthChallenge.ofBuf msgMemory challenge).signature)
    (hresponse : Derives {m | Known (before ++ (firstTurn p response ++
      secondTurn p challenge success)) m} response)
    (hcheck' : Term.Verifies (AuthResponse.ofBuf msgMemory response).publicKey
      (signBuf msgMemory (.name (.nonce (p.start + 3)))
        (AuthResponse.ofBuf msgMemory response).ephPublicKey)
      (AuthResponse.ofBuf msgMemory response).signature)
    (hsuccess : Derives {m | Known (before ++ (firstTurn p response ++
      secondTurn p challenge success ++ thirdTurn p response)) m} success) :
    AllAdmissible Admissible before (handshakeLog p challenge response success) := by
  have hempty : ∀ {type version packet payload} {K : Set Msg},
      some (⟨type, version, none⟩ : Packet MsgBuf) = some packet →
      packet.payload = some payload → Derives K payload.data := by
    rintro type version packet payload K ⟨rfl⟩ ⟨⟩
  have hfull : ∀ {type version n x packet payload} {K : Set Msg}, Derives K x →
      some (⟨type, version, some ⟨n, x⟩⟩ : Packet MsgBuf) = some packet →
      packet.payload = some payload → Derives K payload.data := by
    rintro type version n x packet payload K hx ⟨rfl⟩ ⟨rfl⟩
    exact hx
  have hlater : ∀ e e' e'', Derives
      {m | Known (before ++ firstTurn p response ++ [e] ++ [e'] ++ [e'']) m} challenge := by
    intro e e' e''
    refine hchallenge.mono fun m hm => Known.mono ?_ hm
    exact List.Subset.trans (List.subset_append_left _ _)
      (List.Subset.trans (List.subset_append_left _ _) (List.subset_append_left _ _))
  unfold handshakeLog
  simp only [allAdmissible_append]
  refine ⟨⟨⟨?_, ?_⟩, ?_⟩, ?_⟩
  · exact ⟨trivial, fun _ _ => hempty, trivial, by simp [Admissible, serverAnswers, hp],
      .inr (by simp [serverAnswers, hp]), .inr rfl, trivial, trivial, trivial⟩
  · exact ⟨trivial, trivial, fun _ _ => hempty, fun _ _ => hfull (hlater _ _ _),
      iff_of_true rfl hcheck,
      .inr (by simp [clientAnswers, firstTurn, serverOpening, hp]), .inr ⟨_, rfl, rfl⟩, .inr rfl,
      trivial, trivial, trivial⟩
  · exact ⟨fun _ _ => hfull hresponse, iff_of_true rfl hcheck', .inr ⟨_, rfl, rfl⟩,
      by simp [Admissible, serverAnswers, firstTurn, serverOpening, secondTurn, clientOpening, hp],
      trivial, trivial, trivial⟩
  · exact ⟨fun _ _ => hfull hsuccess, trivial⟩

/-- The payloads the two runs send. -/
def challengeSent : Msg :=
  AuthChallenge.toBuf msgMemory ⟨.sign (.name (.key 0))
    (signBuf msgMemory (.name (.nonce (p.start + 3))) (ephPublic (p.start + 4))), keyPublic 0,
    ephPublic (p.start + 4), .name (.nonce (p.start + 3))⟩

def responseSent (nonce : Msg) : Msg :=
  AuthResponse.toBuf msgMemory ⟨.sign (.name (.key 1))
    (signBuf msgMemory nonce (ephPublic (p.start + 13))), keyPublic 1, ephPublic (p.start + 13)⟩

def authSuccessSent : Msg := AuthSuccess.toBuf msgMemory ⟨.name (.nonce (p.start + 21)), 100⟩

theorem known_challengeSent : Known (firstTurn p response) (challengeSent p) := by
  have hsent : (p.server, ⟨.packetSend 3 ⟨.authRequest, currentProtocolVersion,
      some ⟨sizeofAuthChallenge, challengeSent p⟩⟩, true⟩) ∈ firstTurn p response := by
    simp [firstTurn, serverOpening, challengeSent, serverAnswers, serverStart, identityOf]
  exact .sent hsent rfl

theorem known_responseSent :
    Known (firstTurn p response ++ secondTurn p challenge success)
      (responseSent p (AuthChallenge.ofBuf msgMemory challenge).nonce) := by
  have hsent : (p.client, ⟨.packetSend 4 ⟨.authResponse, currentProtocolVersion,
      some ⟨sizeofAuthResponse, responseSent p (AuthChallenge.ofBuf msgMemory challenge).nonce⟩⟩,
      true⟩) ∈ secondTurn p challenge success := by
    simp [secondTurn, clientOpening, responseSent, clientAnswers, clientStart, identityOf]
  exact .sent (List.mem_append_right _ hsent) rfl

theorem known_authSuccessSent :
    Known (firstTurn p response ++ secondTurn p challenge success ++ thirdTurn p response)
      (authSuccessSent p) := by
  have hsent : (p.server, ⟨.packetSend 3 ⟨.authSuccess, currentProtocolVersion,
      some ⟨sizeofAuthSuccess, authSuccessSent p⟩⟩, true⟩) ∈ thirdTurn p response := by
    simp [thirdTurn, serverClosing, authSuccessSent, serverAnswers, serverStart]
  exact .sent (List.mem_append_right _ hsent) rfl

/-- The handshake in which the intruder forwards everything. -/
abbrev forwardedLog : Log (@Call.Answer MsgBuf) :=
  handshakeLog p (challengeSent p) (responseSent p (.name (.nonce (p.start + 3))))
    (authSuccessSent p)

variable {p} in
theorem forwardedLog_admissible {before : Log (@Call.Answer MsgBuf)}
    (hp : before.length = p.start) : AllAdmissible Admissible before (forwardedLog p) := by
  have hknown : ∀ {log : Log (@Call.Answer MsgBuf)} {m : Msg}, Known log m →
      Derives {m | Known (before ++ log) m} m :=
    fun hm => .known (Known.mono (List.subset_append_right _ _) hm)
  exact handshakeLog_admissible _ _ _ hp (hknown (known_challengeSent p _)) ⟨_, rfl, rfl⟩
    (hknown (known_responseSent p (challengeSent p) _ _)) ⟨_, rfl, rfl⟩
    (hknown (known_authSuccessSent p _ _ _))

/-- The one handshake of the two parties. -/
abbrev firstPlace : Place := ⟨0, 1, 0⟩

abbrev observedLog : Log (@Call.Answer MsgBuf) :=
  handshakeLog firstPlace challenge response success

/-- The server's session at the end. -/
abbrev observedServer : Session MsgBuf := servedSession firstPlace response

/-- The client's session at the end. -/
abbrev observedClient : Session MsgBuf := clientSession firstPlace challenge success

theorem view_server : view (observedLog challenge response success) 0 =
    serverView firstPlace response :=
  handshakeLog_server firstPlace challenge response success one_ne_zero

theorem view_client : view (observedLog challenge response success) 1 =
    clientView firstPlace challenge success :=
  handshakeLog_client firstPlace challenge response success zero_ne_one

theorem observed_server_reached :
    Reached (twoParties (AuthChallenge.ofBuf msgMemory challenge).publicKey)
      (observedLog challenge response success) 0 .server (observedServer response) := by
  refine ⟨rfl, rfl, 0, ?_⟩
  rw [view_server]
  exact serverView_exec firstPlace response

theorem observed_client_reached :
    Reached (twoParties (AuthChallenge.ofBuf msgMemory challenge).publicKey)
      (observedLog challenge response success) 1 .client (observedClient challenge success) := by
  refine ⟨rfl, rfl, 0, ?_⟩
  rw [view_client]
  exact clientView_exec firstPlace challenge success

theorem observed_server_verified :
    ServerVerified msgMemory (view (observedLog challenge response success) 0)
      (observedServer response) (AuthResponse.ofBuf msgMemory response) := by
  have hlog := view_server challenge response success
  refine ⟨⟨response, ⟨3, ⟨.authResponse, currentProtocolVersion,
    some ⟨sizeofAuthResponse, response⟩⟩, ?_, rfl, rfl⟩, rfl⟩, ?_, ?_, rfl, rfl⟩
  · simp [hlog, serverView, serverClosing, serverStart, serverAnswers]
  · simp [hlog, serverView, serverClosing, serverFinal, serverAnswers]
  · simp [hlog, serverView, serverClosing, serverFinal, serverAnswers]

/-- The signatures, each in its own run. -/
theorem observed_server_signed : Signed (observedLog challenge response success) 0
    (serverAnswers firstPlace response).signature := by
  have hlog := view_server challenge response success
  refine ⟨signBuf msgMemory (.name (.nonce 3)) (ephPublic 4), .name (.key 0), mem_view.mp ?_⟩
  simp [hlog, serverView, serverOpening, serverAnswers, serverStart, identityOf]

theorem observed_client_signed : Signed (observedLog challenge response success) 1
    (clientAnswers firstPlace challenge success).signature := by
  have hlog := view_client challenge response success
  refine ⟨signBuf msgMemory (AuthChallenge.ofBuf msgMemory challenge).nonce (ephPublic 13),
    .name (.key 1), mem_view.mp ?_⟩
  simp [hlog, clientView, clientOpening, clientAnswers, clientStart, identityOf]

/-- The log is a run when the intruder can build what it delivers and the checks pass. -/
theorem observed_run
    (hchallenge : Derives {m | Known (firstTurn firstPlace response) m} challenge)
    (hcheck : Term.Verifies (AuthChallenge.ofBuf msgMemory challenge).publicKey
      (signBuf msgMemory (AuthChallenge.ofBuf msgMemory challenge).nonce
        (AuthChallenge.ofBuf msgMemory challenge).ephPublicKey)
      (AuthChallenge.ofBuf msgMemory challenge).signature)
    (hresponse : Derives {m | Known (firstTurn firstPlace response ++
      secondTurn firstPlace challenge success) m} response)
    (hcheck' : Term.Verifies (AuthResponse.ofBuf msgMemory response).publicKey
      (signBuf msgMemory (.name (.nonce 3)) (AuthResponse.ofBuf msgMemory response).ephPublicKey)
      (AuthResponse.ofBuf msgMemory response).signature)
    (hsuccess : Derives {m | Known (firstTurn firstPlace response ++
      secondTurn firstPlace challenge success ++ thirdTurn firstPlace response) m} success) :
    NetworkRun (twoParties (AuthChallenge.ofBuf msgMemory challenge).publicKey)
      (observedLog challenge response success) := by
  refine run_of_exec (fun t => ?_)
    (handshakeLog_admissible _ _ _ rfl hchallenge hcheck hresponse hcheck' hsuccess)
  match t with
  | 0 => exact ⟨_, (observed_server_reached challenge response success).returned.choose_spec⟩
  | 1 => exact ⟨_, (observed_client_reached challenge response success).returned.choose_spec⟩
  | t + 2 =>
      have hview : view (observedLog challenge response success) (t + 2) = [] :=
        handshakeLog_other firstPlace challenge response success (Nat.succ_ne_zero _).symm
          (by simp)
      rw [hview]
      exact ⟨_, .nil _⟩

abbrev serverChallenge : Msg := challengeSent firstPlace

abbrev clientResponse (nonce : Msg) : Msg := responseSent firstPlace nonce

abbrev serverSuccess : Msg := authSuccessSent firstPlace

theorem known_serverChallenge : Known (firstTurn firstPlace response) serverChallenge :=
  known_challengeSent firstPlace response

theorem known_clientResponse :
    Known (firstTurn firstPlace response ++ secondTurn firstPlace challenge success)
      (clientResponse (AuthChallenge.ofBuf msgMemory challenge).nonce) :=
  known_responseSent firstPlace challenge response success

theorem known_serverSuccess :
    Known (firstTurn firstPlace response ++ secondTurn firstPlace challenge success ++
      thirdTurn firstPlace response) serverSuccess :=
  known_authSuccessSent firstPlace challenge response success

/-- The run in which the intruder delivers the challenge and the response as they were sent,
whatever it delivers for the final frame. -/
theorem forwarded_run (success : Msg)
    (hsuccess : Derives {m | Known (firstTurn firstPlace (clientResponse (.name (.nonce 3))) ++
      secondTurn firstPlace serverChallenge success ++
      thirdTurn firstPlace (clientResponse (.name (.nonce 3)))) m} success) :
    NetworkRun (twoParties (keyPublic 0))
      (observedLog serverChallenge (clientResponse (.name (.nonce 3))) success) := by
  refine observed_run serverChallenge _ success (.known (known_serverChallenge _)) ⟨_, rfl, rfl⟩
    (.known (known_clientResponse serverChallenge _ success)) ⟨_, rfl, rfl⟩ hsuccess

/-- The run in which the intruder forwards everything. -/
abbrev honestLog : Log (@Call.Answer MsgBuf) :=
  observedLog serverChallenge (clientResponse (.name (.nonce 3))) serverSuccess

theorem honest_run : NetworkRun (twoParties (keyPublic 0)) honestLog :=
  forwarded_run serverSuccess (.known (known_serverSuccess serverChallenge _ serverSuccess))

end Runs

variable {S : ℕ → Agent} {log : Log (@Call.Answer MsgBuf)}

/-- The key is used by servers only, as `server_identity.key` is. -/
def ServerKey (S : ℕ → Agent) (k : ℕ) : Prop := ∀ t, (S t).key = k → (S t).role = .server

/-- The key is used by clients only, as `client_identity.key` is. -/
def ClientKey (S : ℕ → Agent) (k : ℕ) : Prop := ∀ t, (S t).key = k → (S t).role = .client

theorem twoParties_serverKey (trusted : Msg) : ServerKey (twoParties trusted) 0 := by
  intro t ht
  cases t with
  | zero => rfl
  | succ t => contradiction

namespace NetworkRun

/-- An accepted challenge under a server's key was issued by a run of that server. -/
theorem challenge_issuer (h : NetworkRun S log) {t k : ℕ} (hk : ServerKey S k)
    {c : AuthChallenge MsgBuf} (hc : ChallengeAccepted msgMemory (S t).trusted (view log t) c)
    (hkey : c.publicKey = keyPublic k) :
    ∃ u j, ServerSigned S log u k c.nonce j ∧ c.ephPublicKey = ephPublic j := by
  obtain ⟨hsafe, hv⟩ := h.acceptedChallenge hc
  rw [hkey] at hv
  obtain ⟨u, j, -, hj, hs | ⟨c', -, hs⟩⟩ := h.signer hsafe hv
  · exact ⟨u, j, hs, hj⟩
  · have hrole := hk u hs.key
    rw [hs.role] at hrole
    contradiction

/-- An accepted response whose signature a client made was made by that run for the server's
nonce, with an ephemeral key of its own. -/
theorem response_client (h : NetworkRun S log) {u t : ℕ} (hu : (S u).role = .server)
    (ht : (S t).role = .client) {n : Msg} {r : AuthResponse MsgBuf}
    (hm : (u, verifyResponse msgMemory n r true) ∈ log) (hsigned : Signed log t r.signature) :
    ∃ c i, ClientSigned S log t (S t).key c i ∧ c.nonce = n ∧ r.ephPublicKey = ephPublic i ∧
      r.publicKey = keyPublic (S t).key := by
  obtain ⟨m, sk, hsign⟩ := hsigned
  obtain ⟨rfl, c, i, rfl, hs⟩ := h.clientSigned ht hsign
  obtain ⟨-, -, k', hk', hσ⟩ := h.acceptedResponse hu hm
  have hmade := (h.signature hsign).symm.trans hσ
  obtain ⟨rfl, hmsg⟩ := Term.sign.inj hmade
  obtain ⟨hn, he⟩ := Term.pair.inj hmsg
  exact ⟨c, i, hs, hn, he.symm, hk'⟩

end NetworkRun

section PeerBinding

/-- The keys client run `t` derived for the challenge `c` are those of the server session `s`
with the directions exchanged. -/
def KeysMatch (log : Log (@Call.Answer MsgBuf)) (t : ℕ) (c : AuthChallenge MsgBuf)
    (s : Session MsgBuf) : Prop :=
  ∃ pk sk, (t, ⟨.cryptoKxClientSessionKeys pk sk c.ephPublicKey,
    some (s.crypto.txKey, s.crypto.rxKey)⟩) ∈ log

/-- A client run whose response a server session accepted had accepted that session's own
challenge and derived its keys. -/
def PeerBinding (S : ℕ → Agent) (log : Log (@Call.Answer MsgBuf)) : Prop :=
  ∀ u s r t, Reached S log u .server s → ServerVerified msgMemory (view log u) s r →
    (S t).role = .client → Signed log t r.signature →
    ∃ c, ChallengeAccepted msgMemory (S t).trusted (view log t) c ∧
      c.publicKey = s.crypto.publicKey ∧ c.ephPublicKey = s.crypto.ephPublicKey ∧
      KeysMatch log t c s

/-- The client run had accepted a challenge with the session's nonce and generated the
ephemeral key the session uses. If that challenge came under a server's key, it was the
session's own. -/
theorem peer_nonce_binding (h : NetworkRun S log) {u t : ℕ} {s : Session MsgBuf}
    {r : AuthResponse MsgBuf} (hs : Reached S log u .server s)
    (hv : ServerVerified msgMemory (view log u) s r) (ht : (S t).role = .client)
    (hsigned : Signed log t r.signature) :
    ∃ c i, ClientSigned S log t (S t).key c i ∧ c.nonce = s.authNonce ∧
      r.ephPublicKey = ephPublic i ∧ s.crypto.peerPublicKey = keyPublic (S t).key ∧
      ∀ k, ServerKey S k → c.publicKey = keyPublic k →
        c.publicKey = s.crypto.publicKey ∧ c.ephPublicKey = s.crypto.ephPublicKey ∧
        KeysMatch log t c s := by
  obtain ⟨c, i, hc, hn, hr, hpk⟩ := h.response_client hs.role ht (mem_view.mp hv.accepted) hsigned
  obtain ⟨j, hj, hserver, hrx, htx⟩ := h.serverSession hs hv
  refine ⟨c, i, hc, hn, hr, hv.peer.trans hpk, fun k hk hkey => ?_⟩
  obtain ⟨v, j', hissued, he⟩ := h.challenge_issuer hk hc.accepted hkey
  have hnonce := hissued.nonce
  rw [hn] at hnonce
  obtain rfl : u = v := h.nonce_owner hserver.nonce hnonce
  have hephemeral : c.ephPublicKey = s.crypto.ephPublicKey := by
    rw [he, hj, (h.serverSigned_unique hissued hserver).2]
  have hown : c.publicKey = s.crypto.publicKey := by
    rw [hkey, hs.server.1.publicKey, ← hissued.key]
    rfl
  have hderived := hc.derived
  rw [hephemeral, hj, ephPublic_scale_comm, ← hr, ← htx, ← hrx] at hderived
  refine ⟨hown, hephemeral, ephPublic i, .name (.scalar i), ?_⟩
  rw [hephemeral, hj, ← hr]
  exact hderived

/-- Forwarding alone binds the client to the server it trusts. -/
theorem peer_nonce_binding_honest :
    ∃ c : AuthChallenge MsgBuf, c.publicKey = keyPublic 0 ∧ c.ephPublicKey = ephPublic 4 ∧
      KeysMatch honestLog 1 c (observedServer (clientResponse (.name (.nonce 3)))) := by
  obtain ⟨c, i, hc, -, -, -, hown⟩ := peer_nonce_binding honest_run
    (observed_server_reached serverChallenge (clientResponse (.name (.nonce 3))) serverSuccess)
    (observed_server_verified serverChallenge (clientResponse (.name (.nonce 3))) serverSuccess)
    rfl
    (observed_client_signed serverChallenge (clientResponse (.name (.nonce 3))) serverSuccess)
  have hkey : c.publicKey = keyPublic 0 := hc.accepted.trusted _ rfl
  exact ⟨c, hown 0 (twoParties_serverKey _) hkey⟩

/-- A challenge of the intruder's own, with the nonce of the server's. -/
def intruderChallenge : Msg :=
  AuthChallenge.toBuf msgMemory ⟨.sign (.name (.intruder 0)) (signBuf msgMemory (.name (.nonce 3))
    (.point (.num 9) {.intruder 1})), .verifyKey (.name (.intruder 0)),
    .point (.num 9) {.intruder 1}, .name (.nonce 3)⟩

/-- A client of the intruder's server is made to answer another server's challenge. -/
theorem relayed_run : NetworkRun (twoParties (.verifyKey (.name (.intruder 0))))
    (observedLog intruderChallenge (clientResponse (.name (.nonce 3))) serverSuccess) := by
  refine observed_run intruderChallenge _ serverSuccess ?_ ⟨_, rfl, rfl⟩
    (.known (known_clientResponse intruderChallenge _ serverSuccess)) ⟨_, rfl, rfl⟩
    (.known (known_serverSuccess intruderChallenge _ serverSuccess))
  have hkey := Derives.known
    (K := {m | Known (firstTurn firstPlace (clientResponse (.name (.nonce 3)))) m})
    (.secret 0)
  have hnonce := (Derives.known
    (K := {m | Known (firstTurn firstPlace (clientResponse (.name (.nonce 3)))) m})
    (known_serverChallenge _)).snd.snd.snd
  have heph := (Derives.known
    (K := {m | Known (firstTurn firstPlace (clientResponse (.name (.nonce 3)))) m})
    (.secret 1)).scale (.num 9)
  exact .pair (hkey.sign (.pair hnonce heph)) (.pair hkey.verifyKey (.pair heph hnonce))

theorem not_peerBinding : ¬ ∀ S log, NetworkRun S log → PeerBinding S log := by
  intro hall
  have hserver := observed_server_reached intruderChallenge
    (clientResponse (.name (.nonce 3))) serverSuccess
  have hverified := observed_server_verified intruderChallenge
    (clientResponse (.name (.nonce 3))) serverSuccess
  have hsigned := observed_client_signed intruderChallenge
    (clientResponse (.name (.nonce 3))) serverSuccess
  obtain ⟨c, hc, hkey, -⟩ := hall _ _ relayed_run 0 _ _ 1 hserver hverified rfl hsigned
  have htrusted := hc.trusted _ rfl
  have hsame := htrusted.symm.trans hkey
  contradiction

end PeerBinding

section RoleSeparation

/-- The signature was made by the party with key `k` in the client role, never by a server. -/
def MadeByClient (S : ℕ → Agent) (log : Log (@Call.Answer MsgBuf)) (k : ℕ) (σ : Msg) :
    Prop :=
  (∃ t, (S t).role = .client ∧ (S t).key = k ∧ Signed log t σ) ∧
    ¬ ∃ t, (S t).role = .server ∧ Signed log t σ

/-- Every signature a server accepts under an identity key was made in the client role; no
server session is established on a signature of its own. -/
structure RoleSeparation (S : ℕ → Agent) (log : Log (@Call.Answer MsgBuf)) : Prop where
  accepted : ∀ u n r k, (S u).role = .server → (u, verifyResponse msgMemory n r true) ∈ log →
    r.publicKey = keyPublic k → MadeByClient S log k r.signature
  established : ∀ u s r, Reached S log u .server s →
    ServerVerified msgMemory (view log u) s r → ¬ Signed log u r.signature

/-- The response carries the server's own key and own ephemeral key. -/
def Reflects (S : ℕ → Agent) (log : Log (@Call.Answer MsgBuf)) (u : ℕ)
    (r : AuthResponse MsgBuf) : Prop :=
  r.publicKey = keyPublic (S u).key ∧ ∃ sk, (u, ⟨.cryptoKxKeypair, some (r.ephPublicKey, sk)⟩) ∈ log

/-- The one signature accepted from the wrong role is the server's own challenge sent back. -/
theorem madeByClient_iff (h : NetworkRun S log) {u k : ℕ} {n : Msg} {r : AuthResponse MsgBuf}
    (hu : (S u).role = .server) (hm : (u, verifyResponse msgMemory n r true) ∈ log)
    (hk : r.publicKey = keyPublic k) :
    MadeByClient S log k r.signature ↔ ¬ Reflects S log u r := by
  obtain ⟨hnonce, hsafe, hv⟩ := h.acceptedResponse hu hm
  rw [hk] at hv
  obtain ⟨t, i, hsigned, he, ht | ⟨c, hc, ht⟩⟩ := h.signer hsafe hv
  · obtain rfl : t = u := h.nonce_owner ht.nonce hnonce
    have hreflects : Reflects S log t r := by
      refine ⟨?_, _, he ▸ ht.ephemeral⟩
      rw [hk, ht.key]
    constructor
    · intro hmade
      exact absurd ⟨t, ht.role, hsigned⟩ hmade.2
    · intro hnot
      exact absurd hreflects hnot
  · constructor
    · rintro - ⟨-, sk, hown⟩
      rw [he] at hown
      obtain rfl : u = t := h.ephemeral_owner hown ht.ephemeral
      have hrole := hu.symm.trans ht.role
      contradiction
    · intro _
      refine ⟨⟨t, ht.role, ht.key, hsigned⟩, ?_⟩
      rintro ⟨v, hv', m, sk, hsign⟩
      obtain ⟨rfl, n', j, rfl, hs⟩ := h.serverSigned hv' hsign
      obtain ⟨k', -, hσ⟩ := hv
      have hmade := (h.signature hsign).symm.trans hσ
      have hj : ephPublic j = ephPublic i := (Term.pair.inj (Term.sign.inj hmade).2).2.trans he
      have hown := hs.ephemeral
      rw [hj] at hown
      obtain rfl : v = t := h.ephemeral_owner hown ht.ephemeral
      have hrole := hv'.symm.trans ht.role
      contradiction

/-- Roles are separated in exactly the runs in which no server accepts its own challenge. -/
theorem roleSeparation_iff (h : NetworkRun S log) :
    RoleSeparation S log ↔ ∀ u n r k, (S u).role = .server →
      (u, verifyResponse msgMemory n r true) ∈ log → r.publicKey = keyPublic k →
      ¬ Reflects S log u r := by
  constructor
  · intro hsep u n r k hu hm hk
    exact (madeByClient_iff h hu hm hk).mp (hsep.accepted u n r k hu hm hk)
  · intro hnot
    have haccepted : ∀ u n r k, (S u).role = .server →
        (u, verifyResponse msgMemory n r true) ∈ log → r.publicKey = keyPublic k →
        MadeByClient S log k r.signature := fun u n r k hu hm hk =>
      (madeByClient_iff h hu hm hk).mpr (hnot u n r k hu hm hk)
    refine ⟨haccepted, fun u s r hs hv hsigned => ?_⟩
    obtain ⟨m, sk, hsign⟩ := hsigned
    obtain ⟨rfl, -⟩ := h.serverSigned hs.role hsign
    have hm := mem_view.mp hv.accepted
    obtain ⟨-, -, k', hk', hσ⟩ := h.acceptedResponse hs.role hm
    have hmade := (h.signature hsign).symm.trans hσ
    obtain ⟨rfl, -⟩ := Term.sign.inj hmade
    exact (haccepted u _ r _ hs.role hm hk').2 ⟨u, hs.role, _, _, hsign⟩

/-- Forwarding alone reflects nothing. -/
theorem roleSeparation_honest : RoleSeparation (twoParties (keyPublic 0)) honestLog := by
  refine (roleSeparation_iff honest_run).mpr fun u n r k hu hm _ hreflects => ?_
  have hzero : u = 0 := by
    cases u with
    | zero => rfl
    | succ u => contradiction
  subst hzero
  have hview := mem_view.mpr hm
  rw [view_server] at hview
  have hkey : r.publicKey = keyPublic 1 := by
    simp [serverView, serverOpening, serverClosing] at hview
    exact hview.2.2
  have hsame := hkey.symm.trans hreflects.1
  contradiction

/-- The server's challenge in the shape of a response. -/
def reflectedResponse : Msg :=
  AuthResponse.toBuf msgMemory ⟨.sign (.name (.key 0))
    (signBuf msgMemory (.name (.nonce 3)) (ephPublic 4)), keyPublic 0, ephPublic 4⟩

theorem reflected_run : NetworkRun (twoParties (keyPublic 0))
    (observedLog serverChallenge reflectedResponse serverSuccess) := by
  refine observed_run serverChallenge _ serverSuccess (.known (known_serverChallenge _))
    ⟨_, rfl, rfl⟩ ?_ ⟨_, rfl, rfl⟩
    (.known (known_serverSuccess serverChallenge _ serverSuccess))
  have hseen := Derives.known (K := {m | Known (firstTurn firstPlace reflectedResponse ++
    secondTurn firstPlace serverChallenge serverSuccess) m})
    ((known_serverChallenge reflectedResponse).mono (List.subset_append_left _ _))
  exact .pair hseen.fst (.pair hseen.snd.fst hseen.snd.snd.fst)

theorem not_roleSeparation : ¬ ∀ S log, NetworkRun S log → RoleSeparation S log := by
  intro hall
  have hserver := observed_server_reached serverChallenge reflectedResponse serverSuccess
  have hverified := observed_server_verified serverChallenge reflectedResponse serverSuccess
  have hsigned := observed_server_signed serverChallenge reflectedResponse serverSuccess
  exact (hall _ _ reflected_run).established 0 _ _ hserver hverified hsigned

end RoleSeparation

section Completion

/-- Server run `u` received the response of client run `t` and has the id, nonce and keys of
its session `s`. -/
structure Agreement (log : Log (@Call.Answer MsgBuf)) (t : ℕ) (s : Session MsgBuf)
    (u : ℕ) : Prop where
  received : ∃ r, ReceivedResponse msgMemory (view log u) r ∧ Signed log t r.signature
  sessionId : (u, ⟨.generateSessionId, s.sessionId⟩) ∈ log
  sessionNonce : (u, ⟨.randombytesBuf sessionNonceSize, s.sessionNonce⟩) ∈ log
  keys : ∃ pk sk clientPk, (u, ⟨.cryptoKxServerSessionKeys pk sk clientPk,
    some (s.crypto.txKey, s.crypto.rxKey)⟩) ∈ log

/-- Every established client of an honest server agrees with a run of that server, and no two
clients with the same one. -/
structure CompletionAgreement (S : ℕ → Agent) (log : Log (@Call.Answer MsgBuf)) :
    Prop where
  agrees : ∀ t s k, Reached S log t .client s → (S t).trusted = some (keyPublic k) →
    (∃ v, (S v).key = k) → ServerKey S k → ∃ u, (S u).key = k ∧ Agreement log t s u
  injective : ∀ t t' s s' u, Reached S log t .client s → Reached S log t' .client s' →
    Agreement log t s u → Agreement log t' s' u → t = t'

/-- A server session derives its keys from one response only. -/
theorem accepted_client_unique (h : NetworkRun S log) {u t t' : ℕ} {s : Session MsgBuf}
    {r r' : AuthResponse MsgBuf} (hs : Reached S log u .server s)
    (hv : ServerVerified msgMemory (view log u) s r)
    (hv' : ServerVerified msgMemory (view log u) s r') (ht : (S t).role = .client)
    (ht' : (S t').role = .client) (hsigned : Signed log t r.signature)
    (hsigned' : Signed log t' r'.signature) : t = t' := by
  obtain ⟨c, i, hc, -, hr, -⟩ := h.response_client hs.role ht (mem_view.mp hv.accepted) hsigned
  obtain ⟨c', i', hc', -, hr', -⟩ :=
    h.response_client hs.role ht' (mem_view.mp hv'.accepted) hsigned'
  obtain ⟨j, -, -, hrx, -⟩ := h.serverSession hs hv
  obtain ⟨j', -, -, hrx', -⟩ := h.serverSession hs hv'
  have hkeys := hrx.symm.trans hrx'
  have heph : r.ephPublicKey = r'.ephPublicKey :=
    (Term.pair.inj (Term.pair.inj (Term.hash.inj hkeys).2).2).1
  have hsame : ephPublic i = ephPublic i' := hr.symm.trans (heph.trans hr')
  have hown := hc.ephemeral
  rw [hsame] at hown
  exact h.ephemeral_owner hown hc'.ephemeral

/-- What an established client of an honest server can rely on. -/
structure ServerCommitment (S : ℕ → Agent) (log : Log (@Call.Answer MsgBuf)) (t k : ℕ)
    (s : Session MsgBuf) (u : ℕ) : Prop where
  issued : ∃ c j, ChallengeAccepted msgMemory (S t).trusted (view log t) c ∧
    s.crypto.peerPublicKey = c.publicKey ∧ ServerSigned S log u k c.nonce j ∧
    c.ephPublicKey = ephPublic j
  keys : ∀ s' r, Reached S log u .server s' → ServerVerified msgMemory (view log u) s' r →
    Signed log t r.signature →
    s'.crypto.rxKey = s.crypto.txKey ∧ s'.crypto.txKey = s.crypto.rxKey
  success : ∀ s', Reached S log u .server s' →
    Announced msgMemory (view log u) ⟨s.sessionNonce, s.sessionId⟩ →
    s'.sessionId = s.sessionId ∧ s'.sessionNonce = s.sessionNonce
  injective : ∀ s' r r' t', Reached S log u .server s' →
    ServerVerified msgMemory (view log u) s' r → ServerVerified msgMemory (view log u) s' r' →
    (S t').role = .client → Signed log t r.signature → Signed log t' r'.signature → t = t'

/-- The server of an established client issued the challenge in a run of its own. -/
theorem client_completion (h : NetworkRun S log) {t k : ℕ} {s : Session MsgBuf}
    (hs : Reached S log t .client s) (htrusted : (S t).trusted = some (keyPublic k))
    (hk : ServerKey S k) : ∃ u, ServerCommitment S log t k s u := by
  obtain ⟨c, i, hc, hi, hpeer, hrx, htx⟩ := h.clientSession hs
  have hkey : c.publicKey = keyPublic k := hc.accepted.trusted _ htrusted
  obtain ⟨u, j, hu, hj⟩ := h.challenge_issuer hk hc.accepted hkey
  refine ⟨u, ⟨c, j, hc.accepted, hpeer, hu, hj⟩, ?_, ?_, ?_⟩
  · intro s' r hs' hv hsigned
    obtain ⟨c', i', hc', -, hr, -⟩ :=
      h.response_client hs'.role hs.role (mem_view.mp hv.accepted) hsigned
    obtain ⟨j', -, hu', hrx', htx'⟩ := h.serverSession hs' hv
    have hjj := (h.serverSigned_unique hu hu').2
    have hii := (h.clientSigned_unique hc hc').2
    rw [← ephPublic_injective hjj, hr, ← ephPublic_injective hii, ephPublic_scale_comm] at hrx' htx'
    rw [hrx', htx', hrx, htx, hj]
    exact ⟨rfl, rfl⟩
  · intro s' hs' ha
    have hsame := hs'.server.2 _ ha
    obtain ⟨hnonce, hid⟩ := AuthSuccess.mk.inj hsame
    exact ⟨hid.symm, hnonce.symm⟩
  · intro s' r r' t' hs' hv hv' ht' hsigned hsigned'
    exact accepted_client_unique h hs' hv hv' hs.role ht' hsigned hsigned'

/-- Forwarding alone commits the server to the client. -/
theorem client_completion_honest : ∃ u, ServerCommitment (twoParties (keyPublic 0)) honestLog 1 0
    (observedClient serverChallenge serverSuccess) u :=
  client_completion honest_run (observed_client_reached serverChallenge _ serverSuccess) rfl
    (twoParties_serverKey _)

/-- The intruder makes up the final frame. -/
def forgedSuccess : Msg := AuthSuccess.toBuf msgMemory ⟨.num 0, 999⟩

theorem forged_run : NetworkRun (twoParties (keyPublic 0))
    (observedLog serverChallenge (clientResponse (.name (.nonce 3))) forgedSuccess) :=
  forwarded_run forgedSuccess (.pair (.num 0) (.num 999))

theorem not_completionAgreement :
    ¬ ∀ S log, NetworkRun S log → CompletionAgreement S log := by
  intro hall
  have hclient := observed_client_reached serverChallenge (clientResponse (.name (.nonce 3)))
    forgedSuccess
  obtain ⟨u, hu, ha⟩ :=
    (hall _ _ forged_run).agrees 1 _ 0 hclient rfl ⟨0, rfl⟩ (twoParties_serverKey _)
  have hzero : u = 0 := by
    cases u with
    | zero => rfl
    | succ u => contradiction
  subst hzero
  have hid := mem_view.mpr ha.sessionId
  rw [view_server] at hid
  simp [serverView, serverOpening, serverClosing] at hid
  exact absurd hid (by decide)

end Completion

section Replay

/-- Server session `s` of run `u` was authenticated by client run `t` of key `k`: the run
signed exactly the nonce of the session, which derived its keys from the ephemeral key the
run generated. -/
structure AuthenticatedBy (S : ℕ → Agent) (log : Log (@Call.Answer MsgBuf)) (u : ℕ)
    (s : Session MsgBuf) (k t : ℕ) : Prop where
  role : (S t).role = .client
  key : (S t).key = k
  signed : ∃ m sk σ, (t, ⟨.cryptoSignDetached m sk, some σ⟩) ∈ log
  derived : ∃ i, (t, ⟨.cryptoKxKeypair, some (ephPublic i, .name (.scalar i))⟩) ∈ log ∧
    (u, ⟨.cryptoKxServerSessionKeys s.crypto.ephPublicKey s.crypto.ephPrivateKey (ephPublic i),
      some (s.crypto.rxKey, s.crypto.txKey)⟩) ∈ log ∧
    ∀ m sk σ, (t, ⟨.cryptoSignDetached m sk, some σ⟩) ∈ log →
      m = signBuf msgMemory s.authNonce (ephPublic i)

/-- No session and no response is authenticated twice. -/
structure NoReplay (S : ℕ → Agent) (log : Log (@Call.Answer MsgBuf)) (k : ℕ) : Prop where
  authenticated : ∀ u s, Reached S log u .server s → s.crypto.peerPublicKey = keyPublic k →
    ∃ t, AuthenticatedBy S log u s k t
  injective : ∀ u u' s s' t, Reached S log u .server s → Reached S log u' .server s' →
    AuthenticatedBy S log u s k t → AuthenticatedBy S log u' s' k t → u = u'
  response : ∀ u u' n n' r, (S u).role = .server → (S u').role = .server →
    (u, verifyResponse msgMemory n r true) ∈ log →
    (u', verifyResponse msgMemory n' r true) ∈ log → u = u'

theorem no_replay (h : NetworkRun S log) {k : ℕ} (hk : ClientKey S k) : NoReplay S log k := by
  refine ⟨fun u s hs hpeer => ?_, fun u u' s s' t hs hs' ha ha' => ?_,
    fun u u' n n' r hu hu' hm hm' => ?_⟩
  · obtain ⟨r, hv⟩ := hs.server.1.response
    obtain ⟨-, hsafe, hver⟩ := h.acceptedResponse hs.role (mem_view.mp hv.accepted)
    rw [← hv.peer, hpeer] at hver
    obtain ⟨t, i, hsigned, hi, ht | ⟨c, hc, ht⟩⟩ := h.signer hsafe hver
    · have hrole := hk t ht.key
      rw [ht.role] at hrole
      contradiction
    · refine ⟨t, ht.role, ht.key, ⟨_, _, _, ht.signed⟩, i, ht.ephemeral, ?_, ?_⟩
      · rw [← hi]
        exact mem_view.mp hv.derived
      · intro m sk σ hm
        rw [← hc]
        exact h.signed_once hm ht.signed
  · obtain ⟨m, sk, σ, hm⟩ := ha.signed
    obtain ⟨i, -, -, hall⟩ := ha.derived
    obtain ⟨i', -, -, hall'⟩ := ha'.derived
    have hsame := (hall m sk σ hm).symm.trans (hall' m sk σ hm)
    have hnonce := mem_view.mp hs'.server.1.nonce
    rw [← (Term.pair.inj hsame).1] at hnonce
    exact h.nonce_owner (mem_view.mp hs.server.1.nonce) hnonce
  · obtain ⟨hn, -, hv⟩ := h.acceptedResponse hu hm
    obtain ⟨hn', -, hv'⟩ := h.acceptedResponse hu' hm'
    have hsame := (hv.unique hv').2
    rw [← (Term.pair.inj hsame).1] at hn'
    exact h.nonce_owner hn hn'

/-- Runs 0 and 2 are servers with key 0; every other run is a client with key 1. -/
def pairedParties : ℕ → Agent
  | 0 | 2 => ⟨.server, 0, none, 3, []⟩
  | _ => ⟨.client, 1, some (keyPublic 0), 4, []⟩

theorem pairedParties_clientKey : ClientKey pairedParties 1 := by
  intro t ht
  match t with
  | 0 | 2 => contradiction
  | 1 | 3 | _ + 4 => rfl

/-- A second handshake after the first one. -/
abbrev secondPlace : Place := ⟨2, 3, 25⟩

/-- The same client completes two handshakes. -/
abbrev repeatedLog : Log (@Call.Answer MsgBuf) :=
  forwardedLog firstPlace ++ forwardedLog secondPlace

/-- What a run outside of one of the two handshakes sees. -/
theorem forwardedLog_other {p : Place} {t : ℕ} (hs : p.server ≠ t) (hc : p.client ≠ t) :
    view (forwardedLog p) t = [] := handshakeLog_other p _ _ _ hs hc

theorem repeated_server_first : view repeatedLog 0 =
    serverView firstPlace (responseSent firstPlace (.name (.nonce 3))) := by
  have hfirst : view (forwardedLog firstPlace) 0 = _ :=
    handshakeLog_server firstPlace _ _ _ one_ne_zero
  rw [view_append, hfirst, forwardedLog_other (by decide) (by decide), List.append_nil]

theorem repeated_server_second : view repeatedLog 2 =
    serverView secondPlace (responseSent secondPlace (.name (.nonce 28))) := by
  have hsecond : view (forwardedLog secondPlace) 2 = _ :=
    handshakeLog_server secondPlace _ _ _ (by decide)
  rw [view_append, hsecond, forwardedLog_other (by decide) (by decide), List.nil_append]

theorem repeated_client_first : view repeatedLog 1 =
    clientView firstPlace (challengeSent firstPlace) (authSuccessSent firstPlace) := by
  have hfirst : view (forwardedLog firstPlace) 1 = _ :=
    handshakeLog_client firstPlace _ _ _ zero_ne_one
  rw [view_append, hfirst, forwardedLog_other (by decide) (by decide), List.append_nil]

theorem repeated_client_second : view repeatedLog 3 =
    clientView secondPlace (challengeSent secondPlace) (authSuccessSent secondPlace) := by
  have hsecond : view (forwardedLog secondPlace) 3 = _ :=
    handshakeLog_client secondPlace _ _ _ (by decide)
  rw [view_append, hsecond, forwardedLog_other (by decide) (by decide), List.nil_append]

theorem repeated_run : NetworkRun pairedParties repeatedLog := by
  refine run_of_exec (fun t => ?_) (allAdmissible_append.mpr
    ⟨forwardedLog_admissible rfl, forwardedLog_admissible rfl⟩)
  match t with
  | 0 =>
      rw [repeated_server_first]
      exact ⟨_, serverView_exec firstPlace _⟩
  | 1 =>
      rw [repeated_client_first]
      exact ⟨_, clientView_exec firstPlace (challengeSent firstPlace) _⟩
  | 2 =>
      rw [repeated_server_second]
      exact ⟨_, serverView_exec secondPlace _⟩
  | 3 =>
      rw [repeated_client_second]
      exact ⟨_, clientView_exec secondPlace (challengeSent secondPlace) _⟩
  | t + 4 =>
      have hnone : view repeatedLog (t + 4) = [] := by
        rw [view_append, forwardedLog_other (by simp) (by simp), List.nil_append,
          forwardedLog_other (by simp) (by simp)]
      rw [hnone]
      exact ⟨_, .nil _⟩

theorem repeated_first : Reached pairedParties repeatedLog 0 .server
    (servedSession firstPlace (responseSent firstPlace (.name (.nonce 3)))) := by
  refine ⟨rfl, rfl, 0, ?_⟩
  rw [repeated_server_first]
  exact serverView_exec firstPlace _

theorem repeated_second : Reached pairedParties repeatedLog 2 .server
    (servedSession secondPlace (responseSent secondPlace (.name (.nonce 28)))) := by
  refine ⟨rfl, rfl, 0, ?_⟩
  rw [repeated_server_second]
  exact serverView_exec secondPlace _

/-- The two sessions of the client are authenticated by two different runs of it. -/
theorem no_replay_honest : ∃ t t', t ≠ t' ∧
    AuthenticatedBy pairedParties repeatedLog 0
      (servedSession firstPlace (responseSent firstPlace (.name (.nonce 3)))) 1 t ∧
    AuthenticatedBy pairedParties repeatedLog 2
      (servedSession secondPlace (responseSent secondPlace (.name (.nonce 28)))) 1 t' := by
  have hreplay := no_replay repeated_run pairedParties_clientKey
  obtain ⟨t, ht⟩ := hreplay.authenticated 0 _ repeated_first rfl
  obtain ⟨t', ht'⟩ := hreplay.authenticated 2 _ repeated_second rfl
  refine ⟨t, t', ?_, ht, ht'⟩
  rintro rfl
  exact absurd (hreplay.injective 0 2 _ _ t repeated_first repeated_second ht ht') (by decide)

end Replay

section Secrecy

/-- The intruder cannot build either key of the session. -/
structure KeysSecret (log : Log (@Call.Answer MsgBuf)) (s : Session MsgBuf) : Prop where
  txKey : ¬ Derives {m | Known log m} s.crypto.txKey
  rxKey : ¬ Derives {m | Known log m} s.crypto.rxKey

/-- A key hashed from a point with two ephemeral secrets is not safe. -/
theorem not_safe_kxKey (half i j : ℕ) (clientPk serverPk : Msg) :
    ¬ Safe log (kxKey half ((ephPublic i).scale (.scalar j)) clientPk serverPk) := by
  intro hsafe
  have hpoint : Safe log ((ephPublic i).scale (.scalar j)) := hsafe.1
  have hle : ({.scalar j, .scalar i} : Multiset Name) ≤ .scalar j ::ₘ {.scalar i} := le_refl _
  exact not_guarded_point trivial trivial hle hpoint

/-- The keys of every honest session with an honest peer are secret. -/
structure SessionKeySecrecy (S : ℕ → Agent) (log : Log (@Call.Answer MsgBuf)) : Prop where
  client : ∀ t v s, Reached S log t .client s → (S v).role = .server →
    (S t).trusted = some (keyPublic (S v).key) → KeysSecret log s
  server : ∀ u v s, Reached S log u .server s → (S v).role = .client →
    s.crypto.peerPublicKey = keyPublic (S v).key → KeysSecret log s

theorem session_key_secrecy (h : NetworkRun S log)
    (hroles : ∀ t u, (S t).key = (S u).key → (S t).role = (S u).role) :
    SessionKeySecrecy S log := by
  refine ⟨fun t v s hs hv htrusted => ?_, fun u v s hs hv hpeer => ?_⟩
  · have hk : ServerKey S (S v).key := fun u hu => (hroles u v hu).trans hv
    obtain ⟨c, i, hc, -, -, hrx, htx⟩ := h.clientSession hs
    obtain ⟨u, j, -, hj⟩ := h.challenge_issuer hk hc.accepted (hc.accepted.trusted _ htrusted)
    rw [hj] at hrx htx
    refine ⟨fun hd => ?_, fun hd => ?_⟩
    · rw [htx] at hd
      exact not_safe_kxKey 1 j i _ _ (h.safe_of_derives hd)
    · rw [hrx] at hd
      exact not_safe_kxKey 0 j i _ _ (h.safe_of_derives hd)
  · obtain ⟨r, hverified⟩ := hs.server.1.response
    obtain ⟨-, hsafe, hver⟩ := h.acceptedResponse hs.role (mem_view.mp hverified.accepted)
    rw [← hverified.peer, hpeer] at hver
    obtain ⟨t, i, -, hi, ht | ⟨c, -, ht⟩⟩ := h.signer hsafe hver
    · have hrole := hroles t v ht.key
      rw [ht.role, hv] at hrole
      contradiction
    · obtain ⟨j, -, -, hrx, htx⟩ := h.serverSession hs hverified
      rw [hi] at hrx htx
      refine ⟨fun hd => ?_, fun hd => ?_⟩
      · rw [htx] at hd
        exact not_safe_kxKey 0 i j _ _ (h.safe_of_derives hd)
      · rw [hrx] at hd
        exact not_safe_kxKey 1 i j _ _ (h.safe_of_derives hd)

/-- In the honest run both sessions keep their keys secret. -/
theorem session_key_secrecy_honest :
    KeysSecret honestLog (observedClient serverChallenge serverSuccess) ∧
      KeysSecret honestLog (observedServer (clientResponse (.name (.nonce 3)))) := by
  have hroles : ∀ t u, (twoParties (keyPublic 0) t).key = (twoParties (keyPublic 0) u).key →
      (twoParties (keyPublic 0) t).role = (twoParties (keyPublic 0) u).role := by
    intro t u ht
    cases t <;> cases u <;> first | rfl | contradiction
  have hsecret := session_key_secrecy honest_run hroles
  constructor
  · exact hsecret.client 1 0 _ (observed_client_reached serverChallenge _ serverSuccess) rfl rfl
  · exact hsecret.server 0 1 _ (observed_server_reached serverChallenge _ serverSuccess) rfl rfl

end Secrecy

end Sencd
