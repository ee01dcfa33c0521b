import Sencd.Session

/-!
# What the server has done when it calls out and when it returns

A specification relates the session a function returns to the calls that were answered on
the way: the nonce it drew, the key pair it generated, the frame it received. Histories only
grow, so a fact about a member of the history is never lost.
-/
namespace Sencd
open CallProgram

variable {Buf : ℕ → Type} (M : Memory Buf)

/-- A frame of the given type with an `n`-byte payload was received. -/
def Received (h : Calls Buf) (type : PacketType) (n : ℕ) (payload : Buf n) : Prop :=
  ∃ socket packet, ⟨.packetReceive socket, some packet⟩ ∈ h ∧ packet.type = type ∧
    packet.payload = some ⟨n, payload⟩

def ReceivedChallenge (h : Calls Buf) (c : AuthChallenge Buf) : Prop :=
  ∃ payload, Received h .authRequest sizeofAuthChallenge payload ∧ c = AuthChallenge.ofBuf M payload

def ReceivedResponse (h : Calls Buf) (r : AuthResponse Buf) : Prop :=
  ∃ payload, Received h .authResponse sizeofAuthResponse payload ∧ r = AuthResponse.ofBuf M payload

def ReceivedSuccess (h : Calls Buf) (a : AuthSuccess Buf) : Prop :=
  ∃ payload, Received h .authSuccess sizeofAuthSuccess payload ∧ a = AuthSuccess.ofBuf M payload

variable {h h' : Calls Buf} {s : Session Buf}

theorem Received.mono (hh : h ⊆ h') {type : PacketType} {n : ℕ} {payload : Buf n}
    (hr : Received h type n payload) : Received h' type n payload := by
  obtain ⟨socket, packet, hm, ht, hp⟩ := hr
  exact ⟨socket, packet, hh hm, ht, hp⟩

theorem ReceivedChallenge.mono (hh : h ⊆ h') {c : AuthChallenge Buf}
    (hr : ReceivedChallenge M h c) : ReceivedChallenge M h' c := by
  obtain ⟨payload, hp, hc⟩ := hr
  exact ⟨payload, hp.mono hh, hc⟩

theorem ReceivedResponse.mono (hh : h ⊆ h') {r : AuthResponse Buf}
    (hr : ReceivedResponse M h r) : ReceivedResponse M h' r := by
  obtain ⟨payload, hp, hc⟩ := hr
  exact ⟨payload, hp.mono hh, hc⟩

/-- The two signature checks of the handshake, as events with their outcome. -/
abbrev verifyChallenge (c : AuthChallenge Buf) (ok : Bool) : Event (@Call.Answer Buf) :=
  ⟨.cryptoSignVerifyDetached c.signature (signBuf M c.nonce c.ephPublicKey) c.publicKey, ok⟩

abbrev verifyResponse (n : Buf authNonceSize) (r : AuthResponse Buf) (ok : Bool) :
    Event (@Call.Answer Buf) :=
  ⟨.cryptoSignVerifyDetached r.signature (signBuf M n r.ephPublicKey) r.publicKey, ok⟩

/-- Counts signatures. -/
def signWeight : Call Buf → ℕ
  | .cryptoSignDetached _ _ => 1
  | _ => 0

section Server

/-- A server session before its challenge: identity in place, tunnel closed. -/
structure ServerReady (identity : CryptoContext Buf) (s : Session Buf) : Prop where
  publicKey : s.crypto.publicKey = identity.publicKey
  privateKey : s.crypto.privateKey = identity.privateKey
  udp : s.udp = udpTunnelInit s.sessionId

/-- The session's nonce and ephemeral key were drawn in `h` and signed together. -/
structure ServerChallenged (h : Calls Buf) (s : Session Buf) : Prop where
  nonce : ⟨.randombytesBuf authNonceSize, s.authNonce⟩ ∈ h
  ephemeral : ⟨.cryptoKxKeypair, some (s.crypto.ephPublicKey, s.crypto.ephPrivateKey)⟩ ∈ h
  signed : ∃ signature, ⟨.cryptoSignDetached (signBuf M s.authNonce s.crypto.ephPublicKey)
    s.crypto.privateKey, some signature⟩ ∈ h

/-- A response to the session's challenge was received, its signature checked, and the
session keys were derived from its ephemeral key. -/
structure ServerVerified (h : Calls Buf) (s : Session Buf) (r : AuthResponse Buf) : Prop where
  received : ReceivedResponse M h r
  accepted : verifyResponse M s.authNonce r true ∈ h
  derived : ⟨.cryptoKxServerSessionKeys s.crypto.ephPublicKey s.crypto.ephPrivateKey
    r.ephPublicKey, some (s.crypto.rxKey, s.crypto.txKey)⟩ ∈ h
  peer : s.crypto.peerPublicKey = r.publicKey
  verified : s.crypto.verified = true

theorem ServerChallenged.mono (hh : h ⊆ h') (hs : ServerChallenged M h s) :
    ServerChallenged M h' s :=
  ⟨hh hs.nonce, hh hs.ephemeral, hs.signed.imp fun _ hm => hh hm⟩

theorem ServerVerified.mono (hh : h ⊆ h') {r : AuthResponse Buf} (hs : ServerVerified M h s r) :
    ServerVerified M h' s r :=
  ⟨hs.received.mono M hh, hh hs.accepted, hh hs.derived, hs.peer, hs.verified⟩

/-- No `AUTH_SUCCESS` frame has been handed to the socket. -/
def NotAnnounced (h : Calls Buf) : Prop :=
  ∀ socket packet ok, ⟨.packetSend socket packet, ok⟩ ∈ h → packet.type ≠ .authSuccess

/-- What a server run has done by the time it issues a call. -/
def ServerSite (identity : CryptoContext Buf) (h : Calls Buf) : Call Buf → Prop
  | .packetSend _ packet => packet.payload = none ∨
      (∃ n pk sk signature, ⟨.randombytesBuf authNonceSize, n⟩ ∈ h ∧
        ⟨.cryptoKxKeypair, some (pk, sk)⟩ ∈ h ∧
        ⟨.cryptoSignDetached (signBuf M n pk) identity.privateKey, some signature⟩ ∈ h ∧
        packet.payload = some ⟨_, AuthChallenge.toBuf M ⟨signature, identity.publicKey, pk, n⟩⟩) ∨
      (∃ n id, ⟨.randombytesBuf sessionNonceSize, n⟩ ∈ h ∧
        packet.payload = some ⟨_, AuthSuccess.toBuf M ⟨n, id⟩⟩)
  | .cryptoSignDetached message privateKey => privateKey = identity.privateKey ∧
      ∃ n pk sk, ⟨.randombytesBuf authNonceSize, n⟩ ∈ h ∧
        ⟨.cryptoKxKeypair, some (pk, sk)⟩ ∈ h ∧ message = signBuf M n pk
  | .cryptoSignVerifyDetached signature message publicKey => ∃ n r,
      ⟨.randombytesBuf authNonceSize, n⟩ ∈ h ∧ ReceivedResponse M h r ∧
      signature = r.signature ∧ message = signBuf M n r.ephPublicKey ∧ publicKey = r.publicKey
  | _ => True

variable {identity : CryptoContext Buf}

theorem ServerSite.mono (hh : h ⊆ h') {c : Call Buf} (hc : ServerSite M identity h c) :
    ServerSite M identity h' c := by
  cases c with
  | packetSend socket packet =>
      obtain hp | ⟨n, pk, sk, signature, hn, hk, hs, hp⟩ | ⟨n, id, hn, hp⟩ := hc
      · exact .inl hp
      · exact .inr (.inl ⟨n, pk, sk, signature, hh hn, hh hk, hh hs, hp⟩)
      · exact .inr (.inr ⟨n, id, hh hn, hp⟩)
  | cryptoSignDetached message privateKey =>
      obtain ⟨hkey, n, pk, sk, hn, hk, hm⟩ := hc
      exact ⟨hkey, n, pk, sk, hh hn, hh hk, hm⟩
  | cryptoSignVerifyDetached signature message publicKey =>
      obtain ⟨n, r, hn, hr, he⟩ := hc
      exact ⟨n, r, hh hn, hr.mono M hh, he⟩
  | _ => trivial

theorem NotAnnounced.snoc (hh : NotAnnounced h) {c : Call Buf} {r : c.Answer}
    (hc : ∀ socket packet, c = .packetSend socket packet → packet.type ≠ .authSuccess) :
    NotAnnounced (h ++ [⟨c, r⟩]) := by
  intro socket packet ok hm
  rcases List.mem_append.mp hm with hm | hm
  · exact hh socket packet ok hm
  · have he := List.mem_singleton.mp hm
    exact hc socket packet (congrArg Sigma.fst he).symm

theorem sessionServerHello_holds (hs : ServerReady identity s) (hq : NotAnnounced h)
    (hst : s.state ≠ .established) :
    Holds (ServerSite M identity)
      (fun h' r => NotAnnounced h' ∧ r.2.state ≠ .established ∧
        (r.1 = 0 → ServerReady identity r.2)) h
      (sessionServerHello s) := by
  have hrecv : ∀ r, NotAnnounced (h ++ [⟨.packetReceive s.socket, r⟩]) := fun r =>
    hq.snoc (by simp)
  refine holds_perform trivial fun answer => ?_
  cases answer with
  | none => exact ⟨hrecv none, hst, by simp⟩
  | some packet =>
      refine holds_ite (fun _ => ⟨hrecv _, hst, by simp⟩) fun _ => ?_
      refine holds_perform (.inl rfl) fun ok => ?_
      have hsent := (hrecv (some packet)).snoc
        (c := .packetSend s.socket ⟨.serverHello, s.protocolVersion, none⟩) (r := ok)
        (by rintro socket packet ⟨rfl, rfl⟩; simp)
      exact holds_ite
        (fun _ => ⟨hsent, by simp, fun _ => ⟨hs.publicKey, hs.privateKey, hs.udp⟩⟩)
        fun _ => ⟨hsent, hst, by simp⟩

theorem sessionAuthenticateServer_holds (hs : ServerReady identity s) (hq : NotAnnounced h)
    (hst : s.state ≠ .established) :
    Holds (ServerSite M identity)
      (fun h' r => NotAnnounced h' ∧ r.2.state ≠ .established ∧
        (r.1 = 0 → ServerReady identity r.2 ∧ ServerChallenged M h' r.2)) h
      (sessionAuthenticateServer M s) := by
  refine holds_perform trivial fun n => ?_
  have hn : NotAnnounced (h ++ [⟨.randombytesBuf authNonceSize, n⟩]) := hq.snoc (by simp)
  refine holds_perform trivial fun keypair => ?_
  have hkey := hn.snoc (c := .cryptoKxKeypair) (r := keypair) (by simp)
  cases keypair with
  | none => exact ⟨hkey, hst, by simp⟩
  | some keypair =>
      obtain ⟨pk, sk⟩ := keypair
      refine holds_perform ⟨hs.privateKey, n, pk, sk, by simp, by simp, rfl⟩ fun answer => ?_
      have hsign := hkey.snoc (r := answer)
        (c := .cryptoSignDetached (signBuf M n pk) s.crypto.privateKey) (by simp)
      cases answer with
      | none => exact ⟨hsign, hst, by simp⟩
      | some signature =>
          refine holds_packetConstruct trivial fun ok => ?_
          have halloc := hsign.snoc (c := .malloc) (r := ok) (by simp)
          refine holds_perform ?_ fun sent => ?_
          · cases ok with
            | false => exact .inl rfl
            | true =>
                refine .inr (.inl ⟨n, pk, sk, signature, by simp, by simp, ?_, ?_⟩)
                · simp [← hs.privateKey]
                · simp [hs.publicKey]
          have hsent := halloc.snoc (r := sent) (c := .packetSend s.socket ⟨.authRequest,
            s.protocolVersion, if ok then some ⟨_, AuthChallenge.toBuf M
              ⟨signature, s.crypto.publicKey, pk, n⟩⟩ else none⟩)
            (by rintro socket packet ⟨rfl, rfl⟩; simp)
          refine holds_ite
            (fun _ => ⟨hsent, by simp, fun _ => ⟨⟨hs.publicKey, hs.privateKey, hs.udp⟩, ?_⟩⟩)
            fun _ => ⟨hsent, hst, by simp⟩
          exact ⟨by simp, by simp, signature, by simp⟩

theorem sessionVerifyClient_holds (hs : ServerReady identity s) (hc : ServerChallenged M h s)
    (hq : NotAnnounced h) (hst : s.state ≠ .established) :
    Holds (ServerSite M identity)
      (fun h' r => NotAnnounced h' ∧ r.2.state ≠ .established ∧
        (r.1 = 0 → ServerReady identity r.2 ∧ ServerChallenged M h' r.2 ∧
          ∃ response, ServerVerified M h' r.2 response)) h
      (sessionVerifyClient M s) := by
  have hrecv : ∀ r, NotAnnounced (h ++ [⟨.packetReceive s.socket, r⟩]) := fun r =>
    hq.snoc (by simp)
  refine holds_perform trivial fun answer => ?_
  cases answer with
  | none => exact ⟨hrecv none, hst, by simp⟩
  | some packet =>
      refine holds_ite (fun _ => ⟨hrecv _, hst, by simp⟩) fun htype => ?_
      cases hread : packet.read sizeofAuthResponse with
      | none => exact ⟨hrecv _, hst, by simp⟩
      | some payload =>
          have hreceived : ReceivedResponse M (h ++ [⟨.packetReceive s.socket, some packet⟩])
              (AuthResponse.ofBuf M payload) :=
            ⟨payload, ⟨s.socket, packet, by simp, not_not.mp htype, Packet.read_eq_some.mp hread⟩,
              rfl⟩
          obtain ⟨sent, hsigned⟩ := hc.signed
          dsimp only
          generalize AuthResponse.ofBuf M payload = response at hreceived ⊢
          have hsite : ServerSite M identity (h ++ [⟨.packetReceive s.socket, some packet⟩])
              (.cryptoSignVerifyDetached response.signature
                (signBuf M s.authNonce response.ephPublicKey) response.publicKey) :=
            ⟨s.authNonce, response, List.mem_append_left _ hc.nonce, hreceived, rfl, rfl, rfl⟩
          refine holds_perform hsite fun ok => ?_
          have hchecked := (hrecv (some packet)).snoc (r := ok) (c := .cryptoSignVerifyDetached
            response.signature (signBuf M s.authNonce response.ephPublicKey) response.publicKey)
            (by simp)
          refine holds_ite (fun hok => ?_) fun _ => ⟨hchecked, hst, by simp⟩
          subst hok
          refine holds_perform trivial fun keys => ?_
          have hderived := hchecked.snoc (r := keys) (c := .cryptoKxServerSessionKeys
            s.crypto.ephPublicKey s.crypto.ephPrivateKey response.ephPublicKey) (by simp)
          cases keys with
          | none => exact ⟨hderived, hst, by simp⟩
          | some keys =>
              refine ⟨hderived, hst,
                fun _ => ⟨⟨hs.publicKey, hs.privateKey, hs.udp⟩, ?_, response, ?_⟩⟩
              · exact ⟨by simp [hc.nonce], by simp [hc.ephemeral], sent, by simp [hsigned]⟩
              · exact ⟨hreceived.mono M (by simp), by simp, by simp, rfl, rfl⟩

/-- An `AUTH_SUCCESS` frame carrying `a` was sent in full. -/
def Announced (h : Calls Buf) (a : AuthSuccess Buf) : Prop :=
  ∃ socket packet, ⟨.packetSend socket packet, true⟩ ∈ h ∧ packet.type = .authSuccess ∧
    packet.payload = some ⟨_, a.toBuf M⟩

theorem NotAnnounced.not_announced (hq : NotAnnounced h) {a : AuthSuccess Buf} :
    ¬ Announced M h a := by
  rintro ⟨socket, packet, hm, ht, -⟩
  exact hq socket packet true hm ht

/-- What a server session is when its handshake has succeeded. -/
structure ServerEstablished (identity : CryptoContext Buf) (h : Calls Buf) (s : Session Buf) :
    Prop extends ServerReady identity s, ServerChallenged M h s where
  response : ∃ r, ServerVerified M h s r
  state : s.state = .established
  sessionNonce : ⟨.randombytesBuf sessionNonceSize, s.sessionNonce⟩ ∈ h

theorem sessionAnnounce_holds (hs : ServerReady identity s) (hc : ServerChallenged M h s)
    (hv : ∃ r, ServerVerified M h s r) (hq : NotAnnounced h) (hst : s.state ≠ .established) :
    Holds (ServerSite M identity)
      (fun h' r => (∀ a, Announced M h' a → r.1 = 0 ∧ a = ⟨r.2.sessionNonce, r.2.sessionId⟩) ∧
        (r.2.state = .established → r.1 = 0) ∧ (r.1 = 0 → ServerEstablished M identity h' r.2)) h
      (sessionAnnounce M s) := by
  refine holds_perform trivial fun n => ?_
  have hn : NotAnnounced (h ++ [⟨.randombytesBuf sessionNonceSize, n⟩]) := hq.snoc (by simp)
  refine holds_packetConstruct trivial fun ok => ?_
  have halloc := hn.snoc (c := .malloc) (r := ok) (by simp)
  refine holds_perform ?_ fun sent => ?_
  · cases ok with
    | false => exact .inl rfl
    | true => exact .inr (.inr ⟨n, s.sessionId, by simp, by simp⟩)
  have hid : ∀ a, Announced M (h ++ [⟨.randombytesBuf sessionNonceSize, n⟩] ++ [⟨.malloc, ok⟩] ++
      [⟨.packetSend s.socket ⟨.authSuccess, s.protocolVersion, if ok then some ⟨_,
        AuthSuccess.toBuf M ⟨n, s.sessionId⟩⟩ else none⟩, sent⟩]) a →
      sent = true ∧ a = ⟨n, s.sessionId⟩ := by
    rintro a ⟨socket, packet, hm, ht, hp⟩
    rcases List.mem_append.mp hm with hm | hm
    · exact absurd ht (halloc socket packet true hm)
    · have he := List.mem_singleton.mp hm
      obtain ⟨hcall, hans⟩ := Sigma.mk.inj he
      obtain ⟨-, rfl⟩ := Call.packetSend.inj hcall
      cases ok with
      | false => simp at hp
      | true =>
          have hbuf : AuthSuccess.toBuf M ⟨n, s.sessionId⟩ = a.toBuf M := by simpa using hp
          have hsame := congrArg (AuthSuccess.ofBuf M) hbuf
          rw [AuthSuccess.ofBuf_toBuf, AuthSuccess.ofBuf_toBuf] at hsame
          exact ⟨(eq_of_heq hans).symm, hsame.symm⟩
  refine holds_ite (fun _ => ⟨fun a ha => ⟨rfl, (hid a ha).2⟩, fun _ => rfl, fun _ => ?_⟩)
    fun hsent => ⟨fun a ha => absurd (hid a ha).1 hsent, fun he => absurd he hst, by simp⟩
  obtain ⟨r, hv⟩ := hv
  have hm : h ⊆ h ++ [⟨.randombytesBuf sessionNonceSize, n⟩] ++ [⟨.malloc, ok⟩] ++
      [⟨.packetSend s.socket ⟨.authSuccess, s.protocolVersion, if ok then some ⟨_,
        AuthSuccess.toBuf M ⟨n, s.sessionId⟩⟩ else none⟩, sent⟩] := by
    intro e he
    simp [he]
  have hc' := hc.mono M hm
  have hv' := hv.mono M hm
  exact {
    publicKey := hs.publicKey
    privateKey := hs.privateKey
    udp := hs.udp
    nonce := hc'.nonce
    ephemeral := hc'.ephemeral
    signed := hc'.signed
    response := ⟨r, hv'.received, hv'.accepted, hv'.derived, hv'.peer, hv'.verified⟩
    state := rfl
    sessionNonce := by simp }

theorem sessionServerConnect_holds (hs : ServerReady identity s) (hq : NotAnnounced h)
    (hst : s.state ≠ .established) :
    Holds (ServerSite M identity)
      (fun h' r => (∀ a, Announced M h' a → r.1 = 0 ∧ a = ⟨r.2.sessionNonce, r.2.sessionId⟩) ∧
        (r.2.state = .established → r.1 = 0) ∧ (r.1 = 0 → ServerEstablished M identity h' r.2)) h
      (sessionServerConnect M s) := by
  have hfail : ∀ {h'} (s' : Session Buf), NotAnnounced h' → s'.state ≠ .established →
      (∀ a, Announced M h' a → (1, s').1 = 0 ∧ a = ⟨(1, s').2.sessionNonce, (1, s').2.sessionId⟩) ∧
        ((1, s').2.state = .established → (1, s').1 = 0) ∧
        ((1, s').1 = 0 → ServerEstablished M identity h' (1, s').2) := fun s' hq' hst' =>
    ⟨fun a ha => absurd ha (hq'.not_announced M), fun he => absurd he hst', by simp⟩
  apply (sessionServerHello_holds M hs hq hst).bind
  rintro h₁ ⟨code, s₁⟩ ⟨hq₁, hst₁, hs₁⟩
  refine holds_ite (fun _ => hfail s₁ hq₁ hst₁) fun hcode => ?_
  have hs₁ := hs₁ (not_not.mp hcode)
  apply (sessionAuthenticateServer_holds M hs₁ hq₁ hst₁).bind
  rintro h₂ ⟨code, s₂⟩ ⟨hq₂, hst₂, hs₂⟩
  refine holds_ite (fun _ => hfail s₂ hq₂ hst₂) fun hcode => ?_
  obtain ⟨hs₂, hc₂⟩ := hs₂ (not_not.mp hcode)
  apply (sessionVerifyClient_holds M hs₂ hc₂ hq₂ hst₂).bind
  rintro h₃ ⟨code, s₃⟩ ⟨hq₃, hst₃, hs₃⟩
  refine holds_ite (fun _ => hfail s₃ hq₃ hst₃) fun hcode => ?_
  obtain ⟨hs₃, hc₃, hv₃⟩ := hs₃ (not_not.mp hcode)
  exact sessionAnnounce_holds M hs₃ hc₃ hv₃ hq₃ hst₃

theorem serverHandshake_holds (socket : ℤ) (ip : List Char) :
    Holds (ServerSite M identity)
      (fun h' r => (∀ a, Announced M h' a → r.1 = 0 ∧ a = ⟨r.2.sessionNonce, r.2.sessionId⟩) ∧
        (r.2.state = .established → r.1 = 0) ∧ (r.1 = 0 → ServerEstablished M identity h' r.2)) []
      (serverHandshake M socket ip identity) := by
  refine holds_perform trivial fun id => holds_ite (fun hcode => absurd rfl hcode) fun _ => ?_
  have hnone : NotAnnounced ([] : Calls Buf) := by simp [NotAnnounced]
  exact sessionServerConnect_holds M ⟨rfl, rfl, rfl⟩ (hnone.snoc (by simp)) (by simp)

theorem sessionServerHello_atMost (s : Session Buf) :
    AtMost signWeight 0 (sessionServerHello s) := by
  refine atMost_perform rfl fun answer => ?_
  cases answer with
  | none => exact atMost_ret
  | some packet =>
      refine atMost_ite atMost_ret (atMost_packetConstruct rfl fun hello => ?_)
      exact atMost_perform rfl fun ok => atMost_ite atMost_ret atMost_ret

theorem sessionAuthenticateServer_atMost (s : Session Buf) :
    AtMost signWeight 1 (sessionAuthenticateServer M s) := by
  refine atMost_perform rfl fun n => atMost_perform rfl fun keypair => ?_
  cases keypair with
  | none => exact atMost_ret
  | some keypair =>
      refine atMost_call.mpr ⟨le_rfl, fun signature => ?_⟩
      cases signature with
      | none => exact atMost_ret
      | some signature =>
          refine atMost_packetConstruct (α := ℕ × Session Buf) rfl fun packet => ?_
          exact atMost_perform rfl fun ok => atMost_ite atMost_ret atMost_ret

theorem sessionVerifyClient_atMost (s : Session Buf) :
    AtMost signWeight 0 (sessionVerifyClient M s) := by
  refine atMost_perform rfl fun answer => ?_
  cases answer with
  | none => exact atMost_ret
  | some packet =>
      apply atMost_ite atMost_ret
      cases packet.read sizeofAuthResponse with
      | none => exact atMost_ret
      | some payload =>
          refine atMost_perform rfl fun ok =>
            atMost_ite (atMost_perform rfl fun keys => ?_) atMost_ret
          cases keys with
          | none => exact atMost_ret
          | some keys => exact atMost_ret

theorem sessionAnnounce_atMost (s : Session Buf) :
    AtMost signWeight 0 (sessionAnnounce M s) := by
  refine atMost_perform rfl fun n => atMost_packetConstruct rfl fun packet => ?_
  exact atMost_perform rfl fun ok => atMost_ite atMost_ret atMost_ret

/-- A server signs at most once in a handshake. -/
theorem serverHandshake_atMost (socket : ℤ) (ip : List Char) :
    AtMost signWeight 1 (serverHandshake M socket ip identity) := by
  refine atMost_perform rfl fun id => atMost_ite atMost_ret ?_
  refine (sessionServerHello_atMost _).bind (c := 1) fun r => atMost_ite atMost_ret ?_
  refine (sessionAuthenticateServer_atMost M _).bind (c := 0) fun r => atMost_ite atMost_ret ?_
  refine (sessionVerifyClient_atMost M _).bind (c := 0) fun r => atMost_ite atMost_ret ?_
  exact sessionAnnounce_atMost M _

end Server

section Kept

/-- A handshake closes no descriptor. -/
def ClosesNothing : Calls Buf → Call Buf → Prop := fun _ c => ∀ fd, c ≠ .close fd

/-- The session `s` with what a handshake of the server writes, as it is in `t`. -/
def Session.handshaken (s t : Session Buf) : Session Buf :=
  { s with
    crypto := t.crypto
    sessionNonce := t.sessionNonce
    authNonce := t.authNonce
    state := t.state }

/-- What the server's handshake leaves of its session: the send counter, and every field beside
the crypto context, the nonces and the state. -/
structure HandshakeKept (s t : Session Buf) : Prop where
  counter : t.crypto.txNonce = s.crypto.txNonce
  frame : t = s.handshaken t

theorem sessionServerHello_kept (s : Session Buf) :
    Holds ClosesNothing (fun _ r => HandshakeKept s r.2) h (sessionServerHello s) := by
  refine holds_perform nofun fun answer => ?_
  cases answer with
  | none => exact ⟨rfl, rfl⟩
  | some packet =>
      refine holds_ite (fun _ => ⟨rfl, rfl⟩) fun _ => ?_
      exact holds_perform nofun fun ok =>
        holds_ite (fun _ => ⟨rfl, rfl⟩) fun _ => ⟨rfl, rfl⟩

theorem sessionAuthenticateServer_kept (s : Session Buf) :
    Holds ClosesNothing (fun _ r => HandshakeKept s r.2) h (sessionAuthenticateServer M s) := by
  refine holds_perform nofun fun n => holds_perform nofun fun keypair => ?_
  cases keypair with
  | none => exact ⟨rfl, rfl⟩
  | some keypair =>
      refine holds_perform nofun fun answer => ?_
      cases answer with
      | none => exact ⟨rfl, rfl⟩
      | some signature =>
          refine holds_packetConstruct nofun fun ok => ?_
          exact holds_perform nofun fun sent =>
            holds_ite (fun _ => ⟨rfl, rfl⟩) fun _ => ⟨rfl, rfl⟩

theorem sessionVerifyClient_kept (s : Session Buf) :
    Holds ClosesNothing (fun _ r => HandshakeKept s r.2) h (sessionVerifyClient M s) := by
  refine holds_perform nofun fun answer => ?_
  cases answer with
  | none => exact ⟨rfl, rfl⟩
  | some packet =>
      refine holds_ite (fun _ => ⟨rfl, rfl⟩) fun _ => ?_
      cases packet.read sizeofAuthResponse with
      | none => exact ⟨rfl, rfl⟩
      | some payload =>
          refine holds_perform nofun fun ok => holds_ite (fun _ => ?_) fun _ => ⟨rfl, rfl⟩
          refine holds_perform nofun fun keys => ?_
          cases keys with
          | none => exact ⟨rfl, rfl⟩
          | some keys => exact ⟨rfl, rfl⟩

theorem sessionAnnounce_kept (s : Session Buf) :
    Holds ClosesNothing (fun _ r => HandshakeKept s r.2) h (sessionAnnounce M s) := by
  refine holds_perform nofun fun n => holds_packetConstruct nofun fun ok => ?_
  exact holds_perform nofun fun sent =>
    holds_ite (fun _ => ⟨rfl, rfl⟩) fun _ => ⟨rfl, rfl⟩

theorem HandshakeKept.trans {s t u : Session Buf} (ht : HandshakeKept s t)
    (hu : HandshakeKept t u) : HandshakeKept s u where
  counter := hu.counter.trans ht.counter
  frame := by
    have hboth := congrArg (Session.handshaken · u) ht.frame
    exact hu.frame.trans hboth

theorem sessionServerConnect_kept (s : Session Buf) :
    Holds ClosesNothing (fun _ r => HandshakeKept s r.2) h (sessionServerConnect M s) := by
  apply (sessionServerHello_kept s).bind
  rintro h₁ ⟨code, s₁⟩ hs₁
  refine holds_ite (fun _ => hs₁) fun _ => ?_
  apply (sessionAuthenticateServer_kept M s₁).bind
  rintro h₂ ⟨code, s₂⟩ hs₂
  refine holds_ite (fun _ => hs₁.trans hs₂) fun _ => ?_
  apply (sessionVerifyClient_kept M s₂).bind
  rintro h₃ ⟨code, s₃⟩ hs₃
  refine holds_ite (fun _ => (hs₁.trans hs₂).trans hs₃) fun _ => ?_
  exact (sessionAnnounce_kept M s₃).mono fun _ _ hr => ((hs₁.trans hs₂).trans hs₃).trans hr

end Kept

end Sencd
