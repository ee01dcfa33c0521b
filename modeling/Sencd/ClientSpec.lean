import Sencd.ServerSpec

/-!
# What the client has done when it calls out and when it returns

The client answers a challenge only after the trusted key, if there is one, and the signature
have been checked, and it answers once. Nothing it receives afterwards is checked.
-/
namespace Sencd
open CallProgram

variable {Buf : ℕ → Type} (M : Memory Buf)

/-- A received challenge whose key is the trusted one, if there is one. -/
structure ChallengeTrusted (trusted : Option (Buf cryptoPublicKeySize)) (h : Calls Buf)
    (c : AuthChallenge Buf) : Prop where
  received : ReceivedChallenge M h c
  trusted : ∀ key, trusted = some key → c.publicKey = key

/-- A trusted challenge whose signature has been checked. -/
structure ChallengeAccepted (trusted : Option (Buf cryptoPublicKeySize)) (h : Calls Buf)
    (c : AuthChallenge Buf) : Prop extends ChallengeTrusted M trusted h c where
  verified : verifyChallenge M c true ∈ h

/-- What a client run has done by the time it issues a call. -/
def ClientSite (identity : CryptoContext Buf) (trusted : Option (Buf cryptoPublicKeySize))
    (h : Calls Buf) : Call Buf → Prop
  | .packetSend _ packet => packet.payload = none ∨
      ∃ c pk sk signature, ReceivedChallenge M h c ∧ ⟨.cryptoKxKeypair, some (pk, sk)⟩ ∈ h ∧
        ⟨.cryptoSignDetached (signBuf M c.nonce pk) identity.privateKey, some signature⟩ ∈ h ∧
        packet.payload = some ⟨_, AuthResponse.toBuf M ⟨signature, identity.publicKey, pk⟩⟩
  | .cryptoSignDetached message privateKey => privateKey = identity.privateKey ∧
      ∃ c pk sk keys, ChallengeAccepted M trusted h c ∧
        ⟨.cryptoKxKeypair, some (pk, sk)⟩ ∈ h ∧
        ⟨.cryptoKxClientSessionKeys pk sk c.ephPublicKey, some keys⟩ ∈ h ∧
        message = signBuf M c.nonce pk
  | _ => True

/-- A client session that carries its identity. -/
structure ClientReady (identity : CryptoContext Buf) (s : Session Buf) : Prop where
  publicKey : s.crypto.publicKey = identity.publicKey
  privateKey : s.crypto.privateKey = identity.privateKey

/-- A client session whose answer to the challenge `c` has been sent. -/
structure ClientResponded (identity : CryptoContext Buf)
    (trusted : Option (Buf cryptoPublicKeySize)) (h : Calls Buf) (s : Session Buf)
    (c : AuthChallenge Buf) : Prop where
  accepted : ChallengeAccepted M trusted h c
  peer : s.crypto.peerPublicKey = c.publicKey
  ephemeral : ⟨.cryptoKxKeypair, some (s.crypto.ephPublicKey, s.crypto.ephPrivateKey)⟩ ∈ h
  derived : ⟨.cryptoKxClientSessionKeys s.crypto.ephPublicKey s.crypto.ephPrivateKey
    c.ephPublicKey, some (s.crypto.rxKey, s.crypto.txKey)⟩ ∈ h
  signed : ∃ signature, ⟨.cryptoSignDetached (signBuf M c.nonce s.crypto.ephPublicKey)
    identity.privateKey, some signature⟩ ∈ h

/-- What a client session is when its handshake has succeeded. -/
structure ClientEstablished (identity : CryptoContext Buf)
    (trusted : Option (Buf cryptoPublicKeySize)) (h : Calls Buf) (s : Session Buf)
    (c : AuthChallenge Buf) : Prop extends ClientResponded M identity trusted h s c where
  success : ReceivedSuccess M h ⟨s.sessionNonce, s.sessionId⟩
  state : s.state = .established

variable {identity : CryptoContext Buf} {trusted : Option (Buf cryptoPublicKeySize)}
  {h h' : Calls Buf} {s : Session Buf} {c : AuthChallenge Buf}

theorem ChallengeTrusted.mono (hh : h ⊆ h') (hc : ChallengeTrusted M trusted h c) :
    ChallengeTrusted M trusted h' c := ⟨hc.received.mono M hh, hc.trusted⟩

theorem ChallengeAccepted.mono (hh : h ⊆ h') (hc : ChallengeAccepted M trusted h c) :
    ChallengeAccepted M trusted h' c := ⟨hc.toChallengeTrusted.mono M hh, hh hc.verified⟩

theorem ClientSite.mono (hh : h ⊆ h') {call : Call Buf}
    (hc : ClientSite M identity trusted h call) : ClientSite M identity trusted h' call := by
  cases call with
  | packetSend socket packet =>
      obtain hp | ⟨c, pk, sk, signature, hc, hk, hs, hp⟩ := hc
      · exact .inl hp
      · exact .inr ⟨c, pk, sk, signature, hc.mono M hh, hh hk, hh hs, hp⟩
  | cryptoSignDetached message privateKey =>
      obtain ⟨hkey, c, pk, sk, keys, hc, hk, hd, hm⟩ := hc
      exact ⟨hkey, c, pk, sk, keys, hc.mono M hh, hh hk, hh hd, hm⟩
  | _ => trivial

theorem ClientResponded.mono (hh : h ⊆ h') (hs : ClientResponded M identity trusted h s c) :
    ClientResponded M identity trusted h' s c :=
  ⟨hs.accepted.mono M hh, hs.peer, hh hs.ephemeral, hh hs.derived,
    hs.signed.imp fun _ hm => hh hm⟩

theorem sessionClientHello_holds :
    Holds (ClientSite M identity trusted) (fun _ r => r.2 = s) h (sessionClientHello s) := by
  refine holds_perform (.inl rfl) fun ok => holds_ite (fun _ => ?_) fun _ => by simp
  refine holds_perform trivial fun answer => ?_
  cases answer with
  | none => simp
  | some packet => exact holds_ite (fun _ => by simp) fun _ => by simp

theorem sessionReadChallenge_holds [DecidableEq (Buf cryptoPublicKeySize)]
    (ht : ∀ key, trusted = some key → s.hasTrustedPeerKey = true ∧ s.trustedPeerKey = key) :
    Holds (ClientSite M identity trusted)
      (fun h' r => r.2.crypto = s.crypto ∧ r.2.state = s.state ∧
        ∀ c, r.1 = some c → ChallengeTrusted M trusted h' c) h
      (sessionReadChallenge M s) := by
  refine holds_perform trivial fun answer => ?_
  cases answer with
  | none => simp
  | some packet =>
      refine holds_ite (fun _ => by simp) fun htype => ?_
      cases hread : packet.read sizeofAuthChallenge with
      | none => simp
      | some payload =>
          have hreceived : ReceivedChallenge M (h ++ [⟨.packetReceive s.socket, some packet⟩])
              (AuthChallenge.ofBuf M payload) :=
            ⟨payload, ⟨s.socket, packet, by simp, not_not.mp htype, Packet.read_eq_some.mp hread⟩,
              rfl⟩
          dsimp only
          generalize AuthChallenge.ofBuf M payload = challenge at hreceived ⊢
          refine holds_ite (fun hhas => holds_ite (fun _ => by simp) fun hkey => ?_) fun hhas => ?_
          · refine ⟨rfl, rfl, ?_⟩
            rintro c ⟨rfl⟩
            refine ⟨hreceived, fun key hkey' => ?_⟩
            rw [← (ht key hkey').2]
            exact not_not.mp hkey
          · have hnone : ∀ key, trusted = some key → challenge.publicKey = key := fun key hkey =>
              absurd (ht key hkey).1 hhas
            refine holds_perform trivial fun found => ?_
            cases found with
            | true =>
                refine ⟨trivial, fun _ => ⟨rfl, rfl, ?_⟩⟩
                rintro c ⟨rfl⟩
                exact ⟨hreceived.mono M (by simp), hnone⟩
            | false =>
                refine ⟨rfl, rfl, ?_⟩
                rintro c ⟨rfl⟩
                exact ⟨hreceived.mono M (by simp), hnone⟩

theorem sessionRespond_holds (hs : ClientReady identity s)
    (hc : ChallengeTrusted M trusted h c) (hst : s.state ≠ .established) :
    Holds (ClientSite M identity trusted)
      (fun h' r => r.2.state ≠ .established ∧
        (r.1 = 0 → ClientResponded M identity trusted h' r.2 c)) h
      (sessionRespond M s c) := by
  refine holds_perform trivial fun ok => holds_ite (fun hok => ?_) fun _ => ⟨hst, by simp⟩
  subst hok
  have haccepted : ChallengeAccepted M trusted (h ++ [verifyChallenge M c true]) c :=
    ⟨hc.mono M (by simp), by simp⟩
  refine holds_perform trivial fun keypair => ?_
  cases keypair with
  | none => exact ⟨hst, by simp⟩
  | some keypair =>
      obtain ⟨pk, sk⟩ := keypair
      refine holds_perform trivial fun keys => ?_
      cases keys with
      | none => exact ⟨hst, by simp⟩
      | some keys =>
          obtain ⟨rx, tx⟩ := keys
          refine holds_perform ⟨hs.privateKey, c, pk, sk, (rx, tx),
            haccepted.mono M (by simp), by simp, by simp, rfl⟩ fun answer => ?_
          cases answer with
          | none => exact ⟨hst, by simp⟩
          | some signature =>
              refine holds_packetConstruct trivial fun alloc => ?_
              refine holds_perform ?_ fun sent => holds_ite (fun _ => ?_) fun _ => ⟨hst, by simp⟩
              · cases alloc with
                | false => exact .inl rfl
                | true =>
                    refine .inr ⟨c, pk, sk, signature, hc.received.mono M (by simp), by simp,
                      ?_, ?_⟩
                    · simp [← hs.privateKey]
                    · simp [hs.publicKey]
              · exact ⟨by simp, fun _ => ⟨haccepted.mono M (by simp), rfl, by simp, by simp,
                  signature, by simp [← hs.privateKey]⟩⟩

theorem sessionFinish_holds (hs : ClientResponded M identity trusted h s c)
    (hst : s.state ≠ .established) :
    Holds (ClientSite M identity trusted)
      (fun h' r => (r.2.state = .established → r.1 = 0) ∧
        (r.1 = 0 → ClientEstablished M identity trusted h' r.2 c)) h
      (sessionFinish M s) := by
  refine holds_perform trivial fun answer => ?_
  cases answer with
  | none => exact ⟨fun he => absurd he hst, by simp⟩
  | some packet =>
      refine holds_ite (fun _ => ⟨fun he => absurd he hst, by simp⟩) fun htype => ?_
      cases hread : packet.read sizeofAuthSuccess with
      | none => exact ⟨fun he => absurd he hst, by simp⟩
      | some payload =>
          refine ⟨fun _ => rfl, fun _ => ?_⟩
          have hs' : ClientResponded M identity trusted
              (h ++ [⟨.packetReceive s.socket, some packet⟩]) s c := hs.mono M (by simp)
          exact {
            accepted := hs'.accepted
            peer := hs'.peer
            ephemeral := hs'.ephemeral
            derived := hs'.derived
            signed := hs'.signed
            success := ⟨payload, ⟨s.socket, packet, by simp, not_not.mp htype,
              Packet.read_eq_some.mp hread⟩, rfl⟩
            state := rfl }

theorem sessionAuthenticateClient_holds [DecidableEq (Buf cryptoPublicKeySize)]
    (hs : ClientReady identity s) (hst : s.state ≠ .established)
    (ht : ∀ key, trusted = some key → s.hasTrustedPeerKey = true ∧ s.trustedPeerKey = key) :
    Holds (ClientSite M identity trusted)
      (fun h' r => (r.2.state = .established → r.1 = 0) ∧
        (r.1 = 0 → ∃ c, ClientEstablished M identity trusted h' r.2 c)) h
      (sessionAuthenticateClient M s) := by
  apply (sessionReadChallenge_holds M ht).bind
  rintro h₁ ⟨challenge, s₁⟩ ⟨hcrypto, hstate, hc⟩
  have hst₁ : s₁.state ≠ .established := fun he => hst (hstate.symm.trans he)
  cases challenge with
  | none => exact ⟨fun he => absurd he hst₁, by simp⟩
  | some c =>
      have hs₁ : ClientReady identity s₁ := by
        constructor
        · rw [hcrypto, hs.publicKey]
        · rw [hcrypto, hs.privateKey]
      apply (sessionRespond_holds M hs₁ (hc c rfl) hst₁).bind
      rintro h₂ ⟨code, s₂⟩ ⟨hst₂, hs₂⟩
      refine holds_ite (fun _ => ⟨fun he => absurd he hst₂, by simp⟩) fun hcode => ?_
      have hfinish := sessionFinish_holds M (hs₂ (not_not.mp hcode)) hst₂
      exact hfinish.mono fun _ _ hr => ⟨hr.1, fun h0 => ⟨c, hr.2 h0⟩⟩

theorem clientHandshake_holds [DecidableEq (Buf cryptoPublicKeySize)] (socket : ℤ)
    (ip : List Char) :
    Holds (ClientSite M identity trusted)
      (fun h' r => (r.2.state = .established → r.1 = 0) ∧
        (r.1 = 0 → ∃ c, ClientEstablished M identity trusted h' r.2 c)) []
      (clientHandshake M socket ip identity trusted) := by
  have hcreate : Holds (ClientSite M identity trusted)
      (fun _ r => ClientReady identity r.2 ∧ r.2.state ≠ .established ∧
        ∀ key, trusted = some key → r.2.hasTrustedPeerKey = true ∧ r.2.trustedPeerKey = key) []
      (sessionCreate M .client socket ip identity trusted) := by
    refine holds_perform trivial fun id => ?_
    cases trusted with
    | none => exact ⟨⟨rfl, rfl⟩, by simp, by simp⟩
    | some key => exact ⟨⟨rfl, rfl⟩, by simp, by rintro key ⟨rfl⟩; exact ⟨rfl, rfl⟩⟩
  apply hcreate.bind
  rintro h₁ ⟨_, s₁⟩ ⟨hs₁, hst₁, ht₁⟩
  apply (sessionClientHello_holds M).bind
  rintro h₂ ⟨code, s₂⟩ he
  subst he
  refine holds_ite (fun _ => ⟨fun he => absurd he hst₁, by simp⟩) fun hcode => ?_
  exact sessionAuthenticateClient_holds M hs₁ hst₁ ht₁

theorem sessionClientHello_atMost (s : Session Buf) :
    AtMost signWeight 0 (sessionClientHello s) := by
  refine atMost_packetConstruct rfl fun hello => atMost_perform rfl fun ok => ?_
  refine atMost_ite (atMost_perform rfl fun answer => ?_) atMost_ret
  cases answer with
  | none => exact atMost_ret
  | some packet => exact atMost_ite atMost_ret atMost_ret

theorem sessionReadChallenge_atMost [DecidableEq (Buf cryptoPublicKeySize)] (s : Session Buf) :
    AtMost signWeight 0 (sessionReadChallenge M s) := by
  refine atMost_perform rfl fun answer => ?_
  cases answer with
  | none => exact atMost_ret
  | some packet =>
      apply atMost_ite atMost_ret
      cases packet.read sizeofAuthChallenge with
      | none => exact atMost_ret
      | some payload =>
          apply atMost_ite (atMost_ite atMost_ret atMost_ret)
          refine atMost_perform rfl fun found => ?_
          cases found with
          | true => exact atMost_perform rfl fun _ => atMost_ret
          | false => exact atMost_ret

theorem sessionRespond_atMost (s : Session Buf) (c : AuthChallenge Buf) :
    AtMost signWeight 1 (sessionRespond M s c) := by
  refine atMost_perform rfl fun ok => atMost_ite (atMost_perform rfl fun keypair => ?_) atMost_ret
  cases keypair with
  | none => exact atMost_ret
  | some keypair =>
      refine atMost_perform rfl fun keys => ?_
      cases keys with
      | none => exact atMost_ret
      | some keys =>
          refine atMost_call.mpr ⟨le_rfl, fun signature => ?_⟩
          cases signature with
          | none => exact atMost_ret
          | some signature =>
              refine atMost_packetConstruct (α := ℕ × Session Buf) rfl fun reply => ?_
              exact atMost_perform rfl fun ok => atMost_ite atMost_ret atMost_ret

theorem sessionFinish_atMost (s : Session Buf) : AtMost signWeight 0 (sessionFinish M s) := by
  refine atMost_perform rfl fun answer => ?_
  cases answer with
  | none => exact atMost_ret
  | some packet =>
      apply atMost_ite atMost_ret
      cases packet.read sizeofAuthSuccess with
      | none => exact atMost_ret
      | some payload => exact atMost_ret

/-- A client signs at most once in a handshake. -/
theorem clientHandshake_atMost [DecidableEq (Buf cryptoPublicKeySize)] (socket : ℤ)
    (ip : List Char) :
    AtMost signWeight 1 (clientHandshake M socket ip identity trusted) := by
  refine atMost_perform rfl fun id => ?_
  refine (sessionClientHello_atMost _).bind (c := 1) fun r => atMost_ite atMost_ret ?_
  refine (sessionReadChallenge_atMost M _).bind (c := 1) fun r => ?_
  obtain ⟨challenge, s⟩ := r
  cases challenge with
  | none => exact atMost_ret
  | some c =>
      refine (sessionRespond_atMost M s c).bind (c := 0) fun r => atMost_ite atMost_ret ?_
      exact sessionFinish_atMost M _

section Counter

/-- The client does not touch the send counter in a handshake. -/
def CounterKept (s : Session Buf) : Calls Buf → ℕ × Session Buf → Prop :=
  fun _ r => r.2.crypto.txNonce = s.crypto.txNonce

theorem sessionRespond_counter (s : Session Buf) (c : AuthChallenge Buf) :
    Holds (fun _ _ => True) (CounterKept s) h (sessionRespond M s c) := by
  refine holds_perform trivial fun ok => holds_ite (fun _ => ?_) fun _ => rfl
  refine holds_perform trivial fun keypair => ?_
  cases keypair with
  | none => rfl
  | some keypair =>
      refine holds_perform trivial fun keys => ?_
      cases keys with
      | none => rfl
      | some keys =>
          refine holds_perform trivial fun answer => ?_
          cases answer with
          | none => rfl
          | some signature =>
              refine holds_packetConstruct trivial fun alloc => ?_
              exact holds_perform trivial fun sent => holds_ite (fun _ => rfl) fun _ => rfl

theorem sessionFinish_counter (s : Session Buf) :
    Holds (fun _ _ => True) (CounterKept s) h (sessionFinish M s) := by
  refine holds_perform trivial fun answer => ?_
  cases answer with
  | none => rfl
  | some packet =>
      refine holds_ite (fun _ => rfl) fun _ => ?_
      cases packet.read sizeofAuthSuccess with
      | none => rfl
      | some payload => rfl

/-- A client's send counter starts at zero. -/
theorem clientHandshake_counter [DecidableEq (Buf cryptoPublicKeySize)] (socket : ℤ)
    (ip : List Char) :
    Holds (fun _ _ => True) (fun _ r => r.2.crypto.txNonce = 0) []
      (clientHandshake M socket ip identity trusted) := by
  have hcreate : Holds (fun _ _ => True) (fun _ r => r.2.crypto.txNonce = 0) []
      (sessionCreate M .client socket ip identity trusted) := by
    refine holds_perform trivial fun id => ?_
    cases trusted with
    | none => rfl
    | some key => rfl
  apply hcreate.bind
  rintro h₁ ⟨_, s₁⟩ (hs₁ : s₁.crypto.txNonce = 0)
  have hhello : Holds (fun _ _ => True) (fun _ r => r.2 = s₁) h₁ (sessionClientHello s₁) := by
    refine holds_perform trivial fun ok => holds_ite (fun _ => ?_) fun _ => rfl
    refine holds_perform trivial fun answer => ?_
    cases answer with
    | none => rfl
    | some packet => exact holds_ite (fun _ => rfl) fun _ => rfl
  apply hhello.bind
  rintro h₂ ⟨code, s₂⟩ he
  subst he
  refine holds_ite (fun _ => hs₁) fun _ => ?_
  have hread : Holds (fun _ _ => True) (fun _ r => r.2.crypto = s₂.crypto) h₂
      (sessionReadChallenge M s₂) := by
    refine holds_perform trivial fun answer => ?_
    cases answer with
    | none => rfl
    | some packet =>
        refine holds_ite (fun _ => rfl) fun _ => ?_
        cases packet.read sizeofAuthChallenge with
        | none => rfl
        | some payload =>
            refine holds_ite (fun _ => holds_ite (fun _ => rfl) fun _ => rfl) fun _ => ?_
            refine holds_perform trivial fun found => ?_
            cases found with
            | true => exact ⟨trivial, fun _ => rfl⟩
            | false => rfl
  apply hread.bind
  rintro h₃ ⟨challenge, s₃⟩ (hs₃ : s₃.crypto = s₂.crypto)
  have hzero : s₃.crypto.txNonce = 0 := by rw [hs₃, hs₁]
  cases challenge with
  | none => exact hzero
  | some c =>
      apply (sessionRespond_counter M s₃ c).bind
      rintro h₄ ⟨code, s₄⟩ (hs₄ : s₄.crypto.txNonce = s₃.crypto.txNonce)
      refine holds_ite (fun _ => hs₄.trans hzero) fun _ => ?_
      exact (sessionFinish_counter M s₄).mono fun _ _ hr => hr.trans (hs₄.trans hzero)

end Counter

end Sencd
