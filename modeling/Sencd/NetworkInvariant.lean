import Sencd.HandshakeNetwork

/-!
# What the intruder never learns

Everything the parties send is guarded: no identity key and no ephemeral secret stands in the
open, and every signature under an identity key is one that a party made. A signature that
is accepted under an identity key can therefore be traced to the party that made it and to
what that party had done before.
-/
namespace Sencd
open CallProgram Interleaving Intruder

/-- The names only their owners use. -/
def Name.Secret : Name → Prop
  | .key _ => True
  | .scalar _ => True
  | _ => False

variable {S : ℕ → Agent} {log log' : Log (@Call.Answer MsgBuf)} {t : ℕ}

/-- Some party has signed `m` with `k`. -/
def SignedIn (log : Log (@Call.Answer MsgBuf)) (k m : Msg) : Prop :=
  ∃ t σ, (t, ⟨.cryptoSignDetached m k, some σ⟩) ∈ log

/-- Messages that give nothing away after `log`. -/
abbrev Safe (log : Log (@Call.Answer MsgBuf)) : Msg → Prop :=
  Guarded Name.Secret (SignedIn log)

theorem Known.mono (hh : log ⊆ log') {m : Msg} (h : Known log m) : Known log' m := by
  cases h with
  | secret i => exact .secret i
  | publicKey i => exact .publicKey i
  | sent hm hp => exact .sent (hh hm) hp

theorem SignedIn.mono (hh : log ⊆ log') {k m : Msg} (h : SignedIn log k m) : SignedIn log' k m := by
  obtain ⟨t, σ, hm⟩ := h
  exact ⟨t, σ, hh hm⟩

theorem Safe.mono (hh : log ⊆ log') {m : Msg} (h : Safe log m) : Safe log' m :=
  Guarded.mono (fun _ _ => SignedIn.mono hh) h

theorem safe_ephPublic (i : ℕ) : Safe log (ephPublic i) := guarded_point_singleton trivial

theorem safe_keyPublic (i : ℕ) : Safe log (keyPublic i) := trivial

namespace NetworkRun

/-- The payload of a received frame was built from what had been sent by then. -/
theorem received (h : NetworkRun S log) {type : PacketType} {n : ℕ} {payload : Msg}
    (hr : @Received MsgBuf (view log t) type n payload) :
    Derives {m | Known log m} payload := by
  obtain ⟨socket, packet, hm, -, hp⟩ := hr
  obtain ⟨before, after, rfl, -, -, ha⟩ := h.step (mem_view.mp hm)
  have hd : Derives {m | Known before m} payload := ha packet ⟨n, payload⟩ rfl hp
  exact hd.mono fun m hk => hk.mono (by simp)

/-- The payload a party is about to send is safe when everything sent so far is. -/
theorem safe_of_sending (h : NetworkRun S log) (hk : ∀ m, Known log m → Safe log m)
    {socket : ℤ} {packet : Packet MsgBuf} {payload : Payload MsgBuf}
    {k : Bool → Handshake MsgBuf (ℕ × Session MsgBuf)}
    (hx : Exec (S t).program (view log t) (.call (.packetSend socket packet) k))
    (hp : packet.payload = some payload) : Safe log payload.data := by
  have hsafe : ∀ {type n m}, @Received MsgBuf (view log t) type n m → Safe log m :=
    fun hr => (h.received hr).guarded hk
  unfold Agent.program at hx
  cases hrole : (S t).role with
  | server =>
      rw [hrole] at hx
      obtain hnone | ⟨n, pk, sk, signature, hn, hkey, hs, hpay⟩ | ⟨n, id, hn, hpay⟩ :=
        (serverHandshake_holds msgMemory _ _).site hx
      · rw [hnone] at hp
        contradiction
      · obtain rfl := Option.some.inj (hp.symm.trans hpay)
        obtain ⟨i, rfl⟩ := h.nonce (mem_view.mp hn)
        obtain ⟨j, rfl, rfl⟩ := h.ephemeral (mem_view.mp hkey)
        obtain rfl := h.signature (mem_view.mp hs)
        have hsigned : SignedIn log (.name (.key (S t).key)) (signBuf msgMemory
            (.name (.nonce i)) (ephPublic j)) := ⟨t, _, mem_view.mp hs⟩
        exact ⟨⟨.inr hsigned, not_false, safe_ephPublic j⟩, safe_keyPublic _, safe_ephPublic j,
          not_false⟩
      · obtain rfl := Option.some.inj (hp.symm.trans hpay)
        obtain ⟨i, rfl⟩ := h.nonce (mem_view.mp hn)
        exact ⟨not_false, trivial⟩
  | client =>
      rw [hrole] at hx
      obtain hnone | ⟨c, pk, sk, signature, ⟨received, hr, rfl⟩, hkey, hs, hpay⟩ :=
        (clientHandshake_holds msgMemory _ _).site hx
      · rw [hnone] at hp
        contradiction
      · obtain rfl := Option.some.inj (hp.symm.trans hpay)
        obtain ⟨j, rfl, rfl⟩ := h.ephemeral (mem_view.mp hkey)
        obtain rfl := h.signature (mem_view.mp hs)
        have hnonce : Safe log (AuthChallenge.ofBuf msgMemory received).nonce :=
          (hsafe hr).snd.snd.snd
        have hsigned : SignedIn log (.name (.key (S t).key)) (signBuf msgMemory
            (AuthChallenge.ofBuf msgMemory received).nonce (ephPublic j)) := ⟨t, _, mem_view.mp hs⟩
        exact ⟨⟨.inr hsigned, hnonce, safe_ephPublic j⟩, safe_keyPublic _, safe_ephPublic j⟩

/-- Everything the intruder knows is safe. -/
theorem safe_of_known (h : NetworkRun S log) : ∀ m, Known log m → Safe log m := by
  induction h with
  | nil =>
      intro m hm
      cases hm with
      | secret i => exact not_false
      | publicKey i => exact safe_keyPublic i
      | sent hm _ => simp at hm
  | @snoc log t c r k hrun hx _ ih =>
      intro m hm
      cases hm with
      | secret i => exact not_false
      | publicKey i => exact safe_keyPublic i
      | @sent t' socket packet ok payload hm hp =>
          have hsub : log ⊆ log ++ [(t, ⟨c, r⟩)] := by simp
          rcases List.mem_append.mp hm with hm | hm
          · exact (ih _ (.sent hm hp)).mono hsub
          · have he := List.mem_singleton.mp hm
            obtain ⟨rfl, hevent⟩ := Prod.mk.inj he
            cases hevent
            exact (safe_of_sending hrun ih hx hp).mono hsub

/-- Everything the intruder can build is safe. -/
theorem safe_of_derives (h : NetworkRun S log) {m : Msg} (hm : Derives {m | Known log m} m) :
    Safe log m := hm.guarded h.safe_of_known

end NetworkRun

section Origin

/-- Server run `t` of the party with key `k` drew the nonce `n`, generated the ephemeral key
`i` and signed both for its challenge. -/
structure ServerSigned (S : ℕ → Agent) (log : Log (@Call.Answer MsgBuf)) (t k : ℕ)
    (n : Msg) (i : ℕ) : Prop where
  role : (S t).role = .server
  key : (S t).key = k
  nonce : (t, ⟨.randombytesBuf authNonceSize, n⟩) ∈ log
  ephemeral : (t, ⟨.cryptoKxKeypair, some (ephPublic i, .name (.scalar i))⟩) ∈ log
  signed : (t, ⟨.cryptoSignDetached (signBuf msgMemory n (ephPublic i)) (.name (.key k)),
    some (.sign (.name (.key k)) (signBuf msgMemory n (ephPublic i)))⟩) ∈ log

/-- Client run `t` of the party with key `k` accepted the challenge `c`, generated the
ephemeral key `i`, derived its session keys from both and signed its response. -/
structure ClientSigned (S : ℕ → Agent) (log : Log (@Call.Answer MsgBuf)) (t k : ℕ)
    (c : AuthChallenge MsgBuf) (i : ℕ) : Prop where
  role : (S t).role = .client
  key : (S t).key = k
  accepted : ChallengeAccepted msgMemory (S t).trusted (view log t) c
  ephemeral : (t, ⟨.cryptoKxKeypair, some (ephPublic i, .name (.scalar i))⟩) ∈ log
  derived : (t, ⟨.cryptoKxClientSessionKeys (ephPublic i) (.name (.scalar i)) c.ephPublicKey,
    some (kxKey 0 (c.ephPublicKey.scale (.scalar i)) (ephPublic i) c.ephPublicKey,
      kxKey 1 (c.ephPublicKey.scale (.scalar i)) (ephPublic i) c.ephPublicKey)⟩) ∈ log
  signed : (t, ⟨.cryptoSignDetached (signBuf msgMemory c.nonce (ephPublic i)) (.name (.key k)),
    some (.sign (.name (.key k)) (signBuf msgMemory c.nonce (ephPublic i)))⟩) ∈ log

/-- The signature `σ` was made in run `t`. -/
def Signed (log : Log (@Call.Answer MsgBuf)) (t : ℕ) (σ : Msg) : Prop :=
  ∃ m sk, (t, ⟨.cryptoSignDetached m sk, some σ⟩) ∈ log

namespace NetworkRun

/-- What a server signs. -/
theorem serverSigned (h : NetworkRun S log) (hrole : (S t).role = .server) {m sk σ : Msg}
    (hm : (t, ⟨.cryptoSignDetached m sk, some σ⟩) ∈ log) :
    sk = .name (.key (S t).key) ∧ ∃ n i, m = signBuf msgMemory n (ephPublic i) ∧
      ServerSigned S log t (S t).key n i := by
  obtain ⟨hsk, n, pk, x, hn, hk, hmsg⟩ := h.serverSite hrole hm
  obtain ⟨i, rfl, rfl⟩ := h.ephemeral (mem_view.mp hk)
  have hσ := h.signature hm
  subst hσ hsk hmsg
  exact ⟨rfl, n, i, rfl, hrole, rfl, mem_view.mp hn, mem_view.mp hk, hm⟩

/-- What a client signs. -/
theorem clientSigned (h : NetworkRun S log) (hrole : (S t).role = .client) {m sk σ : Msg}
    (hm : (t, ⟨.cryptoSignDetached m sk, some σ⟩) ∈ log) :
    sk = .name (.key (S t).key) ∧ ∃ c i, m = signBuf msgMemory c.nonce (ephPublic i) ∧
      ClientSigned S log t (S t).key c i := by
  obtain ⟨hsk, c, pk, x, keys, hc, hk, hd, hmsg⟩ := h.clientSite hrole hm
  obtain ⟨i, rfl, rfl⟩ := h.ephemeral (mem_view.mp hk)
  obtain ⟨rx, tx⟩ := keys
  obtain ⟨rfl, rfl⟩ := h.clientKeys (mem_view.mp hd)
  have hσ := h.signature hm
  subst hσ hsk hmsg
  exact ⟨rfl, c, i, rfl, hrole, rfl, hc, mem_view.mp hk, mem_view.mp hd, hm⟩

/-- A server run signs one nonce with one ephemeral key. -/
theorem serverSigned_unique (h : NetworkRun S log) {k k' i i' : ℕ} {n n' : Msg}
    (hs : ServerSigned S log t k n i) (hs' : ServerSigned S log t k' n' i') :
    n = n' ∧ ephPublic i = ephPublic i' :=
  Term.pair.inj (h.signed_once hs.signed hs'.signed)

/-- A client run signs one nonce with one ephemeral key. -/
theorem clientSigned_unique (h : NetworkRun S log) {k k' i i' : ℕ} {c c' : AuthChallenge MsgBuf}
    (hs : ClientSigned S log t k c i) (hs' : ClientSigned S log t k' c' i') :
    c.nonce = c'.nonce ∧ ephPublic i = ephPublic i' :=
  Term.pair.inj (h.signed_once hs.signed hs'.signed)

/-- A signature that checks under an identity key was made by a run of its owner, which had
drawn or accepted the nonce and generated the ephemeral key it covers. -/
theorem signer (h : NetworkRun S log) {k : ℕ} {n pk σ : Msg} (hσ : Safe log σ)
    (hv : Term.Verifies (keyPublic k) (signBuf msgMemory n pk) σ) :
    ∃ t i, Signed log t σ ∧ pk = ephPublic i ∧ (ServerSigned S log t k n i ∨
      ∃ c, c.nonce = n ∧ ClientSigned S log t k c i) := by
  obtain ⟨sk, hk, rfl⟩ := hv
  obtain rfl : Term.name (Name.key k) = sk := Term.verifyKey.inj hk
  obtain ⟨t, σ, hm⟩ := hσ.signed_of_secret trivial
  have hσ := h.signature hm
  subst hσ
  refine ⟨t, ?_⟩
  cases hrole : (S t).role with
  | server =>
      obtain ⟨hkey, n', i, hmsg, hs⟩ := h.serverSigned hrole hm
      obtain ⟨rfl, rfl⟩ := Term.pair.inj hmsg
      obtain rfl : k = (S t).key := by simpa using hkey
      exact ⟨i, ⟨_, _, hm⟩, rfl, .inl hs⟩
  | client =>
      obtain ⟨hkey, c, i, hmsg, hs⟩ := h.clientSigned hrole hm
      obtain ⟨rfl, rfl⟩ := Term.pair.inj hmsg
      obtain rfl : k = (S t).key := by simpa using hkey
      exact ⟨i, ⟨_, _, hm⟩, rfl, .inr ⟨c, rfl, hs⟩⟩

/-- A response a server has accepted: the server drew the nonce it was checked against, and
its parts are safe. -/
theorem acceptedResponse (h : NetworkRun S log) (hrole : (S t).role = .server) {n : Msg}
    {r : AuthResponse MsgBuf} (hm : (t, verifyResponse msgMemory n r true) ∈ log) :
    (t, ⟨.randombytesBuf authNonceSize, n⟩) ∈ log ∧ Safe log r.signature ∧
      Term.Verifies r.publicKey (signBuf msgMemory n r.ephPublicKey) r.signature := by
  obtain ⟨n', r', hn, ⟨payload, hr, rfl⟩, hσ, hmsg, -⟩ := h.serverSite hrole hm
  obtain ⟨rfl, -⟩ := Term.pair.inj hmsg
  have hsafe : Safe log payload := h.safe_of_derives (h.received hr)
  refine ⟨mem_view.mp hn, ?_, h.verifies hm⟩
  rw [hσ]
  exact hsafe.fst

/-- A challenge a client has accepted: its parts are safe and its signature checks. -/
theorem acceptedChallenge (h : NetworkRun S log) {trusted : Option Msg}
    {c : AuthChallenge MsgBuf} (hc : ChallengeAccepted msgMemory trusted (view log t) c) :
    Safe log c.signature ∧
      Term.Verifies c.publicKey (signBuf msgMemory c.nonce c.ephPublicKey) c.signature := by
  obtain ⟨payload, hr, hpayload⟩ := hc.received
  have hsafe : Safe log payload := h.safe_of_derives (h.received hr)
  refine ⟨?_, h.verifies (mem_view.mp hc.verified)⟩
  rw [hpayload]
  exact hsafe.fst

end NetworkRun

end Origin

section Established

/-- The handshake of run `t` has returned with its session `s` in `SESSION_ESTABLISHED`. -/
structure Reached (S : ℕ → Agent) (log : Log (@Call.Answer MsgBuf)) (t : ℕ)
    (role : SessionRole) (s : Session MsgBuf) : Prop where
  role : (S t).role = role
  state : s.state = .established
  returned : ∃ code, Exec (S t).program (view log t) (.ret (code, s))

variable {s : Session MsgBuf}

theorem Reached.server (hr : Reached S log t .server s) :
    ServerEstablished msgMemory (identityOf (S t).key) (view log t) s ∧
      ∀ a, Announced msgMemory (view log t) a → a = ⟨s.sessionNonce, s.sessionId⟩ := by
  obtain ⟨code, hx⟩ := hr.returned
  have hp : (S t).program =
      serverHandshake msgMemory (S t).socket (S t).ip (identityOf (S t).key) := by
    rw [Agent.program, hr.role]
  obtain ⟨hannounced, hcode, hs⟩ := (serverHandshake_holds msgMemory _ _).post (hp ▸ hx)
  exact ⟨hs (hcode hr.state), fun a ha => (hannounced a ha).2⟩

theorem Reached.client (hr : Reached S log t .client s) :
    ∃ c, ClientEstablished msgMemory (identityOf (S t).key) (S t).trusted (view log t) s c := by
  obtain ⟨code, hx⟩ := hr.returned
  have hp : (S t).program =
      clientHandshake msgMemory (S t).socket (S t).ip (identityOf (S t).key) (S t).trusted := by
    rw [Agent.program, hr.role]
  obtain ⟨hcode, hs⟩ := (clientHandshake_holds msgMemory _ _).post (hp ▸ hx)
  exact hs (hcode hr.state)

/-- The keys of a server session, from its ephemeral key and the response it accepted. -/
theorem NetworkRun.serverSession (h : NetworkRun S log) (hr : Reached S log t .server s)
    {r : AuthResponse MsgBuf} (hv : ServerVerified msgMemory (view log t) s r) :
    ∃ j, s.crypto.ephPublicKey = ephPublic j ∧ ServerSigned S log t (S t).key s.authNonce j ∧
      s.crypto.rxKey = kxKey 1 (r.ephPublicKey.scale (.scalar j)) r.ephPublicKey (ephPublic j) ∧
      s.crypto.txKey = kxKey 0 (r.ephPublicKey.scale (.scalar j)) r.ephPublicKey (ephPublic j) := by
  have hs := hr.server.1
  obtain ⟨j, hpk, hsk⟩ := h.ephemeral (mem_view.mp hs.ephemeral)
  obtain ⟨σ, hsigned⟩ := hs.signed
  have hsigned := mem_view.mp hsigned
  have hkeypair := mem_view.mp hs.ephemeral
  have hderived := mem_view.mp hv.derived
  rw [hpk, hsk] at hkeypair hderived
  rw [hpk, hs.privateKey] at hsigned
  have hσ := h.signature hsigned
  subst hσ
  exact ⟨j, hpk, ⟨hr.role, rfl, mem_view.mp hs.nonce, hkeypair, hsigned⟩, h.serverKeys hderived⟩

/-- The keys of a client session, from its ephemeral key and the challenge it accepted. -/
theorem NetworkRun.clientSession (h : NetworkRun S log) (hr : Reached S log t .client s) :
    ∃ c i, ClientSigned S log t (S t).key c i ∧ s.crypto.ephPublicKey = ephPublic i ∧
      s.crypto.peerPublicKey = c.publicKey ∧
      s.crypto.rxKey = kxKey 0 (c.ephPublicKey.scale (.scalar i)) (ephPublic i) c.ephPublicKey ∧
      s.crypto.txKey = kxKey 1 (c.ephPublicKey.scale (.scalar i)) (ephPublic i) c.ephPublicKey := by
  obtain ⟨c, hs⟩ := hr.client
  obtain ⟨i, hpk, hsk⟩ := h.ephemeral (mem_view.mp hs.ephemeral)
  have hkeypair := mem_view.mp hs.ephemeral
  have hderived := mem_view.mp hs.derived
  rw [hpk, hsk] at hkeypair hderived
  obtain ⟨hrx, htx⟩ := h.clientKeys hderived
  rw [hrx, htx] at hderived
  obtain ⟨σ, hsigned⟩ := hs.signed
  have hsigned := mem_view.mp hsigned
  rw [hpk] at hsigned
  have hσ := h.signature hsigned
  subst hσ
  exact ⟨c, i, ⟨hr.role, rfl, hs.accepted, hkeypair, hderived, hsigned⟩, hpk, hs.peer, hrx, htx⟩

end Established

end Sencd
