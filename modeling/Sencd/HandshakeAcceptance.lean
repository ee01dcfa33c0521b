import Sencd.StreamAcceptance
import Sencd.HandshakeCompletion

/-!
# Exact acceptance

A server and a client return 0 exactly when their sends succeed and the stream starts with the
frames they wait for, in order, of the exact sizes, with a signature that verifies and an
ephemeral key that can be used. Whatever follows these frames is left unread.
-/
namespace Sencd
open ByteOrder CallProgram StreamNetwork Wire

variable {S : Sodium} {D : Device} {host : Endian} {u : WireCalls} {m m' : Machine}
  {s s' : Session ByteBuf} {code : ℕ}

/-- What a return of 0 hands over. -/
def succeeded {α : Type} (r : ℕ × α) : Option α := if r.1 = 0 then some r.2 else none

theorem succeeded_eq_some {α : Type} {r : ℕ × α} {b : α} :
    succeeded r = some b ↔ r.1 = 0 ∧ r.2 = b := by
  unfold succeeded
  split_ifs with h <;> simp [h]

theorem ran_failed (h : Ran S D (onWire host (.ret (1, s))) u m (code, s') m') :
    succeeded (code, s') = none := by
  obtain ⟨-, he, -⟩ := ran_ret.mp h
  obtain ⟨rfl, -⟩ := Prod.mk.inj he
  rfl

theorem takes_returned (h : Ran S D (onWire host (.ret (0, s))) u m (code, s') m') :
    Takes u (succeeded (code, s')) (fun P => P s) m.stream m'.stream := by
  obtain ⟨rfl, he, rfl⟩ := ran_ret.mp h
  obtain ⟨rfl, rfl⟩ := Prod.mk.inj he
  exact .ret s' m'.stream

/-- The rest of a handshake after a part that may have failed. -/
theorem takes_andThen {p : Handshake ByteBuf (ℕ × Session ByteBuf)}
    {k : ℕ × Session ByteBuf → Handshake ByteBuf (ℕ × Session ByteBuf)}
    {A : (Session ByteBuf → Bytes → Prop) → Bytes → Prop}
    {B : Session ByteBuf → (Session ByteBuf → Bytes → Prop) → Bytes → Prop}
    (h : Ran S D (onWire host (p >>= k)) u m (code, s') m')
    (hp : ∀ v c s₁ m₁, Ran S D (onWire host p) v m (c, s₁) m₁ →
      Takes v (succeeded (c, s₁)) A m.stream m₁.stream)
    (hfail : ∀ c s₁, c ≠ 0 → k (c, s₁) = .ret (1, s₁))
    (hk : ∀ w s₁ m₁, Ran S D (onWire host (k (0, s₁))) w m₁ (code, s') m' →
      Takes w (succeeded (code, s')) (B s₁) m₁.stream m'.stream) :
    Takes u (succeeded (code, s')) (fun P => A fun s₁ => B s₁ P) m.stream m'.stream := by
  rw [onWire_bind] at h
  obtain ⟨⟨c, s₁⟩, v, w, m₁, rfl, hv, hw⟩ := ran_bind.mp h
  by_cases hc : c = 0
  · subst hc
    apply (hp v 0 s₁ m₁ hv).andThen
    · intro hnone
      contradiction
    · intro b hb
      obtain rfl := Option.some.inj hb
      exact hk w s₁ m₁ hw
  · rw [hfail c s₁ hc] at hw
    apply (hp v c s₁ m₁ hv).andThen
    · intro _
      exact ran_failed hw
    · intro b hb
      exact absurd (succeeded_eq_some.mp hb).1 hc

section Calls

variable {α β : Type} {a : α} {r : Option β} {A : (β → Bytes → Prop) → Bytes → Prop}

/-- A frame that is built for sending is no longer than its payload. -/
theorem takes_construct {type : PacketType} {version : UInt8} {payload : Payload ByteBuf}
    {f : Packet ByteBuf → Handshake ByteBuf α}
    (h : Ran S D (onWire host (packetConstruct type version (some payload) >>= f)) u m a m')
    (hf : ∀ packet w m₁, packet.payloadLength ≤ payload.length →
      Ran S D (onWire host (f packet)) w m₁ a m' → Takes w r A m₁.stream m'.stream) :
    Takes u r A m.stream m'.stream := by
  apply takes_own h
  intro ok w m₁ hw _
  right
  cases ok with
  | true => exact hf _ w m₁ le_rfl hw
  | false => exact hf _ w m₁ (Nat.zero_le _) hw

/-- A last frame is sent or the handshake fails. -/
theorem takes_sendLast {socket : ℤ} {packet : Packet ByteBuf} {s₀ s₁ : Session ByteBuf}
    (hlen : packet.payloadLength ≤ maxPacketSize)
    (h : Ran S D (onWire host (perform (.packetSend socket packet) >>= fun ok =>
      if ok = true then .ret (0, s₀) else .ret (1, s₁))) u m (code, s') m') :
    Takes u (succeeded (code, s')) (fun P => P s₀) m.stream m'.stream := by
  apply takes_send hlen h
  · intro _ hw
    exact ran_failed hw
  · intro _ hw
    exact takes_returned hw

end Calls

section Server

/-- The frame that `session_server_connect` waits for first. -/
def AwaitsHello (s : Session ByteBuf) (P : Session ByteBuf → Bytes → Prop) : Bytes → Prop :=
  Starts fun packet rest => packet.type = .clientHello ∧ P { s with state := .waitAuth } rest

theorem sessionServerHello_takes
    (h : Ran S D (onWire host (sessionServerHello s)) u m (code, s') m') :
    Takes u (succeeded (code, s')) (AwaitsHello s) m.stream m'.stream := by
  apply takes_receive h
  · intro w m₁ hw
    exact ran_failed hw
  · intro packet w m₁ hw hvalid
    dsimp only at hw
    by_cases htype : packet.type = .clientHello
    · rw [if_neg (by simp [htype, hvalid.version])] at hw
      exact .guard htype (takes_sendLast (Nat.zero_le _) hw)
    · rw [if_pos (.inl htype)] at hw
      rw [ran_failed hw]
      exact .refuse fun P hP => htype hP.1

/-- The session of a server that waits for the response to its challenge. -/
def Session.challenged (s : Session ByteBuf) (D : Device) : Session ByteBuf :=
  { s with
    authNonce := D.random authNonceSize
    crypto := { s.crypto with ephPublicKey := D.ephPublicKey, ephPrivateKey := D.ephPrivateKey }
    state := .waitAuth }

theorem sessionAuthenticateServer_takes
    (h : Ran S D (onWire host (sessionAuthenticateServer (byteMemory host) s)) u m (code, s') m') :
    Takes u (succeeded (code, s')) (fun P => P (s.challenged D)) m.stream m'.stream := by
  have hsize : sizeofAuthChallenge ≤ maxPacketSize := by decide
  apply takes_own h
  intro nonce w m₁ hw hnonce
  obtain rfl : nonce = D.random authNonceSize := hnonce
  right
  apply takes_own hw
  intro keys w m₁ hw hkeys
  cases keys with
  | none => exact .inl ⟨fun hworks => hworks rfl, ran_failed hw⟩
  | some keys =>
      obtain rfl : keys = (D.ephPublicKey, D.ephPrivateKey) := hkeys keys rfl
      right
      apply takes_own hw
      intro signature w m₁ hw _
      cases signature with
      | none => exact .inl ⟨fun hworks => hworks rfl, ran_failed hw⟩
      | some signature =>
          right
          apply takes_construct hw
          intro packet w m₁ hlen hw
          exact takes_sendLast (hlen.trans hsize) hw

/-- The session of a server that has verified a response. -/
def Session.verified (s : Session ByteBuf) (peer : ByteBuf cryptoPublicKeySize)
    (keys : ByteBuf cryptoSessionKeySize × ByteBuf cryptoSessionKeySize) : Session ByteBuf :=
  { s with crypto := { s.crypto with
      peerPublicKey := peer, rxKey := keys.1, txKey := keys.2, verified := true } }

/-- The frame that `session_verify_client` waits for: its signature verifies, under the key it
carries, over the nonce of the session and the ephemeral key it carries, and key derivation
accepts the ephemeral key. -/
def AwaitsResponse (S : Sodium) (host : Endian) (s : Session ByteBuf)
    (P : Session ByteBuf → Bytes → Prop) : Bytes → Prop :=
  Starts fun packet rest => packet.type = .authResponse ∧
    ∃ x, packet.read sizeofAuthResponse = some x ∧
      let response := AuthResponse.ofBuf (byteMemory host) x
      S.verify response.signature (signBuf (byteMemory host) s.authNonce response.ephPublicKey)
        response.publicKey = true ∧
      ∃ keys, S.serverKeys s.crypto.ephPublicKey s.crypto.ephPrivateKey response.ephPublicKey =
        some keys ∧ P (s.verified response.publicKey keys) rest

theorem sessionVerifyClient_takes
    (h : Ran S D (onWire host (sessionVerifyClient (byteMemory host) s)) u m (code, s') m') :
    Takes u (succeeded (code, s')) (AwaitsResponse S host s) m.stream m'.stream := by
  apply takes_receive h
  · intro w m₁ hw
    exact ran_failed hw
  · intro packet w m₁ hw _
    dsimp only at hw
    by_cases htype : packet.type = .authResponse
    · rw [if_neg (not_not.mpr htype)] at hw
      apply Takes.guard htype
      cases hread : packet.read sizeofAuthResponse with
      | none =>
          rw [hread] at hw
          rw [ran_failed hw]
          exact .refuse fun P hP => by simp at hP
      | some x =>
          rw [hread] at hw
          apply Takes.value
          apply takes_own hw
          intro ok w m₁ hw hok
          right
          dsimp only at hok hw ⊢
          cases ok with
          | false =>
              rw [ran_failed hw, ← hok]
              exact .refuse fun P hP => Bool.false_ne_true hP.1
          | true =>
              apply Takes.guard hok.symm
              apply takes_own hw
              intro keys w m₁ hw hkeys
              right
              rw [← show keys = _ from hkeys]
              cases keys with
              | none =>
                  rw [ran_failed hw]
                  exact .refuse fun P hP => by simp at hP
              | some keys => exact .value (takes_returned hw)
    · rw [if_pos htype] at hw
      rw [ran_failed hw]
      exact .refuse fun P hP => htype hP.1

/-- The session of a server whose handshake is over. -/
def Session.announced (s : Session ByteBuf) (D : Device) : Session ByteBuf :=
  { s with sessionNonce := D.random sessionNonceSize, state := .established }

theorem sessionAnnounce_takes
    (h : Ran S D (onWire host (sessionAnnounce (byteMemory host) s)) u m (code, s') m') :
    Takes u (succeeded (code, s')) (fun P => P (s.announced D)) m.stream m'.stream := by
  have hsize : sizeofAuthSuccess ≤ maxPacketSize := by decide
  apply takes_own h
  intro nonce w m₁ hw hnonce
  obtain rfl : nonce = D.random sessionNonceSize := hnonce
  right
  apply takes_construct hw
  intro packet w m₁ hlen hw
  exact takes_sendLast (hlen.trans hsize) hw

theorem sessionServerConnect_takes
    (h : Ran S D (onWire host (sessionServerConnect (byteMemory host) s)) u m (code, s') m') :
    Takes u (succeeded (code, s')) (fun P => AwaitsHello s fun s₁ =>
      AwaitsResponse S host (s₁.challenged D) fun s₂ => P (s₂.announced D)) m.stream m'.stream := by
  have hstop : ∀ (c : ℕ) (s₁ : Session ByteBuf) (q : Handshake ByteBuf (ℕ × Session ByteBuf)),
      c ≠ 0 → (if c ≠ 0 then return (1, s₁) else q) = .ret (1, s₁) := fun _ _ _ hc => if_pos hc
  apply takes_andThen h (fun v c s₁ m₁ => sessionServerHello_takes) (fun c s₁ => hstop c s₁ _)
    (B := fun s₁ P => AwaitsResponse S host (s₁.challenged D) fun s₂ => P (s₂.announced D))
  intro w s₁ m₁ hw
  apply takes_andThen hw (fun v c s₂ m₂ => sessionAuthenticateServer_takes)
    (fun c s₂ => hstop c s₂ _)
    (B := fun s₂ P => AwaitsResponse S host s₂ fun s₃ => P (s₃.announced D))
  intro w s₂ m₂ hw
  apply takes_andThen hw (fun v c s₃ m₃ => sessionVerifyClient_takes) (fun c s₃ => hstop c s₃ _)
    (B := fun s₃ P => P (s₃.announced D))
  intro w s₃ m₃ hw
  exact sessionAnnounce_takes hw

end Server

section Client

/-- The frame that `session_client_connect` waits for first. -/
def AwaitsServerHello (s : Session ByteBuf) (P : Session ByteBuf → Bytes → Prop) : Bytes → Prop :=
  Starts fun packet rest => packet.type = .serverHello ∧ P s rest

theorem sessionClientHello_takes
    (h : Ran S D (onWire host (sessionClientHello s)) u m (code, s') m') :
    Takes u (succeeded (code, s')) (AwaitsServerHello s) m.stream m'.stream := by
  apply takes_send (Nat.zero_le _) h
  · intro w hw
    exact ran_failed hw
  · intro w hw
    apply takes_receive hw
    · intro w m₁ hw
      exact ran_failed hw
    · intro packet w m₁ hw hvalid
      dsimp only at hw
      by_cases htype : packet.type = .serverHello
      · rw [if_neg (by simp [htype, hvalid.version])] at hw
        exact .guard htype (takes_returned hw)
      · rw [if_pos (.inl htype)] at hw
        rw [ran_failed hw]
        exact .refuse fun P hP => htype hP.1

/-- The file of the trusted key can be found, opened for writing and written to in full. -/
structure Writable (u : WireCalls) : Prop where
  path : ∀ filename ok, ⟨.own (.cryptoConfigPath filename), ok⟩ ∈ u → ok = true
  opened : ∀ ok, ⟨.own .fopenWrite, ok⟩ ∈ u → ok = true
  written : ∀ (data : Bytes) n, ⟨.own (.fwrite data), n⟩ ∈ u → n = Fin.last data.length

theorem Writable.of_subset {v : WireCalls} (h : Writable u) (hv : ∀ e ∈ v, e ∈ u) :
    Writable v where
  path filename ok hm := h.path filename ok (hv _ hm)
  opened ok hm := h.opened ok (hv _ hm)
  written data n hm := h.written data n (hv _ hm)

/-- An attempt to save a key fails nowhere else, and leaves the file as it was or with a part of
the key. -/
structure KeySaved (key : ByteBuf cryptoPublicKeySize) (u : WireCalls) (m m' : Machine) : Prop where
  sent : AllSent u
  works : Unfailing u
  file : m'.file = m.file ∨ ∃ n, m'.file = some (key.1.take n)
  whole : WritesKey u → m'.file = some key.1
  unopened : ⟨.own .fopenWrite, true⟩ ∉ u → m'.file = m.file
  saves : Writable u → WritesKey u

theorem sessionTrustFirst_ran {key : ByteBuf cryptoPublicKeySize}
    (h : Ran S D (onWire host (sessionTrustFirst s key)) u m s' m') :
    s' = { s with trustedPeerKey := key, hasTrustedPeerKey := true } ∧ m'.stream = m.stream ∧
      KeySaved key u m m' := by
  obtain ⟨path, w, m₁, rfl, -, hstream, hfile, hw⟩ := ran_own h
  cases path with
  | false =>
      obtain ⟨rfl, rfl, rfl⟩ := ran_ret.mp hw
      refine ⟨rfl, hstream, ?_, ?_, .inl hfile, by simp [WritesKey], fun _ => hfile, fun hw => ?_⟩
      · exact allSent_own.mpr allSent_nil
      · simp [Unfailing, Works]
      · exact absurd (hw.path "server_trusted.key" false (by simp)) Bool.false_ne_true
  | true =>
      obtain ⟨ok, w, m₂, rfl, -, hstream', hfile', hw⟩ := ran_own hw
      cases ok with
      | false =>
          obtain ⟨rfl, rfl, rfl⟩ := ran_ret.mp hw
          have hsame : m'.file = m.file := Eq.trans hfile' hfile
          refine ⟨rfl, hstream'.trans hstream, ?_, ?_, .inl hsame, by simp [WritesKey],
            fun _ => hsame, fun hw => ?_⟩
          · exact allSent_own.mpr (allSent_own.mpr allSent_nil)
          · simp [Unfailing, Works]
          · exact absurd (hw.opened false (by simp)) Bool.false_ne_true
      | true =>
          obtain ⟨n, w, m₃, rfl, -, hstream'', hfile'', hw⟩ := ran_own hw
          obtain ⟨rfl, rfl, rfl⟩ := ran_ret.mp hw
          have hwritten : m'.file = some (key.1.take n.val) := hfile''
          refine ⟨rfl, hstream''.trans (hstream'.trans hstream), ?_, ?_, .inr ⟨_, hwritten⟩, ?_,
            fun hopened => absurd (by simp) hopened, fun hw => ?_⟩
          · exact allSent_own.mpr (allSent_own.mpr (allSent_own.mpr allSent_nil))
          · simp [Unfailing, Works]
          · intro hwhole
            obtain ⟨data, hmem⟩ := hwhole
            simp only [List.mem_cons, List.not_mem_nil, or_false] at hmem
            obtain he | he | he := hmem
            · cases he
            · cases he
            · cases he
              rw [hwritten, Fin.val_last, List.take_length]
          · obtain rfl := hw.written key.1 n (by simp)
            exact ⟨key.1, by simp⟩

/-- The challenge with the session that goes on with it. -/
def read {α β : Type} (r : Option α × β) : Option (α × β) := r.1.map fun a => (a, r.2)

/-- The frame that `session_authenticate_client` waits for first: its key is the trusted one, if
there is one. -/
def AwaitsChallenge (host : Endian) (s : Session ByteBuf)
    (P : AuthChallenge ByteBuf × Session ByteBuf → Bytes → Prop) : Bytes → Prop :=
  Starts fun packet rest => packet.type = .authRequest ∧
    ∃ x, packet.read sizeofAuthChallenge = some x ∧
      let challenge := AuthChallenge.ofBuf (byteMemory host) x
      (s.hasTrustedPeerKey = true → challenge.publicKey = s.trustedPeerKey) ∧
      P (challenge, s.trusting challenge.publicKey) rest

theorem sessionReadChallenge_takes {r : Option (AuthChallenge ByteBuf) × Session ByteBuf}
    (h : Ran S D (onWire host (sessionReadChallenge (byteMemory host) s)) u m r m') :
    Takes u (read r) (AwaitsChallenge host s) m.stream m'.stream := by
  have hnone : ∀ {w : WireCalls} {m₁ : Machine},
      Ran S D (onWire host (.ret (none, s))) w m₁ r m' → read r = none := by
    intro w m₁ hw
    obtain ⟨-, rfl, -⟩ := ran_ret.mp hw
    rfl
  apply takes_receive h
  · intro w m₁ hw
    exact hnone hw
  · intro packet w m₁ hw _
    dsimp only at hw
    by_cases htype : packet.type = .authRequest
    · rw [if_neg (not_not.mpr htype)] at hw
      apply Takes.guard htype
      cases hread : packet.read sizeofAuthChallenge with
      | none =>
          rw [hread] at hw
          rw [hnone hw]
          exact .refuse fun P hP => by simp at hP
      | some x =>
          rw [hread] at hw
          apply Takes.value
          dsimp only at hw ⊢
          by_cases hhas : s.hasTrustedPeerKey = true
          · rw [if_pos hhas] at hw
            by_cases hkey : (AuthChallenge.ofBuf (byteMemory host) x).publicKey = s.trustedPeerKey
            · rw [if_neg (not_not.mpr hkey)] at hw
              obtain ⟨rfl, rfl, rfl⟩ := ran_ret.mp hw
              apply Takes.guard fun _ => hkey
              rw [Session.trusting, if_pos hhas]
              exact .ret _ _
            · rw [if_pos hkey] at hw
              rw [hnone hw]
              exact .refuse fun P hP => hkey (hP.1 hhas)
          · rw [if_neg hhas, onWire_bind] at hw
            apply Takes.guard fun hhas' => absurd hhas' hhas
            obtain ⟨s₁, v, w, m₂, rfl, hv, hw⟩ := ran_bind.mp hw
            obtain ⟨rfl, hstream, hsaved⟩ := sessionTrustFirst_ran hv
            obtain ⟨rfl, rfl, rfl⟩ := ran_ret.mp hw
            rw [hstream, List.append_nil, Session.trusting, if_neg hhas]
            constructor
            · intro P b hb hP
              obtain rfl := Option.some.inj hb
              exact ⟨hsaved.sent, hP⟩
            · intro _ _ P hP
              exact ⟨_, rfl, hP⟩
    · rw [if_pos htype] at hw
      rw [hnone hw]
      exact .refuse fun P hP => htype hP.1

/-- The session of a client that has sent its response. -/
def Session.responded (s : Session ByteBuf) (D : Device) (peer : ByteBuf cryptoPublicKeySize)
    (keys : ByteBuf cryptoSessionKeySize × ByteBuf cryptoSessionKeySize) : Session ByteBuf :=
  { s with
    crypto := { s.crypto with
      peerPublicKey := peer, ephPublicKey := D.ephPublicKey, ephPrivateKey := D.ephPrivateKey
      rxKey := keys.1, txKey := keys.2 }
    state := .waitAuth }

/-- The challenges that are answered: the signature verifies, under the key of the challenge, over
its nonce and its ephemeral key, and key derivation accepts the ephemeral key. -/
def Responds (S : Sodium) (D : Device) (host : Endian) (s : Session ByteBuf)
    (challenge : AuthChallenge ByteBuf) (P : Session ByteBuf → Bytes → Prop) (stream : Bytes) :
    Prop :=
  S.verify challenge.signature (signBuf (byteMemory host) challenge.nonce challenge.ephPublicKey)
      challenge.publicKey = true ∧
    ∃ keys, S.clientKeys D.ephPublicKey D.ephPrivateKey challenge.ephPublicKey = some keys ∧
      P (s.responded D challenge.publicKey keys) stream

theorem sessionRespond_takes {challenge : AuthChallenge ByteBuf}
    (h : Ran S D (onWire host (sessionRespond (byteMemory host) s challenge)) u m (code, s') m') :
    Takes u (succeeded (code, s')) (Responds S D host s challenge) m.stream m'.stream := by
  have hsize : sizeofAuthResponse ≤ maxPacketSize := by decide
  apply takes_own h
  intro ok w m₁ hw hok
  right
  unfold Responds
  dsimp only at hok hw
  cases ok with
  | false =>
      rw [ran_failed hw, ← hok]
      exact .refuse fun P hP => Bool.false_ne_true hP.1
  | true =>
      apply Takes.guard hok.symm
      apply takes_own hw
      intro pair w m₁ hw hpair
      cases pair with
      | none => exact .inl ⟨fun hworks => hworks rfl, ran_failed hw⟩
      | some pair =>
          obtain rfl : pair = (D.ephPublicKey, D.ephPrivateKey) := hpair pair rfl
          right
          apply takes_own hw
          intro keys w m₁ hw hkeys
          rw [← show keys = _ from hkeys]
          cases keys with
          | none =>
              rw [ran_failed hw]
              exact .inr (.refuse fun P hP => by simp at hP)
          | some keys =>
              right
              apply Takes.value
              apply takes_own hw
              intro signature w m₁ hw _
              cases signature with
              | none => exact .inl ⟨fun hworks => hworks rfl, ran_failed hw⟩
              | some signature =>
                  right
                  apply takes_construct hw
                  intro packet w m₁ hlen hw
                  exact takes_sendLast (hlen.trans hsize) hw

/-- The session of a client whose handshake is over. -/
def Session.finished (s : Session ByteBuf) (success : AuthSuccess ByteBuf) : Session ByteBuf :=
  { s with
    sessionId := success.sessionId, sessionNonce := success.sessionNonce, state := .established }

/-- The last frame that a client waits for. -/
def AwaitsSuccess (host : Endian) (s : Session ByteBuf) (P : Session ByteBuf → Bytes → Prop) :
    Bytes → Prop :=
  Starts fun packet rest => packet.type = .authSuccess ∧
    ∃ x, packet.read sizeofAuthSuccess = some x ∧
      P (s.finished (AuthSuccess.ofBuf (byteMemory host) x)) rest

theorem sessionFinish_takes
    (h : Ran S D (onWire host (sessionFinish (byteMemory host) s)) u m (code, s') m') :
    Takes u (succeeded (code, s')) (AwaitsSuccess host s) m.stream m'.stream := by
  apply takes_receive h
  · intro w m₁ hw
    exact ran_failed hw
  · intro packet w m₁ hw _
    dsimp only at hw
    by_cases htype : packet.type = .authSuccess
    · rw [if_neg (not_not.mpr htype)] at hw
      apply Takes.guard htype
      cases hread : packet.read sizeofAuthSuccess with
      | none =>
          rw [hread] at hw
          rw [ran_failed hw]
          exact .refuse fun P hP => by simp at hP
      | some x =>
          rw [hread] at hw
          exact .value (takes_returned hw)
    · rw [if_pos htype] at hw
      rw [ran_failed hw]
      exact .refuse fun P hP => htype hP.1

theorem sessionAuthenticateClient_takes
    (h : Ran S D (onWire host (sessionAuthenticateClient (byteMemory host) s)) u m (code, s') m') :
    Takes u (succeeded (code, s')) (fun P => AwaitsChallenge host s fun c =>
      Responds S D host c.2 c.1 fun s₂ => AwaitsSuccess host s₂ P) m.stream m'.stream := by
  have hstop : ∀ (c : ℕ) (s₁ : Session ByteBuf) (q : Handshake ByteBuf (ℕ × Session ByteBuf)),
      c ≠ 0 → (if c ≠ 0 then return (1, s₁) else q) = .ret (1, s₁) := fun _ _ _ hc => if_pos hc
  unfold sessionAuthenticateClient at h
  rw [onWire_bind] at h
  obtain ⟨⟨r, s₁⟩, v, w, m₁, rfl, hv, hw⟩ := ran_bind.mp h
  apply (sessionReadChallenge_takes hv).andThen
    (B := fun c P => Responds S D host c.2 c.1 fun s₂ => AwaitsSuccess host s₂ P)
  · intro hnone
    cases r with
    | none => exact ran_failed hw
    | some challenge => contradiction
  · intro c hc
    cases r with
    | none => contradiction
    | some challenge =>
        obtain rfl := Option.some.inj hc
        apply takes_andThen hw (fun v c s₂ m₂ => sessionRespond_takes) (fun c s₂ => hstop c s₂ _)
          (B := fun s₂ P => AwaitsSuccess host s₂ P)
        intro w s₂ m₂ hw
        exact sessionFinish_takes hw

theorem sessionClientConnect_takes
    (h : Ran S D (onWire host (sessionClientConnect (byteMemory host) s)) u m (code, s') m') :
    Takes u (succeeded (code, s')) (fun P => AwaitsServerHello s fun s₁ =>
      AwaitsChallenge host s₁ fun c => Responds S D host c.2 c.1 fun s₂ => AwaitsSuccess host s₂ P)
      m.stream m'.stream := by
  apply takes_andThen h (fun v c s₁ m₁ => sessionClientHello_takes) (fun c s₁ hc => if_pos hc)
    (B := fun s₁ P => AwaitsChallenge host s₁ fun c =>
      Responds S D host c.2 c.1 fun s₂ => AwaitsSuccess host s₂ P)
  intro w s₁ m₁ hw
  exact sessionAuthenticateClient_takes hw

end Client

/-- A response to the challenge of a device: its signature verifies, under the key it carries,
over the nonce of the challenge and its ephemeral key, and key derivation accepts that key. -/
def AcceptedResponse (S : Sodium) (D : Device) (host : Endian) (packet : Packet ByteBuf) : Prop :=
  packet.type = .authResponse ∧ ∃ x, packet.read sizeofAuthResponse = some x ∧
    let response := AuthResponse.ofBuf (byteMemory host) x
    S.verify response.signature
      (signBuf (byteMemory host) (D.random authNonceSize) response.ephPublicKey)
      response.publicKey = true ∧
    S.serverKeys D.ephPublicKey D.ephPrivateKey response.ephPublicKey ≠ none

/-- The stream starts with the two frames that a server waits for. -/
def ServerAccepts (S : Sodium) (D : Device) (host : Endian) (stream : Bytes) : Prop :=
  Starts (fun hello rest => hello.type = .clientHello ∧
    Starts (fun response _ => AcceptedResponse S D host response) rest) stream

/-- A challenge under the trusted key, if there is one, whose signature verifies and whose
ephemeral key is accepted by key derivation. -/
def AcceptedChallenge (S : Sodium) (D : Device) (host : Endian) (s : Session ByteBuf)
    (packet : Packet ByteBuf) : Prop :=
  packet.type = .authRequest ∧ ∃ x, packet.read sizeofAuthChallenge = some x ∧
    let challenge := AuthChallenge.ofBuf (byteMemory host) x
    (s.hasTrustedPeerKey = true → challenge.publicKey = s.trustedPeerKey) ∧
    S.verify challenge.signature (signBuf (byteMemory host) challenge.nonce challenge.ephPublicKey)
      challenge.publicKey = true ∧
    S.clientKeys D.ephPublicKey D.ephPrivateKey challenge.ephPublicKey ≠ none

/-- The stream starts with the three frames that a client waits for. -/
def ClientAccepts (S : Sodium) (D : Device) (host : Endian) (s : Session ByteBuf)
    (stream : Bytes) : Prop :=
  Starts (fun hello rest => hello.type = .serverHello ∧
    Starts (fun request rest => AcceptedChallenge S D host s request ∧
      Starts (fun result _ => result.type = .authSuccess ∧
        ∃ x, result.read sizeofAuthSuccess = some x) rest) rest) stream

/-- Accepting a stream is returning 0. -/
theorem Takes.code_iff {A : (Session ByteBuf → Bytes → Prop) → Bytes → Prop} {stream rest : Bytes}
    (h : Takes u (succeeded (code, s')) A stream rest) (hwork : Unfailing u) :
    code = 0 ↔ AllSent u ∧ A (fun _ _ => True) stream := by
  constructor
  · intro hcode
    exact h.sound (fun _ _ => True) s' (succeeded_eq_some.mpr ⟨hcode, rfl⟩) trivial
  · intro hall
    obtain ⟨b, hb, -⟩ := h.complete hwork hall.1 _ hall.2
    exact (succeeded_eq_some.mp hb).1

theorem sessionServerConnect_accepts
    (h : Ran S D (onWire host (sessionServerConnect (byteMemory host) s)) u m (code, s') m')
    (hwork : Unfailing u) : code = 0 ↔ AllSent u ∧ ServerAccepts S D host m.stream := by
  rw [(sessionServerConnect_takes h).code_iff hwork]
  simp only [AwaitsHello, AwaitsResponse, ServerAccepts, AcceptedResponse, Session.challenged,
    Option.ne_none_iff_exists', and_true]

theorem sessionClientConnect_accepts
    (h : Ran S D (onWire host (sessionClientConnect (byteMemory host) s)) u m (code, s') m')
    (hwork : Unfailing u) : code = 0 ↔ AllSent u ∧ ClientAccepts S D host s m.stream := by
  rw [(sessionClientConnect_takes h).code_iff hwork]
  simp only [AwaitsServerHello, AwaitsChallenge, Responds, AwaitsSuccess, ClientAccepts,
    AcceptedChallenge, Option.ne_none_iff_exists', and_true, ← and_assoc, exists_and_right]

/-- From any session and on any stream, a run in which nothing on the machine but a send fails
returns 0 exactly when its sends succeed and the stream is accepted. -/
theorem handshake_accepts_iff (S : Sodium) (D : Device) (host : Endian) (s : Session ByteBuf)
    (m : Machine) :
    (∀ u code s' m',
      Ran S D (onWire host (sessionServerConnect (byteMemory host) s)) u m (code, s') m' →
      Unfailing u → (code = 0 ↔ AllSent u ∧ ServerAccepts S D host m.stream)) ∧
    ∀ u code s' m',
      Ran S D (onWire host (sessionClientConnect (byteMemory host) s)) u m (code, s') m' →
      Unfailing u → (code = 0 ↔ AllSent u ∧ ClientAccepts S D host s m.stream) :=
  ⟨fun _ _ _ _ => sessionServerConnect_accepts, fun _ _ _ _ => sessionClientConnect_accepts⟩

section Plain

variable (b : UInt8)

/-- The challenge of a server with the key `b`. -/
def plainChallenge : AuthChallenge ByteBuf :=
  ⟨plainSodium.sign (signBuf (byteMemory .big) (plainBuf _ 9) (plainBuf _ 9)) (plainBuf _ b),
    plainBuf _ b, plainBuf _ 9, plainBuf _ 9⟩

/-- A server with the key `b` that completes the handshake, and a file that is not there. -/
def plainServing : Machine :=
  ⟨frameBytes ⟨.serverHello, currentProtocolVersion, none⟩ (plainBuf 2 0) ++
    (frameBytes ⟨.authRequest, currentProtocolVersion,
        some ⟨_, (plainChallenge b).toBuf (byteMemory .big)⟩⟩ (plainBuf 2 0) ++
      (frameBytes ⟨.authSuccess, currentProtocolVersion,
        some ⟨_, plainBuf sizeofAuthSuccess 7⟩⟩ (plainBuf 2 0) ++ [])), none⟩

/-- The response of a client with the key 1 to a challenge with the nonce of `b`s. -/
def plainResponse : AuthResponse ByteBuf :=
  ⟨plainSodium.sign (signBuf (byteMemory .big) (plainBuf _ b) (plainBuf _ 9))
    (plainIdentity .big 1).privateKey, plainBuf _ 1, plainBuf _ 9⟩

/-- A client that completes the handshake with a server that draws `b`s. -/
def plainConnecting : Machine :=
  ⟨frameBytes ⟨.clientHello, currentProtocolVersion, none⟩ (plainBuf 2 0) ++
    (frameBytes ⟨.authResponse, currentProtocolVersion,
      some ⟨_, (plainResponse b).toBuf (byteMemory .big)⟩⟩ (plainBuf 2 0) ++ []), none⟩

variable {b : UInt8}

theorem plainChallenge_verifies : plainSodium.verify (plainChallenge b).signature
    (signBuf (byteMemory .big) (plainChallenge b).nonce (plainChallenge b).ephPublicKey)
    (plainChallenge b).publicKey = true :=
  plainSodium_lawful.verify_sign (plainIdentity_pair .big b) _

theorem plainServing_accepted (htrusted : s.hasTrustedPeerKey = true →
    plainBuf _ b = s.trustedPeerKey) :
    ClientAccepts plainSodium D .big s (plainServing b).stream := by
  refine ⟨_, _, _, valid_hello, rfl, rfl, _, _, _, valid_message _ (by decide) (by decide), rfl,
    ⟨rfl, _, rfl, ?_⟩, _, _, _, valid_message _ (by decide) (by decide), rfl, rfl, _, rfl⟩
  rw [AuthChallenge.ofBuf_toBuf]
  exact ⟨htrusted, plainChallenge_verifies, Option.some_ne_none _⟩

theorem plainConnecting_accepted :
    ServerAccepts plainSodium (plainDevice b) .big (plainConnecting b).stream := by
  refine ⟨_, _, _, valid_hello, rfl, rfl, _, _, _, valid_message _ (by decide) (by decide), rfl,
    rfl, _, rfl, ?_⟩
  rw [AuthResponse.ofBuf_toBuf]
  exact ⟨plainSodium_lawful.verify_sign (plainIdentity_pair .big 1) _, Option.some_ne_none _⟩

/-- A server and a client whose peers carry the handshake through return 0. -/
theorem handshake_accepts_iff_served :
    (∃ u s' m', Ran plainSodium (plainDevice 4)
      (onWire .big (sessionServerConnect (byteMemory .big) (plainServer .big 7))) u
      (plainConnecting 4) (0, s') m') ∧
    ∃ u s' m', Ran plainSodium (plainDevice 3)
      (onWire .big (sessionClientConnect (byteMemory .big) (plainClient .big))) u
      (plainServing 2) (0, s') m' := by
  obtain ⟨u, ⟨code, s'⟩, m', hrun, hsent, hwork, -⟩ := exists_ran plainSodium (plainDevice 4)
    (onWire_sends (sessionServerConnect (byteMemory .big) (plainServer .big 7)) [])
    (plainConnecting 4)
  obtain ⟨v, ⟨code', t'⟩, m'', hrun', hsent', hwork', -⟩ := exists_ran plainSodium (plainDevice 3)
    (onWire_sends (sessionClientConnect (byteMemory .big) (plainClient .big)) []) (plainServing 2)
  constructor
  · obtain rfl := ((handshake_accepts_iff _ _ _ _ _).1 u code s' m' hrun hwork).mpr
      ⟨hsent, plainConnecting_accepted⟩
    exact ⟨u, s', m', hrun⟩
  · have htrusted : (plainClient .big).hasTrustedPeerKey = true →
        plainBuf _ 2 = (plainClient .big).trustedPeerKey := fun hhas => absurd hhas (by decide)
    obtain rfl := ((handshake_accepts_iff _ _ _ _ _).2 v code' t' m'' hrun' hwork').mpr
      ⟨hsent', plainServing_accepted htrusted⟩
    exact ⟨v, t', m'', hrun'⟩

end Plain

end Sencd
