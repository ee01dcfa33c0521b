import Sencd.HandshakeAcceptance

/-!
# Pinning the server's key

A client without a trusted key pins the key of the challenge before it looks at the signature.
A challenge that is well formed and badly signed therefore leaves its key in memory, and on disk
where the file can be written. Nothing else pins a key that has not signed its challenge.
-/
namespace Sencd
open ByteOrder CallProgram StreamNetwork Wire

variable {S : Sodium} {D : Device} {host : Endian} {u : WireCalls} {m m' : Machine}
  {s s' : Session ByteBuf} {code : ℕ}

section Keeping

variable {h : Calls ByteBuf}

/-- Calls other than saving a key. -/
def NotSaving (c : Call ByteBuf) : Prop := ∀ key, c ≠ .cryptoTrustKeySave key

/-- A part of a handshake that saves no key leaves the file alone. -/
theorem ran_keeps {α : Type} {Q : α → Prop} {p : Handshake ByteBuf α} {a : α}
    (hp : Holds (fun _ c => NotSaving c) (fun _ a => Q a) [] p)
    (hrun : Ran S D (onWire host p) u m a m') :
    Q a ∧ m'.file = m.file ∧ ∀ e ∈ u, OffFile e.1 := by
  have hcalls : Holds (fun _ c => OffFile c) (fun _ _ => True) [] (onWire host p) :=
    onWire_holds hp fun c _ hc => wireCall_holds (fun _ _ => trivial) (fun _ => trivial)
      (fun _ hi => hi) c fun key he => absurd he (hc key)
  have hoff : ∀ e ∈ u, OffFile e.1 := by
    intro e he
    obtain ⟨_, _, -, hoff⟩ := hcalls.site_of_mem hrun.exec he
    exact hoff
  obtain ⟨t, ht, -⟩ := exec_interpret.mp hrun.exec
  exact ⟨hp.post ht, (filed_offFile hoff).mp hrun.filed, hoff⟩

/-- The trusted key of a session has not changed. -/
def TrustKept (s s' : Session ByteBuf) : Prop :=
  s'.trustedPeerKey = s.trustedPeerKey ∧ s'.hasTrustedPeerKey = s.hasTrustedPeerKey

theorem sessionClientHello_keeps (s : Session ByteBuf) :
    Holds (fun _ c => NotSaving c) (fun _ r => r.2 = s) h (sessionClientHello s) := by
  refine holds_perform (by simp [NotSaving]) fun ok => holds_ite (fun _ => ?_) fun _ => rfl
  refine holds_perform (by simp [NotSaving]) fun answer => ?_
  cases answer with
  | none => rfl
  | some packet => exact holds_ite (fun _ => rfl) fun _ => rfl

theorem sessionRespond_keeps (s : Session ByteBuf) (c : AuthChallenge ByteBuf) :
    Holds (fun _ c => NotSaving c)
      (fun _ r => TrustKept s r.2 ∧ (s.state ≠ .established → r.2.state ≠ .established)) h
      (sessionRespond (byteMemory host) s c) := by
  have hkept : TrustKept s s ∧ (s.state ≠ .established → s.state ≠ .established) :=
    ⟨⟨rfl, rfl⟩, id⟩
  refine holds_perform (by simp [NotSaving]) fun ok => holds_ite (fun _ => ?_) fun _ => hkept
  refine holds_perform (by simp [NotSaving]) fun keypair => ?_
  cases keypair with
  | none => exact hkept
  | some keypair =>
      refine holds_perform (by simp [NotSaving]) fun keys => ?_
      cases keys with
      | none => exact ⟨⟨rfl, rfl⟩, id⟩
      | some keys =>
          refine holds_perform (by simp [NotSaving]) fun answer => ?_
          cases answer with
          | none => exact ⟨⟨rfl, rfl⟩, id⟩
          | some signature =>
              refine holds_packetConstruct (by simp [NotSaving]) fun alloc => ?_
              exact holds_perform (by simp [NotSaving]) fun sent =>
                holds_ite (fun _ => ⟨⟨rfl, rfl⟩, by simp⟩) fun _ => ⟨⟨rfl, rfl⟩, id⟩

theorem sessionFinish_keeps (s : Session ByteBuf) :
    Holds (fun _ c => NotSaving c) (fun _ r => TrustKept s r.2 ∧
        (s.state ≠ .established → r.2.state = .established → r.1 = 0)) h
      (sessionFinish (byteMemory host) s) := by
  have hfailed : TrustKept s s ∧ (s.state ≠ .established → s.state = .established → 1 = 0) :=
    ⟨⟨rfl, rfl⟩, fun hs he => absurd he hs⟩
  refine holds_perform (by simp [NotSaving]) fun answer => ?_
  cases answer with
  | none => exact hfailed
  | some packet =>
      refine holds_ite (fun _ => hfailed) fun _ => ?_
      cases packet.read sizeofAuthSuccess with
      | none => exact hfailed
      | some payload => exact ⟨⟨rfl, rfl⟩, fun _ _ => rfl⟩

/-- The part of `session_authenticate_client` behind the pinned key. -/
def sessionConclude (host : Endian) (s : Session ByteBuf) (c : AuthChallenge ByteBuf) :
    Handshake ByteBuf (ℕ × Session ByteBuf) := do
  let (code, s) ← sessionRespond (byteMemory host) s c
  if code ≠ 0 then return (1, s) else
  sessionFinish (byteMemory host) s

theorem sessionConclude_keeps (s : Session ByteBuf) (c : AuthChallenge ByteBuf) :
    Holds (fun _ c => NotSaving c) (fun _ r => TrustKept s r.2 ∧
        (s.state ≠ .established → r.2.state = .established → r.1 = 0)) h
      (sessionConclude host s c) := by
  apply (sessionRespond_keeps s c).bind
  intro h' r hr
  obtain ⟨hkept, hstate⟩ := hr
  apply holds_ite
  · intro _
    exact ⟨hkept, fun hs he => absurd he (hstate hs)⟩
  · intro _
    apply (sessionFinish_keeps r.2).mono
    intro _ r' hr'
    obtain ⟨hkept', hcode⟩ := hr'
    exact ⟨⟨hkept'.1.trans hkept.1, hkept'.2.trans hkept.2⟩, fun hs => hcode (hstate hs)⟩

end Keeping

/-- Calls before the attempt that leave the file alone. -/
theorem KeySaved.prepend {key : ByteBuf cryptoPublicKeySize} {v w : WireCalls} {m₁ : Machine}
    (h : KeySaved key w m₁ m') (hsent : AllSent v) (hwork : Unfailing v)
    (hoff : ∀ e ∈ v, OffFile e.1) (hfile : m₁.file = m.file) : KeySaved key (v ++ w) m m' where
  sent := allSent_append.mpr ⟨hsent, h.sent⟩
  works := unfailing_append.mpr ⟨hwork, h.works⟩
  file := hfile ▸ h.file
  whole hwhole := by
    obtain ⟨data, hmem⟩ := hwhole
    obtain hmem | hmem := List.mem_append.mp hmem
    · exact absurd (hoff _ hmem) id
    · exact h.whole ⟨data, hmem⟩
  unopened hopened :=
    (h.unopened fun hmem => hopened (List.mem_append_right v hmem)).trans hfile
  saves hwritable := by
    obtain ⟨data, hmem⟩ := h.saves (hwritable.of_subset fun e he => List.mem_append_right v he)
    exact ⟨data, List.mem_append_right v hmem⟩

/-- The stream starts with a challenge, and it satisfies `P`. -/
def Challenged (host : Endian) (P : AuthChallenge ByteBuf → Prop) (stream : Bytes) : Prop :=
  Starts (fun request _ => request.type = .authRequest ∧
    ∃ x, request.read sizeofAuthChallenge = some x ∧ P (AuthChallenge.ofBuf (byteMemory host) x))
    stream

theorem sessionReadChallenge_pins {r : Option (AuthChallenge ByteBuf) × Session ByteBuf}
    (hs : s.hasTrustedPeerKey = false)
    (h : Ran S D (onWire host (sessionReadChallenge (byteMemory host) s)) u m r m') :
    (r = (none, s) ∧ m'.file = m.file ∧
      (Unfailing u → ¬ Challenged host (fun _ => True) m.stream)) ∨
    ∃ c, r = (some c, { s with trustedPeerKey := c.publicKey, hasTrustedPeerKey := true }) ∧
      KeySaved c.publicKey u m m' ∧ ∀ P, Challenged host P m.stream ↔ P c := by
  obtain ⟨received, v, w, m₁, rfl, hv, hw⟩ := ran_perform.mp h
  obtain ⟨hsent, hoff, hframe, hno⟩ := ran_packetReceive hv
  have hfile : m₁.file = m.file := (filed_offFile hoff).mp hv.filed
  have hrefused : Ran S D (onWire host (.ret (none, s))) w m₁ r m' →
      (Unfailing (v ++ w) → ¬ Challenged host (fun _ => True) m.stream) →
      r = (none, s) ∧ m'.file = m.file ∧
        (Unfailing (v ++ w) → ¬ Challenged host (fun _ => True) m.stream) := by
    intro hret hchallenged
    obtain ⟨-, rfl, rfl⟩ := ran_ret.mp hret
    exact ⟨rfl, hfile, hchallenged⟩
  cases received with
  | none =>
      left
      exact hrefused hw fun hwork => hno rfl (unfailing_append.mp hwork).1 _
  | some packet =>
      obtain ⟨hwork, hvalid, padding, hstream⟩ := hframe packet rfl
      have hiff : ∀ P, Challenged host P m.stream ↔ packet.type = .authRequest ∧
          ∃ x, packet.read sizeofAuthChallenge = some x ∧
            P (AuthChallenge.ofBuf (byteMemory host) x) := by
        intro P
        rw [hstream]
        exact starts_frameBytes hvalid
      dsimp only at hw
      by_cases htype : packet.type = .authRequest
      · rw [if_neg (not_not.mpr htype)] at hw
        cases hread : packet.read sizeofAuthChallenge with
        | none =>
            rw [hread] at hw
            left
            apply hrefused hw
            intro _ hchallenged
            simp [hiff, hread] at hchallenged
        | some x =>
            rw [hread] at hw
            dsimp only at hw
            rw [if_neg (by simp [hs]), onWire_bind] at hw
            obtain ⟨s₁, w₁, w₂, m₂, rfl, hpin, hlast⟩ := ran_bind.mp hw
            obtain ⟨rfl, -, hsaved⟩ := sessionTrustFirst_ran hpin
            obtain ⟨rfl, rfl, rfl⟩ := ran_ret.mp hlast
            right
            refine ⟨_, rfl, ?_, fun P => ?_⟩
            · rw [List.append_nil]
              exact hsaved.prepend hsent hwork hoff hfile
            · simp [hiff, htype, hread]
      · rw [if_pos htype] at hw
        left
        apply hrefused hw
        intro _ hchallenged
        exact htype ((hiff _).mp hchallenged).1

/-- The signature of a challenge verifies under the key it carries. -/
def AuthChallenge.Verifies (S : Sodium) (host : Endian) (c : AuthChallenge ByteBuf) : Prop :=
  S.verify c.signature (signBuf (byteMemory host) c.nonce c.ephPublicKey) c.publicKey = true

instance (S : Sodium) (host : Endian) (c : AuthChallenge ByteBuf) :
    Decidable (c.Verifies S host) := inferInstanceAs (Decidable (_ = true))

/-- A challenge that does not verify ends the handshake at once. -/
theorem sessionConclude_refuses {c : AuthChallenge ByteBuf} (hc : ¬ c.Verifies S host)
    (h : Ran S D (onWire host (sessionConclude host s c)) u m (code, s') m') :
    AllSent u ∧ Unfailing u := by
  obtain ⟨ok, w, m₁, rfl, hok, -, -, hw⟩ := ran_own h
  dsimp only at ok hok hw
  obtain rfl : ok = false := Bool.eq_false_iff.mpr fun htrue => hc (hok.symm.trans htrue)
  obtain ⟨rfl, -, -⟩ := ran_ret.mp hw
  exact ⟨allSent_own.mpr allSent_nil, by simp [Unfailing, Works]⟩

/-- A session and a file after the key of a challenge has been pinned. -/
structure Pinned (c : AuthChallenge ByteBuf) (s' : Session ByteBuf) (u : WireCalls)
    (m m' : Machine) : Prop where
  key : s'.trustedPeerKey = c.publicKey
  has : s'.hasTrustedPeerKey = true
  file : m'.file = m.file ∨ ∃ n, m'.file = some (c.publicKey.1.take n)
  whole : WritesKey u → m'.file = some c.publicKey.1
  unopened : ⟨.own .fopenWrite, true⟩ ∉ u → m'.file = m.file
  saves : Writable u → WritesKey u

/-- How the trusted key comes out of a run: it is what it was, or the key of the challenge that
has arrived. A challenge that does not verify is pinned as well. -/
def PinOutcome (S : Sodium) (host : Endian) (arrives : (AuthChallenge ByteBuf → Prop) → Prop)
    (u : WireCalls) (s s' : Session ByteBuf) (m m' : Machine) : Prop :=
  (TrustKept s s' ∧ m'.file = m.file ∧ (AllSent u → Unfailing u → ¬ arrives fun _ => True)) ∨
  ∃ c, Pinned c s' u m m' ∧ (∀ P, arrives P ↔ P c) ∧
    (¬ c.Verifies S host → AllSent u ∧ Unfailing u)

theorem writesKey_append {v w : WireCalls} (hoff : ∀ e ∈ v, OffFile e.1)
    (h : WritesKey (v ++ w)) : WritesKey w := by
  obtain ⟨data, hmem⟩ := h
  obtain hmem | hmem := List.mem_append.mp hmem
  · exact absurd (hoff _ hmem) id
  · exact ⟨data, hmem⟩

theorem sessionAuthenticateClient_pins (hs : s.hasTrustedPeerKey = false)
    (h : Ran S D (onWire host (sessionAuthenticateClient (byteMemory host) s)) u m (code, s') m') :
    PinOutcome S host (fun P => Challenged host P m.stream) u s s' m m' := by
  unfold sessionAuthenticateClient at h
  rw [onWire_bind] at h
  obtain ⟨r, v, w, m₁, rfl, hv, hw⟩ := ran_bind.mp h
  obtain ⟨rfl, hfile, hno⟩ | ⟨c, rfl, hsaved, hiff⟩ := sessionReadChallenge_pins hs hv
  · obtain ⟨rfl, he, rfl⟩ := ran_ret.mp hw
    obtain ⟨-, rfl⟩ := Prod.mk.inj he
    rw [List.append_nil]
    exact .inl ⟨⟨rfl, rfl⟩, hfile, fun _ => hno⟩
  · have hlast : Ran S D (onWire host (sessionConclude host
        { s with trustedPeerKey := c.publicKey, hasTrustedPeerKey := true } c)) w m₁
        (code, s') m' := hw
    obtain ⟨⟨hkept, -⟩, hsame, hoff⟩ := ran_keeps (sessionConclude_keeps _ c) hlast
    refine .inr ⟨c,
      ⟨hkept.1, hkept.2, ?_, fun hwhole => ?_, fun hopened => ?_, fun hwritable => ?_⟩,
      hiff, fun hc => ?_⟩
    · rw [hsame]
      exact hsaved.file
    · obtain ⟨data, hmem⟩ := hwhole
      obtain hmem | hmem := List.mem_append.mp hmem
      · exact hsame.trans (hsaved.whole ⟨data, hmem⟩)
      · exact absurd (hoff _ hmem) id
    · exact hsame.trans (hsaved.unopened fun hmem => hopened (List.mem_append_left w hmem))
    · obtain ⟨data, hmem⟩ :=
        hsaved.saves (hwritable.of_subset fun e he => List.mem_append_left w he)
      exact ⟨data, List.mem_append_left w hmem⟩
    · obtain ⟨hsent, hwork⟩ := sessionConclude_refuses hc hlast
      exact ⟨allSent_append.mpr ⟨hsaved.sent, hsent⟩, unfailing_append.mpr ⟨hsaved.works, hwork⟩⟩

/-- The stream of a client starts with a hello, and then with a challenge that satisfies `P`. -/
def ChallengedAfterHello (host : Endian) (P : AuthChallenge ByteBuf → Prop) (stream : Bytes) :
    Prop :=
  Starts (fun hello rest => hello.type = .serverHello ∧ Challenged host P rest) stream

theorem Starts.mono {P Q : Packet ByteBuf → Bytes → Prop} {stream : Bytes}
    (h : Starts P stream) (hPQ : ∀ packet rest, P packet rest → Q packet rest) :
    Starts Q stream := by
  obtain ⟨packet, padding, rest, hvalid, hstream, hP⟩ := h
  exact ⟨packet, padding, rest, hvalid, hstream, hPQ packet rest hP⟩

theorem Challenged.some {P : AuthChallenge ByteBuf → Prop} {stream : Bytes}
    (h : Challenged host P stream) : Challenged host (fun _ => True) stream := by
  apply h.mono
  intro packet rest hP
  obtain ⟨htype, x, hread, -⟩ := hP
  exact ⟨htype, x, hread, trivial⟩

theorem ChallengedAfterHello.some {P : AuthChallenge ByteBuf → Prop} {stream : Bytes}
    (h : ChallengedAfterHello host P stream) :
    ChallengedAfterHello host (fun _ => True) stream :=
  h.mono fun _ _ hP => ⟨hP.1, hP.2.some⟩

/-- A hello that went well. -/
theorem sessionClientHello_works
    (h : Ran S D (onWire host (sessionClientHello s)) u m (0, s') m') : Unfailing u := by
  obtain ⟨ok, v, w, m₁, rfl, hv, hw⟩ := ran_perform.mp h
  obtain ⟨rfl, hwork, -⟩ := ran_packetSend (Nat.zero_le _) hv
  apply unfailing_append.mpr ⟨hwork, ?_⟩
  cases ok with
  | false => exact absurd (ran_failed hw) (by simp [succeeded])
  | true =>
      obtain ⟨received, v', w', m₂, rfl, hv', hw'⟩ := ran_perform.mp hw
      obtain ⟨-, -, hframe, -⟩ := ran_packetReceive hv'
      cases received with
      | none => exact absurd (ran_failed hw') (by simp [succeeded])
      | some packet =>
          have hdone : w' = [] := by
            dsimp only at hw'
            split_ifs at hw' with htype
            · exact (ran_ret.mp hw').1
            · exact (ran_ret.mp hw').1
          rw [hdone, List.append_nil]
          exact (hframe packet rfl).1

theorem sessionClientConnect_pins (hs : s.hasTrustedPeerKey = false)
    (h : Ran S D (onWire host (sessionClientConnect (byteMemory host) s)) u m (code, s') m') :
    PinOutcome S host (fun P => ChallengedAfterHello host P m.stream) u s s' m m' := by
  unfold sessionClientConnect at h
  rw [onWire_bind] at h
  obtain ⟨⟨c, s₁⟩, v, w, m₁, rfl, hv, hw⟩ := ran_bind.mp h
  obtain ⟨rfl, hfile, hoff⟩ := ran_keeps (sessionClientHello_keeps s) hv
  have htakes := sessionClientHello_takes hv
  dsimp only at hw htakes
  by_cases hc : c = 0
  · subst hc
    have hlast : Ran S D (onWire host (sessionAuthenticateClient (byteMemory host) s₁)) w m₁
        (code, s') m' := hw
    obtain ⟨hsent, packet, padding, rest, hvalid, hstream, htype, rfl⟩ :=
      htakes.sound (fun _ rest => rest = m₁.stream) s₁ rfl rfl
    have hwork := sessionClientHello_works hv
    have hiff : ∀ P, ChallengedAfterHello host P m.stream ↔ Challenged host P m₁.stream := by
      intro P
      rw [hstream, ChallengedAfterHello, starts_frameBytes hvalid]
      simp [htype]
    obtain ⟨hkept, hsame, hno⟩ | ⟨challenge, hpinned, harrives, hrefused⟩ :=
      sessionAuthenticateClient_pins hs hlast
    · refine .inl ⟨hkept, hsame.trans hfile, fun hsent' hwork' hchallenged => ?_⟩
      exact hno (allSent_append.mp hsent').2 (unfailing_append.mp hwork').2
        ((hiff _).mp hchallenged)
    · refine .inr ⟨challenge, ?_, fun P => (hiff P).trans (harrives P), fun hnot => ?_⟩
      · exact {
          key := hpinned.key
          has := hpinned.has
          file := hfile ▸ hpinned.file
          whole := fun hwhole => hpinned.whole (writesKey_append hoff hwhole)
          unopened := fun hopened => (hpinned.unopened fun hmem =>
            hopened (List.mem_append_right v hmem)).trans hfile
          saves := fun hwritable => by
            obtain ⟨data, hmem⟩ :=
              hpinned.saves (hwritable.of_subset fun e he => List.mem_append_right v he)
            exact ⟨data, List.mem_append_right v hmem⟩ }
      · obtain ⟨hsent', hwork'⟩ := hrefused hnot
        exact ⟨allSent_append.mpr ⟨hsent, hsent'⟩, unfailing_append.mpr ⟨hwork, hwork'⟩⟩
  · rw [if_pos hc] at hw
    obtain ⟨rfl, he, rfl⟩ := ran_ret.mp hw
    obtain ⟨-, rfl⟩ := Prod.mk.inj he
    rw [List.append_nil]
    refine .inl ⟨⟨rfl, rfl⟩, hfile, fun hsent hwork hchallenged => hc ?_⟩
    have hhello : AwaitsServerHello s' (fun _ _ => True) m.stream :=
      hchallenged.mono fun packet rest h => ⟨h.1, trivial⟩
    obtain ⟨b, hb, -⟩ := htakes.complete hwork hsent _ hhello
    exact (succeeded_eq_some.mp hb).1

/-- The trusted key in memory and on disk is what it was, unless a challenge has arrived that
verifies under the key it carries: then it may be that key, or on disk a part of it. -/
def PinsVerified (S : Sodium) (host : Endian)
    (arrives : (AuthChallenge ByteBuf → Prop) → Prop) (s s' : Session ByteBuf) (m m' : Machine) :
    Prop :=
  (TrustKept s s' ∧ m'.file = m.file) ∨
  arrives fun c => c.Verifies S host ∧ s'.trustedPeerKey = c.publicKey ∧
    (m'.file = m.file ∨ ∃ n, m'.file = some (c.publicKey.1.take n))

theorem PinOutcome.verified_iff {arrives : (AuthChallenge ByteBuf → Prop) → Prop}
    (h : PinOutcome S host arrives u s s' m m') (hs : s.hasTrustedPeerKey = false)
    (hmono : ∀ P, arrives P → arrives fun _ => True) :
    PinsVerified S host arrives s s' m m' ↔
      ¬ (AllSent u ∧ Unfailing u ∧ arrives fun c => ¬ c.Verifies S host) := by
  obtain ⟨hkept, hfile, hno⟩ | ⟨c, hpinned, harrives, hrefused⟩ := h
  · constructor
    · intro _ hbad
      exact hno hbad.1 hbad.2.1 (hmono _ hbad.2.2)
    · intro _
      exact .inl ⟨hkept, hfile⟩
  · rw [PinsVerified, harrives, harrives]
    constructor
    · intro hpins hbad
      obtain ⟨hkept, -⟩ | ⟨hverifies, -⟩ := hpins
      · have hhas := hkept.2
        rw [hpinned.has, hs] at hhas
        contradiction
      · exact hbad.2.2 hverifies
    · intro hgood
      right
      refine ⟨?_, hpinned.key, hpinned.file⟩
      by_contra hnot
      obtain ⟨hsent, hwork⟩ := hrefused hnot
      exact hgood ⟨hsent, hwork, hnot⟩

/-- A client without a trusted key pins verified keys only, in exactly the runs in which it is
not sent a well-formed challenge that does not verify. -/
theorem pins_verified_iff (hs : s.hasTrustedPeerKey = false) :
    (∀ u code s' m',
      Ran S D (onWire host (sessionAuthenticateClient (byteMemory host) s)) u m (code, s') m' →
      (PinsVerified S host (fun P => Challenged host P m.stream) s s' m m' ↔ ¬ (AllSent u ∧
        Unfailing u ∧ Challenged host (fun c => ¬ c.Verifies S host) m.stream))) ∧
    ∀ u code s' m',
      Ran S D (onWire host (sessionClientConnect (byteMemory host) s)) u m (code, s') m' →
      (PinsVerified S host (fun P => ChallengedAfterHello host P m.stream) s s' m m' ↔
        ¬ (AllSent u ∧ Unfailing u ∧
          ChallengedAfterHello host (fun c => ¬ c.Verifies S host) m.stream)) := by
  constructor
  · intro u code s' m' h
    exact (sessionAuthenticateClient_pins hs h).verified_iff hs fun P => Challenged.some
  · intro u code s' m' h
    exact (sessionClientConnect_pins hs h).verified_iff hs fun P => ChallengedAfterHello.some

/-- The one challenge of a server that carries the handshake through. -/
theorem plainServing_challenged {b : UInt8} (P : AuthChallenge ByteBuf → Prop) :
    ChallengedAfterHello .big P (plainServing b).stream ↔ P (plainChallenge b) := by
  unfold plainServing ChallengedAfterHello
  rw [starts_frameBytes valid_hello, Challenged,
    starts_frameBytes (valid_message _ (by decide) (by decide))]
  constructor
  · rintro ⟨-, -, x, hread, hP⟩
    obtain rfl := Option.some.inj hread
    rwa [AuthChallenge.ofBuf_toBuf] at hP
  · intro hP
    refine ⟨rfl, rfl, _, rfl, ?_⟩
    rwa [AuthChallenge.ofBuf_toBuf]

/-- A client pins the key of a server that carries the handshake through. -/
theorem pins_verified_iff_served :
    ∃ u code s' m', Ran plainSodium (plainDevice 3)
        (onWire .big (sessionClientConnect (byteMemory .big) (plainClient .big))) u
        (plainServing 2) (code, s') m' ∧
      s'.trustedPeerKey = plainBuf _ 2 ∧ s'.hasTrustedPeerKey = true ∧
      PinsVerified plainSodium .big
        (fun P => ChallengedAfterHello .big P (plainServing 2).stream) (plainClient .big) s'
        (plainServing 2) m' := by
  obtain ⟨u, ⟨code, s'⟩, m', hrun, hsent, hwork, -⟩ := exists_ran plainSodium (plainDevice 3)
    (onWire_sends (sessionClientConnect (byteMemory .big) (plainClient .big)) []) (plainServing 2)
  have hpins := ((pins_verified_iff rfl).2 u code s' m' hrun).mpr fun hbad =>
    (plainServing_challenged _).mp hbad.2.2 plainChallenge_verifies
  refine ⟨u, code, s', m', hrun, ?_⟩
  obtain ⟨-, -, hno⟩ | ⟨c, hpinned, harrives, -⟩ := sessionClientConnect_pins rfl hrun
  · exact absurd ((plainServing_challenged _).mpr trivial) (hno hsent hwork)
  · have hc : c = plainChallenge 2 := (harrives (· = plainChallenge 2)).mp
      ((plainServing_challenged _).mpr rfl)
    exact ⟨by rw [hpinned.key, hc]; rfl, hpinned.has, hpins⟩

/-- A challenge under the key 9 that key 1 would have to sign. -/
def forgedChallenge : AuthChallenge ByteBuf :=
  ⟨plainBuf _ 1, plainBuf _ 9, plainBuf _ 9, plainBuf _ 9⟩

/-- A peer that sends a hello and the forged challenge. -/
def forgedMachine (host : Endian) : Machine :=
  ⟨frameBytes ⟨.serverHello, currentProtocolVersion, none⟩ (plainBuf 2 0) ++
    (frameBytes ⟨.authRequest, currentProtocolVersion,
      some ⟨_, forgedChallenge.toBuf (byteMemory host)⟩⟩ (plainBuf 2 0) ++ []), none⟩

theorem not_pinsVerified :
    ∃ u code s' m', Ran plainSodium (plainDevice 3)
        (onWire .big (sessionClientConnect (byteMemory .big) (plainClient .big))) u
        (forgedMachine .big) (code, s') m' ∧
      ¬ PinsVerified plainSodium .big
        (fun P => ChallengedAfterHello .big P (forgedMachine .big).stream) (plainClient .big) s'
        (forgedMachine .big) m' := by
  obtain ⟨u, r, m', hrun, hsent, hwork, -⟩ := exists_ran plainSodium (plainDevice 3) (onWire_sends
    (sessionClientConnect (byteMemory .big) (plainClient .big)) []) (forgedMachine .big)
  refine ⟨u, r.1, r.2, m', hrun, ?_⟩
  have hrefused : ¬ forgedChallenge.Verifies plainSodium .big := by decide
  have hforged : ChallengedAfterHello .big (fun c => ¬ c.Verifies plainSodium .big)
      (forgedMachine .big).stream := by
    refine ⟨_, _, _, valid_hello, rfl, rfl, _, _, _, valid_message _ (by decide) (by decide), rfl,
      rfl, _, rfl, ?_⟩
    rw [AuthChallenge.ofBuf_toBuf]
    exact hrefused
  rw [(sessionClientConnect_pins rfl hrun).verified_iff rfl fun P => ChallengedAfterHello.some]
  exact not_not.mpr ⟨hsent, hwork, hforged⟩

end Sencd
