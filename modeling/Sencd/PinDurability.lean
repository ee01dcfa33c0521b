import Sencd.KeyPinning

/-!
# The pin across runs

A client looks for the trusted key in a file, and saves the key that it pins there. A key that
cannot be read counts as none, and the result of saving is not looked at. The pin lasts over a
sequence of runs if a whole key is always read, and if every run that finds none and is carried
through by its server saves its key whole.
-/
namespace Sencd
open ByteOrder CallProgram StreamNetwork Wire

/-- `crypto_trust_key_load`; `none` is the return of 1. -/
def cryptoTrustKeyLoad : Wire (Option (ByteBuf cryptoPublicKeySize)) := do
  if ← own .fopenRead then
    let bytes ← own (.fread cryptoPublicKeySize)
    if h : bytes.1.length = cryptoPublicKeySize then return some ⟨bytes.1, h⟩ else return none
  else return none

/-- `trusted_key` in `client_listener`, unless `has_trusted` is 0. -/
def trustedKey : Wire (Option (ByteBuf cryptoPublicKeySize)) := do
  if ← own (.cryptoConfigPath "server_trusted.key") then cryptoTrustKeyLoad else return none

/-- `client_listener` from its open connection to the end of the handshake. -/
def clientListener (host : Endian) (socket : ℤ) (ip : List Char)
    (identity : CryptoContext ByteBuf) : Wire (ℕ × Session ByteBuf) := do
  let trusted ← trustedKey
  onWire host (clientHandshake (byteMemory host) socket ip identity trusted)

/-- The key that a file starts with, if it is long enough. -/
def heldKey (file : Option Bytes) : Option Bytes :=
  if cryptoPublicKeySize ≤ (file.getD []).length then some ((file.getD []).take cryptoPublicKeySize)
  else none

theorem heldKey_key (key : ByteBuf cryptoPublicKeySize) : heldKey (some key.1) = some key.1 := by
  have hlen : cryptoPublicKeySize ≤ ((some key.1).getD []).length := key.2.ge
  rw [heldKey, if_pos hlen]
  exact congrArg some (List.take_of_length_le key.2.le)

/-- A whole key has been read from the file. -/
def ReadsKey (t : WireCalls) : Prop :=
  ∃ bytes : { bytes : Bytes // bytes.length ≤ cryptoPublicKeySize },
    ⟨.own (.fread cryptoPublicKeySize), bytes⟩ ∈ t ∧ bytes.1.length = cryptoPublicKeySize

variable {S : Sodium} {D : Device} {host : Endian} {u : WireCalls} {m m' : Machine}
  {s s' : Session ByteBuf} {code : ℕ}

/-- Looking for the key changes nothing, and finds the key that the file holds. -/
theorem trustedKey_ran {trusted : Option (ByteBuf cryptoPublicKeySize)}
    (h : Ran S D trustedKey u m trusted m') :
    m' = m ∧ ¬ WritesKey u ∧ AllSent u ∧ (trusted = none → ¬ ReadsKey u) ∧
      ∀ key, trusted = some key → ReadsKey u ∧ heldKey m.file = some key.1 := by
  obtain ⟨path, w, m₁, rfl, -, hstream, hfile, hload⟩ := ran_own h
  obtain rfl : m₁ = m := Machine.ext hstream hfile
  rw [allSent_own]
  cases path with
  | false =>
      obtain ⟨rfl, rfl, he⟩ := ran_ret.mp hload
      exact ⟨he, by simp [WritesKey], allSent_nil, by simp [ReadsKey], by simp⟩
  | true =>
      obtain ⟨opened, w, m₂, rfl, -, hstream, hfile, hread⟩ := ran_own hload
      obtain rfl : m₂ = m₁ := Machine.ext hstream hfile.2
      rw [allSent_own]
      cases opened with
      | false =>
          obtain ⟨rfl, rfl, he⟩ := ran_ret.mp hread
          exact ⟨he, by simp [WritesKey], allSent_nil, by simp [ReadsKey], by simp⟩
      | true =>
          obtain ⟨bytes, w, m₃, rfl, -, hstream, ⟨hstart, hfile⟩, hend⟩ := ran_own hread
          obtain rfl : m₃ = m₂ := Machine.ext hstream hfile
          rw [allSent_own]
          change Ran S D (if h : bytes.1.length = cryptoPublicKeySize then .ret (some ⟨bytes.1, h⟩)
            else .ret none) w m₃ trusted m' at hend
          by_cases hlen : bytes.1.length = cryptoPublicKeySize
          · rw [dif_pos hlen] at hend
            obtain ⟨rfl, rfl, he⟩ := ran_ret.mp hend
            refine ⟨he, by simp [WritesKey], allSent_nil, by simp, fun key hkey => ?_⟩
            obtain rfl := Option.some.inj hkey
            refine ⟨⟨bytes, by simp, hlen⟩, ?_⟩
            have hle := hstart.length_le
            rw [hlen] at hle
            rw [heldKey, if_pos hle, List.prefix_iff_eq_take.mp hstart, hlen]
          · rw [dif_neg hlen] at hend
            obtain ⟨rfl, rfl, he⟩ := ran_ret.mp hend
            refine ⟨he, by simp [WritesKey], allSent_nil, fun _ hreads => ?_, by simp⟩
            obtain ⟨bytes', hmem, hlen'⟩ := hreads
            simp only [List.mem_cons, List.not_mem_nil, or_false] at hmem
            obtain he' | he' | he' := hmem
            · cases he'
            · cases he'
            · cases he'
              exact hlen hlen'

/-- With a trusted key, no key is saved. -/
theorem sessionReadChallenge_keeps (s : Session ByteBuf) {h : Calls ByteBuf} :
    Holds (fun _ c => s.hasTrustedPeerKey = true → NotSaving c) (fun _ r => r.2.state = s.state) h
      (sessionReadChallenge (byteMemory host) s) := by
  refine holds_perform (by simp [NotSaving]) fun answer => ?_
  cases answer with
  | none => rfl
  | some packet =>
      refine holds_ite (fun _ => rfl) fun _ => ?_
      cases packet.read sizeofAuthChallenge with
      | none => rfl
      | some payload =>
          apply holds_ite
          · intro _
            exact holds_ite (fun _ => rfl) fun _ => rfl
          · intro hnot
            refine holds_perform (by simp [NotSaving]) fun path => ?_
            cases path with
            | true => exact ⟨fun hs => absurd hs hnot, fun _ => rfl⟩
            | false => rfl

/-- A client with a trusted key saves none, and only a return of 0 leaves an established
session. -/
theorem sessionClientConnect_holds (s : Session ByteBuf) :
    Holds (fun _ c => s.hasTrustedPeerKey = true → NotSaving c)
      (fun _ r => s.state ≠ .established → r.2.state = .established → r.1 = 0) []
      (sessionClientConnect (byteMemory host) s) := by
  apply ((sessionClientHello_keeps s).weaken fun _ _ hc _ => hc).bind
  intro h' r hr
  obtain ⟨c, s₁⟩ := r
  obtain rfl : s₁ = s := hr
  refine holds_ite (fun _ hs he => absurd he hs) fun _ => ?_
  apply (sessionReadChallenge_keeps s₁).bind
  intro h'' r hstate
  obtain ⟨challenge, s₂⟩ := r
  cases challenge with
  | none => exact fun hs he => absurd (hstate.symm.trans he) hs
  | some challenge =>
      apply ((sessionConclude_keeps s₂ challenge).weaken fun _ _ hc _ => hc).mono
      intro _ r' hr' hs
      exact hr'.2 fun he => hs (hstate.symm.trans he)

theorem sessionClientConnect_keeps (hs : s.hasTrustedPeerKey = true) :
    Holds (fun _ c => NotSaving c) (fun _ _ => True) []
      (sessionClientConnect (byteMemory host) s) :=
  ((sessionClientConnect_holds s).weaken fun _ _ hc => hc hs).mono fun _ _ _ => trivial

theorem sessionClientConnect_code (hs : s.state ≠ .established)
    (h : Ran S D (onWire host (sessionClientConnect (byteMemory host) s)) u m (code, s') m')
    (hs' : s'.state = .established) : code = 0 := by
  obtain ⟨t, ht, -⟩ := exec_interpret.mp h.exec
  exact (sessionClientConnect_holds s).post ht hs hs'

/-- What a client holds after a handshake that has succeeded. -/
theorem sessionClientConnect_established
    (h : Ran S D (onWire host (sessionClientConnect (byteMemory host) s)) u m (0, s') m') :
    AllSent u ∧ ClientAccepts S D host s m.stream ∧ s'.hasTrustedPeerKey = true ∧
      s'.crypto.peerPublicKey = s'.trustedPeerKey ∧
      (s.hasTrustedPeerKey = true → s'.trustedPeerKey = s.trustedPeerKey) := by
  obtain ⟨hsent, hello, padding, rest, hvalid, hstream, htype, hchallenge⟩ :=
    (sessionClientConnect_takes h).sound (fun s'' _ => s'' = s') s' rfl rfl
  obtain ⟨request, padding', rest', hvalid', hstream', htype', x, hread, htrusted, hverify, keys,
    hkeys, hsuccess⟩ := hchallenge
  obtain ⟨result, padding'', rest'', hvalid'', hstream'', htype'', y, hread'', rfl⟩ := hsuccess
  have hkeys' : S.clientKeys D.ephPublicKey D.ephPrivateKey
      (AuthChallenge.ofBuf (byteMemory host) x).ephPublicKey ≠ none := by
    rw [hkeys]
    exact Option.some_ne_none keys
  refine ⟨hsent, ⟨hello, padding, rest, hvalid, hstream, htype, request, padding', rest', hvalid',
    hstream', ⟨htype', x, hread, htrusted, hverify, hkeys'⟩, result, padding'', rest'', hvalid'',
    hstream'', htype'', y, hread''⟩, ?_⟩
  unfold Session.finished Session.responded Session.trusting
  by_cases hhas : s.hasTrustedPeerKey = true
  · rw [if_pos hhas]
    exact ⟨hhas, htrusted hhas, fun _ => rfl⟩
  · rw [if_neg hhas]
    exact ⟨rfl, rfl, fun hhas' => absurd hhas' hhas⟩

/-- A handshake that has succeeded without a trusted key has pinned one. -/
theorem sessionClientConnect_pinned (hs : s.hasTrustedPeerKey = false)
    (h : Ran S D (onWire host (sessionClientConnect (byteMemory host) s)) u m (0, s') m') :
    ∃ c, Pinned c s' u m m' := by
  obtain ⟨-, -, hhas, -, -⟩ := sessionClientConnect_established h
  obtain ⟨hkept, -⟩ | ⟨c, hpinned, -⟩ := sessionClientConnect_pins hs h
  · rw [hkept.2, hs] at hhas
    contradiction
  · exact ⟨c, hpinned⟩

/-- A handshake reads no file. -/
theorem not_readsKey {α : Type} {p : Handshake ByteBuf α} {a : α}
    (h : Ran S D (onWire host p) u m a m') : ¬ ReadsKey u := by
  have hcalls : Holds (fun _ c => ∀ size, c ≠ .own (.fread size)) (fun _ _ => True) []
      (onWire host p) :=
    onWire_holds (Holds.of_true (h := []) p) fun c _ _ => wireCall_holds (by simp) (by simp)
      (fun i hi size he => by cases he; exact hi) c (by simp)
  rintro ⟨bytes, hmem, -⟩
  obtain ⟨_, _, -, hne⟩ := hcalls.site_of_mem h.exec hmem
  exact hne _ rfl

/-- The parts of a run: looking for the key, and the handshake of a fresh session. -/
theorem clientListener_ran {socket : ℤ} {ip : List Char} {identity : CryptoContext ByteBuf}
    (h : Ran S D (clientListener host socket ip identity) u m (code, s') m') :
    ∃ trusted s₀ v w, u = v ++ w ∧ Fresh identity trusted s₀ ∧ AllSent v ∧ ¬ WritesKey v ∧
      (trusted = none → ¬ ReadsKey u) ∧
      (∀ key, trusted = some key → heldKey m.file = some key.1) ∧
      Ran S D (onWire host (sessionClientConnect (byteMemory host) s₀)) w m (code, s') m' := by
  obtain ⟨trusted, v, w, m₁, rfl, hv, hw⟩ := ran_bind.mp h
  obtain ⟨rfl, hwrites, hsent, hnone, hsome⟩ := trustedKey_ran hv
  have hreads : trusted = none → ¬ ReadsKey (v ++ w) := by
    rintro htrusted ⟨bytes, hmem, hlen⟩
    obtain hmem | hmem := List.mem_append.mp hmem
    · exact hnone htrusted ⟨bytes, hmem, hlen⟩
    · exact not_readsKey hw ⟨bytes, hmem, hlen⟩
  have hcreate : ∃ s₀ id w', w = ⟨.own .generateSessionId, id⟩ :: w' ∧ Fresh identity trusted s₀ ∧
      Ran S D (onWire host (sessionClientConnect (byteMemory host) s₀)) w' m₁ (code, s') m' := by
    cases trusted with
    | none =>
        obtain ⟨id, w', m₂, rfl, -, hstream, hfile, hlast⟩ := ran_own hw
        obtain rfl : m₂ = m₁ := Machine.ext hstream hfile
        exact ⟨_, id, w', rfl, ⟨rfl, rfl, rfl, rfl, rfl, by simp⟩, hlast⟩
    | some key =>
        obtain ⟨id, w', m₂, rfl, -, hstream, hfile, hlast⟩ := ran_own hw
        obtain rfl : m₂ = m₁ := Machine.ext hstream hfile
        exact ⟨_, id, w', rfl, ⟨rfl, rfl, rfl, rfl, rfl, fun _ => Option.some.inj⟩, hlast⟩
  obtain ⟨s₀, id, w', rfl, hfresh, hlast⟩ := hcreate
  refine ⟨trusted, s₀, v ++ [⟨.own .generateSessionId, id⟩], w', by simp, hfresh, ?_, ?_, hreads,
    fun key hkey => (hsome key hkey).2, hlast⟩
  · exact allSent_append.mpr ⟨hsent, allSent_own.mpr allSent_nil⟩
  · rintro ⟨data, hmem⟩
    obtain hmem | hmem := List.mem_append.mp hmem
    · exact hwrites ⟨data, hmem⟩
    · simp at hmem

/-- One run of a client: `client_listener` on a device and a machine, whose file is that of the
configuration directory. -/
structure ListenerRun (S : Sodium) where
  host : Endian
  socket : ℤ
  ip : List Char
  identity : CryptoContext ByteBuf
  device : Device
  calls : WireCalls
  before : Machine
  code : ℕ
  session : Session ByteBuf
  after : Machine
  ran : Ran S device (clientListener host socket ip identity) calls before (code, session) after

namespace ListenerRun

variable {r : ListenerRun S}

def Established (r : ListenerRun S) : Prop := r.session.state = .established

def peer (r : ListenerRun S) : ByteBuf cryptoPublicKeySize := r.session.crypto.peerPublicKey

/-- The file operations do their work: a key that the file holds is read, and if none is read, a
handshake that the server carries through has saved its key whole. -/
structure Durable (r : ListenerRun S) : Prop where
  reads : heldKey r.before.file ≠ none → ReadsKey r.calls
  writes : ¬ ReadsKey r.calls → AllSent r.calls →
    ClientAccepts S r.device r.host (sessionInit (byteMemory r.host) .client) r.before.stream →
    WritesKey r.calls

/-- A run that has found a key leaves the file alone. -/
theorem Durable.keeps (hd : r.Durable) (h : heldKey r.before.file ≠ none) :
    r.after.file = r.before.file := by
  obtain ⟨trusted, s₀, v, w, -, hfresh, -, -, hnone, -, hrun⟩ := clientListener_ran r.ran
  have htrusted : trusted ≠ none := fun htrusted => hnone htrusted (hd.reads h)
  have hhas : s₀.hasTrustedPeerKey = true := by
    rw [hfresh.hasTrusted, Option.isSome_iff_ne_none]
    exact htrusted
  exact (ran_keeps (sessionClientConnect_keeps hhas) hrun).2.1

/-- A run that establishes a session leaves the server's key in the file. -/
theorem Durable.holds_peer (hd : r.Durable) (h : r.Established) :
    heldKey r.after.file = some r.peer.1 := by
  obtain ⟨trusted, s₀, v, w, hcalls, hfresh, hsent, hwrites, hnone, hsome, hrun⟩ :=
    clientListener_ran r.ran
  have hstate : s₀.state ≠ .established := by
    rw [hfresh.state]
    exact fun he => SessionState.noConfusion he
  have hcode : r.code = 0 := sessionClientConnect_code hstate hrun h
  rw [hcode] at hrun
  obtain ⟨hsent', haccepts, -, hpeer, htrust⟩ := sessionClientConnect_established hrun
  cases trusted with
  | some key =>
      have hhas : s₀.hasTrustedPeerKey = true := hfresh.hasTrusted
      have hkey : r.peer = key := hpeer.trans ((htrust hhas).trans (hfresh.trustedKey key rfl))
      rw [(ran_keeps (sessionClientConnect_keeps hhas) hrun).2.1, hkey]
      exact hsome key rfl
  | none =>
      have hhas : s₀.hasTrustedPeerKey = false := hfresh.hasTrusted
      have hallsent : AllSent r.calls := by
        rw [hcalls]
        exact allSent_append.mpr ⟨hsent, hsent'⟩
      have haccepts' : ClientAccepts S r.device r.host (sessionInit (byteMemory r.host) .client)
          r.before.stream := by
        have hinit : (sessionInit (byteMemory r.host) .client).hasTrustedPeerKey = false := rfl
        simpa only [ClientAccepts, AcceptedChallenge, hhas, hinit, Bool.false_eq_true,
          false_imp_iff] using haccepts
      obtain ⟨data, hmem⟩ := hd.writes (hnone rfl) hallsent haccepts'
      rw [hcalls] at hmem
      have hwhole : WritesKey w := by
        obtain hmem | hmem := List.mem_append.mp hmem
        · exact absurd ⟨data, hmem⟩ hwrites
        · exact ⟨data, hmem⟩
      obtain ⟨c, hpinned⟩ := sessionClientConnect_pinned hhas hrun
      rw [hpinned.whole hwhole, ← hpinned.key, ← hpeer]
      exact heldKey_key _

end ListenerRun

/-- Every run finds the file as the one before has left it. -/
def Successive (runs : List (ListenerRun S)) : Prop :=
  runs.IsChain fun r r' => r'.before.file = r.after.file

/-- All sessions established by the runs are with one server key, and each of them has left this
key in the file. -/
def PinLasts (runs : List (ListenerRun S)) : Prop :=
  runs.Pairwise (fun r r' => r.Established → r'.Established → r'.peer = r.peer) ∧
  ∀ r ∈ runs, r.Established → heldKey r.after.file = some r.peer.1

/-- A key in the file stays there, and is that of every session established later. -/
theorem peer_of_held {key : Bytes} {runs : List (ListenerRun S)} {file : Option Bytes}
    (hfile : heldKey file = some key) (hfirst : ∀ r ∈ runs.head?, r.before.file = file)
    (h : Successive runs) (hd : ∀ r ∈ runs, r.Durable) :
    ∀ r ∈ runs, r.Established → r.peer.1 = key := by
  induction runs generalizing file with
  | nil => simp
  | cons first rest ih =>
      have hbefore : first.before.file = file := hfirst first (by simp)
      have hkept : first.after.file = file := by
        rw [← hbefore]
        apply (hd first (by simp)).keeps
        rw [hbefore, hfile]
        exact Option.some_ne_none key
      have hnext : ∀ r ∈ rest.head?, r.before.file = file := by
        intro r hr
        rw [← hkept]
        exact (List.isChain_cons.mp h).1 r hr
      intro r hr hestablished
      obtain rfl | hr := List.mem_cons.mp hr
      · have hholds := (hd r (by simp)).holds_peer hestablished
        rw [hkept, hfile] at hholds
        exact (Option.some.inj hholds).symm
      · exact ih hfile hnext (List.isChain_cons.mp h).2 (fun r hr => hd r (by simp [hr])) r hr
          hestablished

/-- Over any sequence of runs whose file operations do their work the pin lasts. -/
theorem pin_lasts {runs : List (ListenerRun S)} (h : Successive runs)
    (hd : ∀ r ∈ runs, r.Durable) : PinLasts runs := by
  refine ⟨?_, fun r hr hestablished => (hd r hr).holds_peer hestablished⟩
  induction runs with
  | nil => exact .nil
  | cons first rest ih =>
      have hrest : ∀ r ∈ rest, r.Durable := fun r hr => hd r (by simp [hr])
      obtain ⟨hnext, hchain⟩ := List.isChain_cons.mp h
      refine .cons (fun r hr hfirst hestablished => ?_) (ih hchain hrest)
      apply Subtype.ext
      exact peer_of_held ((hd first (by simp)).holds_peer hfirst) hnext hchain hrest r hr
        hestablished

section Plain

theorem clientListener_sends : Holds (fun _ c => c.Sends) (fun _ _ => True) []
    (clientListener .big 4 [] (plainIdentity .big 1)) := by
  refine Holds.bind (Q := fun _ _ => True) ⟨trivial, fun path => ?_⟩
    fun h trusted _ => onWire_sends _ h
  cases path with
  | false => trivial
  | true =>
      refine ⟨trivial, fun opened => ?_⟩
      cases opened with
      | false => trivial
      | true =>
          refine ⟨trivial, fun bytes => ?_⟩
          change Holds _ _ _ (if h : bytes.1.length = cryptoPublicKeySize then
            (.ret (some ⟨bytes.1, h⟩) : Wire (Option (ByteBuf cryptoPublicKeySize))) else .ret none)
          split_ifs
          · trivial
          · trivial

/-- Runs that cannot read the file exist on every stream. -/
theorem exists_listenerRun {D : Device} (hD : D.file = none) (m : Machine) :
    ∃ r : ListenerRun plainSodium, r.host = .big ∧ r.before = m ∧ AllSent r.calls ∧
      Unfailing r.calls ∧ ∀ i a, ⟨.own i, a⟩ ∈ r.calls → a = D.answer plainSodium 0 i := by
  obtain ⟨u, a, m', hrun, hsent, hwork, hown⟩ :=
    exists_answered plainSodium hD clientListener_sends m
  exact ⟨⟨_, _, _, _, _, u, m, a.1, a.2, m', hrun⟩, rfl, rfl, hsent, hwork, hown⟩

/-- A key that the file holds can be found. -/
theorem exists_trustedKey {D : Device} {key : ByteBuf cryptoPublicKeySize}
    (hheld : heldKey m.file = some key.1) :
    ∃ u, Ran S D trustedKey u m (some key) m ∧ AllSent u ∧ Unfailing u ∧ ReadsKey u := by
  let bytes : { bytes : Bytes // bytes.length ≤ cryptoPublicKeySize } := ⟨key.1, key.2.le⟩
  have hstart : key.1 <+: m.file.getD [] := by
    unfold heldKey at hheld
    split_ifs at hheld
    rw [← Option.some.inj hheld]
    exact List.take_prefix _ _
  have hsome : m.file.isSome = true := by
    cases hfile : m.file with
    | some file => rfl
    | none =>
        rw [hfile] at hheld
        contradiction
  have hfound : (if h : bytes.1.length = cryptoPublicKeySize then
      (.ret (some ⟨bytes.1, h⟩) : Wire (Option (ByteBuf cryptoPublicKeySize))) else .ret none) =
        .ret (some key) := dif_pos key.2
  refine ⟨[⟨.own (.cryptoConfigPath "server_trusted.key"), true⟩, ⟨.own .fopenRead, true⟩,
    ⟨.own (.fread cryptoPublicKeySize), bytes⟩], ⟨?_, ?_, ?_, ?_⟩, ?_, ?_, ?_⟩
  · refine .cons (.cons (.cons ?_))
    change Exec (if h : bytes.1.length = cryptoPublicKeySize then
      (.ret (some ⟨bytes.1, h⟩) : Wire (Option (ByteBuf cryptoPublicKeySize))) else .ret none) _ _
    rw [hfound]
    exact .nil _
  · exact fed_own.mpr (fed_own.mpr (fed_own.mpr (fed_nil.mpr rfl)))
  · exact ⟨m.file, rfl, m.file, ⟨fun _ => hsome, rfl⟩, m.file, ⟨hstart, rfl⟩, rfl⟩
  · simp [Answers]
  · exact allSent_own.mpr (allSent_own.mpr (allSent_own.mpr allSent_nil))
  · simp [Unfailing, Works]
  · exact ⟨bytes, by simp, key.2⟩

/-- Runs that find a key in the file exist on every stream. -/
theorem exists_trustingRun {key : ByteBuf cryptoPublicKeySize}
    (hheld : heldKey m.file = some key.1) :
    ∃ r : ListenerRun plainSodium, r.host = .big ∧ r.before = m ∧ AllSent r.calls ∧
      Unfailing r.calls ∧ ReadsKey r.calls := by
  obtain ⟨v, hv, hsent, hwork, hreads⟩ :=
    exists_trustedKey (S := plainSodium) (D := plainDevice 3) hheld
  obtain ⟨w, a, m', hw, hsent', hwork', -⟩ := exists_ran plainSodium (plainDevice 3)
    (onWire_sends (clientHandshake (byteMemory .big) 4 [] (plainIdentity .big 1) (some key)) []) m
  have hrun : Ran plainSodium (plainDevice 3) (clientListener .big 4 [] (plainIdentity .big 1))
      (v ++ w) m a m' := ran_bind.mpr ⟨some key, v, w, m, rfl, hv, hw⟩
  obtain ⟨bytes, hmem, hlen⟩ := hreads
  exact ⟨⟨_, _, _, _, _, v ++ w, m, a.1, a.2, m', hrun⟩, rfl, rfl,
    allSent_append.mpr ⟨hsent, hsent'⟩,
    unfailing_append.mpr ⟨hwork, hwork'⟩, bytes, List.mem_append_left w hmem, hlen⟩

/-- A run against a server that carries the handshake through establishes a session with it,
unless another key is trusted. -/
theorem ListenerRun.served {b : UInt8} {r : ListenerRun plainSodium} (hhost : r.host = .big)
    (hstream : r.before.stream = (plainServing b).stream) (hsent : AllSent r.calls)
    (hwork : Unfailing r.calls)
    (hheld : ∀ key : ByteBuf cryptoPublicKeySize,
      heldKey r.before.file = some key.1 → key = plainBuf _ b) :
    r.Established ∧ r.peer = plainBuf _ b := by
  obtain ⟨trusted, s₀, v, w, hcalls, hfresh, -, -, -, hsome, hrun⟩ := clientListener_ran r.ran
  rw [hcalls, unfailing_append] at hwork
  rw [hcalls, allSent_append] at hsent
  rw [hhost] at hrun
  have htrusted : s₀.hasTrustedPeerKey = true → plainBuf _ b = s₀.trustedPeerKey := by
    intro hhas
    rw [hfresh.hasTrusted] at hhas
    obtain ⟨key, hkey⟩ := Option.isSome_iff_exists.mp hhas
    rw [hfresh.trustedKey key hkey, hheld key (hsome key hkey)]
  have haccepts : AwaitsServerHello s₀ (fun s₁ => AwaitsChallenge .big s₁ fun c =>
      Responds plainSodium r.device .big c.2 c.1 fun s₂ => AwaitsSuccess .big s₂
        fun s₃ _ => s₃.state = .established ∧ s₃.crypto.peerPublicKey = plainBuf _ b)
      r.before.stream := by
    rw [hstream]
    refine ⟨_, _, _, valid_hello, rfl, rfl, _, _, _, valid_message _ (by decide) (by decide), rfl,
      rfl, _, rfl, ?_⟩
    rw [AuthChallenge.ofBuf_toBuf]
    exact ⟨htrusted, plainChallenge_verifies, _, rfl, _, _, _,
      valid_message _ (by decide) (by decide), rfl, rfl, _, rfl, rfl, rfl⟩
  obtain ⟨s', hs', hstate, hpeer⟩ :=
    (sessionClientConnect_takes hrun).complete hwork.2 hsent.2 _ haccepts
  obtain ⟨-, rfl⟩ := succeeded_eq_some.mp hs'
  exact ⟨hstate, hpeer⟩

/-- A file that cannot be written stays as it is. -/
theorem ListenerRun.unopened {r : ListenerRun S} (h : ⟨.own .fopenWrite, true⟩ ∉ r.calls) :
    r.after.file = r.before.file := by
  obtain ⟨trusted, s₀, v, w, hcalls, hfresh, -, -, -, -, hrun⟩ := clientListener_ran r.ran
  rw [hcalls] at h
  have hopened : ⟨.own .fopenWrite, true⟩ ∉ w := fun hmem => h (List.mem_append_right v hmem)
  cases hhas : s₀.hasTrustedPeerKey with
  | true => exact (ran_keeps (sessionClientConnect_keeps hhas) hrun).2.1
  | false =>
      obtain ⟨-, hfile, -⟩ | ⟨c, hpinned, -⟩ := sessionClientConnect_pins hhas hrun
      · exact hfile
      · exact hpinned.unopened hopened

/-- A run that finds no key, establishes a session and can write the file saves the key. -/
theorem ListenerRun.saves {r : ListenerRun S} (hfile : heldKey r.before.file = none)
    (hestablished : r.Established) (hwritable : Writable r.calls) : WritesKey r.calls := by
  obtain ⟨trusted, s₀, v, w, hcalls, hfresh, -, -, -, hsome, hrun⟩ := clientListener_ran r.ran
  have hhas : s₀.hasTrustedPeerKey = false := by
    cases trusted with
    | none => exact hfresh.hasTrusted
    | some key =>
        have hheld := hsome key rfl
        rw [hfile] at hheld
        contradiction
  have hstate : s₀.state ≠ .established := by
    rw [hfresh.state]
    exact fun he => SessionState.noConfusion he
  have hcode : r.code = 0 := sessionClientConnect_code hstate hrun hestablished
  rw [hcode] at hrun
  obtain ⟨c, hpinned⟩ := sessionClientConnect_pinned hhas hrun
  rw [hcalls] at hwritable ⊢
  obtain ⟨data, hmem⟩ :=
    hpinned.saves (hwritable.of_subset fun e he => List.mem_append_right v he)
  exact ⟨data, List.mem_append_right v hmem⟩

/-- A machine on which the file can be written, but not read. -/
def savingDevice (b : UInt8) : Device :=
  { plainDevice b with opened := true, written := fun data => Fin.last data.length }

/-- The server's key is pinned and saved in one run, and found again in the next. -/
theorem pin_lasts_served : ∃ r r' : ListenerRun plainSodium, r.Established ∧ r'.Established ∧
    Successive [r, r'] ∧ PinLasts [r, r'] := by
  have hD : (savingDevice 3).file = none := rfl
  obtain ⟨r, hhost, hbefore, hsent, hwork, hown⟩ := exists_listenerRun hD (plainServing 2)
  have hfile : heldKey r.before.file = none := by
    rw [hbefore]
    rfl
  obtain ⟨hestablished, hpeer⟩ := r.served (b := 2) hhost (by rw [hbefore]) hsent hwork
    fun key hheld => absurd (hfile.symm.trans hheld) (Option.some_ne_none _).symm
  have hwritable : Writable r.calls := ⟨fun filename ok hm => hown _ _ hm, fun ok hm => hown _ _ hm,
    fun data n hm => hown _ _ hm⟩
  have hdurable : r.Durable := ⟨fun hheld => absurd hfile hheld,
    fun _ _ _ => r.saves hfile hestablished hwritable⟩
  have hheld : heldKey r.after.file = some (plainBuf cryptoPublicKeySize 2).1 := by
    rw [hdurable.holds_peer hestablished, hpeer]
  obtain ⟨r', hhost', hbefore', hsent', hwork', hreads⟩ :=
    exists_trustingRun (m := ⟨(plainServing 2).stream, r.after.file⟩) hheld
  have hestablished' := r'.served (b := 2) hhost' (by rw [hbefore']) hsent' hwork'
    fun key hkey => by
      rw [hbefore'] at hkey
      exact Subtype.ext (Option.some.inj (hkey.symm.trans hheld))
  have hdurable' : r'.Durable := ⟨fun _ => hreads, fun hnot => absurd hreads hnot⟩
  have hchain : Successive [r, r'] := by
    simp [Successive, hbefore']
  refine ⟨r, r', hestablished, hestablished'.1, hchain, pin_lasts hchain ?_⟩
  simp [hdurable, hdurable']

variable (b : UInt8)

/-- A client that finds no key and can save none establishes a session all the same. -/
theorem exists_established : ∃ r : ListenerRun plainSodium, r.before.file = none ∧
    r.after.file = none ∧ r.Established ∧ r.peer = plainBuf _ b := by
  obtain ⟨r, hhost, hbefore, hsent, hwork, hown⟩ :=
    exists_listenerRun (show (plainDevice 3).file = none from rfl) (plainServing b)
  have hfile : r.before.file = none := by
    rw [hbefore]
    rfl
  have hopened : ⟨.own .fopenWrite, true⟩ ∉ r.calls :=
    fun hmem => Bool.false_ne_true (hown .fopenWrite true hmem).symm
  refine ⟨r, hfile, (r.unopened hopened).trans hfile,
    r.served hhost (by rw [hbefore]) hsent hwork ?_⟩
  intro key hheld
  rw [hfile] at hheld
  contradiction

end Plain

theorem not_pinLasts :
    ∃ runs : List (ListenerRun plainSodium), Successive runs ∧ ¬ PinLasts runs := by
  obtain ⟨r, -, hafter, hr, hpeer⟩ := exists_established 2
  obtain ⟨r', hbefore, -, hr', hpeer'⟩ := exists_established 5
  refine ⟨[r, r'], by simp [Successive, hafter, hbefore], fun hlasts => ?_⟩
  have hsame : r'.peer = r.peer := by
    simpa using (List.pairwise_cons.mp hlasts.1).1 r' (by simp) hr hr'
  rw [hpeer, hpeer'] at hsame
  exact absurd hsame (by decide)

end Sencd
