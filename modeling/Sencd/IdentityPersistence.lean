import Sencd.Crypto
import Sencd.LabelledPath

/-!
# The identity across calls

The identity key pair is kept in a file. A call loads it from there, or generates a new one and
saves it. A pair that cannot be read counts as none, and the results of writing are not looked
at: the memory and the file stay together exactly if what is there is read whole, and what is
not there is written whole.
-/
namespace Sencd
open ByteOrder LabelledPath

/-- Detached signatures: `sign` is `none` for a nonzero return, and `signPair` relates the two
keys that `crypto_sign_keypair` generates. -/
structure Signatures where
  sign : Bytes → ByteBuf cryptoPrivateKeySize → Option (ByteBuf cryptoSignatureSize)
  verify : ByteBuf cryptoSignatureSize → Bytes → ByteBuf cryptoPublicKeySize → Bool
  signPair : ByteBuf cryptoPublicKeySize → ByteBuf cryptoPrivateKeySize → Prop

/-- Verification accepts what signing with these keys produces. -/
def Signatures.Accepts (S : Signatures) (pk : ByteBuf cryptoPublicKeySize)
    (sk : ByteBuf cryptoPrivateKeySize) (message : Bytes) : Prop :=
  ∃ signature, S.sign message sk = some signature ∧ S.verify signature message pk = true

/-- Signatures verify under the public key of the signer, and under no other. -/
structure Signatures.Lawful (S : Signatures) : Prop where
  verify_sign {pk : ByteBuf cryptoPublicKeySize} {sk : ByteBuf cryptoPrivateKeySize} :
    S.signPair pk sk → ∀ message, S.Accepts pk sk message
  signPair_of_verify {pk : ByteBuf cryptoPublicKeySize} {sk : ByteBuf cryptoPrivateKeySize}
    {message : Bytes} : S.Accepts pk sk message → S.signPair pk sk

/-- The outcomes of the calls outside the program. A read or a write ends early when its limit
is below the size that is asked for. -/
structure IdentityOutcomes (S : Signatures) where
  opensRead : Bool
  publicRead : ℕ
  privateRead : ℕ
  keypair : Option (ByteBuf cryptoPublicKeySize × ByteBuf cryptoPrivateKeySize)
  opensWrite : Bool
  publicWritten : ℕ
  privateWritten : ℕ
  keypair_signPair : ∀ pk sk, keypair = some (pk, sk) → S.signPair pk sk

/-- The identity file, and how often it has been opened for writing. -/
structure IdentityFile where
  bytes : Option Bytes
  rewrites : ℕ

structure IdentityResult where
  code : ℕ
  ctx : CryptoContext ByteBuf
  file : IdentityFile

/-- What is read, and what is left of the file. -/
def fread (limit size : ℕ) (bytes : Bytes) : Bytes × Bytes :=
  (bytes.take (min limit size), bytes.drop (min limit size))

/-- A buffer of which the first bytes have been replaced. -/
def overwrite {n : ℕ} (buffer : ByteBuf n) (bytes : Bytes) : ByteBuf n :=
  ⟨(bytes ++ buffer.1.drop bytes.length).take n, by
    have := buffer.2
    simp only [List.length_take, List.length_append, List.length_drop]
    omega⟩

theorem overwrite_full {n : ℕ} (buffer : ByteBuf n) {bytes : Bytes} (h : bytes.length = n) :
    overwrite buffer bytes = ⟨bytes, h⟩ := by
  apply Subtype.ext
  change (bytes ++ buffer.1.drop bytes.length).take n = bytes
  exact List.take_left' h

/-- The bytes that are signed to check a loaded pair, with the terminator of the literal. -/
def identityProbe : Bytes := "sencd-identity-check".toList.map (fun c => .ofNat c.toNat) ++ [0]

variable (S : Signatures) (D : IdentityOutcomes S)

def cryptoSignMessage (ctx : CryptoContext ByteBuf) (message : Bytes) :
    Option (ByteBuf cryptoSignatureSize) := S.sign message ctx.privateKey

def cryptoVerifyMessage (publicKey : ByteBuf cryptoPublicKeySize) (message : Bytes)
    (signature : ByteBuf cryptoSignatureSize) : Bool := S.verify signature message publicKey

def identityCheck (ctx : CryptoContext ByteBuf) : Bool :=
  match cryptoSignMessage S ctx identityProbe with
  | some signature => cryptoVerifyMessage S ctx.publicKey identityProbe signature
  | none => false

/-- The branch of an open file: whether a pair has been loaded, and what is in the context. -/
def cryptoIdentityLoad (ctx : CryptoContext ByteBuf) (bytes : Bytes) :
    Bool × CryptoContext ByteBuf :=
  let pub := fread D.publicRead cryptoPublicKeySize bytes
  let priv := fread D.privateRead cryptoPrivateKeySize pub.2
  let ctx := { ctx with
    publicKey := overwrite ctx.publicKey pub.1
    privateKey := overwrite ctx.privateKey priv.1 }
  (pub.1.length = cryptoPublicKeySize && priv.1.length = cryptoPrivateKeySize &&
    identityCheck S ctx, ctx)

/-- `crypto_generate_identity`, and saving what it has generated. -/
def cryptoIdentityCreate (ctx : CryptoContext ByteBuf) (file : IdentityFile) : IdentityResult :=
  match D.keypair with
  | none => ⟨1, ctx, file⟩
  | some (pk, sk) =>
      let ctx := { ctx with publicKey := pk, privateKey := sk }
      if D.opensWrite then
        ⟨0, ctx, some (pk.1.take D.publicWritten ++ sk.1.take D.privateWritten),
          file.rewrites + 1⟩
      else ⟨1, ctx, file⟩

def cryptoIdentityLoadOrCreate (ctx : CryptoContext ByteBuf) (file : IdentityFile) :
    IdentityResult :=
  match if D.opensRead then file.bytes else none with
  | some bytes =>
      let loaded := cryptoIdentityLoad S D ctx bytes
      if loaded.1 then ⟨0, loaded.2, file⟩ else cryptoIdentityCreate S D loaded.2 file
  | none => cryptoIdentityCreate S D ctx file

/-- The file starts with these two keys. -/
def IdentityFile.Holds (file : IdentityFile) (pk : ByteBuf cryptoPublicKeySize)
    (sk : ByteBuf cryptoPrivateKeySize) : Prop :=
  ∃ rest, file.bytes = some (pk.1 ++ (sk.1 ++ rest))

/-- The file starts with a matching pair. -/
def IdentityFile.HoldsPair (file : IdentityFile) : Prop :=
  ∃ pk sk, S.signPair pk sk ∧ file.Holds pk sk

variable {S D}

/-- The file is opened and no read ends early. -/
structure IdentityOutcomes.ReadsWhole (D : IdentityOutcomes S) : Prop where
  opened : D.opensRead = true
  publicKey : cryptoPublicKeySize ≤ D.publicRead
  privateKey : cryptoPrivateKeySize ≤ D.privateRead

/-- No write ends early. -/
structure IdentityOutcomes.WritesWhole (D : IdentityOutcomes S) : Prop where
  publicKey : cryptoPublicKeySize ≤ D.publicWritten
  privateKey : cryptoPrivateKeySize ≤ D.privateWritten

/-- A new pair can be generated, and the file opened for it. -/
def IdentityOutcomes.Replaces (D : IdentityOutcomes S) : Prop :=
  D.keypair ≠ none ∧ D.opensWrite = true

/-- A matching pair is read whole, and a new pair is written whole where there is none. -/
structure Undisturbed (S : Signatures) (file : IdentityFile) (D : IdentityOutcomes S) : Prop where
  reads : D.Replaces → file.HoldsPair S → D.ReadsWhole
  writes : D.Replaces → ¬ file.HoldsPair S → D.WritesWhole

section Call

variable {ctx : CryptoContext ByteBuf} {file : IdentityFile} {bytes rest : Bytes}
  {pk : ByteBuf cryptoPublicKeySize} {sk : ByteBuf cryptoPrivateKeySize}

@[simp] theorem fread_length (limit size : ℕ) (bytes : Bytes) :
    (fread limit size bytes).1.length = min (min limit size) bytes.length := List.length_take

/-- A read that does not end early takes off what it asks for. -/
theorem fread_whole {limit size : ℕ} (hlimit : size ≤ limit) (x : ByteBuf size) (rest : Bytes) :
    fread limit size (x.1 ++ rest) = (x.1, rest) := by
  unfold fread
  rw [Nat.min_eq_right hlimit, List.take_left' x.2, List.drop_left' x.2]

/-- Only such a read brings all that was asked for. -/
theorem fread_full {limit size : ℕ} (h : (fread limit size bytes).1.length = size) :
    size ≤ limit ∧ bytes = (fread limit size bytes).1 ++ (fread limit size bytes).2 := by
  rw [fread_length] at h
  exact ⟨by omega, (List.take_append_drop _ _).symm⟩

theorem identityCheck_eq_true :
    identityCheck S ctx = true ↔ S.Accepts ctx.publicKey ctx.privateKey identityProbe := by
  unfold identityCheck cryptoSignMessage cryptoVerifyMessage Signatures.Accepts
  cases S.sign identityProbe ctx.privateKey with
  | none => simp
  | some signature => simp

/-- A pair that is loaded is the one the file starts with. -/
theorem cryptoIdentityLoad_sound (hS : S.Lawful) (h : (cryptoIdentityLoad S D ctx bytes).1 = true) :
    cryptoPublicKeySize ≤ D.publicRead ∧ cryptoPrivateKeySize ≤ D.privateRead ∧
      ∃ pk sk rest, S.signPair pk sk ∧ bytes = pk.1 ++ (sk.1 ++ rest) ∧
        (cryptoIdentityLoad S D ctx bytes).2 = { ctx with publicKey := pk, privateKey := sk } := by
  simp only [cryptoIdentityLoad, Bool.and_eq_true, decide_eq_true_eq] at h ⊢
  obtain ⟨⟨hpub, hpriv⟩, hcheck⟩ := h
  obtain ⟨hpublic, hbytes⟩ := fread_full hpub
  obtain ⟨hprivate, hrest⟩ := fread_full hpriv
  rw [overwrite_full _ hpub, overwrite_full _ hpriv] at hcheck ⊢
  let pub := fread D.publicRead cryptoPublicKeySize bytes
  let priv := fread D.privateRead cryptoPrivateKeySize pub.2
  refine ⟨hpublic, hprivate, ⟨pub.1, hpub⟩, ⟨priv.1, hpriv⟩, priv.2, ?_, ?_, rfl⟩
  · exact hS.signPair_of_verify (identityCheck_eq_true.mp hcheck)
  · exact hbytes.trans (congrArg (_ ++ ·) hrest)

/-- A matching pair that is read whole is loaded. -/
theorem cryptoIdentityLoad_complete (hS : S.Lawful) (hD : D.ReadsWhole) (hpair : S.signPair pk sk) :
    cryptoIdentityLoad S D ctx (pk.1 ++ (sk.1 ++ rest)) =
      (true, { ctx with publicKey := pk, privateKey := sk }) := by
  simp only [cryptoIdentityLoad, fread_whole hD.publicKey, fread_whole hD.privateKey,
    overwrite_full _ pk.2, overwrite_full _ sk.2]
  have hcheck : identityCheck S { ctx with publicKey := pk, privateKey := sk } = true :=
    identityCheck_eq_true.mpr (hS.verify_sign hpair _)
  simp [hcheck, pk.2, sk.2]

/-- Creating an identity replaces the file, or leaves it alone and fails. -/
theorem cryptoIdentityCreate_cases (S : Signatures) (D : IdentityOutcomes S)
    (ctx : CryptoContext ByteBuf) (file : IdentityFile) :
    (∃ pk sk, D.Replaces ∧ D.keypair = some (pk, sk) ∧
      cryptoIdentityCreate S D ctx file = ⟨0, { ctx with publicKey := pk, privateKey := sk },
        some (pk.1.take D.publicWritten ++ sk.1.take D.privateWritten), file.rewrites + 1⟩) ∨
    ∃ ctx', ¬ D.Replaces ∧ cryptoIdentityCreate S D ctx file = ⟨1, ctx', file⟩ := by
  unfold cryptoIdentityCreate IdentityOutcomes.Replaces
  cases D.keypair with
  | none => exact .inr ⟨ctx, by simp, rfl⟩
  | some pair =>
      obtain ⟨pk, sk⟩ := pair
      cases D.opensWrite with
      | true => exact .inl ⟨pk, sk, by simp, rfl, rfl⟩
      | false => exact .inr ⟨_, by simp, rfl⟩

/-- A call that loads the pair of the file. -/
def Loads (S : Signatures) (D : IdentityOutcomes S) (ctx : CryptoContext ByteBuf)
    (file : IdentityFile) : Prop :=
  ∃ pk sk, S.signPair pk sk ∧ file.Holds pk sk ∧ cryptoIdentityLoadOrCreate S D ctx file =
    ⟨0, { ctx with publicKey := pk, privateKey := sk }, file⟩

/-- A matching pair is loaded exactly if it is read whole; otherwise a new one is created. -/
theorem cryptoIdentityLoadOrCreate_cases (hS : S.Lawful) (ctx : CryptoContext ByteBuf)
    (file : IdentityFile) :
    D.ReadsWhole ∧ Loads S D ctx file ∨
    ¬ (D.ReadsWhole ∧ file.HoldsPair S) ∧ ∃ ctx',
      cryptoIdentityLoadOrCreate S D ctx file = cryptoIdentityCreate S D ctx' file := by
  unfold Loads cryptoIdentityLoadOrCreate
  cases hopen : D.opensRead with
  | false =>
      refine .inr ⟨fun h => ?_, ctx, rfl⟩
      rw [h.1.opened] at hopen
      contradiction
  | true =>
      cases hbytes : file.bytes with
      | none =>
          refine .inr ⟨fun h => ?_, ctx, rfl⟩
          obtain ⟨-, pk, sk, -, rest, hrest⟩ := h
          rw [hbytes] at hrest
          contradiction
      | some bytes =>
          rw [if_pos rfl]
          dsimp only
          cases hload : (cryptoIdentityLoad S D ctx bytes).1 with
          | true =>
              obtain ⟨hpublic, hprivate, pk, sk, rest, hpair, rfl, hctx⟩ :=
                cryptoIdentityLoad_sound hS hload
              refine .inl ⟨⟨hopen, hpublic, hprivate⟩, pk, sk, hpair, ⟨rest, hbytes⟩, ?_⟩
              rw [hctx]
              rfl
          | false =>
              refine .inr ⟨fun h => ?_, _, rfl⟩
              obtain ⟨hwhole, pk, sk, hpair, rest, hrest⟩ := h
              obtain rfl := Option.some.inj (hbytes.symm.trans hrest)
              rw [cryptoIdentityLoad_complete hS hwhole hpair] at hload
              contradiction

/-- What a call promises: after a return of 0 the context holds a pair that works and the file
starts with it, and a file that held a pair is not opened for writing. -/
structure Persisted (S : Signatures) (file : IdentityFile) (r : IdentityResult) : Prop where
  accepts : r.code = 0 → ∀ message, S.Accepts r.ctx.publicKey r.ctx.privateKey message
  saved : r.code = 0 → r.file.Holds r.ctx.publicKey r.ctx.privateKey
  untouched : file.HoldsPair S → r.file = file

/-- A file that starts with both keys has room for them. -/
theorem IdentityFile.Holds.length {data : Bytes} (h : file.Holds pk sk)
    (hbytes : file.bytes = some data) :
    cryptoPublicKeySize + cryptoPrivateKeySize ≤ data.length := by
  obtain ⟨rest, hrest⟩ := h
  obtain rfl := Option.some.inj (hbytes.symm.trans hrest)
  simp only [List.length_append, pk.2, sk.2]
  omega

/-- A call keeps its promise exactly when the file operations do not come between. -/
theorem persisted_iff (hS : S.Lawful) :
    Persisted S file (cryptoIdentityLoadOrCreate S D ctx file) ↔ Undisturbed S file D := by
  obtain ⟨hwhole, pk, sk, hpair, hholds, hr⟩ | ⟨hnot, ctx', hr⟩ :=
    cryptoIdentityLoadOrCreate_cases (D := D) hS ctx file
  · rw [hr]
    refine iff_of_true ⟨fun _ => hS.verify_sign hpair, fun _ => hholds, fun _ => rfl⟩ ?_
    exact ⟨fun _ _ => hwhole, fun _ hno => absurd ⟨pk, sk, hpair, hholds⟩ hno⟩
  rw [hr]
  obtain ⟨pk, sk, hreplaces, hkeypair, hr'⟩ | ⟨ctx'', hno, hr'⟩ :=
    cryptoIdentityCreate_cases S D ctx' file
  · rw [hr']
    constructor
    · intro h
      have hnone : ¬ file.HoldsPair S := fun hheld => by
        have hrewrites := congrArg IdentityFile.rewrites (h.untouched hheld)
        simp at hrewrites
      refine ⟨fun _ hheld => absurd hheld hnone, fun _ _ => ?_⟩
      have hlength := (h.saved rfl).length rfl
      have hpk := pk.2
      have hsk := sk.2
      simp only [List.length_append, List.length_take] at hlength
      exact ⟨by omega, by omega⟩
    · intro h
      have hnone : ¬ file.HoldsPair S := fun hheld => hnot ⟨h.reads hreplaces hheld, hheld⟩
      have hwrites := h.writes hreplaces hnone
      refine ⟨fun _ => hS.verify_sign (D.keypair_signPair pk sk hkeypair), fun _ => ⟨[], ?_⟩,
        fun hheld => absurd hheld hnone⟩
      rw [List.append_nil, List.take_of_length_le (pk.2.trans_le hwrites.publicKey),
        List.take_of_length_le (sk.2.trans_le hwrites.privateKey)]
  · rw [hr']
    refine iff_of_true ⟨nofun, nofun, fun _ => rfl⟩ ?_
    exact ⟨fun h => absurd h hno, fun h => absurd h hno⟩

end Call

section Run

/-- A call with its outcomes, on the context it is given. -/
abbrev IdentityCall (S : Signatures) := IdentityOutcomes S × CryptoContext ByteBuf

def identityResult (p : IdentityFile × IdentityCall S) : IdentityResult :=
  cryptoIdentityLoadOrCreate S p.2.1 p.2.2 p.1

/-- Calls on one path, one after the other. -/
def IdentityStep (S : Signatures) (file : IdentityFile) (call : IdentityCall S)
    (file' : IdentityFile) : Prop := file' = (identityResult (file, call)).file

/-- A later call comes back with the identity, and does not rewrite the file. -/
structure Recalls (r : IdentityResult) (p : IdentityFile × IdentityCall S) : Prop where
  code : (identityResult p).code = 0
  publicKey : (identityResult p).ctx.publicKey = r.ctx.publicKey
  privateKey : (identityResult p).ctx.privateKey = r.ctx.privateKey
  file : (identityResult p).file = p.1

/-- Every call keeps its promise, and what has been returned with 0 is what later calls find. -/
structure Persistent (calls : List (IdentityFile × IdentityCall S)) : Prop where
  persisted : ∀ p ∈ calls, Persisted S p.1 (identityResult p)
  recalled : calls.Pairwise fun p q =>
    (identityResult p).code = 0 → q.2.1.ReadsWhole → Recalls (identityResult p) q

variable {file file' : IdentityFile} {calls : List (IdentityFile × IdentityCall S)}
  {pk : ByteBuf cryptoPublicKeySize} {sk : ByteBuf cryptoPrivateKeySize}

/-- The first keys of a file are determined. -/
theorem IdentityFile.Holds.unique {pk' : ByteBuf cryptoPublicKeySize}
    {sk' : ByteBuf cryptoPrivateKeySize} (h : file.Holds pk sk) (h' : file.Holds pk' sk') :
    pk' = pk ∧ sk' = sk := by
  obtain ⟨rest, hrest⟩ := h
  obtain ⟨rest', hrest'⟩ := h'
  have he := Option.some.inj (hrest'.symm.trans hrest)
  obtain ⟨hpk, htail⟩ := List.append_inj he (pk'.2.trans pk.2.symm)
  exact ⟨Subtype.ext hpk, Subtype.ext (List.append_inj htail (sk'.2.trans sk.2.symm)).1⟩

/-- What a file holds is what a call with whole reads comes back with. -/
theorem recalls_of_holds (hS : S.Lawful) {r : IdentityResult} {p : IdentityFile × IdentityCall S}
    (hpair : S.signPair r.ctx.publicKey r.ctx.privateKey)
    (hholds : p.1.Holds r.ctx.publicKey r.ctx.privateKey) (hwhole : p.2.1.ReadsWhole) :
    Recalls r p := by
  obtain ⟨-, pk, sk, -, hholds', hr⟩ | ⟨hnot, -⟩ :=
    cryptoIdentityLoadOrCreate_cases (D := p.2.1) hS p.2.2 p.1
  · obtain ⟨rfl, rfl⟩ := hholds.unique hholds'
    constructor <;> rw [identityResult, hr]
  · exact absurd ⟨hwhole, _, _, hpair, hholds⟩ hnot

/-- As long as nothing comes between, the file keeps every identity that was returned with 0. -/
theorem holds_of_path (hS : S.Lawful) (h : Path (IdentityStep S) file calls file')
    (hC : ∀ p ∈ calls, Undisturbed S p.1 p.2.1) :
    ∀ p ∈ calls, (identityResult p).code = 0 →
      S.signPair (identityResult p).ctx.publicKey (identityResult p).ctx.privateKey ∧
      file'.Holds (identityResult p).ctx.publicKey (identityResult p).ctx.privateKey := by
  induction h with
  | nil => simp
  | @snoc steps s t a _ hstep ih =>
      have hlast : Persisted S s (identityResult (s, a)) :=
        (persisted_iff hS).mpr (hC (s, a) (by simp))
      obtain rfl : t = (identityResult (s, a)).file := hstep
      intro p hp hcode
      obtain hp | hp := List.mem_append.mp hp
      · obtain ⟨hpair, hholds⟩ := ih (fun q hq => hC q (by simp [hq])) p hp hcode
        rw [hlast.untouched ⟨_, _, hpair, hholds⟩]
        exact ⟨hpair, hholds⟩
      · obtain rfl := List.mem_singleton.mp hp
        exact ⟨hS.signPair_of_verify (hlast.accepts hcode []), hlast.saved hcode⟩

/-- Over any sequence of calls the identity persists exactly if each matching pair is read whole
and each new pair written whole. -/
theorem identity_persists_iff (hS : S.Lawful) (h : Path (IdentityStep S) file calls file') :
    Persistent calls ↔ ∀ p ∈ calls, Undisturbed S p.1 p.2.1 := by
  refine ⟨fun hp p hmem => (persisted_iff hS).mp (hp.persisted p hmem), fun hC => ?_⟩
  refine ⟨fun p hmem => (persisted_iff hS).mpr (hC p hmem), ?_⟩
  induction h with
  | nil => exact .nil
  | @snoc steps s t a hpath _ ih =>
      have hbefore : ∀ p ∈ steps, Undisturbed S p.1 p.2.1 := fun p hp => hC p (by simp [hp])
      refine List.pairwise_append.mpr ⟨ih hbefore, List.pairwise_singleton _ _, ?_⟩
      intro p hp q hq hcode hwhole
      obtain rfl := List.mem_singleton.mp hq
      obtain ⟨hpair, hholds⟩ := holds_of_path hS hpath hbefore p hp hcode
      exact recalls_of_holds hS hpair hholds hwhole

/-- The laws are satisfiable: a signature is the signer's key and the start of the message. -/
def plainSignatures : Signatures where
  sign message sk := some ⟨sk.1.drop 32 ++ (message ++ List.replicate 32 0).take 32, by
    simp [sk.2, cryptoPrivateKeySize, cryptoSignatureSize]⟩
  verify signature message pk :=
    signature.1 = pk.1 ++ (message ++ List.replicate 32 0).take 32
  signPair pk sk := sk.1.drop 32 = pk.1

theorem plainSignatures_accepts {message : Bytes} :
    plainSignatures.Accepts pk sk message ↔ sk.1.drop 32 = pk.1 := by
  unfold Signatures.Accepts plainSignatures
  simp

theorem plainSignatures_lawful : plainSignatures.Lawful where
  verify_sign h _ := plainSignatures_accepts.mpr h
  signPair_of_verify h := plainSignatures_accepts.mp h

/-- No file can be opened for reading; a new pair is written up to the given limits. -/
def freshOutcomes (publicWritten privateWritten : ℕ) : IdentityOutcomes plainSignatures where
  opensRead := false
  publicRead := 0
  privateRead := 0
  keypair := some (⟨List.replicate 32 7, rfl⟩, ⟨List.replicate 64 7, rfl⟩)
  opensWrite := true
  publicWritten := publicWritten
  privateWritten := privateWritten
  keypair_signPair := by
    intro pk sk h
    obtain ⟨rfl, rfl⟩ := Prod.mk.inj (Option.some.inj h)
    rfl

/-- The first call on a path, before there is a file. -/
def firstCall (publicWritten privateWritten : ℕ) : IdentityFile × IdentityCall plainSignatures :=
  (⟨none, 0⟩, freshOutcomes publicWritten privateWritten, cryptoContextInit (byteMemory .little))

theorem firstCall_path (publicWritten privateWritten : ℕ) :
    Path (IdentityStep plainSignatures) ⟨none, 0⟩ [firstCall publicWritten privateWritten]
      (identityResult (firstCall publicWritten privateWritten)).file :=
  .snoc .nil rfl

/-- The file is there and no read ends early; another pair would be generated. -/
def laterOutcomes : IdentityOutcomes plainSignatures where
  opensRead := true
  publicRead := 32
  privateRead := 64
  keypair := some (⟨List.replicate 32 9, rfl⟩, ⟨List.replicate 64 9, rfl⟩)
  opensWrite := true
  publicWritten := 32
  privateWritten := 64
  keypair_signPair := by
    intro pk sk h
    obtain ⟨rfl, rfl⟩ := Prod.mk.inj (Option.some.inj h)
    rfl

/-- A later call, on the file that the first one has written. -/
def laterCall : IdentityFile × IdentityCall plainSignatures :=
  ((identityResult (firstCall 32 64)).file, laterOutcomes, cryptoContextInit (byteMemory .little))

theorem laterCall_path : Path (IdentityStep plainSignatures) ⟨none, 0⟩ [firstCall 32 64, laterCall]
    (identityResult laterCall).file :=
  .snoc (firstCall_path 32 64) rfl

theorem laterCall_holdsPair : laterCall.1.HoldsPair plainSignatures :=
  ⟨⟨List.replicate 32 7, rfl⟩, ⟨List.replicate 64 7, rfl⟩, rfl, [], rfl⟩

/-- The first call generates the identity, the second one loads it from the file. -/
theorem identity_persists_first : Persistent [firstCall 32 64, laterCall] := by
  refine (identity_persists_iff plainSignatures_lawful laterCall_path).mpr fun p hp => ?_
  obtain rfl | hp := List.mem_cons.mp hp
  · refine ⟨fun _ hheld => ?_, fun _ _ => ⟨le_rfl, le_rfl⟩⟩
    obtain ⟨_, _, -, _, hbytes⟩ := hheld
    contradiction
  · obtain rfl := List.mem_singleton.mp hp
    exact ⟨fun _ _ => ⟨rfl, le_rfl, le_rfl⟩, fun _ hnone => absurd laterCall_holdsPair hnone⟩

/-- A first call whose writes bring nothing into the file. -/
theorem identity_lost_on_short_write :
    ¬ ∀ (S : Signatures) file file' calls, S.Lawful → Path (IdentityStep S) file calls file' →
      Persistent calls := by
  intro hall
  have hp := hall _ _ _ _ plainSignatures_lawful (firstCall_path 0 0)
  have hlength := ((hp.persisted _ List.mem_cons_self).saved rfl).length rfl
  exact absurd hlength (by decide)

end Run
end Sencd
