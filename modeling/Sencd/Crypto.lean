import Sencd.ByteOrder

/-!
# Buffers, contexts and packet encryption

`Buf n` stands for an `n`-byte array. The program only moves such arrays about, so it is
modelled over any family with the operations of `Memory`; byte vectors are one such family
and symbolic messages another. The libraries libsodium and zstd are parameters.
-/
namespace Sencd
open ByteOrder

abbrev cryptoPublicKeySize : ℕ := 32
abbrev cryptoPrivateKeySize : ℕ := 64
abbrev cryptoSessionKeySize : ℕ := 32
abbrev cryptoSignatureSize : ℕ := 64
abbrev cryptoKxPublicKeyBytes : ℕ := 32
abbrev cryptoKxSecretKeyBytes : ℕ := 32
abbrev tunnelAeadTagSize : ℕ := 16
abbrev authNonceSize : ℕ := 16
abbrev sessionNonceSize : ℕ := 32

/-- What `memset`, `memcpy` at an offset and the in-memory form of a `uint64_t` do to arrays. -/
structure Memory (Buf : ℕ → Type) where
  zero (n : ℕ) : Buf n
  append {m n : ℕ} (x : Buf m) (y : Buf n) : Buf (m + n)
  left (m n : ℕ) (x : Buf (m + n)) : Buf m
  right (m n : ℕ) (x : Buf (m + n)) : Buf n
  ofUInt64 (x : UInt64) : Buf 8
  toUInt64 (x : Buf 8) : UInt64
  left_append {m n : ℕ} (x : Buf m) (y : Buf n) : left m n (append x y) = x
  right_append {m n : ℕ} (x : Buf m) (y : Buf n) : right m n (append x y) = y
  toUInt64_ofUInt64 (x : UInt64) : toUInt64 (ofUInt64 x) = x

attribute [simp] Memory.left_append Memory.right_append Memory.toUInt64_ofUInt64

/-- An `n`-byte array. -/
abbrev ByteBuf (n : ℕ) : Type := { bytes : Bytes // bytes.length = n }

/-- The memory of a host with the given byte order. -/
def byteMemory (host : Endian) : Memory ByteBuf where
  zero n := ⟨List.replicate n 0, List.length_replicate⟩
  append x y := ⟨x.1 ++ y.1, by simp [x.2, y.2]⟩
  left m n x := ⟨x.1.take m, by simp [x.2]⟩
  right m n x := ⟨x.1.drop m, by simp [x.2]⟩
  ofUInt64 x := ⟨objectBytes host 8 x.toNat, objectBytes_length host 8 _⟩
  toUInt64 x := .ofNat (ofObjectBytes host x.1)
  left_append x y := Subtype.ext (List.take_left' x.2)
  right_append x y := Subtype.ext (List.drop_left' x.2)
  toUInt64_ofUInt64 x := by
    have hx : x.toNat < 256 ^ 8 := x.toNat_lt
    rw [ofObjectBytes_objectBytes, Nat.mod_eq_of_lt hx, UInt64.ofNat_toNat]

@[simp] theorem byteMemory_append (host : Endian) {m n : ℕ} (x : ByteBuf m) (y : ByteBuf n) :
    ((byteMemory host).append x y).1 = x.1 ++ y.1 := rfl

/-- `CRYPTO_CONTEXT_T`. -/
structure CryptoContext (Buf : ℕ → Type) where
  privateKey : Buf cryptoPrivateKeySize
  ephPrivateKey : Buf cryptoKxSecretKeyBytes
  publicKey : Buf cryptoPublicKeySize
  peerPublicKey : Buf cryptoPublicKeySize
  txKey : Buf cryptoSessionKeySize
  rxKey : Buf cryptoSessionKeySize
  ephPublicKey : Buf cryptoKxPublicKeyBytes
  txNonce : UInt64
  rxNonce : UInt64
  verified : Bool

variable {Buf : ℕ → Type}

def cryptoContextInit (M : Memory Buf) : CryptoContext Buf where
  privateKey := M.zero _
  ephPrivateKey := M.zero _
  publicKey := M.zero _
  peerPublicKey := M.zero _
  txKey := M.zero _
  rxKey := M.zero _
  ephPublicKey := M.zero _
  txNonce := 0
  rxNonce := 0
  verified := false

/-- `crypto_aead_chacha20poly1305_ietf_encrypt` and `_decrypt` without associated data:
key, 12-byte nonce and message; `none` is a nonzero return. -/
structure Aead (Key : Type) where
  encrypt : Key → Bytes → Bytes → Option Bytes
  decrypt : Key → Bytes → Bytes → Option Bytes

/-- The documented behaviour the tunnel relies on. -/
structure Aead.Lawful {Key : Type} (A : Aead Key) : Prop where
  decrypt_encrypt {k : Key} {n p c : Bytes} : A.encrypt k n p = some c → A.decrypt k n c = some p
  encrypt_length {k : Key} {n p c : Bytes} :
    A.encrypt k n p = some c → c.length = p.length + tunnelAeadTagSize
  encrypt_isSome (k : Key) (n : Bytes) {p : Bytes} : p.length < 2 ^ 32 → (A.encrypt k n p).isSome

/-- `ZSTD_compressBound`, `ZSTD_compress` at level 3 and `ZSTD_decompress`, each with the
capacity of its output buffer; `none` is a result for which `ZSTD_isError` holds. -/
structure Zstd where
  compressBound : ℕ → ℕ
  compress : ℕ → Bytes → Option Bytes
  decompress : ℕ → Bytes → Option Bytes

structure Zstd.Lawful (Z : Zstd) : Prop where
  le_compressBound (n : ℕ) : n ≤ Z.compressBound n
  compress_length {cap : ℕ} {raw c : Bytes} : Z.compress cap raw = some c → c.length ≤ cap
  decompress_compress {cap cap' : ℕ} {raw c : Bytes} :
    Z.compress cap raw = some c → raw.length ≤ cap' → Z.decompress cap' c = some raw

/-- The laws are satisfiable: a constant tag behind the plain text, and no compression. -/
def copyAead (Key : Type) : Aead Key where
  encrypt _ _ p := some (p ++ List.replicate tunnelAeadTagSize 0)
  decrypt _ _ c :=
    if c.drop (c.length - tunnelAeadTagSize) = List.replicate tunnelAeadTagSize 0 then
      some (c.take (c.length - tunnelAeadTagSize))
    else none

theorem copyAead_lawful (Key : Type) : (copyAead Key).Lawful where
  decrypt_encrypt h := by
    obtain rfl := Option.some.inj h
    simp [copyAead]
  encrypt_length h := by
    obtain rfl := Option.some.inj h
    simp
  encrypt_isSome _ _ _ _ := rfl

def storeZstd : Zstd where
  compressBound n := n
  compress _ _ := none
  decompress _ _ := none

theorem storeZstd_lawful : storeZstd.Lawful where
  le_compressBound n := le_refl n
  compress_length h := by contradiction
  decompress_compress h := by contradiction

/-- The host and the libraries the tunnel code runs on. -/
structure Platform (Buf : ℕ → Type) where
  host : Endian
  aead : Aead (Buf cryptoSessionKeySize)
  zstd : Zstd

/-- The same libraries on a host of another byte order. -/
def Platform.on (P : Platform Buf) (host : Endian) : Platform Buf := { P with host := host }

def copyPlatform (Buf : ℕ → Type) : Platform Buf := ⟨.little, copyAead _, storeZstd⟩

/-- Four zero bytes and the counter in network order. -/
def cryptoBuildNonce (host : Endian) (counter : UInt64) : Bytes :=
  List.replicate 4 0 ++ objectBytes host 8 (htobe64 host counter).toNat

def cryptoEncryptPacket (P : Platform Buf) (ctx : CryptoContext Buf) (counter : UInt64)
    (plaintext : Bytes) : Option Bytes :=
  P.aead.encrypt ctx.txKey (cryptoBuildNonce P.host counter) plaintext

def cryptoDecryptPacket (P : Platform Buf) (ctx : CryptoContext Buf) (counter : UInt64)
    (ciphertext : Bytes) : Option Bytes :=
  P.aead.decrypt ctx.rxKey (cryptoBuildNonce P.host counter) ciphertext

/-- The nonce does not depend on the byte order of the host that builds it. -/
theorem cryptoBuildNonce_eq (host : Endian) (counter : UInt64) :
    cryptoBuildNonce host counter = List.replicate 4 0 ++ beBytes 8 counter.toNat := by
  rw [cryptoBuildNonce, objectBytes_htobe64]

end Sencd
