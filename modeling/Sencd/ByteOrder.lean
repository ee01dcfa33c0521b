import Mathlib.Tactic

/-!
# Integers in memory

`objectBytes` is the memory image of an integer on a host of the given byte order and
`toNetwork` the value swap that `htobe64` and its relatives perform. Copying a swapped
integer out of memory gives the big-endian digits on either host.
-/
namespace Sencd.ByteOrder

abbrev Bytes := List UInt8

inductive Endian
  | little
  | big
  deriving DecidableEq, Repr

/-- The low `n` base-256 digits of `x`, least significant first. -/
def leBytes : ℕ → ℕ → Bytes
  | 0, _ => []
  | n + 1, x => UInt8.ofNat (x % 256) :: leBytes n (x / 256)

def ofLeBytes : Bytes → ℕ
  | [] => 0
  | b :: bs => b.toNat + 256 * ofLeBytes bs

/-- The low `n` digits, most significant first: the network form. -/
def beBytes (n x : ℕ) : Bytes := (leBytes n x).reverse

def ofBeBytes (bs : Bytes) : ℕ := ofLeBytes bs.reverse

@[simp] theorem leBytes_length (n x : ℕ) : (leBytes n x).length = n := by
  induction n generalizing x with
  | zero => rfl
  | succ n ih => simp [leBytes, ih]

@[simp] theorem beBytes_length (n x : ℕ) : (beBytes n x).length = n := by simp [beBytes]

theorem ofLeBytes_leBytes (n x : ℕ) : ofLeBytes (leBytes n x) = x % 256 ^ n := by
  induction n generalizing x with
  | zero => simp [leBytes, ofLeBytes, Nat.mod_one]
  | succ n ih =>
      have hdigit : (UInt8.ofNat (x % 256)).toNat = x % 256 := by simp
      rw [leBytes, ofLeBytes, hdigit, ih, pow_succ, Nat.mul_comm (256 ^ n) 256, Nat.mod_mul]

theorem leBytes_ofLeBytes (bs : Bytes) : leBytes bs.length (ofLeBytes bs) = bs := by
  induction bs with
  | nil => rfl
  | cons b bs ih =>
      have hb : b.toNat < 256 := b.toNat_lt
      have hmod : (b.toNat + 256 * ofLeBytes bs) % 256 = b.toNat := by omega
      have hdiv : (b.toNat + 256 * ofLeBytes bs) / 256 = ofLeBytes bs := by omega
      simp [leBytes, ofLeBytes, hmod, hdiv, ih]

theorem ofBeBytes_beBytes (n x : ℕ) : ofBeBytes (beBytes n x) = x % 256 ^ n := by
  simp [ofBeBytes, beBytes, ofLeBytes_leBytes]

theorem beBytes_ofBeBytes (bs : Bytes) : beBytes bs.length (ofBeBytes bs) = bs := by
  have h := leBytes_ofLeBytes bs.reverse
  rw [List.length_reverse] at h
  rw [beBytes, ofBeBytes, h, List.reverse_reverse]

/-- Memory image of an `n`-byte integer. -/
def objectBytes (host : Endian) (n x : ℕ) : Bytes :=
  match host with
  | .little => leBytes n x
  | .big => beBytes n x

/-- The integer whose memory image is `bs`. -/
def ofObjectBytes (host : Endian) (bs : Bytes) : ℕ :=
  match host with
  | .little => ofLeBytes bs
  | .big => ofBeBytes bs

@[simp] theorem objectBytes_length (host : Endian) (n x : ℕ) :
    (objectBytes host n x).length = n := by
  cases host with
  | little => exact leBytes_length n x
  | big => exact beBytes_length n x

/-- A host reads back what it has stored. -/
theorem ofObjectBytes_objectBytes (host : Endian) (n x : ℕ) :
    ofObjectBytes host (objectBytes host n x) = x % 256 ^ n := by
  cases host with
  | little => exact ofLeBytes_leBytes n x
  | big => exact ofBeBytes_beBytes n x

/-- The value change of `htobe32`, `htobe64` and, being its own inverse, of `be64toh`. -/
def toNetwork (host : Endian) (n x : ℕ) : ℕ :=
  match host with
  | .little => ofBeBytes (leBytes n x)
  | .big => x

/-- The memory image of a swapped integer is its network form on every host. -/
theorem objectBytes_toNetwork (host : Endian) (n x : ℕ) :
    objectBytes host n (toNetwork host n x) = beBytes n x := by
  cases host with
  | big => rfl
  | little =>
      have h := leBytes_ofLeBytes (leBytes n x).reverse
      simpa [objectBytes, toNetwork, ofBeBytes, beBytes] using h

/-- Reading `n` network bytes as an integer and swapping it gives their value. -/
theorem toNetwork_ofObjectBytes (host : Endian) {n : ℕ} {bs : Bytes} (h : bs.length = n) :
    toNetwork host n (ofObjectBytes host bs) = ofBeBytes bs := by
  subst h
  cases host with
  | big => rfl
  | little => simp only [toNetwork, ofObjectBytes, leBytes_ofLeBytes]

def htobe32 (host : Endian) (x : UInt32) : UInt32 := .ofNat (toNetwork host 4 x.toNat)

def htobe64 (host : Endian) (x : UInt64) : UInt64 := .ofNat (toNetwork host 8 x.toNat)

def be32toh (host : Endian) (x : UInt32) : UInt32 := .ofNat (toNetwork host 4 x.toNat)

def be64toh (host : Endian) (x : UInt64) : UInt64 := .ofNat (toNetwork host 8 x.toNat)

theorem ofBeBytes_lt (bs : Bytes) : ofBeBytes bs < 256 ^ bs.length := by
  have h := ofBeBytes_beBytes bs.length (ofBeBytes bs)
  rw [beBytes_ofBeBytes] at h
  rw [h]
  exact Nat.mod_lt _ (by positivity)

theorem toNetwork_lt (host : Endian) {n x : ℕ} (hx : x < 256 ^ n) :
    toNetwork host n x < 256 ^ n := by
  cases host with
  | big => exact hx
  | little => simpa [toNetwork] using ofBeBytes_lt (leBytes n x)

/-- Copying `htobe64(x)` into a buffer writes the big-endian digits of `x`. -/
theorem objectBytes_htobe64 (host : Endian) (x : UInt64) :
    objectBytes host 8 (htobe64 host x).toNat = beBytes 8 x.toNat := by
  have hlt : toNetwork host 8 x.toNat < 2 ^ 64 := toNetwork_lt host (n := 8) x.toNat_lt
  rw [htobe64, UInt64.toNat_ofNat_of_lt' hlt, objectBytes_toNetwork]

theorem objectBytes_htobe32 (host : Endian) (x : UInt32) :
    objectBytes host 4 (htobe32 host x).toNat = beBytes 4 x.toNat := by
  have hlt : toNetwork host 4 x.toNat < 2 ^ 32 := toNetwork_lt host (n := 4) x.toNat_lt
  rw [htobe32, UInt32.toNat_ofNat_of_lt' hlt, objectBytes_toNetwork]

/-- `be32toh` of four copied bytes is the number they spell in network order. -/
theorem be32toh_ofObjectBytes (host : Endian) {bs : Bytes} (h : bs.length = 4) :
    be32toh host (.ofNat (ofObjectBytes host bs)) = .ofNat (ofBeBytes bs) := by
  have hlt : ofObjectBytes host bs < 2 ^ 32 := by
    cases host with
    | big => simpa [ofObjectBytes, h] using ofBeBytes_lt bs
    | little => simpa [ofObjectBytes, ofBeBytes, h] using ofBeBytes_lt bs.reverse
  rw [be32toh, UInt32.toNat_ofNat_of_lt' hlt, toNetwork_ofObjectBytes host h]

/-- `be64toh` of eight copied bytes is the number they spell in network order. -/
theorem be64toh_ofObjectBytes (host : Endian) {bs : Bytes} (h : bs.length = 8) :
    be64toh host (.ofNat (ofObjectBytes host bs)) = .ofNat (ofBeBytes bs) := by
  have hlt : ofObjectBytes host bs < 2 ^ 64 := by
    cases host with
    | big => simpa [ofObjectBytes, h] using ofBeBytes_lt bs
    | little => simpa [ofObjectBytes, ofBeBytes, h] using ofBeBytes_lt bs.reverse
  rw [be64toh, UInt64.toNat_ofNat_of_lt' hlt, toNetwork_ofObjectBytes host h]

/-- A 64-bit value written with `htobe64` on one host is read back by `be64toh` on another. -/
theorem ofBeBytes_beBytes_uint64 (x : UInt64) :
    UInt64.ofNat (ofBeBytes (beBytes 8 x.toNat)) = x := by
  have hx : x.toNat < 256 ^ 8 := x.toNat_lt
  rw [ofBeBytes_beBytes, Nat.mod_eq_of_lt hx, UInt64.ofNat_toNat]

end Sencd.ByteOrder
