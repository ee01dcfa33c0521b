import Mathlib.Data.Multiset.AddSub
import Mathlib.Tactic

/-!
# Symbolic messages and what a network intruder can build from them

Signatures and hashes are free constructors. A group element is a base together with the
multiset of exponents applied to it, so exponents commute as they do in Diffie-Hellman. An
intruder takes messages apart, signs and exponentiates with what it knows, and can also undo
an exponent it knows. `Guarded` describes messages that give away no secret name and no
foreign signature; `Derives.guarded` says that nothing else can be built from them.
-/
namespace Sencd.Intruder

/-- Messages over a type of atomic names. -/
inductive Term (N : Type*)
  | name (a : N)
  | num (n : ℕ)
  | verifyKey (k : Term N)
  | sign (k m : Term N)
  | pair (s t : Term N)
  | left (t : Term N)
  | right (t : Term N)
  | hash (tag : ℕ) (t : Term N)
  | point (base : Term N) (exponents : Multiset N)
  deriving DecidableEq

namespace Term

variable {N : Type*}

/-- First half of a message; only a pair has one that is known apart from the whole. -/
def fst : Term N → Term N
  | pair s _ => s
  | t => left t

def snd : Term N → Term N
  | pair _ t => t
  | t => right t

@[simp] theorem fst_pair (s t : Term N) : (pair s t).fst = s := rfl

@[simp] theorem snd_pair (s t : Term N) : (pair s t).snd = t := rfl

/-- Apply one more exponent to a group element; every other term is taken as a base. -/
def scale (a : N) : Term N → Term N
  | point b w => point b (a ::ₘ w)
  | t => point t {a}

@[simp] theorem scale_point (a : N) (b : Term N) (w : Multiset N) :
    scale a (point b w) = point b (a ::ₘ w) := rfl

/-- Ideal signatures: the only signature on `m` that checks under the key of `k` is the one
made with `k`. -/
def Verifies (pk m σ : Term N) : Prop := ∃ k, pk = verifyKey k ∧ σ = sign k m

/-- A signature checks for one message only. -/
theorem Verifies.unique {pk pk' m m' σ : Term N} (h : Verifies pk m σ) (h' : Verifies pk' m' σ) :
    pk = pk' ∧ m = m' := by
  obtain ⟨k, rfl, rfl⟩ := h
  obtain ⟨k', rfl, he⟩ := h'
  injection he with hk hm
  exact ⟨by rw [hk], hm⟩

end Term

open Term

variable {N : Type*}

/-- Messages an intruder who knows `K` can build. -/
inductive Derives (K : Set (Term N)) : Term N → Prop
  | known {t : Term N} : t ∈ K → Derives K t
  | num (n : ℕ) : Derives K (.num n)
  | pair {s t : Term N} : Derives K s → Derives K t → Derives K (.pair s t)
  | fst {t : Term N} : Derives K t → Derives K t.fst
  | snd {t : Term N} : Derives K t → Derives K t.snd
  | verifyKey {k : Term N} : Derives K k → Derives K (.verifyKey k)
  | sign {k m : Term N} : Derives K k → Derives K m → Derives K (.sign k m)
  | hash (tag : ℕ) {t : Term N} : Derives K t → Derives K (.hash tag t)
  | scale {a : N} {t : Term N} : Derives K (.name a) → Derives K t → Derives K (t.scale a)
  | unscale {a : N} {t : Term N} : Derives K (t.scale a) → Derives K (.name a) → Derives K t

/-- Learning more never loses a derivation. -/
theorem Derives.mono {K L : Set (Term N)} (hKL : K ⊆ L) {t : Term N} (h : Derives K t) :
    Derives L t := by
  induction h with
  | known h => exact .known (hKL h)
  | num n => exact .num n
  | pair _ _ ihs iht => exact .pair ihs iht
  | fst _ ih => exact .fst ih
  | snd _ ih => exact .snd ih
  | verifyKey _ ih => exact .verifyKey ih
  | sign _ _ ihk ihm => exact .sign ihk ihm
  | hash tag _ ih => exact .hash tag ih
  | scale _ _ iha iht => exact .scale iha iht
  | unscale _ _ iht iha => exact .unscale iht iha

/-- No secret name stands in the open, every signature was made with an open key or is
listed in `signed`, and no group element carries two secret exponents. -/
def Guarded (secret : N → Prop) (signed : Term N → Term N → Prop) : Term N → Prop
  | .name a => ¬ secret a
  | .num _ => True
  | .verifyKey _ => True
  | .sign k m => (Guarded secret signed k ∨ signed k m) ∧ Guarded secret signed m
  | .pair s t => Guarded secret signed s ∧ Guarded secret signed t
  | .left t => Guarded secret signed t
  | .right t => Guarded secret signed t
  | .hash _ t => Guarded secret signed t
  | .point b w => Guarded secret signed b ∧ ∀ a c, secret a → secret c → ¬ {a, c} ≤ w

section Guarded

variable {secret : N → Prop} {signed signed' : Term N → Term N → Prop}

/-- More recorded signatures guard at least the same messages. -/
theorem Guarded.mono (hs : ∀ k m, signed k m → signed' k m) {t : Term N}
    (h : Guarded secret signed t) : Guarded secret signed' t := by
  induction t with
  | name a => exact h
  | num n => trivial
  | verifyKey k _ => trivial
  | sign k m ihk ihm => exact ⟨h.1.imp ihk (hs k m), ihm h.2⟩
  | pair s t ihs iht => exact ⟨ihs h.1, iht h.2⟩
  | left t ih => exact ih h
  | right t ih => exact ih h
  | hash tag t ih => exact ih h
  | point b w ih => exact ⟨ih h.1, h.2⟩

theorem Guarded.fst {t : Term N} (h : Guarded secret signed t) :
    Guarded secret signed t.fst := by
  cases t with
  | pair s t => exact h.1
  | _ => exact h

theorem Guarded.snd {t : Term N} (h : Guarded secret signed t) :
    Guarded secret signed t.snd := by
  cases t with
  | pair s t => exact h.2
  | _ => exact h

/-- A single exponent, secret or not, leaves a public base guarded. -/
theorem guarded_point_singleton {a : N} {b : Term N} (h : Guarded secret signed b) :
    Guarded secret signed (.point b {a}) := by
  refine ⟨h, fun x y _ _ hle => ?_⟩
  have hcard := Multiset.card_le_card hle
  simp at hcard

theorem Guarded.scale {a : N} {t : Term N} (ha : ¬ secret a) (h : Guarded secret signed t) :
    Guarded secret signed (t.scale a) := by
  cases t with
  | point b w =>
      refine ⟨h.1, fun x y hx hy hle => h.2 x y hx hy ?_⟩
      have hax : a ∉ ({x, y} : Multiset N) := by
        simp only [Multiset.insert_eq_cons, Multiset.mem_cons, Multiset.mem_singleton, not_or]
        exact ⟨fun he => ha (he ▸ hx), fun he => ha (he ▸ hy)⟩
      exact (Multiset.le_cons_of_notMem hax).mp hle
  | _ => exact guarded_point_singleton h

theorem Guarded.of_scale {a : N} {t : Term N} (h : Guarded secret signed (t.scale a)) :
    Guarded secret signed t := by
  cases t with
  | point b w =>
      exact ⟨h.1, fun x y hx hy hle => h.2 x y hx hy (hle.trans (Multiset.le_cons_self w a))⟩
  | _ => exact h.1

/-- An intruder who has seen guarded messages only can build guarded messages only. -/
theorem Derives.guarded {K : Set (Term N)} (hK : ∀ t ∈ K, Guarded secret signed t)
    {t : Term N} (h : Derives K t) : Guarded secret signed t := by
  induction h with
  | known h => exact hK _ h
  | num n => trivial
  | pair _ _ ihs iht => exact ⟨ihs, iht⟩
  | fst _ ih => exact ih.fst
  | snd _ ih => exact ih.snd
  | verifyKey _ _ => trivial
  | sign _ _ ihk ihm => exact ⟨.inl ihk, ihm⟩
  | hash tag _ ih => exact ih
  | scale _ _ iha iht => exact iht.scale iha
  | unscale _ _ iht _ => exact iht.of_scale

/-- A guarded signature under a secret key is one of the recorded ones. -/
theorem Guarded.signed_of_secret {a : N} {m : Term N} (ha : secret a)
    (h : Guarded secret signed (.sign (.name a) m)) : signed (.name a) m :=
  h.1.resolve_left fun hn => hn ha

/-- A group element with two secret exponents cannot be built. -/
theorem not_guarded_point {a c : N} {b : Term N} {w : Multiset N} (ha : secret a)
    (hc : secret c) (hle : {a, c} ≤ w) : ¬ Guarded secret signed (.point b w) :=
  fun h => h.2 a c ha hc hle

end Guarded

end Sencd.Intruder
