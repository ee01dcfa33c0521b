import Mathlib.Data.Fin.Tuple.Basic
import Mathlib.Data.Finmap
import Mathlib.Data.Fintype.Card
import Mathlib.Tactic

/-!
# Fixed tables of optional entries

A table of `n` slots is scanned from slot 0 upwards, for a free slot or for the first entry
that passes a test. Each scan is described by what it finds and what it has passed over. A
table whose entries have keys of their own stands for a finite map with at most `n` keys.
-/
namespace Sencd.SlotTable

abbrev Table (n : ℕ) (α : Type*) := Fin n → Option α

variable {n : ℕ} {α : Type*}

/-- The first free slot. -/
def free (t : Table n α) : Option (Fin n) := Fin.find? fun i => (t i).isNone

/-- The first entry that passes `p`, with its slot. -/
def find (t : Table n α) (p : α → Bool) : Option (Fin n × α) :=
  (Fin.find? fun i => (t i).any p).bind fun i => (t i).map fun a => (i, a)

theorem free_eq_some {t : Table n α} {i : Fin n} :
    free t = some i ↔ t i = none ∧ ∀ j < i, t j ≠ none := by
  rw [free, Fin.find?_eq_some_iff]
  simp [← Option.isSome_iff_ne_none]

theorem free_eq_none {t : Table n α} : free t = none ↔ ∀ i, t i ≠ none := by
  rw [free, Fin.find?_eq_none_iff]
  simp [← Option.isSome_iff_ne_none]

theorem find_eq_some {t : Table n α} {p : α → Bool} {i : Fin n} {a : α} :
    find t p = some (i, a) ↔
      t i = some a ∧ p a = true ∧ ∀ j < i, ∀ b, t j = some b → p b = false := by
  constructor
  · intro h
    obtain ⟨k, hk, he⟩ := Option.bind_eq_some_iff.mp h
    obtain ⟨b, hb, hpair⟩ := Option.map_eq_some_iff.mp he
    obtain ⟨rfl, rfl⟩ := Prod.mk.inj hpair
    obtain ⟨hany, hbefore⟩ := Fin.find?_eq_some_iff.mp hk
    refine ⟨hb, by simpa [hb] using hany, fun j hj c hc => ?_⟩
    have hj := hbefore j hj
    simpa [hc] using hj
  · rintro ⟨ht, hp, hbefore⟩
    have hfind : (Fin.find? fun i => (t i).any p) = some i := by
      refine Fin.find?_eq_some_iff.mpr ⟨by simp [ht, hp], fun j hj => ?_⟩
      cases hb : t j with
      | none => rfl
      | some b => simpa using hbefore j hj b hb
    simp [find, hfind, ht]

theorem find_eq_none {t : Table n α} {p : α → Bool} :
    find t p = none ↔ ∀ i a, t i = some a → p a = false := by
  constructor
  · intro h i a ha
    by_contra hp
    have hsome : (Fin.find? fun i => (t i).any p).isSome := by
      refine Fin.isSome_find?_iff.mpr ⟨i, ?_⟩
      simpa [ha] using hp
    obtain ⟨k, hk⟩ := Option.isSome_iff_exists.mp hsome
    have hany := (Fin.find?_eq_some_iff.mp hk).1
    cases hb : t k with
    | none => simp [hb] at hany
    | some b => simp [find, hk, hb] at h
  · intro h
    cases hf : find t p with
    | none => rfl
    | some e =>
        obtain ⟨ht, hp, -⟩ := find_eq_some.mp (show find t p = some (e.1, e.2) from hf)
        rw [h e.1 e.2 ht] at hp
        contradiction

/-- Rewriting the found entry without changing its test leaves the scan where it was. -/
theorem find_update {t : Table n α} {p : α → Bool} {i : Fin n} {a b : α}
    (h : find t p = some (i, a)) (hb : p b = true) :
    find (Function.update t i (some b)) p = some (i, b) := by
  obtain ⟨-, -, hbefore⟩ := find_eq_some.mp h
  refine find_eq_some.mpr ⟨by simp, hb, fun j hj c hc => ?_⟩
  rw [Function.update_of_ne (ne_of_lt hj)] at hc
  exact hbefore j hj c hc

section Update

variable {t : Table n α} {i j : Fin n} {a b : α}

/-- The entries once slot `i` has been filled. -/
theorem update_some_eq_some :
    Function.update t i (some a) j = some b ↔ (j = i ∧ a = b) ∨ (j ≠ i ∧ t j = some b) := by
  by_cases hj : j = i
  · simp [hj]
  · simp [hj]

/-- The entries once slot `i` has been emptied. -/
theorem update_none_eq_some : Function.update t i none j = some b ↔ j ≠ i ∧ t j = some b := by
  by_cases hj : j = i
  · simp [hj]
  · simp [hj]

end Update

section Map

variable {β : Type*} (f : α → β)

/-- Scanning the images of the entries is scanning the entries. -/
theorem find_map (t : Table n α) (p : β → Bool) :
    find (fun i => (t i).map f) p = (find t fun a => p (f a)).map fun e => (e.1, f e.2) := by
  have htest : ∀ i, ((t i).map f).any p = (t i).any fun a => p (f a) := fun i => Option.any_map ..
  simp only [find, htest, Option.map_bind]
  congr 1
  funext i
  simp [Function.comp_def]

theorem free_map (t : Table n α) : free (fun i => (t i).map f) = free t := by
  simp only [free, Option.isNone_map]

end Map

section Count

/-- The number of slots in use. -/
def count (t : Table n α) : ℕ := (Finset.univ.filter fun i => t i ≠ none).card

@[simp] theorem count_empty : count (fun _ => none : Table n α) = 0 := by simp [count]

theorem count_le (t : Table n α) : count t ≤ n := by
  have h := Finset.card_filter_le (Finset.univ : Finset (Fin n)) fun i => t i ≠ none
  simpa [count] using h

theorem count_eq_iff {t : Table n α} : count t = n ↔ ∀ i, t i ≠ none := by
  have h := Finset.card_filter_eq_iff (s := (Finset.univ : Finset (Fin n)))
    (p := fun i => t i ≠ none)
  simpa [count] using h

theorem count_update_some {t : Table n α} {i : Fin n} (h : t i = none) (a : α) :
    count (Function.update t i (some a)) = count t + 1 := by
  have hset : (Finset.univ.filter fun j => Function.update t i (some a) j ≠ none) =
      insert i (Finset.univ.filter fun j => t j ≠ none) := by
    ext j
    by_cases hj : j = i
    · subst hj
      simp
    · simp [hj]
  unfold count
  rw [hset, Finset.card_insert_of_notMem (by simp [h])]

theorem count_update_none {t : Table n α} {i : Fin n} (h : t i ≠ none) :
    count (Function.update t i none) + 1 = count t := by
  have hset : (Finset.univ.filter fun j => Function.update t i none j ≠ none) =
      (Finset.univ.filter fun j => t j ≠ none).erase i := by
    ext j
    by_cases hj : j = i
    · subst hj
      simp
    · simp [hj]
  unfold count
  rw [hset, Finset.card_erase_add_one (by simpa using h)]

end Count

section Represents

variable {κ : Type*} [DecidableEq κ] {key : α → κ} {t : Table n α}
  {A : Finmap fun _ : κ => α} {i : Fin n} {a : α}

/-- The table holds the entries of the map, each in one slot. -/
structure Represents (key : α → κ) (t : Table n α) (A : Finmap fun _ : κ => α) : Prop where
  lookup : ∀ i a, t i = some a → A.lookup (key a) = some a
  slot : ∀ k a, A.lookup k = some a → key a = k ∧ ∃ i, t i = some a
  injective : ∀ i j a b, t i = some a → t j = some b → key a = key b → i = j
  count : count t = A.keys.card

theorem Represents.empty : Represents key (fun _ => none : Table n α) ∅ where
  lookup _ _ h := by simp at h
  slot _ _ h := by simp at h
  injective _ _ _ _ h := by simp at h
  count := by simp

/-- The scan for a key finds what the map has under it. -/
theorem Represents.map_find (h : Represents key t A) (k : κ) :
    (find t fun a => decide (key a = k)).map Prod.snd = A.lookup k := by
  cases hf : find t fun a => decide (key a = k) with
  | none =>
      have hnone := find_eq_none.mp hf
      cases hA : A.lookup k with
      | none => rfl
      | some a =>
          obtain ⟨hkey, i, hi⟩ := h.slot k a hA
          have hne := of_decide_eq_false (hnone i a hi)
          exact absurd hkey hne
  | some e =>
      obtain ⟨i, a⟩ := e
      obtain ⟨hi, hkey, -⟩ := find_eq_some.mp hf
      rw [← of_decide_eq_true hkey, h.lookup i a hi]
      rfl

/-- No slot is free when the map has as many keys as there are slots. -/
theorem Represents.free_eq_none (h : Represents key t A) : free t = none ↔ A.keys.card = n := by
  rw [SlotTable.free_eq_none, ← count_eq_iff, h.count]

theorem Represents.card_le (h : Represents key t A) : A.keys.card ≤ n := h.count ▸ count_le t

/-- Filling a free slot inserts a new key. -/
theorem Represents.insert (h : Represents key t A) (hi : t i = none) (ha : key a ∉ A) :
    Represents key (Function.update t i (some a)) (A.insert (key a) a) := by
  have hfresh : ∀ j b, t j = some b → key b ≠ key a := by
    intro j b hj he
    have hb := h.lookup j b hj
    rw [he] at hb
    exact ha (Finmap.mem_of_lookup_eq_some hb)
  refine ⟨fun j b hj => ?_, fun k b hk => ?_, fun j l b c hj hl he => ?_, ?_⟩
  · obtain ⟨-, rfl⟩ | ⟨-, hj⟩ := update_some_eq_some.mp hj
    · exact Finmap.lookup_insert A
    · rw [Finmap.lookup_insert_of_ne A (hfresh j b hj)]
      exact h.lookup j b hj
  · by_cases hka : k = key a
    · subst hka
      obtain rfl : a = b := by simpa using hk
      exact ⟨rfl, i, by simp⟩
    · rw [Finmap.lookup_insert_of_ne A hka] at hk
      obtain ⟨hkey, j, hj⟩ := h.slot k b hk
      have hji : j ≠ i := by
        intro he
        rw [he, hi] at hj
        contradiction
      exact ⟨hkey, j, by rw [Function.update_of_ne hji, hj]⟩
  · obtain ⟨rfl, rfl⟩ | ⟨-, hj⟩ := update_some_eq_some.mp hj
    · obtain ⟨rfl, -⟩ | ⟨-, hl⟩ := update_some_eq_some.mp hl
      · rfl
      · exact absurd he.symm (hfresh l c hl)
    · obtain ⟨-, rfl⟩ | ⟨-, hl⟩ := update_some_eq_some.mp hl
      · exact absurd he (hfresh j b hj)
      · exact h.injective j l b c hj hl he
  · have hkeys : (A.insert (key a) a).keys = Insert.insert (key a) A.keys := by
      ext k
      simp [Finmap.mem_keys]
    rw [count_update_some hi, hkeys, Finset.card_insert_of_notMem (by simpa [Finmap.mem_keys]),
      h.count]

/-- Freeing a slot erases the key of its entry. -/
theorem Represents.erase (h : Represents key t A) (hi : t i = some a) :
    Represents key (Function.update t i none) (A.erase (key a)) := by
  have hother : ∀ j b, j ≠ i → t j = some b → key b ≠ key a := fun j b hji hj he =>
    hji (h.injective j i b a hj hi he)
  refine ⟨fun j b hj => ?_, fun k b hk => ?_, fun j l b c hj hl he => ?_, ?_⟩
  · obtain ⟨hji, hj⟩ := update_none_eq_some.mp hj
    rw [Finmap.lookup_erase_ne (hother j b hji hj)]
    exact h.lookup j b hj
  · have hka : k ≠ key a := by
      intro he
      rw [he, Finmap.lookup_erase] at hk
      contradiction
    rw [Finmap.lookup_erase_ne hka] at hk
    obtain ⟨hkey, j, hj⟩ := h.slot k b hk
    have hji : j ≠ i := by
      intro he
      rw [he, hi] at hj
      obtain rfl := Option.some.inj hj
      exact hka hkey.symm
    exact ⟨hkey, j, by rw [Function.update_of_ne hji, hj]⟩
  · exact h.injective j l b c (update_none_eq_some.mp hj).2 (update_none_eq_some.mp hl).2 he
  · have hmem : key a ∈ A.keys := Finmap.mem_keys.mpr
      (Finmap.mem_of_lookup_eq_some (h.lookup i a hi))
    have hcount := count_update_none (t := t) (i := i) (by simp [hi])
    have hcard := Finset.card_erase_add_one hmem
    rw [Finmap.keys_erase]
    have hrep := h.count
    omega

end Represents

section Filled

/-- The table whose first `k` slots are in use. -/
def filled (f : ℕ → α) (k : ℕ) : Table n α := fun i => if i.val < k then some (f i) else none

variable {f : ℕ → α} {k : ℕ}

@[simp] theorem filled_zero : filled f 0 = (fun _ => none : Table n α) := by
  funext i
  simp [filled]

theorem filled_of_lt {i : Fin n} (h : i.val < k) : filled f k i = some (f i) := if_pos h

theorem free_filled (h : k < n) : free (filled f k : Table n α) = some ⟨k, h⟩ := by
  refine free_eq_some.mpr ⟨by simp [filled], fun j hj => ?_⟩
  have hlt : j.val < k := hj
  simp [filled_of_lt hlt]

theorem free_filled_self : free (filled f n : Table n α) = none := by
  refine free_eq_none.mpr fun i => ?_
  simp [filled_of_lt i.isLt]

theorem update_filled (h : k < n) :
    Function.update (filled f k : Table n α) ⟨k, h⟩ (some (f k)) = filled f (k + 1) := by
  funext i
  by_cases hi : i = ⟨k, h⟩
  · subst hi
    simp [filled]
  · have hne : i.val ≠ k := fun hv => hi (Fin.ext hv)
    have hiff : i.val < k + 1 ↔ i.val < k := by omega
    simp only [Function.update_of_ne hi, filled, hiff]

end Filled

end Sencd.SlotTable
