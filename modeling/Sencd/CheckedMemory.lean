import Mathlib.Tactic

/-!
# Checked buffers

A computation over buffers of fixed size is `none` once it reads or writes out of bounds, or
subtracts below zero. `Ensures x Q` says that it does not, and that its result satisfies `Q`.
-/
namespace Sencd.CheckedMemory
universe u
variable {α β γ : Type u} {δ : Type*}

/-- The computation does not fault, and its result satisfies `Q`. -/
def Ensures (x : Option α) (Q : α → Prop) : Prop := ∃ a, x = some a ∧ Q a

section Rules

variable {x : Option α} {f : α → Option β} {Q Q' : α → Prop} {R : β → Prop}

theorem ensures_pure {a : α} (h : Q a) : Ensures (pure a) Q := ⟨a, rfl, h⟩

theorem Ensures.mono (h : Ensures x Q) (hQ : ∀ a, Q a → Q' a) : Ensures x Q' := by
  obtain ⟨a, ha, hq⟩ := h
  exact ⟨a, ha, hQ a hq⟩

/-- Sequencing. -/
theorem Ensures.bind (h : Ensures x Q) (hf : ∀ a, Q a → Ensures (f a) R) :
    Ensures (x >>= f) R := by
  obtain ⟨a, rfl, hq⟩ := h
  exact hf a hq

theorem ensures_ite {c : Prop} [Decidable c] {y : Option α} (hx : c → Ensures x Q)
    (hy : ¬ c → Ensures y Q) : Ensures (if c then x else y) Q := by
  by_cases hc : c
  · rw [if_pos hc]
    exact hx hc
  · rw [if_neg hc]
    exact hy hc

end Rules

/-- The difference of two sizes, which are not negative. -/
def sizeSub (a b : ℕ) : Option ℕ := if b ≤ a then some (a - b) else none

theorem ensures_sizeSub {a b : ℕ} (h : b ≤ a) : Ensures (sizeSub a b) (· = a - b) :=
  ⟨a - b, if_pos h, rfl⟩

/-- A buffer of `n` cells. -/
abbrev Buffer (δ : Type*) (n : ℕ) := { cells : List δ // cells.length = n }

section Buffer

variable {n : ℕ}

def load (b : Buffer δ n) (offset len : ℕ) : Option (List δ) :=
  if offset + len ≤ n then some ((b.1.drop offset).take len) else none

def store (b : Buffer δ n) (offset : ℕ) (data : List δ) : Option (Buffer δ n) :=
  if h : offset + data.length ≤ n then
    some ⟨b.1.take offset ++ (data ++ b.1.drop (offset + data.length)), by
      have := b.2
      simp only [List.length_append, List.length_take, List.length_drop]
      omega⟩
  else none

variable {offset len : ℕ} {b b' : Buffer δ n} {data more : List δ}

/-- The cells from `offset` on are `data`. -/
structure StandsAt (b : Buffer δ n) (offset : ℕ) (data : List δ) : Prop where
  fits : offset + data.length ≤ n
  cells : ∀ i < data.length, b.1[offset + i]? = data[i]?

theorem StandsAt.nil (h : offset ≤ n) : StandsAt b offset [] := ⟨h, by simp⟩

/-- Data behind data. -/
theorem StandsAt.append (h : StandsAt b offset data)
    (h' : StandsAt b (offset + data.length) more) : StandsAt b offset (data ++ more) := by
  have hfits := h'.fits
  refine ⟨by rw [List.length_append]; omega, fun i hi => ?_⟩
  rw [List.length_append] at hi
  by_cases hdata : i < data.length
  · rw [h.cells i hdata, List.getElem?_append_left hdata]
  · have hmore := h'.cells (i - data.length) (by omega)
    have he : offset + data.length + (i - data.length) = offset + i := by omega
    rw [he] at hmore
    rw [hmore, List.getElem?_append_right (by omega)]

/-- What stands in a buffer is what a load of it brings. -/
theorem StandsAt.load (h : StandsAt b offset data) : load b offset data.length = some data := by
  rw [CheckedMemory.load, if_pos h.fits]
  congr 1
  apply List.ext_getElem?
  intro i
  by_cases hi : i < data.length
  · rw [List.getElem?_take_of_lt hi, List.getElem?_drop, h.cells i hi]
  · rw [List.getElem?_eq_none (by rw [List.length_take]; omega),
      List.getElem?_eq_none (by omega)]

theorem StandsAt.ensures_load (h : StandsAt b offset data) (hlen : len = data.length) :
    Ensures (CheckedMemory.load b offset len) (· = data) := by
  subst hlen
  exact ⟨data, h.load, rfl⟩

/-- The data is in place, and everything beside it is as before. -/
structure Stored (b : Buffer δ n) (offset : ℕ) (data : List δ) (b' : Buffer δ n) : Prop where
  here : StandsAt b' offset data
  beside : ∀ i, i < offset ∨ offset + data.length ≤ i → b'.1[i]? = b.1[i]?

/-- A store inside the buffer. -/
theorem ensures_store (b : Buffer δ n) (h : offset + data.length ≤ n) :
    Ensures (store b offset data) (Stored b offset data) := by
  have hb := b.2
  have htake : (b.1.take offset).length = offset := by
    rw [List.length_take]
    omega
  refine ⟨_, dif_pos h, ⟨h, fun i hi => ?_⟩, fun i hi => ?_⟩
  · change (b.1.take offset ++ (data ++ b.1.drop (offset + data.length)))[offset + i]? = data[i]?
    rw [List.getElem?_append_right (by omega), htake, Nat.add_sub_cancel_left,
      List.getElem?_append_left hi]
  · change (b.1.take offset ++ (data ++ b.1.drop (offset + data.length)))[i]? = b.1[i]?
    obtain hi | hi := hi
    · rw [List.getElem?_append_left (by omega), List.getElem?_take_of_lt hi]
    · rw [List.getElem?_append_right (by omega), htake, List.getElem?_append_right (by omega),
        List.getElem?_drop]
      congr 1
      omega

/-- Data that a store does not touch. -/
theorem Stored.standsAt (h : Stored b offset data b') {start : ℕ}
    (hmore : StandsAt b start more)
    (hbeside : start + more.length ≤ offset ∨ offset + data.length ≤ start) :
    StandsAt b' start more := by
  refine ⟨hmore.fits, fun i hi => ?_⟩
  rw [h.beside (start + i) (by omega), hmore.cells i hi]

end Buffer

section Turns

variable {f : α → β} {turn : α → γ → Option (β × γ)}

/-- The turns of a loop, which leave their buffers to each other. -/
def runTurns (turn : α → γ → Option (β × γ)) : List α → γ → Option (List β × γ)
  | [], buffers => some ([], buffers)
  | a :: rest, buffers => do
      let (b, buffers) ← turn a buffers
      let (bs, buffers) ← runTurns turn rest buffers
      return (b :: bs, buffers)

/-- A loop does not fault if no turn does, whatever it finds in the buffers. -/
theorem ensures_runTurns (h : ∀ a buffers, Ensures (turn a buffers) (·.1 = f a)) (turns : List α)
    (buffers : γ) : Ensures (runTurns turn turns buffers) (·.1 = turns.map f) := by
  induction turns generalizing buffers with
  | nil => exact ⟨_, rfl, rfl⟩
  | cons a rest ih =>
      refine (h a buffers).bind fun r hr => ?_
      refine (ih r.2).bind fun rs hrs => ?_
      apply ensures_pure
      simp [hr, hrs]

end Turns

end Sencd.CheckedMemory
