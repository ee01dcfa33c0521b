import Sencd.SlotTable

/-!
# Tables of pointers

The slots of a table point to objects of a heap. An object is named by the order in which it
was allocated, so an object that has left the table stays away, whatever becomes of its memory.
Read through its pointers the table is a table of values.
-/
namespace Sencd
open SlotTable

/-- Names not yet given out point nowhere, and no two slots share an object. -/
structure PointerTable (n : ℕ) (α : Type*) where
  slots : Table n ℕ
  object : ℕ → α
  allocated : ℕ
  lt_allocated : ∀ {i o}, slots i = some o → o < allocated
  distinct : ∀ {i j o}, slots i = some o → slots j = some o → i = j

namespace PointerTable

variable {n : ℕ} {α : Type*} (t : PointerTable n α)

/-- Some slot points to the object. -/
def Holds (o : ℕ) : Prop := ∃ i, t.slots i = some o

/-- The object has been allocated and no slot points to it. -/
def Gone (o : ℕ) : Prop := o < t.allocated ∧ ¬ t.Holds o

/-- The table read through its pointers. -/
def values : Table n α := fun i => (t.slots i).map t.object

/-- No slot in use and nothing allocated. -/
def empty (n : ℕ) (a : α) : PointerTable n α where
  slots _ := none
  object _ := a
  allocated := 0
  lt_allocated h := by simp at h
  distinct h := by simp at h

/-- Point slot `i` to a new object. -/
def insert (i : Fin n) (a : α) : PointerTable n α where
  slots := Function.update t.slots i (some t.allocated)
  object := Function.update t.object t.allocated a
  allocated := t.allocated + 1
  lt_allocated h := by
    obtain ⟨-, rfl⟩ | ⟨-, h⟩ := update_some_eq_some.mp h
    · exact Nat.lt_succ_self _
    · exact (t.lt_allocated h).trans (Nat.lt_succ_self _)
  distinct hj hk := by
    obtain ⟨rfl, rfl⟩ | ⟨-, hj⟩ := update_some_eq_some.mp hj
    · obtain ⟨rfl, -⟩ | ⟨-, hk⟩ := update_some_eq_some.mp hk
      · rfl
      · exact absurd (t.lt_allocated hk) (lt_irrefl _)
    · obtain ⟨-, rfl⟩ | ⟨-, hk⟩ := update_some_eq_some.mp hk
      · exact absurd (t.lt_allocated hj) (lt_irrefl _)
      · exact t.distinct hj hk

/-- Clear slot `i`. -/
def vacate (i : Fin n) : PointerTable n α where
  slots := Function.update t.slots i none
  object := t.object
  allocated := t.allocated
  lt_allocated h := t.lt_allocated (update_none_eq_some.mp h).2
  distinct hj hk := t.distinct (update_none_eq_some.mp hj).2 (update_none_eq_some.mp hk).2

/-- Clear all slots. -/
def clear : PointerTable n α where
  slots _ := none
  object := t.object
  allocated := t.allocated
  lt_allocated h := by simp at h
  distinct h := by simp at h

/-- Change what an object holds. -/
def write (o : ℕ) (a : α) : PointerTable n α :=
  { t with object := Function.update t.object o a }

variable {t} {i : Fin n} {o p : ℕ} {a : α}

@[simp] theorem write_slots : (t.write o a).slots = t.slots := rfl

@[simp] theorem write_holds : (t.write o a).Holds p ↔ t.Holds p := Iff.rfl

@[simp] theorem write_gone : (t.write o a).Gone p ↔ t.Gone p := Iff.rfl

@[simp] theorem write_object : (t.write o a).object o = a := Function.update_self ..

theorem holds_of_find {q : ℕ → Bool} (h : find t.slots q = some (i, o)) : t.Holds o :=
  ⟨i, (find_eq_some.mp h).1⟩

section Values

/-- The scan behind the pointers. -/
theorem find_values (t : PointerTable n α) (q : α → Bool) :
    find t.values q = (find t.slots fun o => q (t.object o)).map fun e => (e.1, t.object e.2) :=
  find_map t.object t.slots q

theorem free_values (t : PointerTable n α) : free t.values = free t.slots :=
  free_map t.object t.slots

theorem values_insert (t : PointerTable n α) (i : Fin n) (a : α) :
    (t.insert i a).values = Function.update t.values i (some a) := by
  funext j
  by_cases hj : j = i
  · subst hj
    simp [values, insert]
  · rw [Function.update_of_ne hj]
    cases hs : t.slots j with
    | none => simp [values, insert, hj, hs]
    | some o =>
        have hne : o ≠ t.allocated := ne_of_lt (t.lt_allocated hs)
        simp [values, insert, hj, hs, hne]

theorem values_vacate (t : PointerTable n α) (i : Fin n) :
    (t.vacate i).values = Function.update t.values i none := by
  funext j
  by_cases hj : j = i
  · subst hj
    simp [values, vacate]
  · simp [values, vacate, hj]

theorem values_write (h : t.slots i = some o) (a : α) :
    (t.write o a).values = Function.update t.values i (some a) := by
  funext j
  by_cases hj : j = i
  · subst hj
    simp [values, write, h]
  · rw [Function.update_of_ne hj]
    cases hs : t.slots j with
    | none => simp [values, hs]
    | some p =>
        have hne : p ≠ o := by
          rintro rfl
          exact hj (t.distinct hs h)
        simp [values, write, hs, hne]

theorem values_clear (t : PointerTable n α) : t.clear.values = fun _ => none := rfl

end Values

section Membership

theorem Holds.insert (h : t.Holds o) (hi : t.slots i = none) (a : α) : (t.insert i a).Holds o := by
  obtain ⟨j, hj⟩ := h
  have hne : j ≠ i := by
    rintro rfl
    simp [hi] at hj
  exact ⟨j, update_some_eq_some.mpr (.inr ⟨hne, hj⟩)⟩

/-- Only the object behind the cleared slot leaves. -/
theorem Holds.vacate (h : t.Holds o) (hi : t.slots i = some p) (hne : p ≠ o) :
    (t.vacate i).Holds o := by
  obtain ⟨j, hj⟩ := h
  have hji : j ≠ i := by
    rintro rfl
    exact hne (Option.some.inj (hi.symm.trans hj))
  exact ⟨j, update_none_eq_some.mpr ⟨hji, hj⟩⟩

theorem gone_vacate (hi : t.slots i = some o) : (t.vacate i).Gone o := by
  refine ⟨t.lt_allocated hi, ?_⟩
  rintro ⟨j, hj⟩
  obtain ⟨hji, hj⟩ := update_none_eq_some.mp hj
  exact hji (t.distinct hj hi)

/-- What has left does not come back. -/
theorem Gone.insert (h : t.Gone o) (i : Fin n) (a : α) : (t.insert i a).Gone o := by
  refine ⟨h.1.trans (Nat.lt_succ_self _), ?_⟩
  rintro ⟨j, hj⟩
  obtain ⟨-, rfl⟩ | ⟨-, hj⟩ := update_some_eq_some.mp hj
  · exact lt_irrefl _ h.1
  · exact h.2 ⟨j, hj⟩

theorem Gone.vacate (h : t.Gone o) (i : Fin n) : (t.vacate i).Gone o := by
  refine ⟨h.1, ?_⟩
  rintro ⟨j, hj⟩
  exact h.2 ⟨j, (update_none_eq_some.mp hj).2⟩

end Membership

/-- A step of the table, with the object it takes out. -/
inductive Step (t : PointerTable n α) : Option ℕ → PointerTable n α → Prop
  | same : Step t none t
  | write (o : ℕ) (a : α) : Step t none (t.write o a)
  | insert {i : Fin n} (a : α) : t.slots i = none → Step t none (t.insert i a)
  | vacate {i : Fin n} {o : ℕ} (a : α) :
      t.slots i = some o → Step t (some o) ((t.write o a).vacate i)

namespace Step

variable {t' : PointerTable n α} {out : Option ℕ}

theorem holds (h : t.Step out t') (ho : t.Holds o) (hout : out ≠ some o) : t'.Holds o := by
  cases h with
  | same => exact ho
  | write p a => exact ho
  | insert a hi => exact ho.insert hi a
  | vacate a hi => exact Holds.vacate (write_holds.mpr ho) hi fun he => hout (congrArg some he)

theorem gone (h : t.Step out t') (ho : t.Gone o) : t'.Gone o := by
  cases h with
  | same => exact ho
  | write p a => exact ho
  | insert a _ => exact ho.insert _ a
  | vacate a _ => exact Gone.vacate (write_gone.mpr ho) _

theorem gone_out (h : t.Step (some o) t') : t'.Gone o := by
  cases h with
  | vacate a hi => exact gone_vacate hi

end Step

end PointerTable

end Sencd
