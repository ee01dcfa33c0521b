import Sencd.CallProgram

/-!
# Runs of many programs in one environment

Every program has a number. A log records, in order, which program had which call answered;
the view of a program is its part of the log. What the environment may answer depends on the
whole log, so it can carry answers from one program to another.
-/
namespace Sencd.Interleaving
open CallProgram CallProgram.Prog
universe u w

variable {ι : Type u} {ρ : ι → Type w} {α : Type w}

abbrev Log (ρ : ι → Type w) := List (ℕ × Event ρ)

/-- The calls of program `t`. -/
def view (log : Log ρ) (t : ℕ) : List (Event ρ) := (log.filter fun e => e.1 = t).map Prod.snd

section View

variable {log log' : Log ρ} {t t' : ℕ} {e : Event ρ}

@[simp] theorem view_nil : view ([] : Log ρ) t = [] := rfl

@[simp] theorem view_append : view (log ++ log') t = view log t ++ view log' t := by
  simp [view]

@[simp] theorem view_cons_self : view ((t, e) :: log) t = e :: view log t := by simp [view]

theorem view_cons_ne (h : t' ≠ t) : view ((t', e) :: log) t = view log t := by simp [view, h]

@[simp] theorem mem_view : e ∈ view log t ↔ (t, e) ∈ log := by simp [view]

@[simp] theorem view_map_self (l : List (Event ρ)) : view (l.map fun e => (t, e)) t = l := by
  induction l with
  | nil => rfl
  | cons e l ih => rw [List.map_cons, view_cons_self, ih]

theorem view_map_ne (h : t' ≠ t) (l : List (Event ρ)) : view (l.map fun e => (t', e)) t = [] := by
  induction l with
  | nil => rfl
  | cons e l ih => rw [List.map_cons, view_cons_ne h, ih]

theorem view_mono (h : log ⊆ log') : view log t ⊆ view log' t := by
  intro e he
  exact mem_view.mpr (h (mem_view.mp he))

end View

/-- Runs: each step answers the call some program is waiting at, as `admissible` allows. -/
inductive Run (program : ℕ → Prog ι ρ α) (admissible : Log ρ → Event ρ → Prop) : Log ρ → Prop
  | nil : Run program admissible []
  | snoc {log : Log ρ} {t : ℕ} {i : ι} {r : ρ i} {k : ρ i → Prog ι ρ α} :
      Run program admissible log → Exec (program t) (view log t) (call i k) →
      admissible log ⟨i, r⟩ → Run program admissible (log ++ [(t, ⟨i, r⟩)])

namespace Run

variable {program : ℕ → Prog ι ρ α} {admissible : Log ρ → Event ρ → Prop} {log : Log ρ}
  {t t' : ℕ} {e e' : Event ρ}

/-- Every program has got as far as its view says. -/
theorem exec (h : Run program admissible log) (t : ℕ) :
    ∃ q, Exec (program t) (view log t) q := by
  induction h with
  | nil => exact ⟨program t, .nil _⟩
  | @snoc log t' i r k _ hx _ ih =>
      by_cases ht : t' = t
      · subst ht
        refine ⟨k r, ?_⟩
        rw [view_append, view_cons_self]
        exact exec_append.mpr ⟨call i k, hx, .cons (.nil _)⟩
      · rw [view_append, view_cons_ne ht]
        simpa using ih

/-- A recorded call was waited for and answered admissibly when it was recorded. -/
theorem step (h : Run program admissible log) (hm : (t, e) ∈ log) :
    ∃ before after, log = before ++ (t, e) :: after ∧ Run program admissible before ∧
      (∃ k, Exec (program t) (view before t) (call e.1 k)) ∧ admissible before e := by
  induction h with
  | nil => simp at hm
  | @snoc log t' i r k hrun hx ha ih =>
      by_cases hm' : (t, e) ∈ log
      · obtain ⟨before, after, rfl, hbefore⟩ := ih hm'
        exact ⟨before, after ++ [(t', ⟨i, r⟩)], by simp, hbefore⟩
      · have he : (t, e) = (t', ⟨i, r⟩) := by simpa [hm'] using hm
        obtain ⟨rfl, rfl⟩ := Prod.mk.inj he
        exact ⟨log, [], rfl, hrun, ⟨k, hx⟩, ha⟩

/-- A recorded call satisfies the call condition of its program. -/
theorem site {P : List (Event ρ) → ι → Prop} {Q : List (Event ρ) → α → Prop}
    (h : Run program admissible log) (hp : Holds P Q [] (program t)) (hm : (t, e) ∈ log) :
    ∃ before, before ⊆ log ∧ P (view before t) e.1 := by
  obtain ⟨before, after, rfl, -, ⟨k, hx⟩, -⟩ := h.step hm
  exact ⟨before, by simp, by simpa using hp.site hx⟩

/-- With a bound of one, a program has at most one recorded call of positive weight. -/
theorem unique {w : ι → ℕ} (h : Run program admissible log) (hp : AtMost w 1 (program t))
    (he : (t, e) ∈ log) (he' : (t, e') ∈ log) (hw : 0 < w e.1) (hw' : 0 < w e'.1) : e = e' := by
  obtain ⟨q, hx⟩ := h.exec t
  exact hp.unique hx (mem_view.mpr he) (mem_view.mpr he') hw hw'

/-- Two answers that can only be given at one and the same position are one answer. -/
theorem position_unique (h : Run program admissible log) (he : (t, e) ∈ log)
    (he' : (t', e') ∈ log) (hpos : ∀ before before', admissible before e →
      admissible before' e' → before.length = before'.length) : t = t' ∧ e = e' := by
  obtain ⟨before, after, hlog, -, -, ha⟩ := h.step he
  obtain ⟨before', after', hlog', -, -, ha'⟩ := h.step he'
  have hlen := hpos before before' ha ha'
  obtain ⟨-, hsame⟩ := List.append_inj (hlog.symm.trans hlog') hlen
  have hpair := (List.cons.inj hsame).1
  exact ⟨congrArg Prod.fst hpair, congrArg Prod.snd hpair⟩

end Run

/-- Every entry of the second log is admissible after what comes before it. -/
def AllAdmissible (admissible : Log ρ → Event ρ → Prop) : Log ρ → Log ρ → Prop
  | _, [] => True
  | before, e :: rest => admissible before e.2 ∧ AllAdmissible admissible (before ++ [e]) rest

theorem allAdmissible_append {admissible : Log ρ → Event ρ → Prop} {before log log' : Log ρ} :
    AllAdmissible admissible before (log ++ log') ↔
      AllAdmissible admissible before log ∧ AllAdmissible admissible (before ++ log) log' := by
  induction log generalizing before with
  | nil => simp [AllAdmissible]
  | cons e log ih =>
      simp only [List.cons_append, AllAdmissible, ih, List.append_assoc, List.nil_append, and_assoc]

/-- A log is a run when every view is an execution and every answer is admissible. -/
theorem run_of_exec {program : ℕ → Prog ι ρ α} {admissible : Log ρ → Event ρ → Prop}
    {log : Log ρ} (hx : ∀ t, ∃ q, Exec (program t) (view log t) q)
    (ha : AllAdmissible admissible [] log) : Run program admissible log := by
  have hrun : ∀ before rest : Log ρ, (∀ t, ∃ q, Exec (program t) (view (before ++ rest) t) q) →
      AllAdmissible admissible before rest → Run program admissible before →
      Run program admissible (before ++ rest) := by
    intro before rest
    induction rest generalizing before with
    | nil =>
        intro _ _ hb
        simpa using hb
    | cons e rest ih =>
        intro hx ha hb
        obtain ⟨t, i, r⟩ := e
        obtain ⟨q, hq⟩ := hx t
        rw [view_append, view_cons_self] at hq
        obtain ⟨m, hm, hrest⟩ := exec_append.mp hq
        cases hrest with
        | cons hrest =>
            have hnext := ih (before ++ [(t, ⟨i, r⟩)]) (by simpa using hx) ha.2 (.snoc hb hm ha.1)
            simpa using hnext
  exact hrun [] log hx ha .nil

end Sencd.Interleaving
