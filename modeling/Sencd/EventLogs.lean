import Mathlib.Data.Set.Insert
import Mathlib.Tactic

/-!
# Logs

A log of counted keys: every use of a key is logged with a 64-bit counter. When each use takes
the number of earlier uses of its key, no pair of key and counter is logged twice within 2^64
uses of a key.

A log of opened and closed descriptors: their numbers are handed out again once they have been
closed, so what a number stands for is a matter of the log before it. An owner that closes only
what it holds closes every number once for each time that it was opened, and never one that has
been given to somebody else.
-/
namespace Sencd.CounterLog

variable {κ : Type*} [DecidableEq κ] {log : List (κ × UInt64)}

/-- How often the log uses the key. -/
def uses (log : List (κ × UInt64)) (k : κ) : ℕ := log.countP fun e => e.1 = k

@[simp] theorem uses_nil (k : κ) : uses [] k = 0 := rfl

theorem uses_snoc (log : List (κ × UInt64)) (e : κ × UInt64) (k : κ) :
    uses (log ++ [e]) k = uses log k + if e.1 = k then 1 else 0 := by
  by_cases h : e.1 = k <;> simp [uses, h]

theorem uses_eq_zero {k : κ} (h : ∀ e ∈ log, e.1 ≠ k) : uses log k = 0 := by
  unfold uses
  simpa using h

/-- Each entry carries the number of earlier uses of its key. -/
inductive Sequential : List (κ × UInt64) → Prop
  | nil : Sequential []
  | snoc {log : List (κ × UInt64)} {e : κ × UInt64} :
      Sequential log → e.2 = UInt64.ofNat (uses log e.1) → Sequential (log ++ [e])

theorem Sequential.mem (h : Sequential log) {e : κ × UInt64} (he : e ∈ log) :
    ∃ n < uses log e.1, e.2 = UInt64.ofNat n := by
  induction h with
  | nil => simp at he
  | @snoc log last _ hlast ih =>
      rw [uses_snoc]
      obtain he | he := List.mem_append.mp he
      · obtain ⟨n, hn, hcounter⟩ := ih he
        exact ⟨n, by omega, hcounter⟩
      · obtain rfl := List.mem_singleton.mp he
        exact ⟨uses log e.1, by simp, hlast⟩

/-- Within 2^64 uses of each key no entry occurs twice. -/
theorem Sequential.nodup (h : Sequential log) (hb : ∀ k, uses log k ≤ 2 ^ 64) : log.Nodup := by
  induction h with
  | nil => exact List.nodup_nil
  | @snoc log last hlog hlast ih =>
      have hbefore : ∀ k, uses log k ≤ 2 ^ 64 := by
        intro k
        have hk := hb k
        rw [uses_snoc] at hk
        omega
      have hlt : uses log last.1 < 2 ^ 64 := by
        have hk := hb last.1
        rw [uses_snoc, if_pos rfl] at hk
        omega
      have hnew : last ∉ log := by
        intro hmem
        obtain ⟨n, hn, hcounter⟩ := hlog.mem hmem
        have hsame := congrArg UInt64.toNat (hcounter.symm.trans hlast)
        rw [UInt64.toNat_ofNat_of_lt' (hn.trans hlt), UInt64.toNat_ofNat_of_lt' hlt] at hsame
        omega
      rw [List.nodup_append]
      refine ⟨ih hbefore, List.nodup_singleton last, fun a ha b hbm => ?_⟩
      obtain rfl := List.mem_singleton.mp hbm
      intro hab
      exact hnew (hab ▸ ha)

end Sencd.CounterLog

namespace Sencd.DescriptorLog

/-- An owner has been given a descriptor, or has closed one. -/
inductive FdEvent (α : Type*)
  | opened (fd : α)
  | closed (fd : α)
  deriving DecidableEq

abbrev FdLog (α : Type*) := List (FdEvent α)

variable {α : Type*} {log log' : FdLog α} {fd : α} {fds : List α}

/-- What the owner holds after one more event. -/
def FdEvent.after (e : FdEvent α) (holds : Set α) : Set α :=
  match e with
  | .opened fd => insert fd holds
  | .closed fd => holds \ {fd}

/-- The descriptors the owner holds. -/
def held (log : FdLog α) : Set α := log.foldl (fun holds e => e.after holds) ∅

@[simp] theorem held_nil : held ([] : FdLog α) = ∅ := rfl

@[simp] theorem held_opened : held (log ++ [.opened fd]) = insert fd (held log) := by
  simp [held, FdEvent.after]

@[simp] theorem held_closed : held (log ++ [.closed fd]) = held log \ {fd} := by
  simp [held, FdEvent.after]

/-- Whatever is closed is held at that time. -/
def ClosesHeld (log : FdLog α) : Prop :=
  ∀ before fd, before ++ [.closed fd] <+: log → fd ∈ held before

/-- Whatever is opened is not held at that time. -/
def OpensFree (log : FdLog α) : Prop :=
  ∀ before fd, before ++ [.opened fd] <+: log → fd ∉ held before

@[simp] theorem closesHeld_nil : ClosesHeld ([] : FdLog α) := by
  intro before fd h
  simp at h

@[simp] theorem opensFree_nil : OpensFree ([] : FdLog α) := by
  intro before fd h
  simp at h

theorem ClosesHeld.of_prefix (h : ClosesHeld log') (hlog : log <+: log') : ClosesHeld log :=
  fun before fd hfd => h before fd (hfd.trans hlog)

/-- A property of every event of a log, when the log gets longer. -/
theorem forall_prefix_concat {Q : FdLog α → FdEvent α → Prop} {last : FdEvent α} :
    (∀ before e, before ++ [e] <+: log ++ [last] → Q before e) ↔
      (∀ before e, before ++ [e] <+: log → Q before e) ∧ Q log last := by
  constructor
  · intro h
    exact ⟨fun before e he => h before e (he.trans (List.prefix_append _ _)),
      h log last List.prefix_rfl⟩
  · rintro ⟨h, hlast⟩ before e he
    obtain he | he := List.prefix_concat_iff.mp he
    · obtain ⟨rfl, hsame⟩ := List.append_inj' he rfl
      obtain rfl := List.singleton_inj.mp hsame
      exact hlast
    · exact h before e he

theorem closesHeld_iff : ClosesHeld log ↔
    ∀ before e, before ++ [e] <+: log → ∀ fd, e = .closed fd → fd ∈ held before := by
  constructor
  · rintro h before _ he fd rfl
    exact h before fd he
  · intro h before fd hfd
    exact h before _ hfd fd rfl

theorem opensFree_iff : OpensFree log ↔
    ∀ before e, before ++ [e] <+: log → ∀ fd, e = .opened fd → fd ∉ held before := by
  constructor
  · rintro h before _ he fd rfl
    exact h before fd he
  · intro h before fd hfd
    exact h before _ hfd fd rfl

@[simp] theorem closesHeld_opened : ClosesHeld (log ++ [.opened fd]) ↔ ClosesHeld log := by
  rw [closesHeld_iff, forall_prefix_concat, ← closesHeld_iff]
  simp

@[simp] theorem closesHeld_closed :
    ClosesHeld (log ++ [.closed fd]) ↔ ClosesHeld log ∧ fd ∈ held log := by
  rw [closesHeld_iff, forall_prefix_concat, ← closesHeld_iff]
  simp

@[simp] theorem opensFree_closed : OpensFree (log ++ [.closed fd]) ↔ OpensFree log := by
  rw [opensFree_iff, forall_prefix_concat, ← opensFree_iff]
  simp

@[simp] theorem opensFree_opened :
    OpensFree (log ++ [.opened fd]) ↔ OpensFree log ∧ fd ∉ held log := by
  rw [opensFree_iff, forall_prefix_concat, ← opensFree_iff]
  simp

section Closes

/-- Descriptors closed one after the other. -/
def closes (fds : List α) : FdLog α := fds.map .closed

@[simp] theorem closes_nil : closes ([] : List α) = [] := rfl

/-- What a log has closed, in order. -/
def closedFds (log : FdLog α) : List α :=
  log.filterMap fun
    | .opened _ => none
    | .closed fd => some fd

@[simp] theorem closedFds_nil : closedFds ([] : FdLog α) = [] := rfl

@[simp] theorem closedFds_closes : closedFds (closes fds) = fds := by
  induction fds with
  | nil => rfl
  | cons fd fds ih => exact congrArg (fd :: ·) ih

theorem held_closes : held (log ++ closes fds) = held log \ {fd | fd ∈ fds} := by
  induction fds generalizing log with
  | nil => simp
  | cons fd fds ih =>
      have hlog : log ++ closes (fd :: fds) = log ++ [.closed fd] ++ closes fds := by simp [closes]
      rw [hlog, ih, held_closed]
      ext fd'
      simp only [Set.mem_sdiff, Set.mem_singleton_iff, Set.mem_ofPred_eq, List.mem_cons, not_or]
      exact and_assoc

theorem closesHeld_closes :
    ClosesHeld (log ++ closes fds) ↔ ClosesHeld log ∧ fds.Nodup ∧ ∀ fd ∈ fds, fd ∈ held log := by
  induction fds generalizing log with
  | nil => simp
  | cons fd fds ih =>
      have hlog : log ++ closes (fd :: fds) = log ++ [.closed fd] ++ closes fds := by simp [closes]
      rw [hlog, ih, closesHeld_closed, held_closed, List.nodup_cons]
      constructor
      · rintro ⟨⟨h, hmem⟩, hnodup, hrest⟩
        refine ⟨h, ⟨fun hfd => (hrest fd hfd).2 rfl, hnodup⟩, fun fd' hfd' => ?_⟩
        obtain rfl | hfd' := List.mem_cons.mp hfd'
        · exact hmem
        · exact (hrest fd' hfd').1
      · rintro ⟨h, ⟨hnot, hnodup⟩, hall⟩
        refine ⟨⟨h, hall fd List.mem_cons_self⟩, hnodup, fun fd' hfd' => ?_⟩
        refine ⟨hall fd' (List.mem_cons_of_mem _ hfd'), ?_⟩
        rintro rfl
        exact hnot hfd'

theorem opensFree_closes : OpensFree (log ++ closes fds) ↔ OpensFree log := by
  induction fds generalizing log with
  | nil => simp
  | cons fd fds ih =>
      have hlog : log ++ closes (fd :: fds) = log ++ [.closed fd] ++ closes fds := by simp [closes]
      rw [hlog, ih, opensFree_closed]

end Closes

section Balanced

/-- What is opened is closed again, the last first. -/
inductive Balanced : FdLog α → Prop
  | nil : Balanced []
  | bracket (fd : α) {log : FdLog α} :
      Balanced log → Balanced (.opened fd :: log ++ [.closed fd])
  | append {log log' : FdLog α} : Balanced log → Balanced log' → Balanced (log ++ log')

theorem OpensFree.of_prefix (h : OpensFree log') (hlog : log <+: log') : OpensFree log :=
  fun before fd hfd => h before fd (hfd.trans hlog)

theorem append_bracket (log log' : FdLog α) (fd : α) :
    log ++ (.opened fd :: log' ++ [.closed fd]) = log ++ [.opened fd] ++ log' ++ [.closed fd] := by
  simp

/-- A balanced log leaves the owner with what it held. -/
theorem Balanced.held_append (h : Balanced log') (hopens : OpensFree (log ++ log')) :
    held (log ++ log') = held log := by
  induction h generalizing log with
  | nil => rw [List.append_nil]
  | @bracket fd log' _ ih =>
      rw [append_bracket] at hopens ⊢
      have hopens := opensFree_closed.mp hopens
      have hfree := (opensFree_opened.mp (hopens.of_prefix (List.prefix_append _ log'))).2
      rw [held_closed, ih hopens, held_opened]
      exact Set.insert_sdiff_self_of_notMem hfree
  | append _ _ ih ih' =>
      rw [← List.append_assoc] at hopens ⊢
      rw [ih' hopens, ih (hopens.of_prefix (List.prefix_append _ _))]

/-- Nor does it close anything else. -/
theorem Balanced.closesHeld_append (h : Balanced log') (hopens : OpensFree (log ++ log'))
    (hcloses : ClosesHeld log) : ClosesHeld (log ++ log') := by
  induction h generalizing log with
  | nil => rwa [List.append_nil]
  | @bracket fd log' hbalanced ih =>
      rw [append_bracket] at hopens ⊢
      have hopens := opensFree_closed.mp hopens
      refine closesHeld_closed.mpr ⟨ih hopens (closesHeld_opened.mpr hcloses), ?_⟩
      rw [hbalanced.held_append hopens, held_opened]
      exact Set.mem_insert fd _
  | append _ _ ih ih' =>
      rw [← List.append_assoc] at hopens ⊢
      exact ih' hopens (ih (hopens.of_prefix (List.prefix_append _ _)) hcloses)

end Balanced

/-- What was opened has been closed as often, but for what is still held. -/
theorem count_opened [DecidableEq α] (hopens : OpensFree log) (hcloses : ClosesHeld log) (fd : α) :
    (fd ∈ held log → log.count (.opened fd) = log.count (.closed fd) + 1) ∧
      (fd ∉ held log → log.count (.opened fd) = log.count (.closed fd)) := by
  induction log using List.reverseRecOn with
  | nil => simp
  | append_singleton log e ih =>
      cases e with
      | opened fd' =>
          obtain ⟨hopens, hfree⟩ := opensFree_opened.mp hopens
          have ih := ih hopens (closesHeld_opened.mp hcloses)
          simp only [List.count_append, held_opened, Set.mem_insert_iff]
          by_cases hfd : fd = fd'
          · subst hfd
            simpa using ih.2 hfree
          · have hne : fd' ≠ fd := fun he => hfd he.symm
            simpa [hfd, hne] using ih
      | closed fd' =>
          obtain ⟨hcloses, hheld⟩ := closesHeld_closed.mp hcloses
          have ih := ih (opensFree_closed.mp hopens) hcloses
          simp only [List.count_append, held_closed, Set.mem_sdiff, Set.mem_singleton_iff]
          by_cases hfd : fd = fd'
          · subst hfd
            simpa using ih.1 hheld
          · have hne : fd' ≠ fd := fun he => hfd he.symm
            simpa [hfd, hne] using ih

end Sencd.DescriptorLog
