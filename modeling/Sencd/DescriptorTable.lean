import Sencd.EventLogs
import Sencd.SlotTable

/-!
# Tables of descriptors

A server keeps the descriptors it has been given in the slots of a table, next to at most one
that is not in the table yet. Each operation below closes what it gives up and nothing else.
-/
namespace Sencd.DescriptorTable
open DescriptorLog SlotTable

variable {n : ℕ} {α : Type*}

/-- A table, with the descriptor that waits for a slot, owns what the log holds. -/
structure Owns (t : Table n α) (pending : Option α) (log : FdLog α) : Prop where
  opens : OpensFree log
  closes : ClosesHeld log
  held_iff : ∀ fd, fd ∈ held log ↔ pending = some fd ∨ ∃ i, t i = some fd
  distinct : ∀ i j fd, t i = some fd → t j = some fd → i = j
  apart : ∀ i fd, pending = some fd → t i ≠ some fd

namespace Owns

variable {t : Table n α} {pending : Option α} {log : FdLog α} {fd : α} {i : Fin n}

theorem nil : Owns (fun _ => none : Table n α) none [] where
  opens := opensFree_nil
  closes := closesHeld_nil
  held_iff fd := by simp
  distinct i j fd h := by simp at h
  apart i fd h := by simp at h

/-- A new descriptor waits for a slot. -/
theorem accept (h : Owns t none log) (hfree : fd ∉ held log) :
    Owns t (some fd) (log ++ [.opened fd]) where
  opens := opensFree_opened.mpr ⟨h.opens, hfree⟩
  closes := closesHeld_opened.mpr h.closes
  held_iff fd' := by
    rw [held_opened, Set.mem_insert_iff, h.held_iff, Option.some_inj, eq_comm]
    simp
  distinct := h.distinct
  apart i fd' hfd hi := by
    obtain rfl := Option.some.inj hfd
    exact hfree ((h.held_iff fd).mpr (.inr ⟨i, hi⟩))

/-- A waiting descriptor is closed. -/
theorem refuse (h : Owns t (some fd) log) : Owns t none (log ++ [.closed fd]) where
  opens := opensFree_closed.mpr h.opens
  closes := closesHeld_closed.mpr ⟨h.closes, (h.held_iff fd).mpr (.inl rfl)⟩
  held_iff fd' := by
    rw [held_closed, Set.mem_sdiff, h.held_iff, Set.mem_singleton_iff]
    constructor
    · rintro ⟨hfd | hfd, hne⟩
      · exact absurd (Option.some.inj hfd).symm hne
      · exact .inr hfd
    · rintro (hfd | ⟨i, hi⟩)
      · contradiction
      · refine ⟨.inr ⟨i, hi⟩, ?_⟩
        rintro rfl
        exact h.apart i fd' rfl hi
  distinct := h.distinct
  apart i fd' hfd := by simp at hfd

/-- A waiting descriptor is put in a free slot. -/
theorem store (h : Owns t (some fd) log) (hi : t i = none) :
    Owns (Function.update t i (some fd)) none log where
  opens := h.opens
  closes := h.closes
  held_iff fd' := by
    rw [h.held_iff]
    constructor
    · rintro (hfd | ⟨j, hj⟩)
      · exact .inr ⟨i, update_some_eq_some.mpr (.inl ⟨rfl, Option.some.inj hfd⟩)⟩
      · have hne : j ≠ i := by
          rintro rfl
          simp [hi] at hj
        exact .inr ⟨j, update_some_eq_some.mpr (.inr ⟨hne, hj⟩)⟩
    · rintro (hfd | ⟨j, hj⟩)
      · contradiction
      · obtain ⟨-, rfl⟩ | ⟨-, hj⟩ := update_some_eq_some.mp hj
        · exact .inl rfl
        · exact .inr ⟨j, hj⟩
  distinct j k fd' hj hk := by
    obtain ⟨rfl, rfl⟩ | ⟨-, hj⟩ := update_some_eq_some.mp hj
    · obtain ⟨rfl, -⟩ | ⟨-, hk⟩ := update_some_eq_some.mp hk
      · rfl
      · exact absurd hk (h.apart k fd rfl)
    · obtain ⟨-, rfl⟩ | ⟨-, hk⟩ := update_some_eq_some.mp hk
      · exact absurd hj (h.apart j fd rfl)
      · exact h.distinct j k fd' hj hk
  apart i fd' hfd := by simp at hfd

/-- A slot is emptied and its descriptor closed. -/
theorem remove (h : Owns t pending log) (hi : t i = some fd) :
    Owns (Function.update t i none) pending (log ++ [.closed fd]) where
  opens := opensFree_closed.mpr h.opens
  closes := closesHeld_closed.mpr ⟨h.closes, (h.held_iff fd).mpr (.inr ⟨i, hi⟩)⟩
  held_iff fd' := by
    rw [held_closed, Set.mem_sdiff, h.held_iff, Set.mem_singleton_iff]
    constructor
    · rintro ⟨hfd | ⟨j, hj⟩, hne⟩
      · exact .inl hfd
      · have hji : j ≠ i := by
          rintro rfl
          exact hne (Option.some.inj (hj.symm.trans hi))
        exact .inr ⟨j, update_none_eq_some.mpr ⟨hji, hj⟩⟩
    · rintro (hfd | ⟨j, hj⟩)
      · refine ⟨.inl hfd, ?_⟩
        rintro rfl
        exact h.apart i fd' hfd hi
      · obtain ⟨hji, hj⟩ := update_none_eq_some.mp hj
        refine ⟨.inr ⟨j, hj⟩, ?_⟩
        rintro rfl
        exact hji (h.distinct j i fd' hj hi)
  distinct j k fd' hj hk :=
    h.distinct j k fd' (update_none_eq_some.mp hj).2 (update_none_eq_some.mp hk).2
  apart j fd' hfd hj := h.apart j fd' hfd (update_none_eq_some.mp hj).2

theorem mem_filterMap_finRange {fd : α} :
    fd ∈ (List.finRange n).filterMap t ↔ ∃ i, t i = some fd := by
  simp [List.mem_filterMap]

/-- All slots are emptied and their descriptors closed. -/
theorem clear (h : Owns t pending log) :
    Owns (fun _ => none : Table n α) pending
      (log ++ DescriptorLog.closes ((List.finRange n).filterMap t)) where
  opens := opensFree_closes.mpr h.opens
  closes := by
    refine closesHeld_closes.mpr ⟨h.closes, ?_, fun fd hfd => ?_⟩
    · refine (List.nodup_finRange n).filterMap fun i j fd hi hj => ?_
      exact h.distinct i j fd hi hj
    · exact (h.held_iff fd).mpr (.inr (mem_filterMap_finRange.mp hfd))
  held_iff fd := by
    rw [held_closes, Set.mem_sdiff, Set.mem_ofPred_eq, h.held_iff, mem_filterMap_finRange]
    constructor
    · rintro ⟨hfd | hfd, hnot⟩
      · exact .inl hfd
      · exact absurd hfd hnot
    · rintro (hfd | ⟨i, hi⟩)
      · exact ⟨.inl hfd, fun ⟨i, hi⟩ => h.apart i fd hfd hi⟩
      · contradiction
  distinct i j fd h := by simp at h
  apart i fd _ h := by simp at h

end Owns

end Sencd.DescriptorTable
