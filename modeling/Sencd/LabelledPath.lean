import Mathlib.Tactic

/-!
# Runs of a labelled step relation

A run is kept as the list of its steps, each with the state it was taken in. Conditions on
the states before the steps are then statements about members of that list.

A program that runs in fine steps refines one that runs in whole turns if every step completes a
turn or changes nothing that a turn sees. What a turn produces may come out at a later step;
until then it is pending.

A run changes many things; an entry of its state is set up in one step and is changed by some of
the later ones. If every step either sets the entry up or applies to it the event the step holds
for it, then the entry is what its own events have made of it since then.
-/
namespace Sencd.LabelledPath

variable {σ ℓ : Type*} {step : σ → ℓ → σ → Prop}

/-- `Path step init steps s`: the recorded steps lead from `init` to `s`. -/
inductive Path (step : σ → ℓ → σ → Prop) (init : σ) : List (σ × ℓ) → σ → Prop
  | nil : Path step init [] init
  | snoc {steps : List (σ × ℓ)} {s t : σ} {a : ℓ} :
      Path step init steps s → step s a t → Path step init (steps ++ [(s, a)]) t

namespace Path

theorem snoc_iff {init t : σ} {steps : List (σ × ℓ)} {s : σ} {a : ℓ} :
    Path step init (steps ++ [(s, a)]) t ↔ Path step init steps s ∧ step s a t := by
  constructor
  · intro h
    generalize hl : steps ++ [(s, a)] = l at h
    cases h with
    | nil => simp at hl
    | snoc hp hs =>
        obtain ⟨rfl, hlast⟩ := List.append_inj' hl rfl
        obtain ⟨rfl, rfl⟩ := Prod.mk.inj (List.singleton_inj.mp hlast)
        exact ⟨hp, hs⟩
  · rintro ⟨hp, hs⟩
    exact .snoc hp hs

theorem nil_iff {init t : σ} : Path step init [] t ↔ t = init := by
  constructor
  · intro h
    generalize hl : ([] : List (σ × ℓ)) = l at h
    cases h with
    | nil => rfl
    | snoc => simp at hl
  · rintro rfl
    exact .nil

/-- A run may be cut anywhere. -/
theorem append_iff {init t : σ} {steps steps' : List (σ × ℓ)} :
    Path step init (steps ++ steps') t ↔ ∃ s, Path step init steps s ∧ Path step s steps' t := by
  constructor
  · induction steps' using List.reverseRecOn generalizing t with
    | nil =>
        intro h
        exact ⟨t, by simpa using h, .nil⟩
    | append_singleton steps' p ih =>
        intro h
        rw [← List.append_assoc] at h
        obtain ⟨hp, hs⟩ := snoc_iff.mp h
        obtain ⟨s, hbefore, hafter⟩ := ih hp
        exact ⟨s, hbefore, .snoc hafter hs⟩
  · rintro ⟨s, h, h'⟩
    induction h' with
    | nil => simpa using h
    | snoc _ hs ih =>
        rw [← List.append_assoc]
        exact .snoc ih hs

/-- A run around one of its steps. -/
theorem middle_iff {init t : σ} {before after : List (σ × ℓ)} {s : σ} {a : ℓ} :
    Path step init (before ++ (s, a) :: after) t ↔
      Path step init before s ∧ ∃ s', step s a s' ∧ Path step s' after t := by
  rw [List.append_cons, append_iff]
  simp only [snoc_iff]
  constructor
  · rintro ⟨s', ⟨hbefore, hstep⟩, hafter⟩
    exact ⟨hbefore, s', hstep, hafter⟩
  · rintro ⟨hbefore, s', hstep, hafter⟩
    exact ⟨s', ⟨hbefore, hstep⟩, hafter⟩

/-- Every member of a run was a step out of a state the run had reached before. -/
theorem split {init t : σ} {steps : List (σ × ℓ)} {s : σ} {a : ℓ}
    (h : Path step init steps t) (hm : (s, a) ∈ steps) :
    ∃ before after s', steps = before ++ (s, a) :: after ∧ Path step init before s ∧
      step s a s' ∧ Path step init (before ++ [(s, a)]) s' := by
  obtain ⟨before, after, rfl⟩ := List.append_of_mem hm
  obtain ⟨hbefore, s', hstep, -⟩ := middle_iff.mp h
  exact ⟨before, after, s', rfl, hbefore, hstep, .snoc hbefore hstep⟩

/-- An invariant of the steps whose pre-state and label satisfy `C` holds after every run
all of whose steps satisfy `C`. -/
theorem invariant_of {C : σ → ℓ → Prop} {I : σ → Prop} {init t : σ} {steps : List (σ × ℓ)}
    (h : Path step init steps t) (h0 : I init)
    (hstep : ∀ s a s', I s → C s a → step s a s' → I s')
    (hC : ∀ p ∈ steps, C p.1 p.2) : I t := by
  induction h with
  | nil => exact h0
  | @snoc steps u v b _ hs ih =>
      have hlast : C u b := hC (u, b) (by simp)
      exact hstep u b v (ih fun p hp => hC p (by simp [hp])) hlast hs

/-- An invariant of all steps holds after every run. -/
theorem invariant {I : σ → Prop} {init t : σ} {steps : List (σ × ℓ)}
    (h : Path step init steps t) (h0 : I init)
    (hstep : ∀ s a s', I s → step s a s' → I s') : I t :=
  h.invariant_of (C := fun _ _ => True) h0 (fun s a s' hs _ => hstep s a s' hs) (by simp)

/-- A property that runs can only lose, that holds as long as all steps satisfy `C` and that any
other step destroys: it tells whether all steps of a run have satisfied `C`. -/
theorem holds_iff {C : σ → ℓ → Prop} {I G : σ → Prop} {init t : σ} {steps : List (σ × ℓ)}
    (h : Path step init steps t) (h0 : I init)
    (hstep : ∀ s a s', I s → C s a → step s a s' → I s') (hgood : ∀ s, I s → G s)
    (hback : ∀ s a s', step s a s' → G s' → G s)
    (hbad : ∀ s a s', I s → ¬ C s a → step s a s' → ¬ G s') :
    G t ↔ ∀ p ∈ steps, C p.1 p.2 := by
  refine ⟨fun hg => ?_, fun hC => hgood t (h.invariant_of h0 hstep hC)⟩
  induction h with
  | nil => simp
  | @snoc steps u v b hp hs ih =>
      have hbefore := ih (hback u b v hs hg)
      intro p hp'
      obtain hp' | hp' := List.mem_append.mp hp'
      · exact hbefore p hp'
      · obtain rfl := List.mem_singleton.mp hp'
        by_contra hC
        exact hbad u b v (hp.invariant_of h0 hstep hbefore) hC hs hg

/-- A sequence of states, each a step after the one before it, is a run. -/
theorem of_chain {s : ℕ → σ} {a : ℕ → ℓ} {n : ℕ}
    (h : ∀ k < n, step (s k) (a k) (s (k + 1))) :
    Path step (s 0) ((List.range n).map fun k => (s k, a k)) (s n) := by
  induction n with
  | zero => exact .nil
  | succ n ih =>
      have hbefore := ih fun k hk => h k (by omega)
      rw [List.range_succ, List.map_append]
      exact .snoc hbefore (h n (by omega))

/-- Runs of a step function with the same labels are the same. -/
theorem unique {init t t' : σ} {steps steps' : List (σ × ℓ)} (h : Path step init steps t)
    (h' : Path step init steps' t')
    (hstep : ∀ s a t t', step s a t → step s a t' → t = t')
    (hlabels : steps.map Prod.snd = steps'.map Prod.snd) : steps = steps' ∧ t = t' := by
  induction h generalizing steps' t' with
  | nil =>
      obtain rfl : steps' = [] := List.map_eq_nil_iff.mp hlabels.symm
      exact ⟨rfl, (nil_iff.mp h').symm⟩
  | @snoc steps s t a _ hs ih =>
      rw [List.map_append] at hlabels
      obtain ⟨before, last, rfl, hbefore, hlast⟩ := List.map_eq_append_iff.mp hlabels.symm
      obtain ⟨⟨u, b⟩, rfl, rfl⟩ := List.map_eq_singleton_iff.mp hlast
      obtain ⟨hpath, hs'⟩ := snoc_iff.mp h'
      obtain ⟨rfl, rfl⟩ := ih hpath hbefore.symm
      exact ⟨rfl, hstep s b t t' hs hs'⟩

/-- A measure that the counted steps lower and the others do not raise bounds their number. -/
theorem countP_le {init t : σ} {steps : List (σ × ℓ)} {I : σ → Prop} {f : σ → ℕ} {p : ℓ → Bool}
    (h : Path step init steps t) (h0 : I init)
    (hstep : ∀ s a t, I s → step s a t → I t ∧ f t + (if p a then 1 else 0) ≤ f s) :
    I t ∧ steps.countP (fun e => p e.2) + f t ≤ f init := by
  induction h with
  | nil => exact ⟨h0, by simp⟩
  | @snoc steps s t a _ hs ih =>
      obtain ⟨hI, hcount⟩ := ih
      obtain ⟨ht, hle⟩ := hstep s a t hI hs
      refine ⟨ht, ?_⟩
      rw [List.countP_append, List.countP_singleton]
      dsimp only
      omega

/-- A goal can be reached when, as long as it has not been, some step lowers a measure. -/
theorem exists_reaching {I G : σ → Prop} {f : σ → ℕ}
    (hprogress : ∀ s, I s → ¬ G s → ∃ a t, step s a t ∧ I t ∧ f t < f s) {s : σ} (hs : I s) :
    ∃ steps t, Path step s steps t ∧ G t := by
  induction hn : f s using Nat.strong_induction_on generalizing s with
  | h n ih =>
      by_cases hG : G s
      · exact ⟨[], s, .nil, hG⟩
      · obtain ⟨a, t, hstep, ht, hlt⟩ := hprogress s hs hG
        obtain ⟨steps, u, hpath, hu⟩ := ih (f t) (hn ▸ hlt) ht rfl
        exact ⟨[(s, a)] ++ steps, u, append_iff.mpr ⟨t, Path.nil.snoc hstep, hpath⟩, hu⟩

end Path

section Turns

variable {σ τ ω : Type*} {ℓ κ α β : Type*} {step : σ → ℓ → σ → Prop}

theorem filterMap_snoc (f : α → Option β) (l : List α) (x : α) :
    (l ++ [x]).filterMap f = l.filterMap f ++ (f x).toList := by
  cases h : f x <;> simp [h]

theorem filterMap_toList (f : α → Option β) (l : List α) (x : Option α) :
    (l ++ x.toList).filterMap f = l.filterMap f ++ (x.bind f).toList := by
  cases x with
  | none => simp
  | some x => exact filterMap_snoc f l x

/-- The turn that a step completes, if it does, with the state that the turn sees. -/
def turnOf (view : σ → τ) (op : σ → ℓ → Option κ) (p : σ × ℓ) : Option (τ × κ) :=
  (op p.1 p.2).map fun k => (view p.1, k)

namespace Path

variable {init s : σ} {steps : List (σ × ℓ)}

/-- The turns of a run make a run. -/
theorem turns (astep : τ → κ → τ → Prop) (view : σ → τ) (op : σ → ℓ → Option κ)
    (h : Path step init steps s)
    (hturn : ∀ before s a s', Path step init before s → step s a s' →
      (op s a).elim (view s' = view s) fun k => astep (view s) k (view s')) :
    Path astep (view init) (steps.filterMap (turnOf view op)) (view s) := by
  induction h with
  | nil => exact .nil
  | @snoc steps s s' a hpath hstep ih =>
      have hlast := hturn steps s a s' hpath hstep
      rw [filterMap_snoc, turnOf]
      cases hop : op s a with
      | none =>
          rw [hop] at hlast
          have hsame : view s' = view s := hlast
          simpa [hsame] using ih
      | some k =>
          rw [hop] at hlast
          exact ih.snoc hlast

/-- A run that may lose what is pending brings out no more than its turns have made, in order. -/
theorem delivered_sublist {turn : σ × ℓ → Option β} (made : β → Option ω)
    (out : σ × ℓ → Option ω) (pending : σ → Option ω) (h : Path step init steps s)
    (hinit : pending init = none)
    (hout : ∀ before s a s', Path step init before s → step s a s' →
      ((out (s, a)).toList ++ (pending s').toList).Sublist
        ((pending s).toList ++ ((turn (s, a)).bind made).toList)) :
    (steps.filterMap out ++ (pending s).toList).Sublist
      ((steps.filterMap turn).filterMap made) := by
  induction h with
  | nil => simp [hinit]
  | @snoc steps s s' a hpath hstep ih =>
      have hlast := hout steps s a s' hpath hstep
      rw [filterMap_snoc, filterMap_snoc, filterMap_toList, List.append_assoc]
      refine ((List.Sublist.refl _).append hlast).trans ?_
      rw [← List.append_assoc]
      exact ih.append (List.Sublist.refl _)

/-- What the turns have made is what has come out and what is pending. -/
theorem delivered {turn : σ × ℓ → Option β} (made : β → Option ω) (out : σ × ℓ → Option ω)
    (pending : σ → Option ω) (h : Path step init steps s) (hinit : pending init = none)
    (hout : ∀ before s a s', Path step init before s → step s a s' →
      (pending s).toList ++ ((turn (s, a)).bind made).toList =
        (out (s, a)).toList ++ (pending s').toList) :
    (steps.filterMap turn).filterMap made = steps.filterMap out ++ (pending s).toList := by
  induction h with
  | nil => simp [hinit]
  | @snoc steps s s' a hpath hstep ih =>
      have hlast := hout steps s a s' hpath hstep
      rw [filterMap_snoc, filterMap_toList, ih, filterMap_snoc, List.append_assoc,
        List.append_assoc, hlast]

/-- What a run can only lose it has had after each of its steps. -/
theorem strengthen {G : σ → Prop} (h : Path step init steps s)
    (hback : ∀ s a s', step s a s' → G s' → G s) (hs : G s) :
    Path (fun s a s' => step s a s' ∧ G s') init steps s := by
  induction h with
  | nil => exact .nil
  | @snoc steps s s' a _ hstep ih => exact .snoc (ih (hback s a s' hstep hs)) ⟨hstep, hs⟩

end Path

end Turns

end Sencd.LabelledPath

namespace Sencd.EntryHistory
open LabelledPath

variable {σ ℓ V E : Type*}

/-- The entry after its events, in order. -/
def replay (apply : E → V → V) (v : V) (events : List E) : V :=
  events.foldl (fun v e => apply e v) v

variable {apply : E → V → V}

@[simp] theorem replay_nil (v : V) : replay apply v [] = v := rfl

@[simp] theorem replay_cons (v : V) (e : E) (events : List E) :
    replay apply v (e :: events) = replay apply (apply e v) events := rfl

@[simp] theorem replay_concat (v : V) (events : List E) (e : E) :
    replay apply v (events ++ [e]) = apply e (replay apply v events) := by
  simp [replay]

/-- A part of the entry that no event changes. -/
theorem replay_frame {W : Type*} {f : V → W} (h : ∀ e v, f (apply e v) = f v) (v : V)
    (events : List E) : f (replay apply v events) = f v := by
  induction events generalizing v with
  | nil => rfl
  | cons e events ih => rw [replay_cons, ih, h]

/-- A part of the entry that the events of one kind step and the others leave alone. -/
theorem replay_count {N : Type*} {f : V → N} {g : N → N} {p : E → Bool}
    (hp : ∀ e v, p e = true → f (apply e v) = g (f v))
    (hf : ∀ e v, p e = false → f (apply e v) = f v) (v : V) (events : List E) :
    f (replay apply v events) = g^[events.countP p] (f v) := by
  induction events using List.reverseRecOn with
  | nil => rfl
  | append_singleton events e ih =>
      rw [replay_concat, List.countP_append]
      cases he : p e with
      | true =>
          have hone : List.countP p [e] = 1 := by simp [he]
          rw [hp e _ he, ih, hone, Function.iterate_succ_apply']
      | false =>
          have hzero : List.countP p [e] = 0 := by simp [he]
          rw [hf e _ he, ih, hzero, Nat.add_zero]

/-- A part of the entry that the events of one kind overwrite is as the last of them left it. -/
theorem replay_last {W : Type*} {f : V → W} {g : E → Option W}
    (h : ∀ e v, f (apply e v) = (g e).getD (f v)) (v : V) (events : List E) :
    f (replay apply v events) = ((events.filterMap g).getLast?).getD (f v) := by
  induction events using List.reverseRecOn with
  | nil => rfl
  | append_singleton events e ih =>
      rw [replay_concat, h, List.filterMap_append]
      cases he : g e with
      | none => simp [ih, he]
      | some w => simp [he]

section Run

variable {step : σ → ℓ → σ → Prop} {entry : σ → Option V} {event : σ × ℓ → Option E}
  {Enters : σ → ℓ → V → Prop}

/-- What a step may do to the entry: set it up, or apply to it the event the step holds. -/
def Tracks (step : σ → ℓ → σ → Prop) (entry : σ → Option V) (event : σ × ℓ → Option E)
    (apply : E → V → V) (Enters : σ → ℓ → V → Prop) : Prop :=
  ∀ s a t v, step s a t → entry t = some v → Enters s a v ∨
    ∃ u, entry s = some u ∧ v = replay apply u (event (s, a)).toList

/-- An entry that a run has reached was set up in one of its steps, has been there since, and
is what the events held for it have made of it. -/
theorem Tracks.origin {init t : σ} {steps : List (σ × ℓ)} {v : V}
    (htracks : Tracks step entry event apply Enters) (h0 : entry init = none)
    (h : Path step init steps t) (hv : entry t = some v) :
    ∃ before s a after u, steps = before ++ (s, a) :: after ∧ Path step init before s ∧
      Enters s a u ∧ (∀ p ∈ after, entry p.1 ≠ none) ∧
      v = replay apply u (after.filterMap event) := by
  induction h generalizing v with
  | nil => simp [h0] at hv
  | @snoc steps s t a hpath hstep ih =>
      obtain henters | ⟨u, hu, rfl⟩ := htracks s a t v hstep hv
      · exact ⟨steps, s, a, [], v, rfl, hpath, henters, by simp, rfl⟩
      · obtain ⟨before, s₁, a₁, after, w, rfl, hbefore, hw, hthere, rfl⟩ := ih hu
        refine ⟨before, s₁, a₁, after ++ [(s, a)], w, by simp, hbefore, hw, ?_, ?_⟩
        · intro p hp
          obtain hp | hp := List.mem_append.mp hp
          · exact hthere p hp
          · rw [List.mem_singleton.mp hp]
            simp [hu]
        · cases he : event (s, a) with
          | none => simp [he]
          | some e => simp [he]

end Run

end Sencd.EntryHistory
