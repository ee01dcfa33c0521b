import Mathlib.Tactic

/-!
# Programs that call their environment

A program either returns a value or issues a call and continues with the answer it gets.
Answers are chosen outside the program, so one program has many executions: `Exec p t q`
says that the answered calls `t` take `p` to the rest `q`. Programs are finite trees; an
execution is therefore never longer than the tree is deep, and no fuel is needed.
-/
namespace Sencd.CallProgram
universe u w

/-- A program over calls `ι`, whose call `i` is answered in `ρ i`. -/
inductive Prog (ι : Type u) (ρ : ι → Type w) (α : Type w)
  | ret (a : α) : Prog ι ρ α
  | call (i : ι) (k : ρ i → Prog ι ρ α) : Prog ι ρ α

variable {ι : Type u} {ρ : ι → Type w} {α β : Type w}

/-- One answered call. -/
abbrev Event (ρ : ι → Type w) := (i : ι) × ρ i

namespace Prog

def bind (p : Prog ι ρ α) (f : α → Prog ι ρ β) : Prog ι ρ β :=
  match p with
  | ret a => f a
  | call i k => call i fun r => bind (k r) f

/-- Issue one call and return its answer. -/
def perform (i : ι) : Prog ι ρ (ρ i) := call i ret

instance : Monad (Prog ι ρ) where
  pure := ret
  bind := bind

@[simp] theorem pure_eq_ret (a : α) : (pure a : Prog ι ρ α) = ret a := rfl

@[simp] theorem ret_bind (a : α) (f : α → Prog ι ρ β) : (ret a : Prog ι ρ α) >>= f = f a := rfl

@[simp] theorem call_bind (i : ι) (k : ρ i → Prog ι ρ α) (f : α → Prog ι ρ β) :
    (call i k) >>= f = call i fun r => k r >>= f := rfl

@[simp] theorem perform_bind (i : ι) (f : ρ i → Prog ι ρ β) :
    (perform i : Prog ι ρ (ρ i)) >>= f = call i f := rfl

theorem bind_assoc {γ : Type w} (p : Prog ι ρ α) (f : α → Prog ι ρ β) (g : β → Prog ι ρ γ) :
    p >>= f >>= g = p >>= fun a => f a >>= g := by
  induction p with
  | ret a => rfl
  | call i k ih =>
      simp only [call_bind]
      congr 1
      ext r
      exact ih r

end Prog

open Prog

/-- `Exec p t q`: answering the calls of `p` as recorded in `t` leaves `q` to be run. -/
inductive Exec : Prog ι ρ α → List (Event ρ) → Prog ι ρ α → Prop
  | nil (p : Prog ι ρ α) : Exec p [] p
  | cons {i : ι} {r : ρ i} {k : ρ i → Prog ι ρ α} {t : List (Event ρ)} {q : Prog ι ρ α} :
      Exec (k r) t q → Exec (call i k) (⟨i, r⟩ :: t) q

/-- A returned program makes no further calls. -/
@[simp] theorem exec_ret {a : α} {t : List (Event ρ)} {q : Prog ι ρ α} :
    Exec (ret a) t q ↔ t = [] ∧ q = ret a := by
  constructor
  · intro h
    cases h
    exact ⟨rfl, rfl⟩
  · rintro ⟨rfl, rfl⟩
    exact .nil _

/-- A calling program either waits at its call or has been answered. -/
theorem exec_call {i : ι} {k : ρ i → Prog ι ρ α} {t : List (Event ρ)} {q : Prog ι ρ α} :
    Exec (call i k) t q ↔
      (t = [] ∧ q = call i k) ∨ ∃ r u, t = ⟨i, r⟩ :: u ∧ Exec (k r) u q := by
  constructor
  · intro h
    cases h with
    | nil => exact .inl ⟨rfl, rfl⟩
    | cons h => exact .inr ⟨_, _, rfl, h⟩
  · rintro (⟨rfl, rfl⟩ | ⟨r, u, rfl, h⟩)
    · exact .nil _
    · exact .cons h

/-- A calling program that has returned has been answered. -/
theorem exec_call_ret {i : ι} {k : ρ i → Prog ι ρ α} {t : List (Event ρ)} {a : α} :
    Exec (call i k) t (ret a) ↔ ∃ r u, t = ⟨i, r⟩ :: u ∧ Exec (k r) u (ret a) := by
  simp [exec_call]

theorem exec_append {p q : Prog ι ρ α} {t u : List (Event ρ)} :
    Exec p (t ++ u) q ↔ ∃ m, Exec p t m ∧ Exec m u q := by
  constructor
  · intro h
    induction t generalizing p with
    | nil => exact ⟨p, .nil p, h⟩
    | cons e t ih =>
        cases h with
        | cons h =>
            obtain ⟨m, hm, hq⟩ := ih h
            exact ⟨m, .cons hm, hq⟩
  · rintro ⟨m, hm, hq⟩
    induction hm with
    | nil => exact hq
    | cons _ ih => exact .cons (ih hq)

/-- The answers determine how far a program gets. -/
theorem exec_unique {p q q' : Prog ι ρ α} {t : List (Event ρ)} (h : Exec p t q)
    (h' : Exec p t q') : q = q' := by
  induction h with
  | nil =>
      cases h'
      rfl
  | cons _ ih =>
      cases h' with
      | cons h' => exact ih h'

/-- A program that has returned has nothing left to call. -/
theorem exec_ret_append {p : Prog ι ρ α} {t u : List (Event ρ)} {a b : α}
    (h : Exec p t (ret a)) (h' : Exec p (t ++ u) (ret b)) : u = [] ∧ a = b := by
  obtain ⟨m, hm, hu⟩ := exec_append.mp h'
  obtain rfl := exec_unique h hm
  obtain ⟨rfl, he⟩ := exec_ret.mp hu
  exact ⟨rfl, (ret.inj he).symm⟩

/-- Running a sequence stops inside its first part or goes on with its second. -/
theorem exec_bind {p : Prog ι ρ α} {f : α → Prog ι ρ β} {t : List (Event ρ)} {q : Prog ι ρ β} :
    Exec (p >>= f) t q ↔
      (∃ i k, Exec p t (call i k) ∧ q = call i k >>= f) ∨
      ∃ a u v, t = u ++ v ∧ Exec p u (ret a) ∧ Exec (f a) v q := by
  constructor
  · intro h
    induction p generalizing t with
    | ret a => exact .inr ⟨a, [], t, rfl, .nil _, h⟩
    | call i k ih =>
        rw [call_bind, exec_call] at h
        obtain ⟨rfl, rfl⟩ | ⟨r, u, rfl, h⟩ := h
        · exact .inl ⟨i, k, .nil _, rfl⟩
        · obtain ⟨j, m, hm, rfl⟩ | ⟨a, v, w, rfl, hv, hw⟩ := ih r h
          · exact .inl ⟨j, m, .cons hm, rfl⟩
          · exact .inr ⟨a, ⟨i, r⟩ :: v, w, rfl, .cons hv, hw⟩
  · rintro (⟨i, k, h, rfl⟩ | ⟨a, u, v, rfl, hu, hv⟩)
    · generalize hm : call i k = m at h ⊢
      induction h with
      | nil => exact .nil _
      | cons _ ih => exact .cons (ih hm)
    · generalize hm : ret a = m at hu
      induction hu with
      | nil => subst hm; exact hv
      | cons _ ih => exact .cons (ih hm)

/-- A sequence has returned exactly when both of its parts have. -/
theorem exec_bind_ret {p : Prog ι ρ α} {f : α → Prog ι ρ β} {t : List (Event ρ)} {b : β} :
    Exec (p >>= f) t (ret b) ↔
      ∃ a u v, t = u ++ v ∧ Exec p u (ret a) ∧ Exec (f a) v (ret b) := by
  rw [exec_bind]
  constructor
  · rintro (⟨i, k, -, h⟩ | h)
    · cases h
    · exact h
  · exact .inr

section Interpret

variable {κ : Type u} {σ : κ → Type w} (f : (i : ι) → Prog κ σ (ρ i))

/-- Replace every call by a program over other calls. -/
def Prog.interpret : Prog ι ρ α → Prog κ σ α
  | ret a => ret a
  | call i k => f i >>= fun r => interpret (k r)

/-- `Realizes f t u`: the calls `u` are those of the programs that stand for the calls `t`. -/
inductive Realizes : List (Event ρ) → List (Event σ) → Prop
  | nil : Realizes [] []
  | cons {i : ι} {r : ρ i} {t : List (Event ρ)} {u v : List (Event σ)} :
      Exec (f i) u (ret r) → Realizes t v → Realizes (⟨i, r⟩ :: t) (u ++ v)

theorem Prog.interpret_bind (p : Prog ι ρ α) (g : α → Prog ι ρ β) :
    (p >>= g).interpret f = p.interpret f >>= fun a => (g a).interpret f := by
  induction p with
  | ret a => rfl
  | call i k ih =>
      simp only [call_bind, Prog.interpret, Prog.bind_assoc]
      congr 1
      ext r
      exact ih r

variable {f}

/-- The executions of an interpreted program are those of the program, call by call. -/
theorem exec_interpret {p : Prog ι ρ α} {u : List (Event σ)} {a : α} :
    Exec (p.interpret f) u (ret a) ↔ ∃ t, Exec p t (ret a) ∧ Realizes f t u := by
  constructor
  · intro h
    induction p generalizing u with
    | ret b =>
        obtain ⟨rfl, he⟩ := exec_ret.mp h
        obtain rfl := Prog.ret.inj he
        exact ⟨[], .nil _, .nil⟩
    | call i k ih =>
        obtain ⟨r, v, w, rfl, hv, hw⟩ := exec_bind_ret.mp h
        obtain ⟨t, ht, hrest⟩ := ih r hw
        exact ⟨⟨i, r⟩ :: t, .cons ht, .cons hv hrest⟩
  · rintro ⟨t, ht, hu⟩
    induction p generalizing t u with
    | ret b =>
        obtain ⟨rfl, he⟩ := exec_ret.mp ht
        obtain rfl := Prog.ret.inj he
        cases hu with
        | nil => exact .nil _
    | call i k ih =>
        cases ht with
        | cons ht =>
            cases hu with
            | cons hv hrest => exact exec_bind_ret.mpr ⟨_, _, _, rfl, hv, ih _ _ ht hrest⟩

end Interpret

/-- `Holds P Q h p`: when `h` has been answered already, every call `p` issues satisfies `P`
and every value it returns satisfies `Q`, each together with the calls answered by then. -/
def Holds (P : List (Event ρ) → ι → Prop) (Q : List (Event ρ) → α → Prop) :
    List (Event ρ) → Prog ι ρ α → Prop
  | h, ret a => Q h a
  | h, call i k => P h i ∧ ∀ r, Holds P Q (h ++ [⟨i, r⟩]) (k r)

section Holds

variable {P : List (Event ρ) → ι → Prop} {Q Q' : List (Event ρ) → α → Prop}
  {R : List (Event ρ) → β → Prop} {h t : List (Event ρ)}

@[simp] theorem holds_ret {a : α} : Holds P Q h (ret a) ↔ Q h a := Iff.rfl

/-- Sequencing: the second part starts from what the first one establishes. -/
theorem Holds.bind {p : Prog ι ρ α} {f : α → Prog ι ρ β} (hp : Holds P Q h p)
    (hf : ∀ h' a, Q h' a → Holds P R h' (f a)) : Holds P R h (p >>= f) := by
  induction p generalizing h with
  | ret a => exact hf h a hp
  | call i k ih => exact ⟨hp.1, fun r => ih r (hp.2 r)⟩

theorem Holds.mono {p : Prog ι ρ α} (hp : Holds P Q h p) (hQ : ∀ h' a, Q h' a → Q' h' a) :
    Holds P Q' h p := by
  induction p generalizing h with
  | ret a => exact hQ h a hp
  | call i k ih => exact ⟨hp.1, fun r => ih r (hp.2 r)⟩

/-- The calls answered before stay in front. -/
theorem Holds.extends {p : Prog ι ρ α} (hp : Holds P Q h p) :
    Holds P (fun h' a => Q h' a ∧ h <+: h') h p := by
  induction p generalizing h with
  | ret a => exact ⟨hp, List.prefix_rfl⟩
  | call i k ih =>
      refine ⟨hp.1, fun r => (ih r (hp.2 r)).mono fun h' a hQ => ⟨hQ.1, ?_⟩⟩
      exact (List.prefix_append h _).trans hQ.2

/-- A branch on the success of a call. -/
theorem holds_ite {c : Prop} [Decidable c] {p q : Prog ι ρ α} (hp : c → Holds P Q h p)
    (hq : ¬ c → Holds P Q h q) : Holds P Q h (if c then p else q) := by
  by_cases hc : c
  · rw [if_pos hc]
    exact hp hc
  · rw [if_neg hc]
    exact hq hc

/-- The condition on the calls can be weakened. -/
theorem Holds.weaken {P' : List (Event ρ) → ι → Prop} {p : Prog ι ρ α} (hp : Holds P Q h p)
    (hP : ∀ h' i, P h' i → P' h' i) : Holds P' Q h p := by
  induction p generalizing h with
  | ret a => exact hp
  | call i k ih => exact ⟨hP h i hp.1, fun r => ih r (hp.2 r)⟩

theorem Holds.of_true (p : Prog ι ρ α) : Holds (fun _ _ => True) (fun _ _ => True) h p := by
  induction p generalizing h with
  | ret a => exact trivial
  | call i k ih => exact ⟨trivial, fun r => ih r⟩

/-- A condition on the calls alone does not depend on what went before. -/
theorem Holds.anywhere {P : ι → Prop} {p : Prog ι ρ α} (hp : Holds (fun _ i => P i) Q h p)
    (h' : List (Event ρ)) : Holds (fun _ i => P i) (fun _ _ => True) h' p := by
  induction p generalizing h h' with
  | ret a => exact trivial
  | call i k ih => exact ⟨hp.1, fun r => ih r (hp.2 r) _⟩

/-- A call that is waiting for its answer satisfies the call condition. -/
theorem Holds.site {p : Prog ι ρ α} (hp : Holds P Q h p) {i : ι} {k : ρ i → Prog ι ρ α}
    (hx : Exec p t (call i k)) : P (h ++ t) i := by
  generalize hq : call i k = q at hx
  induction hx generalizing h with
  | nil =>
      subst hq
      simpa using hp.1
  | cons _ ih => simpa using ih (hp.2 _) hq

/-- So does a call that has been answered, with what was answered before it. -/
theorem Holds.site_of_mem {p q : Prog ι ρ α} (hp : Holds P Q h p) (hx : Exec p t q) {e : Event ρ}
    (he : e ∈ t) : ∃ u v, t = u ++ e :: v ∧ P (h ++ u) e.1 := by
  obtain ⟨u, v, rfl⟩ := List.append_of_mem he
  obtain ⟨m, hm, hrest⟩ := exec_append.mp hx
  cases hrest with
  | cons _ => exact ⟨u, v, rfl, hp.site hm⟩

/-- A returned value satisfies the postcondition. -/
theorem Holds.post {p : Prog ι ρ α} (hp : Holds P Q h p) {a : α} (hx : Exec p t (ret a)) :
    Q (h ++ t) a := by
  generalize hq : ret a = q at hx
  induction hx generalizing h with
  | nil =>
      subst hq
      simpa using hp
  | cons _ ih => simpa using ih (hp.2 _) hq

end Holds

/-- `AtMost w b p`: on every execution of `p` the calls weigh at most `b` together. -/
def AtMost (w : ι → ℕ) : ℕ → Prog ι ρ α → Prop
  | _, ret _ => True
  | b, call i k => w i ≤ b ∧ ∀ r, AtMost w (b - w i) (k r)

section AtMost

variable {w : ι → ℕ} {b c : ℕ} {p : Prog ι ρ α}

@[simp] theorem atMost_ret {a : α} : AtMost w b (ret a : Prog ι ρ α) := by
  unfold AtMost
  trivial

theorem atMost_call {i : ι} {k : ρ i → Prog ι ρ α} :
    AtMost w b (call i k) ↔ w i ≤ b ∧ ∀ r, AtMost w (b - w i) (k r) := by
  rw [AtMost]

theorem AtMost.mono (h : AtMost w b p) (hb : b ≤ c) : AtMost w c p := by
  induction p generalizing b c with
  | ret a => exact atMost_ret
  | call i k ih =>
      obtain ⟨hi, hk⟩ := atMost_call.mp h
      exact atMost_call.mpr ⟨by omega, fun r => ih r (hk r) (by omega)⟩

theorem AtMost.bind {f : α → Prog ι ρ β} (h : AtMost w b p) (hf : ∀ a, AtMost w c (f a)) :
    AtMost w (b + c) (p >>= f) := by
  induction p generalizing b with
  | ret a => exact (hf a).mono (by omega)
  | call i k ih =>
      obtain ⟨hi, hk⟩ := atMost_call.mp h
      refine atMost_call.mpr ⟨by omega, fun r => ?_⟩
      have hr := ih r (hk r)
      rwa [← Nat.sub_add_comm hi] at hr

/-- The recorded calls of an execution stay within the bound. -/
theorem AtMost.sum_le (h : AtMost w b p) {t : List (Event ρ)} {q : Prog ι ρ α}
    (hx : Exec p t q) : (t.map fun e => w e.1).sum ≤ b := by
  induction hx generalizing b with
  | nil => simp
  | cons _ ih =>
      obtain ⟨hi, hk⟩ := atMost_call.mp h
      have hr := ih (hk _)
      simp only [List.map_cons, List.sum_cons]
      omega

/-- With a bound of one, there is at most one call of positive weight. -/
theorem AtMost.unique (h : AtMost w 1 p) {t : List (Event ρ)} {q : Prog ι ρ α}
    (hx : Exec p t q) {e e' : Event ρ} (he : e ∈ t) (he' : e' ∈ t) (hw : 0 < w e.1)
    (hw' : 0 < w e'.1) : e = e' := by
  have hsum := h.sum_le hx
  by_contra hne
  obtain ⟨u, v, rfl⟩ := List.append_of_mem he
  have hrest : e' ∈ u ++ v := by
    simp only [List.mem_append, List.mem_cons] at he' ⊢
    obtain he' | rfl | he' := he'
    · exact .inl he'
    · exact absurd rfl hne
    · exact .inr he'
  have hle : w e'.1 ≤ ((u ++ v).map fun e => w e.1).sum :=
    List.single_le_sum (by simp) _ (List.mem_map_of_mem hrest)
  simp only [List.map_append, List.map_cons, List.sum_append, List.sum_cons] at hsum hle
  omega

end AtMost

end Sencd.CallProgram
