import Mathlib.Order.GameAdd
import Sencd.CallProgram

/-!
# Two programs joined by streams

Two programs write to each other through two FIFO streams. A send takes any positive part of
its data and a receive any positive part of what has arrived, up to its limit; every other call
is answered by the environment of the program. A program is fragmentable when taking less only
leads to a call for the rest. Then neither the order of the steps nor the cuts matter: if one
run ends, every run ends, and in the same state.
-/
namespace Sencd.StreamNetwork
open CallProgram Prog Relation

/-- Calls on a stream of `α`, beside the calls `ι` to the environment. -/
inductive StreamCall (α ι : Type)
  | send (data : List α)
  | recv (limit : ℕ)
  | own (i : ι)

/-- A send returns how much it has taken, a receive what it has delivered; zero and the empty
chunk stand for failure. -/
@[reducible] def StreamCall.Answer {α ι : Type} (ρ : ι → Type) : StreamCall α ι → Type
  | .send data => Fin (data.length + 1)
  | .recv limit => { chunk : List α // chunk.length ≤ limit }
  | .own i => ρ i

abbrev StreamProg (α : Type) {ι : Type} (ρ : ι → Type) (β : Type) :=
  Prog (StreamCall α ι) (StreamCall.Answer ρ) β

variable {α ι : Type} {ρ : ι → Type} {β γ : Type}

/-- After a part has been transferred the program asks for the rest, and goes on as if the two
transfers had been one. -/
def Fragmentable : StreamProg α ρ β → Prop
  | .ret _ => True
  | .call (.send data) k => (∀ sent, Fragmentable (k sent)) ∧
      ∀ sent : Fin (data.length + 1), 0 < sent.val → sent.val < data.length →
        ∃ rest k', rest = data.drop sent.val ∧ k sent = .call (.send rest) k' ∧
          ∀ (more : Fin (rest.length + 1)) (total : Fin (data.length + 1)), 0 < more.val →
            total.val = sent.val + more.val → k' more = k total
  | .call (.recv limit) k => (∀ chunk, Fragmentable (k chunk)) ∧
      ∀ chunk : { chunk : List α // chunk.length ≤ limit }, chunk.1 ≠ [] →
        chunk.1.length < limit →
        ∃ limit' k', limit' = limit - chunk.1.length ∧ k chunk = .call (.recv limit') k' ∧
          ∀ more total, more.1 ≠ [] → total.1 = chunk.1 ++ more.1 → k' more = k total
  | .call (.own _) k => ∀ r, Fragmentable (k r)

/-- A sequence of fragmentable programs is fragmentable. -/
theorem Fragmentable.bind {p : StreamProg α ρ β} {f : β → StreamProg α ρ γ}
    (hp : Fragmentable p) (hf : ∀ b, Fragmentable (f b)) : Fragmentable (p >>= f) := by
  induction p with
  | ret b => exact hf b
  | call i k ih =>
      cases i with
      | send data =>
          refine ⟨fun sent => ih sent (hp.1 sent), fun sent hpos hlt => ?_⟩
          obtain ⟨rest, k', hrest, hk, hsame⟩ := hp.2 sent hpos hlt
          exact ⟨rest, fun more => k' more >>= f, hrest, congrArg (· >>= f) hk,
            fun more total hmore htotal => congrArg (· >>= f) (hsame more total hmore htotal)⟩
      | recv limit =>
          refine ⟨fun chunk => ih chunk (hp.1 chunk), fun chunk hne hlt => ?_⟩
          obtain ⟨limit', k', hlimit, hk, hsame⟩ := hp.2 chunk hne hlt
          exact ⟨limit', fun more => k' more >>= f, hlimit, congrArg (· >>= f) hk,
            fun more total hmore htotal => congrArg (· >>= f) (hsame more total hmore htotal)⟩
      | own i => exact fun r => ih r (hp r)

/-- A program with the number of its calls that the environment has answered. -/
structure Party (α : Type) {ι : Type} (ρ : ι → Type) (β : Type) where
  program : StreamProg α ρ β
  turn : ℕ

section Party

variable (env : ℕ → (i : ι) → ρ i)

/-- One step of a program: what is left of its inbox, and what it adds to the other one. -/
inductive PartyStep : Party α ρ β → List α → Party α ρ β → List α → List α → Prop
  | send {data : List α} {k : Fin (data.length + 1) → StreamProg α ρ β} {n : ℕ}
      {inbox : List α} (sent : Fin (data.length + 1)) : 0 < sent.val →
      PartyStep ⟨.call (.send data) k, n⟩ inbox ⟨k sent, n⟩ inbox (data.take sent.val)
  | recv {limit : ℕ} {k : { chunk : List α // chunk.length ≤ limit } → StreamProg α ρ β} {n : ℕ}
      {inbox rest : List α} (chunk : { chunk : List α // chunk.length ≤ limit }) :
      chunk.1 ≠ [] → inbox = chunk.1 ++ rest →
      PartyStep ⟨.call (.recv limit) k, n⟩ inbox ⟨k chunk, n⟩ rest []
  | own {i : ι} {k : ρ i → StreamProg α ρ β} {n : ℕ} {inbox : List α} :
      PartyStep ⟨.call (.own i) k, n⟩ inbox ⟨k (env n i), n + 1⟩ inbox []

variable {env} {P P' Q Q' R : Party α ρ β} {inbox inbox' inbox'' out out' : List α}

/-- More data behind the inbox does not hinder a step. -/
theorem PartyStep.append (h : PartyStep env P inbox P' inbox' out) (more : List α) :
    PartyStep env P (inbox ++ more) P' (inbox' ++ more) out := by
  cases h with
  | send sent hpos => exact .send sent hpos
  | recv chunk hne hinbox => exact .recv chunk hne (by rw [hinbox, List.append_assoc])
  | own => exact .own

theorem PartyStep.fragmentable (h : PartyStep env P inbox P' inbox' out)
    (hP : Fragmentable P.program) : Fragmentable P'.program := by
  cases h with
  | send sent _ => exact hP.1 sent
  | recv chunk _ _ => exact hP.1 chunk
  | own => exact hP _

/-- A smaller send can be completed to a larger one. -/
theorem PartyStep.send_more {data : List α} {k : Fin (data.length + 1) → StreamProg α ρ β} {n : ℕ}
    (hk : Fragmentable (.call (.send data) k : StreamProg α ρ β))
    {sent total : Fin (data.length + 1)}
    (hpos : 0 < sent.val) (hlt : sent.val < total.val) :
    ∃ more, PartyStep env ⟨k sent, n⟩ inbox ⟨k total, n⟩ inbox more ∧
      data.take sent.val ++ more = data.take total.val := by
  have htotal : total.val ≤ data.length := Nat.lt_succ_iff.mp total.isLt
  obtain ⟨rest, k', hrest, hcall, hsame⟩ := hk.2 sent hpos (by omega)
  have hlen : rest.length = data.length - sent.val := by rw [hrest, List.length_drop]
  let more : Fin (rest.length + 1) := ⟨total.val - sent.val, by omega⟩
  have hmore : 0 < more.val := Nat.sub_pos_of_lt hlt
  have hkeep : k' more = k total := hsame more total hmore (by dsimp only [more]; omega)
  refine ⟨rest.take more.val, ?_, ?_⟩
  · rw [hcall, ← hkeep]
    exact .send more hmore
  · dsimp only [more]
    rw [hrest, ← List.take_add, Nat.add_sub_cancel' hlt.le]

/-- A smaller receive can be completed to a larger one. -/
theorem PartyStep.recv_more {limit : ℕ}
    {k : { chunk : List α // chunk.length ≤ limit } → StreamProg α ρ β} {n : ℕ}
    (hk : Fragmentable (.call (.recv limit) k : StreamProg α ρ β))
    {chunk total : { chunk : List α // chunk.length ≤ limit }} {rest rest' : List α}
    (hne : chunk.1 ≠ []) (hlt : chunk.1.length < total.1.length)
    (hsplit : chunk.1 ++ rest = total.1 ++ rest') :
    PartyStep env ⟨k chunk, n⟩ rest ⟨k total, n⟩ rest' [] := by
  obtain ⟨more, htotal, hrest⟩ : ∃ more, total.1 = chunk.1 ++ more ∧ rest = more ++ rest' := by
    obtain ⟨more, h, h'⟩ | ⟨more, h, h'⟩ := List.append_eq_append_iff.mp hsplit
    · exact ⟨more, h, h'⟩
    · rw [h, List.length_append] at hlt
      omega
  have hmore : more ≠ [] := by
    rintro rfl
    rw [htotal, List.append_nil] at hlt
    omega
  have hle : total.1.length ≤ limit := total.2
  obtain ⟨limit', k', hlimit, hcall, hsame⟩ := hk.2 chunk hne (by omega)
  have hfit : more.length ≤ limit' := by
    rw [htotal, List.length_append] at hle
    omega
  rw [hcall, ← hsame ⟨more, hfit⟩ total hmore htotal]
  exact .recv ⟨more, hfit⟩ hmore hrest

/-- Two steps of a program differ at most in how much they transfer. -/
theorem PartyStep.join (hP : Fragmentable P.program) (h : PartyStep env P inbox Q inbox' out)
    (h' : PartyStep env P inbox Q' inbox'' out') :
    (Q = Q' ∧ inbox' = inbox'' ∧ out = out') ∨
      (∃ more, PartyStep env Q inbox' Q' inbox'' more ∧ out ++ more = out') ∨
      ∃ more, PartyStep env Q' inbox'' Q inbox' more ∧ out' ++ more = out := by
  cases h with
  | send sent hpos =>
      cases h' with
      | send sent' hpos' =>
          obtain hlt | heq | hlt := lt_trichotomy sent.val sent'.val
          · exact .inr (.inl (send_more hP hpos hlt))
          · obtain rfl := Fin.ext heq
            exact .inl ⟨rfl, rfl, rfl⟩
          · exact .inr (.inr (send_more hP hpos' hlt))
  | recv chunk hne hinbox =>
      cases h' with
      | recv chunk' hne' hinbox' =>
          have hsplit := hinbox.symm.trans hinbox'
          obtain hlt | heq | hlt := lt_trichotomy chunk.1.length chunk'.1.length
          · exact .inr (.inl ⟨[], recv_more hP hne hlt hsplit, rfl⟩)
          · obtain ⟨hchunk, hrest⟩ := List.append_inj hsplit heq
            obtain rfl := Subtype.ext hchunk
            exact .inl ⟨rfl, hrest, rfl⟩
          · exact .inr (.inr ⟨[], recv_more hP hne' hlt hsplit.symm, rfl⟩)
  | own =>
      cases h' with
      | own => exact .inl ⟨rfl, rfl, rfl⟩

variable (env)

/-- The runs of a program alone, on an inbox that is not added to. -/
inductive Runs : Party α ρ β → List α → Party α ρ β → List α → List α → Prop
  | refl (P : Party α ρ β) (inbox : List α) : Runs P inbox P inbox []
  | head {P Q R : Party α ρ β} {inbox inbox' inbox'' out out' : List α} :
      PartyStep env P inbox Q inbox' out → Runs Q inbox' R inbox'' out' →
      Runs P inbox R inbox'' (out ++ out')

variable {env}

theorem Runs.single (h : PartyStep env P inbox Q inbox' out) : Runs env P inbox Q inbox' out := by
  have hrun := Runs.head h (.refl Q inbox')
  rwa [List.append_nil] at hrun

theorem Runs.trans (h : Runs env P inbox Q inbox' out) (h' : Runs env Q inbox' R inbox'' out') :
    Runs env P inbox R inbox'' (out ++ out') := by
  induction h with
  | refl => exact h'
  | head hstep _ ih =>
      rw [List.append_assoc]
      exact .head hstep (ih h')

/-- The environment answers at once. -/
theorem Runs.own {i : ι} {k : ρ i → StreamProg α ρ β} {n : ℕ}
    (h : Runs env ⟨k (env n i), n + 1⟩ inbox Q inbox' out) :
    Runs env ⟨.call (.own i) k, n⟩ inbox Q inbox' out :=
  .head .own h

/-- All of the data can be sent at once. -/
theorem Runs.send {data : List α} (k : Fin (data.length + 1) → StreamProg α ρ β) {n : ℕ}
    (h : data ≠ []) :
    Runs env ⟨.call (.send data) k, n⟩ inbox ⟨k (Fin.last data.length), n⟩ inbox data := by
  have hstep := @PartyStep.send α ι ρ β env data k n inbox (Fin.last data.length)
    (List.length_pos_iff.mpr h)
  rw [Fin.val_last, List.take_length] at hstep
  exact .single hstep

/-- A chunk that has arrived and fits can be received at once. -/
theorem Runs.recv {limit : ℕ} (k : { chunk : List α // chunk.length ≤ limit } → StreamProg α ρ β)
    {n : ℕ} {rest : List α} (chunk : { chunk : List α // chunk.length ≤ limit })
    (h : chunk.1 ≠ []) :
    Runs env ⟨.call (.recv limit) k, n⟩ (chunk.1 ++ rest) ⟨k chunk, n⟩ rest [] :=
  .single (.recv chunk h rfl)

/-- A run of the first part is a run of the sequence. -/
theorem Runs.bind {p q : StreamProg α ρ β} {n m : ℕ} (h : Runs env ⟨p, n⟩ inbox ⟨q, m⟩ inbox' out)
    (f : β → StreamProg α ρ γ) : Runs env ⟨p >>= f, n⟩ inbox ⟨q >>= f, m⟩ inbox' out := by
  generalize hP : (⟨p, n⟩ : Party α ρ β) = P at h
  generalize hQ : (⟨q, m⟩ : Party α ρ β) = Q at h
  induction h generalizing p n with
  | refl P inbox =>
      obtain ⟨rfl, rfl⟩ := Party.mk.inj (hP.trans hQ.symm)
      exact .refl _ _
  | head hstep _ ih =>
      subst hP
      cases hstep with
      | send sent hpos => exact .head (.send sent hpos) (ih rfl hQ)
      | recv chunk hne hinbox => exact .head (.recv chunk hne hinbox) (ih rfl hQ)
      | own => exact .head .own (ih rfl hQ)

end Party

/-- `Fed t s s'`: the receives in `t` have delivered `s` up to the rest `s'`, and failed only
when nothing was left. -/
def Fed : List (Event (StreamCall.Answer (α := α) ρ)) → List α → List α → Prop
  | [], s, s' => s' = s
  | ⟨.send _, _⟩ :: t, s, s' => Fed t s s'
  | ⟨.recv limit, chunk⟩ :: t, s, s' => (chunk.1 = [] → s = [] ∨ limit = 0) ∧
      ∃ rest, s = chunk.1 ++ rest ∧ Fed t rest s'
  | ⟨.own _, _⟩ :: t, s, s' => Fed t s s'

/-- No send in `t` has failed. -/
def AllSent (t : List (Event (StreamCall.Answer (α := α) ρ))) : Prop :=
  ∀ (data : List α) (sent : Fin (data.length + 1)), ⟨.send data, sent⟩ ∈ t → 0 < sent.val

section Fed

variable {t u : List (Event (StreamCall.Answer (α := α) ρ))} {s s' s'' : List α}

@[simp] theorem fed_nil : Fed (ρ := ρ) [] s s' ↔ s' = s := by
  unfold Fed
  rfl

@[simp] theorem fed_send {data : List α} {sent : Fin (data.length + 1)} :
    Fed (ρ := ρ) (⟨.send data, sent⟩ :: t) s s' ↔ Fed t s s' := by
  rw [Fed]

@[simp] theorem fed_own {i : ι} {r : ρ i} : Fed (⟨.own i, r⟩ :: t) s s' ↔ Fed t s s' := by
  rw [Fed]

theorem fed_recv {limit : ℕ} {chunk : { chunk : List α // chunk.length ≤ limit }} :
    Fed (ρ := ρ) (⟨.recv limit, chunk⟩ :: t) s s' ↔ (chunk.1 = [] → s = [] ∨ limit = 0) ∧
      ∃ rest, s = chunk.1 ++ rest ∧ Fed t rest s' := by
  rw [Fed]

theorem fed_append : Fed (t ++ u) s s'' ↔ ∃ s', Fed t s s' ∧ Fed u s' s'' := by
  induction t generalizing s with
  | nil => simp
  | cons e t ih =>
      obtain ⟨i, r⟩ := e
      cases i with
      | send data => simp only [List.cons_append, fed_send, ih]
      | own i => simp only [List.cons_append, fed_own, ih]
      | recv limit =>
          simp only [List.cons_append, fed_recv, ih]
          constructor
          · rintro ⟨hempty, rest, hs, s', ht, hu⟩
            exact ⟨s', ⟨hempty, rest, hs, ht⟩, hu⟩
          · rintro ⟨s', ⟨hempty, rest, hs, ht⟩, hu⟩
            exact ⟨hempty, rest, hs, s', ht, hu⟩

theorem allSent_nil : AllSent ([] : List (Event (StreamCall.Answer (α := α) ρ))) := by
  simp [AllSent]

theorem allSent_append : AllSent (t ++ u) ↔ AllSent t ∧ AllSent u := by
  simp only [AllSent, List.mem_append, or_imp, forall_and]

theorem allSent_send {data : List α} {sent : Fin (data.length + 1)} :
    AllSent (ρ := ρ) (⟨.send data, sent⟩ :: t) ↔ 0 < sent.val ∧ AllSent t := by
  constructor
  · intro h
    exact ⟨h data sent (by simp), fun data' sent' hmem => h data' sent' (by simp [hmem])⟩
  · rintro ⟨hpos, h⟩ data' sent' hmem
    obtain he | hmem := List.mem_cons.mp hmem
    · cases he
      exact hpos
    · exact h data' sent' hmem

theorem allSent_recv {limit : ℕ} {chunk : { chunk : List α // chunk.length ≤ limit }} :
    AllSent (ρ := ρ) (⟨.recv limit, chunk⟩ :: t) ↔ AllSent t := by
  simp [AllSent]

theorem allSent_own {i : ι} {r : ρ i} :
    AllSent (α := α) (⟨.own i, r⟩ :: t) ↔ AllSent t := by
  simp [AllSent]

end Fed

/-- A send that asks for something to be sent. -/
def StreamCall.Sends : StreamCall α ι → Prop
  | .send data => data ≠ []
  | _ => True

/-- Whatever arrives, a program comes to its end, also if none of its sends fails. -/
theorem exists_fed (own : (i : ι) → ρ i) {p : StreamProg α ρ β}
    {h : List (Event (StreamCall.Answer (α := α) ρ))}
    (hp : Holds (fun _ c => c.Sends) (fun _ _ => True) h p) (s : List α) :
    ∃ t b s', Exec p t (.ret b) ∧ Fed t s s' ∧ AllSent t ∧
      ∀ i r, ⟨.own i, r⟩ ∈ t → r = own i := by
  induction p generalizing h s with
  | ret b => exact ⟨[], b, s, .nil _, fed_nil.mpr rfl, allSent_nil, by simp⟩
  | call c k ih =>
      cases c with
      | send data =>
          obtain ⟨t, b, s', ht, hf, hsent, hown⟩ := ih (Fin.last data.length) (hp.2 _) s
          have hpos : 0 < (Fin.last data.length).val := List.length_pos_iff.mpr hp.1
          exact ⟨_, b, s', .cons ht, fed_send.mpr hf, allSent_send.mpr ⟨hpos, hsent⟩,
            by simpa using hown⟩
      | recv limit =>
          obtain ⟨t, b, s', ht, hf, hsent, hown⟩ :=
            ih ⟨s.take limit, List.length_take_le _ _⟩ (hp.2 _) (s.drop limit)
          refine ⟨_, b, s', .cons ht, fed_recv.mpr ⟨fun hempty => ?_, s.drop limit, ?_, hf⟩,
            allSent_recv.mpr hsent, by simpa using hown⟩
          · exact (List.take_eq_nil_iff.mp hempty).symm
          · exact (List.take_append_drop limit s).symm
      | own i =>
          obtain ⟨t, b, s', ht, hf, hsent, hown⟩ := ih (own i) (hp.2 _) s
          refine ⟨_, b, s', .cons ht, fed_own.mpr hf, allSent_own.mpr hsent, fun j r hr => ?_⟩
          obtain he | hr := List.mem_cons.mp hr
          · cases he
            rfl
          · exact hown j r hr

/-- Two programs and the streams towards each of them. -/
structure Network (α : Type) {ι κ : Type} (ρ : ι → Type) (σ : κ → Type) (β γ : Type) where
  left : Party α ρ β
  right : Party α σ γ
  toRight : List α
  toLeft : List α

section Network

variable {κ : Type} {σ : κ → Type} (env : ℕ → (i : ι) → ρ i) (env' : ℕ → (i : κ) → σ i)

/-- One of the programs takes a step. -/
inductive Step : Network α ρ σ β γ → Network α ρ σ β γ → Prop
  | left {P P' : Party α ρ β} {Q : Party α σ γ} {toRight toLeft toLeft' out : List α} :
      PartyStep env P toLeft P' toLeft' out →
      Step ⟨P, Q, toRight, toLeft⟩ ⟨P', Q, toRight ++ out, toLeft'⟩
  | right {P : Party α ρ β} {Q Q' : Party α σ γ} {toRight toRight' toLeft out : List α} :
      PartyStep env' Q toRight Q' toRight' out →
      Step ⟨P, Q, toRight, toLeft⟩ ⟨P, Q', toRight', toLeft ++ out⟩

/-- Both programs are fragmentable. -/
def Network.Fragmentable (c : Network α ρ σ β γ) : Prop :=
  StreamNetwork.Fragmentable c.left.program ∧ StreamNetwork.Fragmentable c.right.program

variable {env env'} {a b c : Network α ρ σ β γ}

theorem Step.fragmentable (h : Step env env' a b) (ha : a.Fragmentable) : b.Fragmentable := by
  cases h with
  | left hstep => exact ⟨hstep.fragmentable ha.1, ha.2⟩
  | right hstep => exact ⟨ha.1, hstep.fragmentable ha.2⟩

/-- Steps of different programs commute. -/
theorem Step.commute {P P' : Party α ρ β} {Q Q' : Party α σ γ}
    {toRight toRight' toLeft toLeft' out out' : List α}
    (h : PartyStep env P toLeft P' toLeft' out) (h' : PartyStep env' Q toRight Q' toRight' out') :
    Step env env' ⟨P', Q, toRight ++ out, toLeft'⟩ ⟨P', Q', toRight' ++ out, toLeft' ++ out'⟩ ∧
      Step env env' ⟨P, Q', toRight', toLeft ++ out'⟩ ⟨P', Q', toRight' ++ out, toLeft' ++ out'⟩ :=
  ⟨.right (h'.append out), .left (h.append out')⟩

/-- Two steps from one state can be joined by at most one step each. -/
theorem Step.diamond (ha : a.Fragmentable) (hb : Step env env' a b) (hc : Step env env' a c) :
    ∃ d, ReflGen (Step env env') b d ∧ ReflGen (Step env env') c d := by
  cases hb with
  | left h =>
      cases hc with
      | left h' =>
          obtain ⟨rfl, rfl, rfl⟩ | ⟨more, hmore, rfl⟩ | ⟨more, hmore, rfl⟩ := h.join ha.1 h'
          · exact ⟨_, .refl, .refl⟩
          · refine ⟨_, .single (.left hmore), ?_⟩
            rw [List.append_assoc]
          · refine ⟨_, ?_, .single (.left hmore)⟩
            rw [List.append_assoc]
      | right h' =>
          obtain ⟨hright, hleft⟩ := Step.commute h h'
          exact ⟨_, .single hright, .single hleft⟩
  | right h =>
      cases hc with
      | left h' =>
          obtain ⟨hright, hleft⟩ := Step.commute h' h
          exact ⟨_, .single hleft, .single hright⟩
      | right h' =>
          obtain ⟨rfl, rfl, rfl⟩ | ⟨more, hmore, rfl⟩ | ⟨more, hmore, rfl⟩ := h.join ha.2 h'
          · exact ⟨_, .refl, .refl⟩
          · refine ⟨_, .single (.right hmore), ?_⟩
            rw [List.append_assoc]
          · refine ⟨_, ?_, .single (.right hmore)⟩
            rw [List.append_assoc]

/-- Two runs from one state can be joined. -/
theorem Step.confluent (ha : a.Fragmentable) (hb : ReflTransGen (Step env env') a b)
    (hc : ReflTransGen (Step env env') a c) : Join (ReflTransGen (Step env env')) b c := by
  let step (a b : Network α ρ σ β γ) : Prop := a.Fragmentable ∧ Step env env' a b
  have hguarded : ∀ {b : Network α ρ σ β γ}, ReflTransGen (Step env env') a b →
      b.Fragmentable ∧ ReflTransGen step a b := by
    intro b h
    induction h with
    | refl => exact ⟨ha, .refl⟩
    | tail _ hstep ih => exact ⟨hstep.fragmentable ih.1, ih.2.tail ⟨ih.1, hstep⟩⟩
  have hguard : ∀ {b d : Network α ρ σ β γ}, b.Fragmentable → ReflGen (Step env env') b d →
      ReflGen step b d := by
    intro b d hb h
    cases h with
    | refl => exact .refl
    | single hstep => exact .single ⟨hb, hstep⟩
  have hdiamond : ∀ a b c, step a b → step a c → ∃ d, ReflGen step b d ∧ ReflTransGen step c d := by
    intro a b c hb hc
    obtain ⟨d, hbd, hcd⟩ := Step.diamond hb.1 hb.2 hc.2
    have hb' := hb.2.fragmentable hb.1
    have hc' := hc.2.fragmentable hc.1
    exact ⟨d, hguard hb' hbd, (hguard hc' hcd).to_reflTransGen⟩
  obtain ⟨d, hbd, hcd⟩ := church_rosser hdiamond (hguarded hb).2 (hguarded hc).2
  have hforget : ∀ x y, step x y → Step env env' x y := fun x y h => h.2
  exact ⟨d, ReflTransGen.mono hforget _ _ hbd, ReflTransGen.mono hforget _ _ hcd⟩

/-- Every step leads to a proper part of a program. -/
theorem Step.terminates (a : Network α ρ σ β γ) : Acc (fun b a => Step env env' a b) a := by
  have hwf : ∀ {ι : Type} {ρ : ι → Type} {β : Type}, WellFounded fun p q : StreamProg α ρ β =>
      ∃ i k r, q = .call i k ∧ p = k r := by
    intro ι ρ β
    refine ⟨fun q => ?_⟩
    induction q with
    | ret b =>
        refine ⟨_, fun p hp => ?_⟩
        obtain ⟨i, k, r, h, -⟩ := hp
        cases h
    | call i k ih =>
        refine ⟨_, fun p hp => ?_⟩
        obtain ⟨j, k', r, h, rfl⟩ := hp
        cases h
        exact ih r
  have hgame := InvImage.wf
    (fun c : Network α ρ σ β γ => (c.left.program, c.right.program)) (hwf.prod_gameAdd hwf)
  refine Subrelation.accessible (fun {b a} h => ?_) (hgame.apply a)
  cases h with
  | left hstep =>
      refine .fst ?_
      cases hstep with
      | send sent _ => exact ⟨_, _, sent, rfl, rfl⟩
      | recv chunk _ _ => exact ⟨_, _, chunk, rfl, rfl⟩
      | own => exact ⟨_, _, _, rfl, rfl⟩
  | right hstep =>
      refine .snd ?_
      cases hstep with
      | send sent _ => exact ⟨_, _, sent, rfl, rfl⟩
      | recv chunk _ _ => exact ⟨_, _, chunk, rfl, rfl⟩
      | own => exact ⟨_, _, _, rfl, rfl⟩

/-- Every run from `a` is finite, and it gets stuck only in `b`. -/
structure Settles (env : ℕ → (i : ι) → ρ i) (env' : ℕ → (i : κ) → σ i)
    (a b : Network α ρ σ β γ) : Prop where
  terminates : Acc (fun d c => Step env env' c d) a
  reaches : ∀ c, ReflTransGen (Step env env') a c → ReflTransGen (Step env env') c b
  ends : ∀ c, ¬ Step env env' b c

/-- Before its end a run can always go on. -/
theorem Settles.progress (h : Settles env env' a b) (hc : ReflTransGen (Step env env') a c)
    (hne : c ≠ b) : ∃ d, Step env env' c d := by
  obtain rfl | ⟨d, hstep, -⟩ := (h.reaches c hc).cases_head
  · exact absurd rfl hne
  · exact ⟨d, hstep⟩

/-- One run to an end settles them all. -/
theorem settles_of_run (ha : a.Fragmentable) (h : ReflTransGen (Step env env') a b)
    (hends : ∀ c, ¬ Step env env' b c) : Settles env env' a b := by
  refine ⟨Step.terminates a, fun c hc => ?_, hends⟩
  obtain ⟨d, hcd, hbd⟩ := Step.confluent ha hc h
  obtain rfl | ⟨e, hstep, -⟩ := hbd.cases_head
  · exact hcd
  · exact absurd hstep (hends e)

/-- Where both programs have returned no step is left. -/
theorem Step.ends {x : β} {y : γ} {m n : ℕ} {toRight toLeft : List α} :
    ¬ Step env env' ⟨⟨.ret x, m⟩, ⟨.ret y, n⟩, toRight, toLeft⟩ c := by
  intro h
  cases h with
  | left hstep => cases hstep
  | right hstep => cases hstep

variable {P P' : Party α ρ β} {Q Q' : Party α σ γ} {toRight toRight' toLeft toLeft' out : List α}

/-- A run of the left program alone is a run of the network. -/
theorem Runs.left (h : Runs env P toLeft P' toLeft' out) (env' : ℕ → (i : κ) → σ i)
    (Q : Party α σ γ) (toRight : List α) :
    ReflTransGen (Step env env') ⟨P, Q, toRight, toLeft⟩ ⟨P', Q, toRight ++ out, toLeft'⟩ := by
  induction h generalizing toRight with
  | refl =>
      rw [List.append_nil]
  | head hstep _ ih =>
      rw [← List.append_assoc]
      exact .head (.left hstep) (ih _)

theorem Runs.right (h : Runs env' Q toRight Q' toRight' out) (env : ℕ → (i : ι) → ρ i)
    (P : Party α ρ β) (toLeft : List α) :
    ReflTransGen (Step env env') ⟨P, Q, toRight, toLeft⟩ ⟨P, Q', toRight', toLeft ++ out⟩ := by
  induction h generalizing toLeft with
  | refl =>
      rw [List.append_nil]
  | head hstep _ ih =>
      rw [← List.append_assoc]
      exact .head (.right hstep) (ih _)

end Network

end Sencd.StreamNetwork
