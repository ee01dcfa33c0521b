import Sencd.Guests

/-!
# Announced and registered sessions

The server sends `AUTH_SUCCESS` before `session_manager_add` has found a slot for the session.
A client whose handshake completes is therefore registered when a slot is free at that
moment, and is left with a destroyed session when the table is full.
-/
namespace Sencd
open CallProgram LabelledPath

variable {Buf : ℕ → Type}

variable (M : Memory Buf) (P : Platform Buf)

section Step

variable [DecidableEq (Buf cryptoPublicKeySize)]

/-- A client at the other end of the connection has completed its handshake with session `s`:
each of the two has received what the other sent. -/
def ClientCompleted (calls : Calls Buf) (s : Session Buf) : Prop :=
  ∃ socket ip identity trusted calls',
    Exec (clientHandshake M socket ip identity trusted) calls' (.ret (0, s)) ∧
    receivedFrames calls' = sentFrames calls ∧ receivedFrames calls = sentFrames calls'

variable {M P} {m m' : SessionManager Buf} {calls : Calls Buf} {s : Session Buf}

theorem ClientCompleted.state (h : ClientCompleted M calls s) : s.state = .established := by
  obtain ⟨socket, ip, identity, trusted, calls', hx, -, -⟩ := h
  obtain ⟨c, hs⟩ := ((clientHandshake_holds M socket ip).post hx).2 rfl
  exact hs.state

/-- The id and nonce the client holds were announced to it. -/
theorem ClientCompleted.announced (h : ClientCompleted M calls s) {role : SessionRole} {socket : ℤ}
    {ip : List Char} {r : SessionManager Buf × Option (Session Buf)}
    (hx : Exec (sessionManagerConnect M m role socket ip) calls (.ret r)) :
    Announced M calls ⟨s.sessionNonce, s.sessionId⟩ := by
  obtain ⟨socket', ip', identity, trusted, calls', hx', hframes, -⟩ := h
  obtain ⟨c, hs⟩ := ((clientHandshake_holds M socket' ip').post hx').2 rfl
  obtain ⟨payload, ⟨fd, packet, hm, htype, hpayload⟩, he⟩ := hs.success
  have hreceived := mem_receivedFrames hm
  rw [List.nil_append, hframes] at hreceived
  obtain ⟨fd', hsent⟩ := mem_sentFrames hreceived
  obtain ⟨before, after, hcalls, hsite⟩ :=
    (sessionManagerConnect_holds M m role socket ip).site_of_mem hx hsent
  refine ⟨fd', packet, hsent, htype, ?_⟩
  rw [hpayload]
  obtain hnone | ⟨n, pk, sk, signature, -, -, -, hchallenge⟩ | ⟨n, id, -, hsuccess⟩ := hsite
  · simp [hnone] at hpayload
  · rw [hchallenge] at hpayload
    have hlength : sizeofAuthChallenge = sizeofAuthSuccess :=
      congrArg Payload.length (Option.some.inj hpayload)
    exact absurd hlength (by decide)
  · rw [hsuccess] at hpayload
    obtain ⟨-, hdata⟩ := Payload.mk.inj (Option.some.inj hpayload)
    obtain rfl := eq_of_heq hdata
    rw [he, AuthSuccess.ofBuf_toBuf]

/-- The connection of a client that has completed is registered exactly when the table had a
free slot, or holds the id already. -/
theorem ServerStep.connect_registers {role : SessionRole} {socket : ℤ} {ip : List Char}
    (hstep : ServerStep M P m (.connect role socket ip calls) m') (hc : ClientCompleted M calls s) :
    sessionManagerGet m' s.sessionId ≠ none ↔
      SlotTable.free m.sessions ≠ none ∨ sessionManagerGet m s.sessionId ≠ none := by
  have hannounced : Announced M calls ⟨s.sessionNonce, s.sessionId⟩ := by
    cases hstep with
    | connect hx => exact hc.announced hx
  obtain ⟨rfl, hfull⟩ | ⟨t, t', -, hid, hadd⟩ := hstep.connectResult
  · have hnone := hfull _ hannounced
    constructor
    · exact .inr
    · rintro (hfree | hget)
      · exact absurd hnone hfree
      · exact hget
  · obtain ⟨i, hfree, rfl, rfl⟩ := sessionManagerAdd_eq_some.mp hadd
    have hsame : s.sessionId = t.sessionId := congrArg AuthSuccess.sessionId (hid _ hannounced)
    refine iff_of_true ?_ (.inl (by simp [hfree]))
    refine sessionManagerGet_ne_none.mpr ⟨i, t.placedAt i, ?_, hsame.symm⟩
    simp

end Step

section Run

variable [DecidableEq (Buf cryptoPublicKeySize)]

/-- Clients that have completed their handshake are in the table, or have been removed since. -/
def Registered (steps : List (SessionManager Buf × ServerOp Buf)) (m : SessionManager Buf) : Prop :=
  ∀ before m₀ role socket ip calls after s,
    steps = before ++ (m₀, .connect role socket ip calls) :: after → ClientCompleted M calls s →
    sessionManagerGet m s.sessionId ≠ none ∨ ∃ p ∈ after, p.2.Removes s.sessionId

/-- Whenever a client completes, a slot is free or its id is in the table already. -/
def SlotForCompleted (steps : List (SessionManager Buf × ServerOp Buf)) : Prop :=
  ∀ m₀ role socket ip calls s, (m₀, .connect role socket ip calls) ∈ steps →
    ClientCompleted M calls s →
    SlotTable.free m₀.sessions ≠ none ∨ sessionManagerGet m₀ s.sessionId ≠ none

variable {M P} {m m' : SessionManager Buf} {steps : List (SessionManager Buf × ServerOp Buf)}

/-- One step keeps the completed clients registered unless it completes one without a slot. -/
theorem Registered.step {op : ServerOp Buf} (h : Registered M steps m)
    (hstep : ServerStep M P m op m') (hslot : SlotForCompleted M (steps ++ [(m, op)])) :
    Registered M (steps ++ [(m, op)]) m' := by
  intro before m₀ role socket ip calls after s hsteps hc
  obtain rfl | ⟨after, last, rfl⟩ := List.eq_nil_or_concat after
  · obtain ⟨rfl, hlast⟩ := List.append_inj' hsteps rfl
    obtain ⟨rfl, rfl⟩ := Prod.mk.inj (List.cons.inj hlast).1
    exact .inl ((hstep.connect_registers hc).mpr (hslot m role socket ip calls s (by simp) hc))
  · rw [List.concat_eq_append, ← List.cons_append, ← List.append_assoc] at hsteps
    obtain ⟨hbefore, hlast⟩ := List.append_inj' hsteps rfl
    obtain rfl := (List.cons.inj hlast).1
    rw [List.concat_eq_append]
    obtain hget | ⟨p, hp, hremoves⟩ := h before m₀ role socket ip calls after s hbefore hc
    · by_cases hop : op.Removes s.sessionId
      · exact .inr ⟨(m, op), by simp, hop⟩
      · exact .inl (hstep.get_ne_none M P hget hop)
    · exact .inr ⟨p, List.mem_append_left _ hp, hremoves⟩

/-- Throughout a run the completed clients are registered exactly when each of them completed
while a slot was free. -/
theorem registered_iff {identity : CryptoContext Buf} {udpSocket : ℤ}
    (h : ServerRun M P identity udpSocket steps m) :
    (∀ before m', before <+: steps → ServerRun M P identity udpSocket before m' →
      Registered M before m') ↔ SlotForCompleted M steps := by
  constructor
  · intro hregistered m₀ role socket ip calls s hm hc
    obtain ⟨before, after, m'', hsteps, -, hstep, hnext⟩ := h.split hm
    have hpre : before ++ [(m₀, .connect role socket ip calls)] <+: steps :=
      ⟨after, by simp [hsteps]⟩
    obtain hget | ⟨p, hp, -⟩ :=
      hregistered _ m'' hpre hnext before m₀ role socket ip calls [] s rfl hc
    · exact (hstep.connect_registers hc).mp hget
    · simp at hp
  · intro hslot before m' hpre hrun
    have hbefore : SlotForCompleted M before := fun m₀ role socket ip calls s hm =>
      hslot m₀ role socket ip calls s (hpre.subset hm)
    clear hpre h
    induction hrun with
    | nil =>
        intro before m₀ role socket ip calls after s hsteps
        simp at hsteps
    | snoc _ hstep ih =>
        have hinit := ih fun m₀ role socket ip calls s hm =>
          hbefore m₀ role socket ip calls s (List.mem_append_left _ hm)
        exact hinit.step hstep hbefore

end Run

section Runs

/-- The client completes its handshake, whatever the server closes afterwards. -/
theorem guest_completed (k : ℕ) (fds : List ℤ) :
    ClientCompleted msgMemory (guestCalls k ++ fds.map fun fd => ⟨.close fd, ()⟩)
      (guestClient k) := by
  refine ⟨4, [], identityOf (k + 1), some (keyPublic 0), guestClientCalls k, guestClient_exec k,
    ?_, ?_⟩
  · rw [sentFrames_append, sentFrames_closes, List.append_nil]
    rfl
  · rw [receivedFrames_append, receivedFrames_closes, List.append_nil]
    rfl

/-- The first client is registered. -/
theorem registered_first : Registered msgMemory (guests 1) (guestManager 1) := by
  have hrun := guests_run (show 1 ≤ maxSessions by decide)
  refine (registered_iff hrun).mpr ?_ (guests 1) _ (List.prefix_refl _) hrun
  intro m₀ role socket ip calls s hm _
  obtain ⟨rfl, -⟩ := Prod.mk.inj (List.mem_singleton.mp hm)
  refine .inl ?_
  rw [SessionManager.free_filled (by simp [maxSessions])]
  simp

/-- With a full table a client completes and is not registered. -/
theorem not_registered : ¬ ∀ steps m,
    ServerRun msgMemory (copyPlatform MsgBuf) (identityOf 0) 5 steps m →
    Registered msgMemory steps m := by
  intro hall
  have hfree : SlotTable.free (guestManager maxSessions).sessions = none :=
    SessionManager.free_filled_max
  have hfull := connect_step_full msgMemory (copyPlatform MsgBuf) (guestSocket maxSessions)
    (guestId maxSessions) (guestServerAnswers maxSessions) hfree
  rw [guestManager_identity] at hfull
  have hrun := (guests_run le_rfl).snoc hfull
  have hcompleted := guest_completed maxSessions (sessionDestroy msgMemory
    (guestSession maxSessions)).2
  obtain hget | ⟨p, hp, -⟩ := hall _ _ hrun _ _ _ _ _ _ [] _ rfl hcompleted
  · obtain ⟨i, s, hs, hid⟩ := sessionManagerGet_ne_none.mp hget
    rw [SessionManager.filled_of_lt i.isLt] at hs
    obtain rfl := Option.some.inj hs
    have hi := i.isLt
    have hsame : i = maxSessions := guestId_injective (by omega) le_rfl hid
    omega
  · simp at hp

end Runs

end Sencd
