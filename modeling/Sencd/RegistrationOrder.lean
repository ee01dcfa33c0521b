import Sencd.SessionHistory

/-!
# Slots in order of registration

Nothing in the program takes a session out of the table before the server shuts down. A slot,
and with it a tunnel address, is therefore given out once: the sessions fill the table in the
order in which their clients were told of their success, and once 1024 have, no client is
registered again, however many of the others have left.
-/
namespace Sencd
open ByteOrder CallProgram EntryHistory LabelledPath

variable {Buf : ℕ → Type}

section Run

/-- The first `k` slots are occupied and no other. -/
structure FilledTo (m : SessionManager Buf) (k : ℕ) : Prop where
  occupied : ∀ i, m.sessions i ≠ none ↔ i.val < k
  count : m.sessionCount = UInt32.ofNat k

variable {M : Memory Buf} {P : Platform Buf} {m m' : SessionManager Buf} {op : ServerOp Buf}
  {k : ℕ} {i : Fin maxSessions}

theorem startedManager_sessionCount (M : Memory Buf) (identity : CryptoContext Buf)
    (udpSocket : ℤ) : (startedManager M identity udpSocket).sessionCount = 0 := by
  by_cases h : udpSocket < 0 <;>
    simp [startedManager, sessionManagerUdpBind, sessionManagerInit, h]

theorem FilledTo.free_iff (h : FilledTo m k) (hk : k ≤ maxSessions) :
    SlotTable.free m.sessions = some i ↔ i.val = k := by
  rw [SlotTable.free_eq_some, ← not_ne_iff, h.occupied]
  constructor
  · rintro ⟨hi, hbefore⟩
    by_contra hne
    have hlt : k < i.val := by omega
    have hlast := (h.occupied ⟨k, by omega⟩).mp (hbefore ⟨k, by omega⟩ hlt)
    exact absurd hlast (lt_irrefl k)
  · rintro rfl
    exact ⟨lt_irrefl _, fun j hj => (h.occupied j).mpr hj⟩

theorem FilledTo.free_eq_none_iff (h : FilledTo m k) (hk : k ≤ maxSessions) :
    SlotTable.free m.sessions = none ↔ k = maxSessions := by
  rw [SlotTable.free_eq_none]
  simp only [h.occupied]
  constructor
  · intro hall
    by_contra hne
    exact absurd (hall ⟨k, by omega⟩) (lt_irrefl k)
  · rintro rfl i
    exact i.isLt

/-- Steps that neither connect nor remove leave occupied slots occupied and free ones free. -/
theorem FilledTo.kept (h : FilledTo m k) (hstep : ServerStep M P m op m')
    (hconnect : ∀ role socket ip calls, op ≠ .connect role socket ip calls)
    (hkeep : ∀ id, ¬ op.Removes id) : FilledTo m' k := by
  cases hstep with
  | connect hx => exact absurd rfl (hconnect _ _ _ _)
  | remove id => exact absurd (.inl rfl) (hkeep id)
  | disconnectAll => exact absurd (.inr rfl) (hkeep 0)
  | closeUdp => exact ⟨h.occupied, h.count⟩
  | udpListener sender datagram =>
      refine ⟨fun i => ?_, ?_⟩
      · rw [← h.occupied, sessionManagerUdpListener_slot]
        simp
      · obtain he | ⟨j, s, -, -, he⟩ := sessionManagerUdpListener_state P (m := m) sender datagram
        · rw [he, h.count]
        · rw [he, ← h.count]
  | tunSender packet =>
      refine ⟨fun i => ?_, ?_⟩
      · rw [← h.occupied, sessionManagerTunSender_slot]
        simp
      · obtain he | ⟨compressed, j, s, -, he⟩ := sessionManagerTunSender_state P (m := m) packet
        · rw [he, h.count]
        · rw [he, ← h.count]

/-- A step that removes nothing fills the next slot when a client is told of its success, as
long as there is one. -/
theorem FilledTo.step (h : FilledTo m k) (hk : k ≤ maxSessions) (hstep : ServerStep M P m op m')
    (hkeep : ∀ id, ¬ op.Removes id) :
    FilledTo m' (min maxSessions (k + if tellsSuccess (m, op) then 1 else 0)) := by
  cases op with
  | connect role socket ip calls =>
      have htells : tellsSuccess (m, .connect role socket ip calls) = successSent calls := rfl
      rw [htells]
      obtain ⟨rfl, hfull⟩ | ⟨hsent, i, s, hfree, rfl⟩ := hstep.registers
      · have hsame : min maxSessions (k + if successSent calls then 1 else 0) = k := by
          cases hsent : successSent calls with
          | false => simpa using hk
          | true =>
              have hlast := (h.free_eq_none_iff hk).mp (hfull hsent)
              simp [hlast]
        rwa [hsame]
      · have hi := (h.free_iff hk).mp hfree
        have hnext : min maxSessions (k + if successSent calls then 1 else 0) = i.val + 1 := by
          have hlt := i.isLt
          simp only [hsent, if_true]
          omega
        rw [hnext]
        refine ⟨fun j => ?_, ?_⟩
        · by_cases hj : j = i
          · simp [hj]
          · rw [SessionManager.stored_sessions, Function.update_of_ne hj, h.occupied]
            have hne : j.val ≠ i.val := fun he => hj (Fin.ext he)
            omega
        · have hcount : (m.stored i s).sessionCount = m.sessionCount + 1 := rfl
          rw [hcount, h.count, hi]
          simp
  | _ =>
      have hkept := h.kept hstep nofun hkeep
      simpa [tellsSuccess, hk] using hkept

/-- As long as nothing is removed, the occupied slots are as many as the clients that were told
of their success, up to the size of the table. -/
theorem ServerRun.filledTo {identity : CryptoContext Buf} {udpSocket : ℤ}
    {steps : List (SessionManager Buf × ServerOp Buf)}
    (h : ServerRun M P identity udpSocket steps m)
    (hkeep : ∀ p ∈ steps, ∀ id, ¬ p.2.Removes id) :
    FilledTo m (min maxSessions (steps.countP tellsSuccess)) := by
  induction h with
  | nil => exact ⟨by simp, startedManager_sessionCount M identity udpSocket⟩
  | @snoc steps m m' op hrun hstep ih =>
      have hbefore := ih fun p hp => hkeep p (List.mem_append_left _ hp)
      have hnext := hbefore.step (min_le_left _ _) hstep fun id => hkeep (m, op) (by simp) id
      have hcount : min maxSessions ((steps ++ [(m, op)]).countP tellsSuccess) =
          min maxSessions (min maxSessions (steps.countP tellsSuccess) +
            if tellsSuccess (m, op) then 1 else 0) := by
        rw [List.countP_append, List.countP_singleton]
        omega
      rwa [hcount]

/-- The session `s` in slot `i` was established by connection number `i` of those whose client
was told of its success, and its events since have made it what it is. -/
def InTurn (M : Memory Buf) (P : Platform Buf) (identity : CryptoContext Buf)
    (steps : List (SessionManager Buf × ServerOp Buf)) (i : Fin maxSessions) (s : Session Buf) :
    Prop :=
  ∃ before m₀ op after s₀, steps = before ++ (m₀, op) :: after ∧
    before.countP tellsSuccess = i.val ∧ Connected M P identity i m₀ op s₀ ∧
    (∀ p ∈ after, p.1.sessions i ≠ none) ∧
    s = replay SlotEvent.apply (s₀.placedAt i) (after.filterMap (slotEvent P i))

/-- Until the server shuts down, the table holds the sessions of the first 1024 clients that
were told of their success, in that order; from then on no connection is registered. -/
theorem slots_in_order {identity : CryptoContext Buf} {udpSocket : ℤ}
    {steps : List (SessionManager Buf × ServerOp Buf)}
    (h : ServerRun M P identity udpSocket steps m)
    (hkeep : ∀ p ∈ steps, ∀ id, ¬ p.2.Removes id) :
    FilledTo m (min maxSessions (steps.countP tellsSuccess)) ∧
      (∀ i s, m.sessions i = some s → InTurn M P identity steps i s) ∧
      (maxSessions ≤ steps.countP tellsSuccess → ∀ role socket ip calls m',
        ServerStep M P m (.connect role socket ip calls) m' → m' = m) := by
  have hfilled := h.filledTo hkeep
  refine ⟨hfilled, fun i s hs => ?_, fun hfull role socket ip calls m' hstep => ?_⟩
  · obtain ⟨before, m₀, op, after, -, rfl, hbefore, ⟨s₀, rfl, hs₀⟩, hoccupied, hs⟩ :=
      slotTracks.origin (by simp) h hs
    rw [ServerRun.identity hbefore] at hs₀
    refine ⟨before, m₀, op, after, s₀, rfl, ?_, hs₀, hoccupied, hs⟩
    have hearlier := ServerRun.filledTo hbefore fun p hp => hkeep p (List.mem_append_left _ hp)
    have hi := (hearlier.free_iff (min_le_left _ _)).mp hs₀.free
    have hlt := i.isLt
    omega
  · rw [min_eq_left hfull] at hfilled
    have hnone := (hfilled.free_eq_none_iff le_rfl).mpr rfl
    obtain ⟨rfl, -⟩ | ⟨-, i, s, hfree, -⟩ := hstep.registers
    · rfl
    · simp [hnone] at hfree

/-- Three clients have connected. -/
theorem slots_in_order_guests :
    FilledTo (guestManager 3) (min maxSessions ((guests 3).countP tellsSuccess)) ∧
      (∀ i s, (guestManager 3).sessions i = some s →
        InTurn msgMemory (copyPlatform MsgBuf) (identityOf 0) (guests 3) i s) ∧
      (maxSessions ≤ (guests 3).countP tellsSuccess → ∀ role socket ip calls m',
        ServerStep msgMemory (copyPlatform MsgBuf) (guestManager 3)
          (.connect role socket ip calls) m' → m' = guestManager 3) := by
  refine slots_in_order (guests_run (show 3 ≤ maxSessions by decide)) fun p hp id => ?_
  obtain ⟨k, -, rfl⟩ := List.mem_map.mp hp
  simp [ServerOp.Removes]

end Run

end Sencd
