import Sencd.CallProgram
import Sencd.EventLogs
import Sencd.Session

/-!
# Calls on sockets

The system calls with which the listener, a connection and a UDP tunnel get, use and close
their descriptor. An object that owns one descriptor stores it while it is active, and -1 else.
-/
namespace Sencd
open CallProgram DescriptorLog

inductive SocketCall
  | socket
  | setsockopt (fd : ℤ)
  | bind (fd : ℤ) (port : UInt16)
  | listen (fd : ℤ)
  | inetPton (ip : List Char)
  | connect (fd : ℤ) (addr : SockaddrIn)
  | close (fd : ℤ)

/-- `socket` answers a negative number when it fails, `inetPton` none when it does not return
1, and the others `false`. -/
@[reducible] def SocketCall.Answer : SocketCall → Type
  | .socket => ℤ
  | .setsockopt _ => Bool
  | .bind _ _ => Bool
  | .listen _ => Bool
  | .inetPton _ => Option UInt32
  | .connect _ _ => Bool
  | .close _ => Unit

abbrev SocketProg (α : Type) := Prog SocketCall SocketCall.Answer α

abbrev SocketCalls := List (Event SocketCall.Answer)

/-- What a call does to the descriptors of its caller. -/
def socketEvent : Event SocketCall.Answer → Option (FdEvent ℤ)
  | ⟨.socket, fd⟩ => if 0 ≤ fd then some (.opened fd) else none
  | ⟨.close fd, _⟩ => some (.closed fd)
  | _ => none

def fdLog (calls : SocketCalls) : FdLog ℤ := calls.filterMap socketEvent

def closeSockets : List ℤ → SocketProg Unit
  | [] => return ()
  | fd :: fds => do
    Prog.perform (SocketCall.close fd)
    closeSockets fds

/-- One returned call on an object, with the descriptors it has been given and has closed. -/
inductive CallStep {Op O : Type} (run : Op → O → SocketProg (ℕ × O)) :
    O × FdLog ℤ → Op → O × FdLog ℤ → Prop
  | call {op : Op} {o o' : O} {code : ℕ} {log : FdLog ℤ} {calls : SocketCalls} :
      Exec (run op o) calls (.ret (code, o')) →
      CallStep run (o, log) op (o', log ++ fdLog calls)

/-- The end of a step that may have failed: `cleanup` undoes what the owner has done before. -/
def orCleanup {O : Type} (cleanup : O → O × List ℤ) (o : O) (ok : Bool) : SocketProg (ℕ × O) :=
  if ok then return (0, o)
  else do
    closeSockets (cleanup o).2
    return (1, (cleanup o).1)

section Rules

variable {α : Type} {P : SocketCalls → SocketCall → Prop} {Q : SocketCalls → α → Prop}
  {calls : SocketCalls}

theorem holds_socketCall {c : SocketCall} {f : c.Answer → SocketProg α} (hc : P calls c)
    (hf : ∀ r, Holds P Q (calls ++ [⟨c, r⟩]) (f r)) : Holds P Q calls (Prog.perform c >>= f) :=
  ⟨hc, hf⟩

@[simp] theorem fdLog_nil : fdLog [] = [] := rfl

@[simp] theorem fdLog_append (calls calls' : SocketCalls) :
    fdLog (calls ++ calls') = fdLog calls ++ fdLog calls' := List.filterMap_append

theorem fdLog_socket {fd : ℤ} (h : 0 ≤ fd) : fdLog [⟨.socket, fd⟩] = [.opened fd] := by
  simp [fdLog, socketEvent, h]

theorem fdLog_no_socket {fd : ℤ} (h : fd < 0) : fdLog [⟨.socket, fd⟩] = [] := by
  simp [fdLog, socketEvent, h]

@[simp] theorem fdLog_setsockopt (fd : ℤ) (ok : Bool) : fdLog [⟨.setsockopt fd, ok⟩] = [] := rfl

@[simp] theorem fdLog_bind (fd : ℤ) (port : UInt16) (ok : Bool) :
    fdLog [⟨.bind fd port, ok⟩] = [] := rfl

@[simp] theorem fdLog_listen (fd : ℤ) (ok : Bool) : fdLog [⟨.listen fd, ok⟩] = [] := rfl

@[simp] theorem fdLog_inetPton (ip : List Char) (addr : Option UInt32) :
    fdLog [⟨.inetPton ip, addr⟩] = [] := rfl

@[simp] theorem fdLog_connect (fd : ℤ) (addr : SockaddrIn) (ok : Bool) :
    fdLog [⟨.connect fd addr, ok⟩] = [] := rfl

@[simp] theorem fdLog_close (fd : ℤ) (r : Unit) : fdLog [⟨.close fd, r⟩] = [.closed fd] := rfl

/-- Closing adds the descriptors to the log. -/
theorem holds_closeSockets {fds : List ℤ} {f : Unit → SocketProg α}
    (hP : ∀ calls' fd, P calls' (.close fd))
    (hf : ∀ calls', fdLog calls' = fdLog calls ++ closes fds → Holds P Q calls' (f ())) :
    Holds P Q calls (closeSockets fds >>= f) := by
  induction fds generalizing calls with
  | nil => exact hf calls (by simp)
  | cons fd fds ih =>
      refine ⟨hP calls fd, fun _ => ih fun calls' hcalls => hf calls' ?_⟩
      rw [hcalls, fdLog_append, fdLog_close]
      simp [closes]

theorem holds_orCleanup {O : Type} {cleanup : O → O × List ℤ} {o : O} {ok : Bool}
    {Q : SocketCalls → ℕ × O → Prop} (hok : Q calls (0, o))
    (hfail : ∀ calls', fdLog calls' = fdLog calls ++ closes (cleanup o).2 →
      Q calls' (1, (cleanup o).1)) :
    Holds (fun _ _ => True) Q calls (orCleanup cleanup o ok) := by
  cases ok with
  | true => exact hok
  | false => exact holds_closeSockets (fun _ _ => trivial) hfail

end Rules

/-- An owner of one descriptor: it holds the stored one while it is active, and else none. -/
structure Holding (log : FdLog ℤ) (socket : ℤ) (active : Prop) : Prop where
  opens : OpensFree log
  closes : ClosesHeld log
  held_active : active → 0 ≤ socket ∧ held log = {socket}
  held_idle : ¬ active → socket = -1 ∧ held log = ∅

/-- How a call that opens a descriptor comes out: the code, what the owner stores and what has
been opened and closed. -/
inductive Attempted : ℕ → ℤ → FdLog ℤ → Prop
  | opened (fd : ℤ) : 0 ≤ fd → Attempted 0 fd [.opened fd]
  | failed : Attempted 1 (-1) []
  | abandoned (fd : ℤ) : 0 ≤ fd → Attempted 1 (-1) [.opened fd, .closed fd]

theorem Attempted.of_zero {fd : ℤ} {log : FdLog ℤ} (h : Attempted 0 fd log) :
    0 ≤ fd ∧ log = [.opened fd] := by
  cases h with
  | opened _ hfd => exact ⟨hfd, rfl⟩

theorem Attempted.of_ne {code : ℕ} {fd : ℤ} {log : FdLog ℤ} (h : Attempted code fd log)
    (hcode : code ≠ 0) : Attempted 1 fd log := by
  cases h with
  | opened _ _ => exact absurd rfl hcode
  | failed => exact .failed
  | abandoned fd hfd => exact .abandoned fd hfd

section Holding

variable {log fresh : FdLog ℤ} {socket socket' : ℤ} {active active' : Prop} {code : ℕ}

theorem Holding.idle : Holding [] (-1) False where
  opens := opensFree_nil
  closes := closesHeld_nil
  held_active := False.elim
  held_idle _ := ⟨rfl, held_nil⟩

theorem Holding.congr (h : Holding log socket active) (hactive : active ↔ active') :
    Holding log socket active' :=
  ⟨h.opens, h.closes, fun ha => h.held_active (hactive.mpr ha),
    fun ha => h.held_idle (hactive.not.mpr ha)⟩

/-- An owner that holds nothing may try to open a descriptor. -/
theorem Holding.attempt (h : Holding log socket active) (hidle : ¬ active)
    (hattempt : Attempted code socket' fresh) : Holding (log ++ fresh) socket' (code = 0) := by
  obtain ⟨-, hheld⟩ := h.held_idle hidle
  have hfree : ∀ fd, OpensFree (log ++ [.opened fd]) :=
    fun fd => opensFree_opened.mpr ⟨h.opens, by simp [hheld]⟩
  have hopened : ∀ fd, ClosesHeld (log ++ [.opened fd]) :=
    fun fd => closesHeld_opened.mpr h.closes
  cases hattempt with
  | opened fd hfd =>
      exact ⟨hfree socket', hopened socket', fun _ => ⟨hfd, by simp [hheld]⟩,
        fun hcode => absurd rfl hcode⟩
  | failed =>
      rw [List.append_nil]
      exact ⟨h.opens, h.closes, fun hcode => by simp at hcode, fun _ => ⟨rfl, hheld⟩⟩
  | abandoned fd hfd =>
      rw [← List.singleton_append, ← List.append_assoc]
      refine ⟨opensFree_closed.mpr (hfree fd), ?_, fun hcode => by simp at hcode,
        fun _ => ⟨rfl, ?_⟩⟩
      · rw [closesHeld_closed, held_opened]
        exact ⟨hopened fd, Set.mem_insert _ _⟩
      · rw [held_closed, held_opened, hheld]
        simp

/-- An owner may close what it stores. -/
theorem Holding.release (h : Holding log socket active) (hactive : active) :
    Holding (log ++ [.closed socket]) (-1) False := by
  obtain ⟨-, hheld⟩ := h.held_active hactive
  refine ⟨opensFree_closed.mpr h.opens, ?_, False.elim, fun _ => ⟨rfl, by simp [hheld]⟩⟩
  rw [closesHeld_closed, hheld]
  exact ⟨h.closes, rfl⟩

/-- Every descriptor has been closed once for each time it was opened, but for the stored one of
an active owner. -/
theorem Holding.count [Decidable active] (h : Holding log socket active) (fd : ℤ) :
    log.count (.opened fd) =
      log.count (.closed fd) + if active ∧ fd = socket then 1 else 0 := by
  obtain ⟨hin, hout⟩ := count_opened h.opens h.closes fd
  by_cases hactive : active
  · obtain ⟨-, hheld⟩ := h.held_active hactive
    rw [hheld, Set.mem_singleton_iff] at hin hout
    by_cases hfd : fd = socket
    · simpa [hactive, hfd] using hin hfd
    · simpa [hactive, hfd] using hout hfd
  · obtain ⟨-, hheld⟩ := h.held_idle hactive
    rw [hheld] at hout
    simpa [hactive] using hout (Set.notMem_empty fd)

end Holding

end Sencd
