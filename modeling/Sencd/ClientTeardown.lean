import Sencd.SessionDescriptors
import Sencd.SocketLifecycles

/-!
# The end of a client

The shell with its `disconnect` command and the receiver thread take a client down. They share
the session and the connection, both of which hold the TCP descriptor, and their checks, calls
and assignments interleave.
-/
namespace Sencd
open CallProgram DescriptorLog LabelledPath

section Threads

/-- Where the shell is: its loop, `cmd_disconnect` and the end of `start_client_environment`. -/
inductive ShellPc
  | loop
  | selected
  | reading
  | disconnectCheck
  | disconnectDestroy
  | disconnectSocket
  | disconnectState
  | disconnectExit
  | executed
  | teardownCheck
  | teardown
  | finished
  deriving DecidableEq

/-- Where `client_receiver` is. -/
inductive ReceiverPc
  | loop
  | receiving
  | loopLeft
  | destroy
  | connectionSocket
  | connectionState
  | exit
  | finished
  deriving DecidableEq

/-- What a turn of a thread does to the data the threads share. -/
inductive TeardownEffect
  | nothing
  | destroySession
  | forgetSocket
  | markDisconnected
  | requestExit
  | disconnectConnection
  deriving DecidableEq

def ShellPc.effect : ShellPc → TeardownEffect
  | .disconnectDestroy => .destroySession
  | .disconnectSocket => .forgetSocket
  | .disconnectState => .markDisconnected
  | .disconnectExit => .requestExit
  | .teardown => .disconnectConnection
  | _ => .nothing

def ReceiverPc.effect : ReceiverPc → TeardownEffect
  | .destroy => .destroySession
  | .connectionSocket => .forgetSocket
  | .connectionState => .markDisconnected
  | .exit => .requestExit
  | _ => .nothing

/-- What `select` and `fgets` bring. -/
inductive ShellInput
  | timeout
  | endOfInput
  | disconnect
  | other

/-- The client with the descriptors closed so far. -/
structure ClientData (Buf : ℕ → Type) where
  session : Session Buf
  connection : Connection
  shouldExit : Bool
  closed : List ℤ

structure ClientThreads (Buf : ℕ → Type) where
  data : ClientData Buf
  shell : ShellPc
  receiver : ReceiverPc

variable {Buf : ℕ → Type}

def shellNext (input : ShellInput) (c : ClientThreads Buf) : ShellPc :=
  match c.shell with
  | .loop => if c.data.shouldExit then .teardownCheck else .selected
  | .selected =>
    if c.data.shouldExit then .teardownCheck
    else match input with
      | .timeout => .loop
      | _ => .reading
  | .reading => match input with
    | .endOfInput => .teardownCheck
    | .disconnect => .disconnectCheck
    | _ => .executed
  | .disconnectCheck =>
    if c.data.session.state = .established then .disconnectDestroy else .executed
  | .disconnectDestroy => .disconnectSocket
  | .disconnectSocket => .disconnectState
  | .disconnectState => .disconnectExit
  | .disconnectExit => .executed
  | .executed => if c.data.shouldExit then .teardownCheck else .loop
  | .teardownCheck => if c.data.connection.state = .disconnected then .finished else .teardown
  | .teardown => .finished
  | .finished => .finished

/-- `goesOn` says that `packet_receive` has brought a packet other than DISCONNECT. -/
def receiverNext (goesOn : Bool) (c : ClientThreads Buf) : ReceiverPc :=
  match c.receiver with
  | .loop => if c.data.session.state = .established then .receiving else .loopLeft
  | .receiving => if goesOn then .loop else .loopLeft
  | .loopLeft => if c.data.session.state = .established then .destroy else .exit
  | .destroy => .connectionSocket
  | .connectionSocket => .connectionState
  | .connectionState => .exit
  | .exit => .finished
  | .finished => .finished

variable (M : Memory Buf)

/-- One check, call or assignment on the shared data. -/
inductive Does : TeardownEffect → ClientData Buf → ClientData Buf → Prop
  | nothing {d : ClientData Buf} : Does .nothing d d
  | destroySession {d : ClientData Buf} :
      Does .destroySession d { d with
        session := (sessionDestroy M d.session).1
        closed := d.closed ++ (sessionDestroy M d.session).2 }
  | forgetSocket {d : ClientData Buf} :
      Does .forgetSocket d { d with connection := { d.connection with socket := -1 } }
  | markDisconnected {d : ClientData Buf} :
      Does .markDisconnected d { d with connection := { d.connection with state := .disconnected } }
  | requestExit {d : ClientData Buf} : Does .requestExit d { d with shouldExit := true }
  | disconnectConnection {d : ClientData Buf} {calls : SocketCalls} {code : ℕ}
      {connection : Connection} :
      Exec (connectionDisconnect d.connection) calls (.ret (code, connection)) →
      Does .disconnectConnection d { d with
        connection := connection
        closed := d.closed ++ closedFds (fdLog calls) }

/-- A turn of a thread, with what its calls bring. -/
inductive ClientTurn
  | shell (input : ShellInput)
  | receiver (goesOn : Bool)

def ClientTurn.effect (a : ClientTurn) (c : ClientThreads Buf) : TeardownEffect :=
  match a with
  | .shell _ => c.shell.effect
  | .receiver _ => c.receiver.effect

inductive ClientTurnStep : ClientThreads Buf → ClientTurn → ClientThreads Buf → Prop
  | shell {c : ClientThreads Buf} {input : ShellInput} {d : ClientData Buf} :
      Does M c.shell.effect c.data d →
      ClientTurnStep c (.shell input) ⟨d, shellNext input c, c.receiver⟩
  | receiver {c : ClientThreads Buf} {goesOn : Bool} {d : ClientData Buf} :
      Does M c.receiver.effect c.data d →
      ClientTurnStep c (.receiver goesOn) ⟨d, c.shell, receiverNext goesOn c⟩

end Threads

section Turns

variable {Buf : ℕ → Type} {M : Memory Buf} {c c' : ClientThreads Buf} {a : ClientTurn}

/-- A thread is about to have the effect. -/
def ClientThreads.Pending (c : ClientThreads Buf) (e : TeardownEffect) : Prop :=
  c.shell.effect = e ∨ c.receiver.effect = e

theorem shellNext_effect (input : ShellInput) (c : ClientThreads Buf) :
    ((shellNext input c).effect = .forgetSocket → c.shell.effect = .destroySession) ∧
    ((shellNext input c).effect = .markDisconnected → c.shell.effect = .forgetSocket) ∧
    (shellNext input c = .finished → c.shell = .finished ∨
      c.data.connection.state = .disconnected ∨ c.shell.effect = .disconnectConnection) := by
  obtain ⟨d, shell, receiver⟩ := c
  cases shell with
  | loop | executed =>
      unfold shellNext
      dsimp only
      split_ifs <;> simp [ShellPc.effect]
  | selected =>
      unfold shellNext
      dsimp only
      split_ifs
      · simp [ShellPc.effect]
      · cases input <;> simp [ShellPc.effect]
  | reading => cases input <;> simp [shellNext, ShellPc.effect]
  | disconnectCheck =>
      unfold shellNext
      dsimp only
      split_ifs <;> simp [ShellPc.effect]
  | disconnectDestroy =>
      exact ⟨fun _ => rfl, by simp [shellNext, ShellPc.effect], by simp [shellNext]⟩
  | disconnectSocket =>
      exact ⟨by simp [shellNext, ShellPc.effect], fun _ => rfl, by simp [shellNext]⟩
  | disconnectState | disconnectExit => simp [shellNext, ShellPc.effect]
  | teardownCheck =>
      unfold shellNext
      dsimp only
      split_ifs with hstate
      · exact ⟨by simp [ShellPc.effect], by simp [ShellPc.effect], fun _ => .inr (.inl hstate)⟩
      · simp [ShellPc.effect]
  | teardown =>
      exact ⟨by simp [shellNext, ShellPc.effect], by simp [shellNext, ShellPc.effect],
        fun _ => .inr (.inr rfl)⟩
  | finished =>
      exact ⟨by simp [shellNext, ShellPc.effect], by simp [shellNext, ShellPc.effect],
        fun _ => .inl rfl⟩

theorem receiverNext_effect (goesOn : Bool) (c : ClientThreads Buf) :
    ((receiverNext goesOn c).effect = .forgetSocket → c.receiver.effect = .destroySession) ∧
    ((receiverNext goesOn c).effect = .markDisconnected →
      c.receiver.effect = .forgetSocket) := by
  obtain ⟨d, shell, receiver⟩ := c
  cases receiver with
  | loop =>
      unfold receiverNext
      dsimp only
      split_ifs <;> simp [ReceiverPc.effect]
  | receiving => cases goesOn <;> simp [receiverNext, ReceiverPc.effect]
  | loopLeft =>
      unfold receiverNext
      dsimp only
      split_ifs <;> simp [ReceiverPc.effect]
  | destroy => exact ⟨fun _ => rfl, by simp [receiverNext, ReceiverPc.effect]⟩
  | connectionSocket => exact ⟨by simp [receiverNext, ReceiverPc.effect], fun _ => rfl⟩
  | connectionState | exit | finished => simp [receiverNext, ReceiverPc.effect]

/-- What a turn does and where it leaves the threads. -/
theorem clientTurn_cases (h : ClientTurnStep M c a c') :
    Does M (a.effect c) c.data c'.data ∧
    (c'.Pending .forgetSocket → c.Pending .forgetSocket ∨ a.effect c = .destroySession) ∧
    (c'.Pending .markDisconnected → c.Pending .markDisconnected ∨ a.effect c = .forgetSocket) ∧
    (c'.shell = .finished → c.shell = .finished ∨ c.data.connection.state = .disconnected ∨
      a.effect c = .disconnectConnection) := by
  cases h with
  | @shell input d hd =>
      obtain ⟨hforget, hmark, hfinished⟩ := shellNext_effect input c
      exact ⟨hd, fun h => h.elim (fun h => .inr (hforget h)) fun h => .inl (.inr h),
        fun h => h.elim (fun h => .inr (hmark h)) fun h => .inl (.inr h), hfinished⟩
  | @receiver goesOn d hd =>
      obtain ⟨hforget, hmark⟩ := receiverNext_effect goesOn c
      exact ⟨hd, fun h => h.elim (fun h => .inl (.inl h)) fun h => .inr (hforget h),
        fun h => h.elim (fun h => .inl (.inl h)) fun h => .inr (hmark h), Or.inl⟩

theorem ClientTurn.pending (a : ClientTurn) (c : ClientThreads Buf) : c.Pending (a.effect c) := by
  cases a with
  | shell => exact .inl rfl
  | receiver => exact .inr rfl

/-- `connection_disconnect` closes the descriptor of a connection that is not marked as
disconnected, and does nothing else. -/
theorem does_disconnectConnection {d d' : ClientData Buf}
    (h : Does M .disconnectConnection d d') :
    (d.connection.state = .disconnected ∧ d' = d) ∨
    (d.connection.state ≠ .disconnected ∧
      d' = { d with
        connection := (connectionCleanup d.connection).1
        closed := d.closed ++ (connectionCleanup d.connection).2 }) := by
  cases h with
  | @disconnectConnection _ calls code connection hx =>
      by_cases hstate : d.connection.state = .disconnected
      · rw [connectionDisconnect_refused hstate, exec_ret] at hx
        obtain ⟨rfl, he⟩ := hx
        cases he
        exact .inl ⟨hstate, by simp⟩
      · obtain ⟨hclosed, he⟩ := (connectionDisconnect_closes hstate).post hx
        cases he
        rw [List.nil_append] at hclosed
        exact .inr ⟨hstate, by rw [hclosed, closedFds_closes]⟩

end Turns

section Phases

variable {Buf : ℕ → Type} {M : Memory Buf} {c c₀ c' : ClientThreads Buf} {a : ClientTurn}
  {tcp udp : ℤ}

/-- An established client whose tunnel is open, with both threads at their start. -/
structure EstablishedClient (tcp udp : ℤ) (c : ClientThreads Buf) : Prop where
  tcp_open : 0 ≤ tcp
  udp_open : 0 ≤ udp
  distinct : tcp ≠ udp
  state : c.data.session.state = .established
  socket : c.data.session.socket = tcp
  udpSocket : c.data.session.udp.socket = udp
  connected : c.data.connection.state = .connected
  connection : c.data.connection.socket = tcp
  closed : c.data.closed = []
  shell : c.shell = .loop
  receiver : c.receiver = .loop

/-- No descriptor is closed twice and none but the client's own. -/
structure ClosedOnce (tcp udp : ℤ) (closed : List ℤ) : Prop where
  tcp_once : closed.count tcp ≤ 1
  udp_once : closed.count udp ≤ 1
  own : ∀ fd ∈ closed, fd = tcp ∨ fd = udp

/-- What the teardown is to achieve. -/
structure TornDown (tcp udp : ℤ) (c : ClientThreads Buf) : Prop where
  once : ClosedOnce tcp udp c.data.closed
  tcp_closed : c.shell = .finished → c.receiver = .finished → c.data.closed.count tcp = 1

/-- Nobody else has taken the client down before a call that does. -/
def TeardownEffect.Safe (e : TeardownEffect) (d : ClientData Buf) : Prop :=
  match e with
  | .destroySession => d.session.state = .established ∧ d.connection.state = .connected
  | .disconnectConnection => d.session.state = .established ∨ d.connection.socket < 0
  | _ => True

/-- How far the teardown has got, by the first call that closed something. -/
inductive Teardown (tcp udp : ℤ) (c : ClientThreads Buf) : Prop
  | intact : c.data.session.state = .established → c.data.session.socket = tcp →
      c.data.session.udp.socket = udp → c.data.connection.state = .connected →
      c.data.connection.socket = tcp → c.data.closed = [] → c.shell ≠ .finished →
      ¬ c.Pending .forgetSocket → ¬ c.Pending .markDisconnected → Teardown tcp udp c
  | destroyed : c.data.session.state = .disconnected → c.data.session.socket = -1 →
      c.data.session.udp.socket = 0 →
      (c.data.connection.socket = tcp ∧ c.data.connection.state = .connected ∧
        ¬ c.Pending .markDisconnected ∨ c.data.connection.socket = -1) →
      c.data.closed = [tcp, udp] → Teardown tcp udp c
  | disconnected : c.data.session.state = .established → c.data.session.socket = tcp →
      c.data.session.udp.socket = udp → c.data.connection.state = .disconnected →
      c.data.connection.socket = -1 → c.data.closed = [tcp] → Teardown tcp udp c

theorem EstablishedClient.intact (h : EstablishedClient tcp udp c) : Teardown tcp udp c := by
  refine .intact h.state h.socket h.udpSocket h.connected h.connection h.closed ?_ ?_ ?_ <;>
    simp [ClientThreads.Pending, ShellPc.effect, ReceiverPc.effect, h.shell, h.receiver]

theorem teardown_of_intact (htcp : 0 ≤ tcp) (hudp : 0 ≤ udp) (h : ClientTurnStep M c a c')
    (hstate : c.data.session.state = .established) (hsocket : c.data.session.socket = tcp)
    (hudpSocket : c.data.session.udp.socket = udp)
    (hconnected : c.data.connection.state = .connected)
    (hconnection : c.data.connection.socket = tcp) (hclosed : c.data.closed = [])
    (hshell : c.shell ≠ .finished) (hforget : ¬ c.Pending .forgetSocket)
    (hmark : ¬ c.Pending .markDisconnected) : Teardown tcp udp c' := by
  obtain ⟨hdoes, hforget', hmark', hfinished⟩ := clientTurn_cases h
  have hpending := a.pending c
  obtain ⟨d', shell', receiver'⟩ := c'
  have hquiet : a.effect c = .nothing ∨ a.effect c = .requestExit →
      shell' ≠ .finished ∧ ¬ (⟨d', shell', receiver'⟩ : ClientThreads Buf).Pending .forgetSocket ∧
        ¬ (⟨d', shell', receiver'⟩ : ClientThreads Buf).Pending .markDisconnected := by
    intro he
    refine ⟨fun hf => ?_, fun hf => ?_, fun hf => ?_⟩
    · obtain hf | hf | hf := hfinished hf
      · exact hshell hf
      · simp [hconnected] at hf
      · simp [hf] at he
    · obtain hf | hf := hforget' hf
      · exact hforget hf
      · simp [hf] at he
    · obtain hf | hf := hmark' hf
      · exact hmark hf
      · simp [hf] at he
  generalize a.effect c = e at *
  cases e with
  | nothing =>
      cases hdoes
      obtain ⟨hs, hf, hm⟩ := hquiet (.inl rfl)
      exact .intact hstate hsocket hudpSocket hconnected hconnection hclosed hs hf hm
  | requestExit =>
      cases hdoes
      obtain ⟨hs, hf, hm⟩ := hquiet (.inr rfl)
      exact .intact hstate hsocket hudpSocket hconnected hconnection hclosed hs hf hm
  | destroySession =>
      cases hdoes
      refine .destroyed rfl rfl rfl (.inl ⟨hconnection, hconnected, fun hm => ?_⟩) ?_
      · obtain hm | hm := hmark' hm
        · exact hmark hm
        · contradiction
      · simp [sessionDestroy, udpTunnelClose, hclosed, hsocket, hudpSocket, htcp, hudp]
  | forgetSocket => exact absurd hpending hforget
  | markDisconnected => exact absurd hpending hmark
  | disconnectConnection =>
      obtain ⟨hd, -⟩ | ⟨-, rfl⟩ := does_disconnectConnection hdoes
      · simp [hconnected] at hd
      · refine .disconnected hstate hsocket hudpSocket rfl rfl ?_
        simp [connectionCleanup, hclosed, hconnection, htcp]

theorem teardown_of_destroyed (htcp : 0 ≤ tcp) (h : ClientTurnStep M c a c')
    (hsafe : (a.effect c).Safe c.data) (hstate : c.data.session.state = .disconnected)
    (hsocket : c.data.session.socket = -1) (hudpSocket : c.data.session.udp.socket = 0)
    (hconnection : c.data.connection.socket = tcp ∧ c.data.connection.state = .connected ∧
      ¬ c.Pending .markDisconnected ∨ c.data.connection.socket = -1)
    (hclosed : c.data.closed = [tcp, udp]) : Teardown tcp udp c' := by
  obtain ⟨hdoes, -, hmark', -⟩ := clientTurn_cases h
  have hpending := a.pending c
  obtain ⟨d', shell', receiver'⟩ := c'
  have hquiet : a.effect c ≠ .forgetSocket →
      c.data.connection.socket = tcp ∧ c.data.connection.state = .connected ∧
        ¬ (⟨d', shell', receiver'⟩ : ClientThreads Buf).Pending .markDisconnected ∨
      c.data.connection.socket = -1 := by
    intro he
    obtain ⟨hs, hc, hm⟩ | hs := hconnection
    · exact .inl ⟨hs, hc, fun hm' => (hmark' hm').elim hm he⟩
    · exact .inr hs
  generalize a.effect c = e at *
  cases e with
  | nothing =>
      cases hdoes
      exact .destroyed hstate hsocket hudpSocket (hquiet (by simp)) hclosed
  | requestExit =>
      cases hdoes
      exact .destroyed hstate hsocket hudpSocket (hquiet (by simp)) hclosed
  | destroySession => simp [TeardownEffect.Safe, hstate] at hsafe
  | forgetSocket =>
      cases hdoes
      exact .destroyed hstate hsocket hudpSocket (.inr rfl) hclosed
  | markDisconnected =>
      cases hdoes
      have hs : c.data.connection.socket = -1 := hconnection.resolve_left fun h => h.2.2 hpending
      exact .destroyed hstate hsocket hudpSocket (.inr hs) hclosed
  | disconnectConnection =>
      have hneg : c.data.connection.socket < 0 := by simpa [TeardownEffect.Safe, hstate] using hsafe
      have hs : c.data.connection.socket = -1 :=
        hconnection.resolve_left fun h => hneg.not_ge (h.1 ▸ htcp)
      obtain ⟨-, rfl⟩ | ⟨-, rfl⟩ := does_disconnectConnection hdoes
      · exact .destroyed hstate hsocket hudpSocket (.inr hs) hclosed
      · refine .destroyed hstate hsocket hudpSocket (.inr rfl) ?_
        simp [connectionCleanup, hclosed, hs]

theorem teardown_of_disconnected (h : ClientTurnStep M c a c')
    (hsafe : (a.effect c).Safe c.data) (hstate : c.data.session.state = .established)
    (hsocket : c.data.session.socket = tcp) (hudpSocket : c.data.session.udp.socket = udp)
    (hdisconnected : c.data.connection.state = .disconnected)
    (hconnection : c.data.connection.socket = -1) (hclosed : c.data.closed = [tcp]) :
    Teardown tcp udp c' := by
  obtain ⟨hdoes, -⟩ := clientTurn_cases h
  obtain ⟨d', shell', receiver'⟩ := c'
  generalize a.effect c = e at *
  cases e with
  | nothing =>
      cases hdoes
      exact .disconnected hstate hsocket hudpSocket hdisconnected hconnection hclosed
  | requestExit =>
      cases hdoes
      exact .disconnected hstate hsocket hudpSocket hdisconnected hconnection hclosed
  | destroySession => simp [TeardownEffect.Safe, hdisconnected] at hsafe
  | forgetSocket =>
      cases hdoes
      exact .disconnected hstate hsocket hudpSocket hdisconnected rfl hclosed
  | markDisconnected =>
      cases hdoes
      exact .disconnected hstate hsocket hudpSocket rfl hconnection hclosed
  | disconnectConnection =>
      obtain ⟨-, rfl⟩ | ⟨hd, -⟩ := does_disconnectConnection hdoes
      · exact .disconnected hstate hsocket hudpSocket hdisconnected hconnection hclosed
      · exact absurd hdisconnected hd

/-- A safe turn brings the teardown forward. -/
theorem clientTurn_teardown (htcp : 0 ≤ tcp) (hudp : 0 ≤ udp) (h : ClientTurnStep M c a c')
    (hsafe : (a.effect c).Safe c.data) (hi : Teardown tcp udp c) : Teardown tcp udp c' := by
  cases hi with
  | intact hstate hsocket hudpSocket hconnected hconnection hclosed hshell hforget hmark =>
      exact teardown_of_intact htcp hudp h hstate hsocket hudpSocket hconnected hconnection
        hclosed hshell hforget hmark
  | destroyed hstate hsocket hudpSocket hconnection hclosed =>
      exact teardown_of_destroyed htcp h hsafe hstate hsocket hudpSocket hconnection hclosed
  | disconnected hstate hsocket hudpSocket hdisconnected hconnection hclosed =>
      exact teardown_of_disconnected h hsafe hstate hsocket hudpSocket hdisconnected hconnection
        hclosed

theorem clientTurn_closed (h : ClientTurnStep M c a c') : c.data.closed <+: c'.data.closed := by
  obtain ⟨hdoes, -⟩ := clientTurn_cases h
  obtain ⟨d', shell', receiver'⟩ := c'
  generalize a.effect c = e at hdoes
  cases hdoes <;> simp

theorem ClosedOnce.of_prefix {closed closed' : List ℤ} (h : ClosedOnce tcp udp closed')
    (hp : closed <+: closed') : ClosedOnce tcp udp closed :=
  ⟨(hp.sublist.count_le tcp).trans h.tcp_once, (hp.sublist.count_le udp).trans h.udp_once,
    fun fd hfd => h.own fd (hp.subset hfd)⟩

theorem not_closedOnce_tcp {closed : List ℤ} (h : 2 ≤ closed.count tcp) :
    ¬ ClosedOnce tcp udp closed := fun honce => by
  have := honce.tcp_once
  omega

/-- Any other turn closes a descriptor that is the client's no longer. -/
theorem clientTurn_bad (htcp : 0 ≤ tcp) (hudp : 0 ≤ udp) (h : ClientTurnStep M c a c')
    (hbad : ¬ (a.effect c).Safe c.data) (hi : Teardown tcp udp c) :
    ¬ ClosedOnce tcp udp c'.data.closed := by
  obtain ⟨hdoes, -⟩ := clientTurn_cases h
  obtain ⟨d', shell', receiver'⟩ := c'
  generalize a.effect c = e at *
  cases e with
  | nothing => exact absurd trivial hbad
  | forgetSocket => exact absurd trivial hbad
  | markDisconnected => exact absurd trivial hbad
  | requestExit => exact absurd trivial hbad
  | destroySession =>
      cases hdoes
      cases hi with
      | intact hstate _ _ hconnected => exact absurd ⟨hstate, hconnected⟩ hbad
      | destroyed hstate hsocket hudpSocket _ hclosed =>
          -- the tunnel of the cleared session names descriptor 0
          have hzero : c.data.closed ++ (sessionDestroy M c.data.session).2 = [tcp, udp, 0] := by
            simp [sessionDestroy, udpTunnelClose, hsocket, hudpSocket, hclosed]
          change ¬ ClosedOnce tcp udp (c.data.closed ++ (sessionDestroy M c.data.session).2)
          rw [hzero]
          intro honce
          obtain rfl | rfl := honce.own 0 (by simp)
          · have htwice : List.Sublist [0, 0] [0, udp, 0] := by simp
            have := (htwice.count_le 0).trans honce.tcp_once
            contradiction
          · have htwice : List.Sublist [0, 0] [tcp, 0, 0] := by simp
            have := (htwice.count_le 0).trans honce.udp_once
            contradiction
      | disconnected _ hsocket hudpSocket _ _ hclosed =>
          apply not_closedOnce_tcp
          simp [sessionDestroy, udpTunnelClose, hsocket, hudpSocket, hclosed, htcp]
  | disconnectConnection =>
      cases hi with
      | intact hstate => exact absurd (.inl hstate) hbad
      | disconnected hstate => exact absurd (.inl hstate) hbad
      | destroyed _ _ _ hconnection hclosed =>
          obtain ⟨hs, hc, -⟩ | hs := hconnection
          · obtain ⟨hd, -⟩ | ⟨-, rfl⟩ := does_disconnectConnection hdoes
            · simp [hc] at hd
            · apply not_closedOnce_tcp
              simp [connectionCleanup, hs, hclosed, htcp]
          · exact absurd (.inr (hs ▸ by decide)) hbad

theorem Teardown.tornDown (hdistinct : tcp ≠ udp) (h : Teardown tcp udp c) :
    TornDown tcp udp c := by
  have hne : udp ≠ tcp := hdistinct.symm
  cases h with
  | intact _ _ _ _ _ hclosed hshell =>
      refine ⟨?_, fun h => absurd h hshell⟩
      rw [hclosed]
      exact ⟨by simp, by simp, by simp⟩
  | destroyed _ _ _ _ hclosed =>
      refine ⟨?_, fun _ _ => by simp [hclosed, hne]⟩
      rw [hclosed]
      exact ⟨by simp [hne], by simp [hdistinct], by simp⟩
  | disconnected _ _ _ _ _ hclosed =>
      refine ⟨?_, fun _ _ => by simp [hclosed]⟩
      rw [hclosed]
      exact ⟨by simp, by simp [hdistinct], by simp⟩

/-- A run takes the client down as it should exactly when no call in it tears down what another
one has torn down before. -/
theorem client_tornDown_iff (hstart : EstablishedClient tcp udp c₀)
    {steps : List (ClientThreads Buf × ClientTurn)} (h : Path (ClientTurnStep M) c₀ steps c) :
    TornDown tcp udp c ↔ ∀ p ∈ steps, (p.2.effect p.1).Safe p.1.data := by
  have hteardown : ∀ c a c', Teardown tcp udp c → (a.effect c).Safe c.data →
      ClientTurnStep M c a c' → Teardown tcp udp c' := fun _ _ _ hi hsafe hstep =>
    clientTurn_teardown hstart.tcp_open hstart.udp_open hstep hsafe hi
  have honce : ClosedOnce tcp udp c.data.closed ↔ ∀ p ∈ steps, (p.2.effect p.1).Safe p.1.data := by
    refine h.holds_iff (G := fun c => ClosedOnce tcp udp c.data.closed)
      (C := fun c a => (a.effect c).Safe c.data) hstart.intact hteardown ?_ ?_ ?_
    · exact fun c hi => (hi.tornDown hstart.distinct).once
    · exact fun c a c' hstep hg => hg.of_prefix (clientTurn_closed hstep)
    · exact fun c a c' hi hbad hstep =>
        clientTurn_bad hstart.tcp_open hstart.udp_open hstep hbad hi
  refine ⟨fun hdown => honce.mp hdown.once, fun hsafe => ?_⟩
  exact (h.invariant_of (C := fun c a => (a.effect c).Safe c.data) hstart.intact hteardown
    hsafe).tornDown hstart.distinct

/-- An established client with TCP descriptor 5 and UDP descriptor 6. -/
def establishedData : ClientData ByteBuf where
  session := { openedOwner.session with state := .established }
  connection := ⟨['h'], 5, .connected, 80⟩
  shouldExit := false
  closed := []

theorem establishedData_client : EstablishedClient 5 6 ⟨establishedData, .loop, .loop⟩ :=
  ⟨by decide, by decide, by decide, rfl, rfl, rfl, rfl, rfl, rfl, rfl, rfl⟩

/-- The same client after the receiver has taken it down. -/
def receivedData : ClientData ByteBuf where
  session := (sessionDestroy (byteMemory .little) establishedData.session).1
  connection := ⟨['h'], -1, .disconnected, 80⟩
  shouldExit := true
  closed := [5, 6]

/-- The server closes the connection and the shell notices. -/
theorem client_tornDown_after_notice :
    TornDown 5 6 (⟨receivedData, .finished, .finished⟩ : ClientThreads ByteBuf) := by
  let d := establishedData
  let d₁ := { d with session := receivedData.session, closed := [5, 6] }
  let d₂ := { d₁ with connection := ⟨['h'], -1, .connected, 80⟩ }
  let d₃ := { d₂ with connection := ⟨['h'], -1, .disconnected, 80⟩ }
  let Step := ClientTurnStep (byteMemory .little)
  have h₁ : Step ⟨d, .loop, .loop⟩ (.receiver false) ⟨d, .loop, .receiving⟩ := .receiver .nothing
  have h₂ : Step ⟨d, .loop, .receiving⟩ (.receiver false) ⟨d, .loop, .loopLeft⟩ :=
    .receiver .nothing
  have h₃ : Step ⟨d, .loop, .loopLeft⟩ (.receiver false) ⟨d, .loop, .destroy⟩ := .receiver .nothing
  have h₄ : Step ⟨d, .loop, .destroy⟩ (.receiver false) ⟨d₁, .loop, .connectionSocket⟩ :=
    .receiver .destroySession
  have h₅ : Step ⟨d₁, .loop, .connectionSocket⟩ (.receiver false) ⟨d₂, .loop, .connectionState⟩ :=
    .receiver .forgetSocket
  have h₆ : Step ⟨d₂, .loop, .connectionState⟩ (.receiver false) ⟨d₃, .loop, .exit⟩ :=
    .receiver .markDisconnected
  have h₇ : Step ⟨d₃, .loop, .exit⟩ (.receiver false) ⟨receivedData, .loop, .finished⟩ :=
    .receiver .requestExit
  have h₈ : Step ⟨receivedData, .loop, .finished⟩ (.shell .timeout)
      ⟨receivedData, .teardownCheck, .finished⟩ := .shell .nothing
  have h₉ : Step ⟨receivedData, .teardownCheck, .finished⟩ (.shell .timeout)
      ⟨receivedData, .finished, .finished⟩ := .shell .nothing
  have h := Path.nil.snoc h₁ |>.snoc h₂ |>.snoc h₃ |>.snoc h₄ |>.snoc h₅ |>.snoc h₆ |>.snoc h₇
    |>.snoc h₈ |>.snoc h₉
  refine (client_tornDown_iff establishedData_client h).mpr ?_
  simp [ClientTurn.effect, ShellPc.effect, ReceiverPc.effect, TeardownEffect.Safe, d,
    establishedData]

/-- Input ends, the shell disconnects, and the receiver, whose `packet_receive` fails on the
closed descriptor, destroys the session, which still names it. -/
theorem client_closes_tcp_twice :
    ¬ ∀ steps (c : ClientThreads ByteBuf), Path (ClientTurnStep (byteMemory .little))
        ⟨establishedData, .loop, .loop⟩ steps c → TornDown 5 6 c := by
  let d := establishedData
  let d₁ := { d with connection := ⟨['h'], -1, .disconnected, 80⟩, closed := [5] }
  let d₂ := { d₁ with session := receivedData.session, closed := [5, 5, 6] }
  let Step := ClientTurnStep (byteMemory .little)
  have h₁ : Step ⟨d, .loop, .loop⟩ (.receiver false) ⟨d, .loop, .receiving⟩ := .receiver .nothing
  have h₂ : Step ⟨d, .loop, .receiving⟩ (.shell .endOfInput) ⟨d, .selected, .receiving⟩ :=
    .shell .nothing
  have h₃ : Step ⟨d, .selected, .receiving⟩ (.shell .endOfInput) ⟨d, .reading, .receiving⟩ :=
    .shell .nothing
  have h₄ : Step ⟨d, .reading, .receiving⟩ (.shell .endOfInput) ⟨d, .teardownCheck, .receiving⟩ :=
    .shell .nothing
  have h₅ : Step ⟨d, .teardownCheck, .receiving⟩ (.shell .endOfInput)
      ⟨d, .teardown, .receiving⟩ := .shell .nothing
  have hdisconnect : Exec (connectionDisconnect d.connection) [⟨.close 5, ()⟩]
      (.ret (0, d₁.connection)) := .cons (.nil _)
  have h₆ : Step ⟨d, .teardown, .receiving⟩ (.shell .endOfInput) ⟨d₁, .finished, .receiving⟩ :=
    .shell (.disconnectConnection hdisconnect)
  have h₇ : Step ⟨d₁, .finished, .receiving⟩ (.receiver false) ⟨d₁, .finished, .loopLeft⟩ :=
    .receiver .nothing
  have h₈ : Step ⟨d₁, .finished, .loopLeft⟩ (.receiver false) ⟨d₁, .finished, .destroy⟩ :=
    .receiver .nothing
  have h₉ : Step ⟨d₁, .finished, .destroy⟩ (.receiver false) ⟨d₂, .finished, .connectionSocket⟩ :=
    .receiver .destroySession
  have h := Path.nil.snoc h₁ |>.snoc h₂ |>.snoc h₃ |>.snoc h₄ |>.snoc h₅ |>.snoc h₆ |>.snoc h₇
    |>.snoc h₈ |>.snoc h₉
  intro hall
  have honce : List.count 5 [5, 5, 6] ≤ 1 := (hall _ _ h).once.tcp_once
  contradiction

end Phases

end Sencd
