import Sencd.LabelledPath
import Sencd.SocketCalls

/-!
# The listening socket and the connection

`server_core.c` and `client_core.c`. Each object owns one descriptor. Their internal functions
undo what was done before when a call fails, so that an object which is not running or not
connected can always be started or connected again.
-/
namespace Sencd
open CallProgram DescriptorLog LabelledPath

variable {log : FdLog ℤ} {calls : SocketCalls}

section Server

/-- `SERVER_T`. -/
structure Server where
  socket : ℤ
  running : Bool
  port : UInt16
  deriving DecidableEq

def Server.init : Server := ⟨-1, false, 0⟩

/-- The server and the descriptors handed to `close`. -/
def Server.cleanup (server : Server) : Server × List ℤ :=
  ({ server with socket := -1, running := false },
    if server.socket ≥ 0 then [server.socket] else [])

def Server.createSocket (server : Server) : SocketProg (ℕ × Server) := do
  let fd ← Prog.perform SocketCall.socket
  let server := { server with socket := fd }
  if server.socket < 0 then orCleanup Server.cleanup server false else
  let ok ← Prog.perform (SocketCall.setsockopt server.socket)
  orCleanup Server.cleanup server ok

def Server.bind (server : Server) : SocketProg (ℕ × Server) := do
  let ok ← Prog.perform (SocketCall.bind server.socket server.port)
  orCleanup Server.cleanup server ok

def Server.listen (server : Server) : SocketProg (ℕ × Server) := do
  let ok ← Prog.perform (SocketCall.listen server.socket)
  orCleanup Server.cleanup server ok

def Server.start (server : Server) (port : UInt16) : SocketProg (ℕ × Server) := do
  if server.running then return (1, server) else
  let (code, server) ← Server.createSocket { server with port := port }
  if code ≠ 0 then return (1, server) else
  let (code, server) ← Server.bind server
  if code ≠ 0 then return (1, server) else
  let (code, server) ← Server.listen server
  if code ≠ 0 then return (1, server) else
  return (0, { server with running := true })

def Server.shutdown (server : Server) : SocketProg (ℕ × Server) := do
  if ¬ server.running then return (1, server) else
  closeSockets (Server.cleanup server).2
  return (0, (Server.cleanup server).1)

variable {port : UInt16} {socket : ℤ}

/-- What the steps of `server_start` leave: how the attempt came out, and a server that is not
running. -/
def ServerAttempt (port : UInt16) (calls : SocketCalls) (r : ℕ × Server) : Prop :=
  Attempted r.1 r.2.socket (fdLog calls) ∧ r.2 = ⟨r.2.socket, false, port⟩

theorem serverCheck_holds {ok : Bool} (hfd : 0 ≤ socket) (hlog : fdLog calls = [.opened socket]) :
    Holds (fun _ _ => True) (ServerAttempt port) calls
      (orCleanup Server.cleanup ⟨socket, false, port⟩ ok) := by
  apply holds_orCleanup
  · refine ⟨?_, rfl⟩
    rw [hlog]
    exact .opened socket hfd
  · intro calls' hcalls
    refine ⟨?_, rfl⟩
    have hclosed : closes (Server.cleanup ⟨socket, false, port⟩).2 = [.closed socket] := by
      simp [Server.cleanup, hfd, closes]
    rw [hcalls, hlog, hclosed]
    exact .abandoned socket hfd

theorem Server.createSocket_holds :
    Holds (fun _ _ => True) (ServerAttempt port) []
      (Server.createSocket ⟨socket, false, port⟩) := by
  refine holds_socketCall trivial fun fd => holds_ite (fun hfd => ?_) fun hfd => ?_
  · refine holds_closeSockets (fun _ _ => trivial) fun calls' hcalls => ⟨?_, rfl⟩
    have hlt : fd < 0 := hfd
    have hnone : (Server.cleanup ⟨fd, false, port⟩).2 = [] := if_neg hlt.not_ge
    rw [hcalls, hnone, List.nil_append, fdLog_no_socket hlt]
    exact .failed
  · have hfd : 0 ≤ fd := not_lt.mp hfd
    refine holds_socketCall trivial fun ok => serverCheck_holds hfd ?_
    rw [List.nil_append, fdLog_append, fdLog_socket hfd, fdLog_setsockopt, List.append_nil]

theorem Server.bind_holds (hfd : 0 ≤ socket) (hlog : fdLog calls = [.opened socket]) :
    Holds (fun _ _ => True) (ServerAttempt port) calls (Server.bind ⟨socket, false, port⟩) :=
  holds_socketCall trivial fun _ => serverCheck_holds hfd (by simpa using hlog)

theorem Server.listen_holds (hfd : 0 ≤ socket) (hlog : fdLog calls = [.opened socket]) :
    Holds (fun _ _ => True) (ServerAttempt port) calls (Server.listen ⟨socket, false, port⟩) :=
  holds_socketCall trivial fun _ => serverCheck_holds hfd (by simpa using hlog)

/-- How `server_start` comes out when the server is not running. -/
def ServerStarted (port : UInt16) (calls : SocketCalls) (r : ℕ × Server) : Prop :=
  Attempted r.1 r.2.socket (fdLog calls) ∧ r.2 = ⟨r.2.socket, decide (r.1 = 0), port⟩

theorem ServerAttempt.stop {code : ℕ} {server : Server}
    (h : ServerAttempt port calls (code, server)) (hcode : code ≠ 0) :
    ServerStarted port calls (1, server) := ⟨h.1.of_ne hcode, h.2⟩

theorem ServerAttempt.go {code : ℕ} {server : Server}
    (h : ServerAttempt port calls (code, server)) (hcode : ¬ code ≠ 0) :
    ∃ fd, 0 ≤ fd ∧ fdLog calls = [.opened fd] ∧ server = ⟨fd, false, port⟩ := by
  obtain ⟨hattempt, hserver⟩ := h
  obtain rfl : code = 0 := not_not.mp hcode
  obtain ⟨hfd, hlog⟩ := hattempt.of_zero
  exact ⟨server.socket, hfd, hlog, hserver⟩

theorem Server.start_holds {server : Server} (hrunning : server.running = false) (port : UInt16) :
    Holds (fun _ _ => True) (ServerStarted port) [] (Server.start server port) := by
  unfold Server.start
  rw [if_neg (by simp [hrunning]), hrunning]
  apply Server.createSocket_holds.bind
  rintro calls₁ ⟨code₁, server₁⟩ h₁
  refine holds_ite h₁.stop fun hcode₁ => ?_
  obtain ⟨fd₁, hfd₁, hlog₁, rfl⟩ := h₁.go hcode₁
  apply (Server.bind_holds hfd₁ hlog₁).bind
  rintro calls₂ ⟨code₂, server₂⟩ h₂
  refine holds_ite h₂.stop fun hcode₂ => ?_
  obtain ⟨fd₂, hfd₂, hlog₂, rfl⟩ := h₂.go hcode₂
  apply (Server.listen_holds hfd₂ hlog₂).bind
  rintro calls₃ ⟨code₃, server₃⟩ h₃
  refine holds_ite h₃.stop fun hcode₃ => ?_
  obtain ⟨fd₃, hfd₃, hlog₃, rfl⟩ := h₃.go hcode₃
  refine ⟨?_, rfl⟩
  rw [hlog₃]
  exact .opened fd₃ hfd₃

/-- A shutdown that is accepted closes the stored descriptor, and leaves the server idle. -/
theorem Server.shutdown_accepted {server : Server} (hrunning : server.running = true)
    (hsocket : 0 ≤ server.socket) : Server.shutdown server =
      .call (.close server.socket) fun _ => .ret (0, ⟨-1, false, server.port⟩) := by
  unfold Server.shutdown
  rw [if_neg (by simp [hrunning])]
  simp only [Server.cleanup, if_pos hsocket]
  rfl

theorem Server.shutdown_holds {server : Server} (hrunning : server.running = true)
    (hsocket : 0 ≤ server.socket) :
    Holds (fun _ _ => True)
      (fun calls r => fdLog calls = [.closed server.socket] ∧ r = (0, ⟨-1, false, server.port⟩))
      [] (Server.shutdown server) := by
  rw [Server.shutdown_accepted hrunning hsocket]
  exact ⟨trivial, fun _ => ⟨rfl, rfl⟩⟩

inductive ServerCall
  | start (port : UInt16)
  | shutdown

def serverCall : ServerCall → Server → SocketProg (ℕ × Server)
  | .start port, server => Server.start server port
  | .shutdown, server => Server.shutdown server

theorem Server.start_refused {server : Server} (hrunning : server.running = true) (port : UInt16) :
    Server.start server port = .ret (1, server) := if_pos hrunning

theorem Server.shutdown_refused {server : Server} (hrunning : server.running = false) :
    Server.shutdown server = .ret (1, server) := if_pos (by simp [hrunning])

/-- No call breaks the ownership of the listening socket. -/
theorem server_callStep {server server' : Server} {log' : FdLog ℤ} {op : ServerCall}
    (hi : Holding log server.socket (server.running = true))
    (h : CallStep serverCall (server, log) op (server', log')) :
    Holding log' server'.socket (server'.running = true) := by
  obtain @⟨_, _, _, code, _, calls, hx⟩ := h
  cases op with
  | start port =>
      change Exec (Server.start server port) _ _ at hx
      by_cases hrunning : server.running = true
      · rw [Server.start_refused hrunning, exec_ret] at hx
        obtain ⟨rfl, he⟩ := hx
        cases he
        simpa using hi
      · have hidle : server.running = false := Bool.not_eq_true _ ▸ hrunning
        obtain ⟨hattempt, hserver⟩ := (Server.start_holds hidle port).post hx
        have hcode : server'.running = decide (code = 0) := congrArg Server.running hserver
        exact (hi.attempt hrunning hattempt).congr (by rw [hcode, decide_eq_true_iff])
  | shutdown =>
      change Exec (Server.shutdown server) _ _ at hx
      by_cases hrunning : server.running = true
      · rw [Server.shutdown_accepted hrunning (hi.held_active hrunning).1, exec_call_ret] at hx
        obtain ⟨_, _, rfl, hlast⟩ := hx
        obtain ⟨rfl, he⟩ := exec_ret.mp hlast
        cases he
        exact (hi.release hrunning).congr (by simp)
      · rw [Server.shutdown_refused (Bool.not_eq_true _ ▸ hrunning), exec_ret] at hx
        obtain ⟨rfl, he⟩ := hx
        cases he
        simpa using hi

/-- A server that is not running starts when the system calls succeed. -/
theorem Server.start_restarts {server : Server} (hrunning : server.running = false) (port : UInt16)
    {fd : ℤ} (hfd : 0 ≤ fd) :
    Exec (Server.start server port)
      [⟨.socket, fd⟩, ⟨.setsockopt fd, true⟩, ⟨.bind fd port, true⟩, ⟨.listen fd, true⟩]
      (.ret (0, ⟨fd, true, port⟩)) := by
  have hcreate : Exec (Server.createSocket ⟨server.socket, false, port⟩)
      [⟨.socket, fd⟩, ⟨.setsockopt fd, true⟩] (.ret (0, ⟨fd, false, port⟩)) := by
    refine .cons ?_
    change Exec (if fd < 0 then _ else _) _ _
    rw [if_neg (not_lt.mpr hfd)]
    exact .cons (.nil _)
  unfold Server.start
  rw [if_neg (by simp [hrunning]), hrunning]
  refine exec_bind_ret.mpr ⟨_, _, [⟨.bind fd port, true⟩, ⟨.listen fd, true⟩], rfl, hcreate, ?_⟩
  exact .cons (.cons (.nil _))

end Server

section Connection

/-- `CONNECTION_STATE`. -/
inductive ConnectionState
  | connecting
  | handshaking
  | authenticating
  | connected
  | disconnecting
  | disconnected
  deriving DecidableEq

/-- `CONNECTION_T`, without the counters of what was sent and received. -/
structure Connection where
  ip : List Char
  socket : ℤ
  state : ConnectionState
  port : UInt16
  deriving DecidableEq

def connectionInit : Connection := ⟨[], -1, .disconnected, 0⟩

/-- The connection and the descriptors handed to `close`. -/
def connectionCleanup (connection : Connection) : Connection × List ℤ :=
  ({ connection with socket := -1, state := .disconnected },
    if connection.socket ≥ 0 then [connection.socket] else [])

def connectionCreateSocket (connection : Connection) : SocketProg (ℕ × Connection) := do
  let fd ← Prog.perform SocketCall.socket
  let connection := { connection with socket := fd }
  orCleanup connectionCleanup connection (decide (¬ connection.socket < 0))

def connectionOpen (connection : Connection) : SocketProg (ℕ × Connection) := do
  match ← Prog.perform (SocketCall.inetPton connection.ip) with
  | none => orCleanup connectionCleanup connection false
  | some addr =>
    let ok ← Prog.perform (SocketCall.connect connection.socket ⟨addr, connection.port⟩)
    orCleanup connectionCleanup connection ok

/-- The stored address is cut to the 63 characters that fit before the final NUL. -/
def connectionConnect (connection : Connection) (ip : List Char) (port : UInt16) :
    SocketProg (ℕ × Connection) := do
  if connection.state = .connected then return (1, connection) else
  let connection := { connection with ip := ip.take 63, port := port, state := .connecting }
  let (code, connection) ← connectionCreateSocket connection
  if code ≠ 0 then return (1, connection) else
  let (code, connection) ← connectionOpen connection
  if code ≠ 0 then return (1, connection) else
  return (0, { connection with state := .connected })

def connectionDisconnect (connection : Connection) : SocketProg (ℕ × Connection) := do
  if connection.state = .disconnected then return (1, connection) else
  let connection := { connection with state := .disconnecting }
  closeSockets (connectionCleanup connection).2
  return (0, (connectionCleanup connection).1)

variable {ip : List Char} {port : UInt16} {socket : ℤ}

/-- What the steps of `connection_connect` leave. -/
def ConnectionAttempt (ip : List Char) (port : UInt16) (calls : SocketCalls)
    (r : ℕ × Connection) : Prop :=
  Attempted r.1 r.2.socket (fdLog calls) ∧
    r.2 = ⟨ip, r.2.socket, if r.1 = 0 then .connecting else .disconnected, port⟩

theorem connectionCheck_holds {ok : Bool} (hfd : 0 ≤ socket)
    (hlog : fdLog calls = [.opened socket]) :
    Holds (fun _ _ => True) (ConnectionAttempt ip port) calls
      (orCleanup connectionCleanup ⟨ip, socket, .connecting, port⟩ ok) := by
  apply holds_orCleanup
  · refine ⟨?_, rfl⟩
    rw [hlog]
    exact .opened socket hfd
  · intro calls' hcalls
    refine ⟨?_, rfl⟩
    have hclosed :
        closes (connectionCleanup ⟨ip, socket, .connecting, port⟩).2 = [.closed socket] := by
      simp [connectionCleanup, hfd, closes]
    rw [hcalls, hlog, hclosed]
    exact .abandoned socket hfd

theorem connectionCreateSocket_holds :
    Holds (fun _ _ => True) (ConnectionAttempt ip port) []
      (connectionCreateSocket ⟨ip, socket, .connecting, port⟩) := by
  refine holds_socketCall trivial fun fd => ?_
  by_cases hfd : 0 ≤ fd
  · exact connectionCheck_holds hfd (fdLog_socket hfd)
  · have hlt : fd < 0 := not_le.mp hfd
    have hfails : decide (¬ fd < 0) = false := by simp [hlt]
    change Holds _ _ _ (orCleanup connectionCleanup ⟨ip, fd, .connecting, port⟩ (decide (¬ fd < 0)))
    rw [hfails]
    refine holds_closeSockets (fun _ _ => trivial) fun calls' hcalls => ⟨?_, rfl⟩
    have hnone : (connectionCleanup ⟨ip, fd, .connecting, port⟩).2 = [] := if_neg hlt.not_ge
    rw [hcalls, hnone, List.nil_append, fdLog_no_socket hlt]
    exact .failed

theorem connectionOpen_holds (hfd : 0 ≤ socket) (hlog : fdLog calls = [.opened socket]) :
    Holds (fun _ _ => True) (ConnectionAttempt ip port) calls
      (connectionOpen ⟨ip, socket, .connecting, port⟩) := by
  refine holds_socketCall trivial fun addr => ?_
  cases addr with
  | none =>
      refine connectionCheck_holds hfd ?_
      rw [fdLog_append, hlog]
      rfl
  | some addr =>
      refine holds_socketCall trivial fun _ => connectionCheck_holds hfd ?_
      rw [fdLog_append, fdLog_append, hlog]
      rfl

/-- How `connection_connect` comes out when the connection is not connected. -/
def ConnectionConnected (ip : List Char) (port : UInt16) (calls : SocketCalls)
    (r : ℕ × Connection) : Prop :=
  Attempted r.1 r.2.socket (fdLog calls) ∧
    r.2 = ⟨ip, r.2.socket, if r.1 = 0 then .connected else .disconnected, port⟩

theorem ConnectionAttempt.stop {code : ℕ} {connection : Connection}
    (h : ConnectionAttempt ip port calls (code, connection)) (hcode : code ≠ 0) :
    ConnectionConnected ip port calls (1, connection) := by
  refine ⟨h.1.of_ne hcode, ?_⟩
  have hstate := h.2
  rwa [if_neg hcode] at hstate

theorem ConnectionAttempt.go {code : ℕ} {connection : Connection}
    (h : ConnectionAttempt ip port calls (code, connection)) (hcode : ¬ code ≠ 0) :
    ∃ fd, 0 ≤ fd ∧ fdLog calls = [.opened fd] ∧ connection = ⟨ip, fd, .connecting, port⟩ := by
  obtain ⟨hattempt, hconnection⟩ := h
  obtain rfl : code = 0 := not_not.mp hcode
  obtain ⟨hfd, hlog⟩ := hattempt.of_zero
  exact ⟨connection.socket, hfd, hlog, hconnection⟩

theorem connectionConnect_holds {connection : Connection} (hstate : connection.state ≠ .connected)
    (ip : List Char) (port : UInt16) :
    Holds (fun _ _ => True) (ConnectionConnected (ip.take 63) port) []
      (connectionConnect connection ip port) := by
  unfold connectionConnect
  rw [if_neg hstate]
  apply connectionCreateSocket_holds.bind
  rintro calls₁ ⟨code₁, connection₁⟩ h₁
  refine holds_ite h₁.stop fun hcode₁ => ?_
  obtain ⟨fd₁, hfd₁, hlog₁, rfl⟩ := h₁.go hcode₁
  apply (connectionOpen_holds hfd₁ hlog₁).bind
  rintro calls₂ ⟨code₂, connection₂⟩ h₂
  refine holds_ite h₂.stop fun hcode₂ => ?_
  obtain ⟨fd₂, hfd₂, hlog₂, rfl⟩ := h₂.go hcode₂
  refine ⟨?_, rfl⟩
  rw [hlog₂]
  exact .opened fd₂ hfd₂

theorem connectionDisconnect_closes {connection : Connection}
    (hstate : connection.state ≠ .disconnected) :
    Holds (fun _ _ => True)
      (fun calls r => fdLog calls = closes (connectionCleanup connection).2 ∧
        r = (0, (connectionCleanup connection).1))
      [] (connectionDisconnect connection) := by
  unfold connectionDisconnect
  rw [if_neg hstate]
  exact holds_closeSockets (fun _ _ => trivial) fun calls hcalls => ⟨hcalls, rfl⟩

/-- A disconnect that is accepted closes the stored descriptor, and leaves the connection
disconnected. -/
theorem connectionDisconnect_accepted {connection : Connection}
    (hstate : connection.state ≠ .disconnected) (hsocket : 0 ≤ connection.socket) :
    connectionDisconnect connection = .call (.close connection.socket) fun _ =>
      .ret (0, ⟨connection.ip, -1, .disconnected, connection.port⟩) := by
  unfold connectionDisconnect
  rw [if_neg hstate]
  simp only [connectionCleanup, if_pos hsocket]
  rfl

inductive ConnectionCall
  | connect (ip : List Char) (port : UInt16)
  | disconnect

def connectionCall : ConnectionCall → Connection → SocketProg (ℕ × Connection)
  | .connect ip port, connection => connectionConnect connection ip port
  | .disconnect, connection => connectionDisconnect connection

theorem connectionConnect_refused {connection : Connection}
    (hstate : connection.state = .connected) (ip : List Char) (port : UInt16) :
    connectionConnect connection ip port = .ret (1, connection) := if_pos hstate

theorem connectionDisconnect_refused {connection : Connection}
    (hstate : connection.state = .disconnected) :
    connectionDisconnect connection = .ret (1, connection) := if_pos hstate

/-- Between calls a connection is either connected or disconnected. -/
structure ConnectionHolding (log : FdLog ℤ) (connection : Connection) : Prop where
  holding : Holding log connection.socket (connection.state = .connected)
  idle : connection.state ≠ .connected → connection.state = .disconnected

/-- No call breaks the ownership of the connection's socket. -/
theorem connection_callStep {connection connection' : Connection} {log' : FdLog ℤ}
    {op : ConnectionCall} (hi : ConnectionHolding log connection)
    (h : CallStep connectionCall (connection, log) op (connection', log')) :
    ConnectionHolding log' connection' := by
  obtain @⟨_, _, _, code, _, calls, hx⟩ := h
  cases op with
  | connect ip port =>
      change Exec (connectionConnect connection ip port) _ _ at hx
      by_cases hstate : connection.state = .connected
      · rw [connectionConnect_refused hstate, exec_ret] at hx
        obtain ⟨rfl, he⟩ := hx
        cases he
        simpa using hi
      · obtain ⟨hattempt, hconnection⟩ := (connectionConnect_holds hstate ip port).post hx
        have hstate' : connection'.state = if code = 0 then .connected else .disconnected :=
          congrArg Connection.state hconnection
        have hholding : Holding (log ++ fdLog calls) connection'.socket (code = 0) :=
          hi.holding.attempt hstate hattempt
        by_cases hcode : code = 0
        · rw [if_pos hcode] at hstate'
          exact ⟨hholding.congr (by simp [hcode, hstate']), fun hne => absurd hstate' hne⟩
        · rw [if_neg hcode] at hstate'
          exact ⟨hholding.congr (by simp [hcode, hstate']), fun _ => hstate'⟩
  | disconnect =>
      change Exec (connectionDisconnect connection) _ _ at hx
      by_cases hstate : connection.state = .connected
      · have hsocket := (hi.holding.held_active hstate).1
        rw [connectionDisconnect_accepted (by simp [hstate]) hsocket, exec_call_ret] at hx
        obtain ⟨_, _, rfl, hlast⟩ := hx
        obtain ⟨rfl, he⟩ := exec_ret.mp hlast
        cases he
        exact ⟨(hi.holding.release hstate).congr (by simp), fun _ => rfl⟩
      · rw [connectionDisconnect_refused (hi.idle hstate), exec_ret] at hx
        obtain ⟨rfl, he⟩ := hx
        cases he
        simpa using hi

/-- A connection that is not connected connects when the system calls succeed. -/
theorem connectionConnect_reconnects {connection : Connection}
    (hstate : connection.state ≠ .connected) (ip : List Char) (port : UInt16) {fd : ℤ}
    (hfd : 0 ≤ fd) (addr : UInt32) :
    Exec (connectionConnect connection ip port)
      [⟨.socket, fd⟩, ⟨.inetPton (ip.take 63), some addr⟩, ⟨.connect fd ⟨addr, port⟩, true⟩]
      (.ret (0, ⟨ip.take 63, fd, .connected, port⟩)) := by
  have hcreate : Exec (connectionCreateSocket ⟨ip.take 63, connection.socket, .connecting, port⟩)
      [⟨.socket, fd⟩] (.ret (0, ⟨ip.take 63, fd, .connecting, port⟩)) := by
    refine .cons ?_
    change Exec (orCleanup _ _ (decide (¬ fd < 0))) _ _
    rw [decide_eq_true (not_lt.mpr hfd)]
    exact .nil _
  unfold connectionConnect
  rw [if_neg hstate]
  refine exec_bind_ret.mpr ⟨_, _, [⟨.inetPton (ip.take 63), some addr⟩,
    ⟨.connect fd ⟨addr, port⟩, true⟩], rfl, hcreate, ?_⟩
  exact .cons (.cons (.nil _))

end Connection

theorem server_holding {steps : List ((Server × FdLog ℤ) × ServerCall)}
    {o : Server × FdLog ℤ} (h : Path (CallStep serverCall) (Server.init, []) steps o) :
    Holding o.2 o.1.socket (o.1.running = true) := by
  refine h.invariant (I := fun o => Holding o.2 o.1.socket (o.1.running = true)) ?_ ?_
  · exact Holding.idle.congr (by simp [Server.init])
  · intro o op o' hi hstep
    exact server_callStep hi hstep

theorem connection_holding {steps : List ((Connection × FdLog ℤ) × ConnectionCall)}
    {o : Connection × FdLog ℤ} (h : Path (CallStep connectionCall) (connectionInit, []) steps o) :
    ConnectionHolding o.2 o.1 := by
  refine h.invariant (I := fun o => ConnectionHolding o.2 o.1) ?_ ?_
  · exact ⟨Holding.idle.congr (by simp [connectionInit]), fun _ => rfl⟩
  · intro o op o' hi hstep
    exact connection_callStep hi hstep

/-- Between calls a server holds its socket exactly while it runs and a connection exactly while
it is connected; everything else that was opened has been closed. Calls refused because of the
state do nothing, a shutdown or disconnect that is accepted closes the stored descriptor and
nothing else, and an idle object can be started or connected. -/
theorem lifecycles_close_once :
    (∀ steps server log, Path (CallStep serverCall) (Server.init, []) steps (server, log) →
      Holding log server.socket (server.running = true) ∧
      (∀ fd, log.count (.opened fd) = log.count (.closed fd) +
        if server.running = true ∧ fd = server.socket then 1 else 0) ∧
      (server.running = true → (∀ port, Server.start server port = .ret (1, server)) ∧
        Server.shutdown server =
          .call (.close server.socket) fun _ => .ret (0, ⟨-1, false, server.port⟩)) ∧
      (server.running = false → Server.shutdown server = .ret (1, server) ∧
        ∀ port fd, 0 ≤ fd → ∃ calls, fdLog calls = [.opened fd] ∧
          Exec (Server.start server port) calls (.ret (0, ⟨fd, true, port⟩)))) ∧
    (∀ steps connection log,
      Path (CallStep connectionCall) (connectionInit, []) steps (connection, log) →
      Holding log connection.socket (connection.state = .connected) ∧
      (∀ fd, log.count (.opened fd) = log.count (.closed fd) +
        if connection.state = .connected ∧ fd = connection.socket then 1 else 0) ∧
      (connection.state = .connected →
        (∀ ip port, connectionConnect connection ip port = .ret (1, connection)) ∧
        connectionDisconnect connection = .call (.close connection.socket) fun _ =>
          .ret (0, ⟨connection.ip, -1, .disconnected, connection.port⟩)) ∧
      (connection.state ≠ .connected → connectionDisconnect connection = .ret (1, connection) ∧
        ∀ ip port fd, 0 ≤ fd → ∃ calls, fdLog calls = [.opened fd] ∧
          Exec (connectionConnect connection ip port) calls
            (.ret (0, ⟨ip.take 63, fd, .connected, port⟩)))) := by
  constructor
  · intro steps server log h
    have hholding : Holding log server.socket (server.running = true) := server_holding h
    refine ⟨hholding, hholding.count, fun hrunning => ⟨Server.start_refused hrunning, ?_⟩,
      fun hidle => ⟨Server.shutdown_refused hidle, fun port fd hfd => ?_⟩⟩
    · exact Server.shutdown_accepted hrunning (hholding.held_active hrunning).1
    · refine ⟨_, ?_, Server.start_restarts hidle port hfd⟩
      exact fdLog_socket hfd
  · intro steps connection log h
    have hholding : ConnectionHolding log connection := connection_holding h
    refine ⟨hholding.holding, hholding.holding.count,
      fun hstate => ⟨connectionConnect_refused hstate, ?_⟩,
      fun hidle => ⟨connectionDisconnect_refused (hholding.idle hidle), fun ip port fd hfd => ?_⟩⟩
    · exact connectionDisconnect_accepted (by simp [hstate]) (hholding.holding.held_active hstate).1
    · refine ⟨_, ?_, connectionConnect_reconnects hidle ip port hfd 0⟩
      exact fdLog_socket hfd

/-- A start fails at `bind` and the next one is given the same number; a connection fails at
`inet_pton`, connects and disconnects. -/
theorem lifecycles_close_once_after_failures :
    (Server.start ⟨3, true, 80⟩ 81 = .ret (1, ⟨3, true, 80⟩) ∧
      Server.shutdown ⟨3, true, 80⟩ = .call (.close 3) (fun _ => .ret (0, ⟨-1, false, 80⟩)) ∧
      Holding [.opened 3, .closed 3, .opened 3] 3 (true = true)) ∧
    (connectionDisconnect ⟨['h'], -1, .disconnected, 80⟩ =
        .ret (1, ⟨['h'], -1, .disconnected, 80⟩) ∧
      Holding [.opened 4, .closed 4, .opened 4, .closed 4] (-1)
        (ConnectionState.disconnected = .connected)) := by
  have hfails : Exec (serverCall (.start 80) Server.init)
      [⟨.socket, 3⟩, ⟨.setsockopt 3, true⟩, ⟨.bind 3 80, false⟩, ⟨.close 3, ()⟩]
      (.ret (1, ⟨-1, false, 80⟩)) := .cons (.cons (.cons (.cons (.nil _))))
  have hstarts : Exec (serverCall (.start 80) ⟨-1, false, 80⟩)
      [⟨.socket, 3⟩, ⟨.setsockopt 3, true⟩, ⟨.bind 3 80, true⟩, ⟨.listen 3, true⟩]
      (.ret (0, ⟨3, true, 80⟩)) := Server.start_restarts rfl 80 (by decide)
  have hserver := lifecycles_close_once.1 _ _ _ (.snoc (.snoc .nil (.call hfails)) (.call hstarts))
  have hinvalid : Exec (connectionCall (.connect ['h'] 80) connectionInit)
      [⟨.socket, 4⟩, ⟨.inetPton ['h'], none⟩, ⟨.close 4, ()⟩]
      (.ret (1, ⟨['h'], -1, .disconnected, 80⟩)) := .cons (.cons (.cons (.nil _)))
  have hconnects : Exec (connectionCall (.connect ['h'] 80) ⟨['h'], -1, .disconnected, 80⟩)
      [⟨.socket, 4⟩, ⟨.inetPton ['h'], some 0⟩, ⟨.connect 4 ⟨0, 80⟩, true⟩]
      (.ret (0, ⟨['h'], 4, .connected, 80⟩)) :=
    connectionConnect_reconnects (by decide) ['h'] 80 (by decide) 0
  have hcloses : Exec (connectionCall .disconnect ⟨['h'], 4, .connected, 80⟩) [⟨.close 4, ()⟩]
      (.ret (0, ⟨['h'], -1, .disconnected, 80⟩)) := .cons (.nil _)
  have hconnection := lifecycles_close_once.2 _ _ _
    (.snoc (.snoc (.snoc .nil (.call hinvalid)) (.call hconnects)) (.call hcloses))
  obtain ⟨hheld, -, hrunning, -⟩ := hserver
  obtain ⟨hnone, -, -, hidle⟩ := hconnection
  exact ⟨⟨(hrunning rfl).1 81, (hrunning rfl).2, hheld⟩, (hidle (by decide)).1, hnone⟩

end Sencd
