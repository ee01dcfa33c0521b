import Sencd.Guests
import Sencd.SocketLifecycles

/-!
# Setting up the server

`start_server_environment` before its threads are created: the listening socket, the manager
with its identity and its TUN device, and the UDP socket. Each function undoes what it has done
itself when a call fails, but nothing undoes the TUN device of a manager whose UDP socket could
not be bound.
-/
namespace Sencd.StartUp
open CallProgram DescriptorLog

variable {Buf : ℕ → Type}

section Calls

inductive SetupCall
  | onSocket (c : SocketCall)
  | openTun
  | tunSetIff (fd : ℤ) (name : List Char) (flags : UInt16)
  | setAddress (sock : ℤ) (name : List Char) (addr : UInt32)
  | setNetmask (sock : ℤ) (name : List Char) (mask : UInt32)
  | getFlags (sock : ℤ) (name : List Char)
  | setFlags (sock : ℤ) (name : List Char) (flags : UInt16)
  | malloc
  | configPath (filename : List Char)
  | identityLoadOrCreate (path : List Char)

/-- `tunSetIff` answers the name the interface has got, and the other calls with a result by
reference answer none when they fail. -/
@[reducible] def SetupCall.Answer (Buf : ℕ → Type) : SetupCall → Type
  | .onSocket c => c.Answer
  | .openTun => ℤ
  | .tunSetIff _ _ _ => Option (List Char)
  | .setAddress _ _ _ => Bool
  | .setNetmask _ _ _ => Bool
  | .getFlags _ _ => Option UInt16
  | .setFlags _ _ _ => Bool
  | .malloc => Bool
  | .configPath _ => Option (List Char)
  | .identityLoadOrCreate _ => Option (CryptoContext Buf)

abbrev SetupProg (Buf : ℕ → Type) (α : Type) := Prog SetupCall (SetupCall.Answer Buf) α

abbrev SetupCalls (Buf : ℕ → Type) := List (Event (SetupCall.Answer Buf))

def setupEvent : Event (SetupCall.Answer Buf) → Option (FdEvent ℤ)
  | ⟨.onSocket c, r⟩ => socketEvent ⟨c, r⟩
  | ⟨.openTun, fd⟩ => if 0 ≤ fd then some (.opened fd) else none
  | _ => none

def setupLog (calls : SetupCalls Buf) : FdLog ℤ := calls.filterMap setupEvent

def perform (c : SetupCall) : SetupProg Buf (c.Answer Buf) := Prog.perform c

/-- The functions on sockets make their calls here. -/
def onSockets {α : Type} (p : SocketProg α) : SetupProg Buf α :=
  p.interpret fun c => perform (.onSocket c)

/-- The end of a function that closes its descriptor and fails. -/
def closeAnd {α : Type} (fd : ℤ) (result : α) : SetupProg Buf α := do
  perform (.onSocket (.close fd))
  return result

end Calls

section Tun

/-- `TUN_CONFIG_T`. -/
structure TunConfig where
  address : List Char
  netmask : List Char
  ifname : List Char

/-- `TUN_DEVICE_T`. -/
structure TunDevice where
  name : List Char
  fd : ℤ

/-- `IFNAMSIZ - 1`, the characters of a name that are copied. -/
def ifNameLength : ℕ := 15

/-- `IFF_TUN | IFF_NO_PI`. -/
def iffTun : UInt16 := 0x1001

/-- `IFF_UP | IFF_RUNNING`. -/
def iffUp : UInt16 := 0x41

def tunAssignAddress (ifname : List Char) (config : TunConfig) : SetupProg Buf ℕ := do
  let sock ← perform (.onSocket .socket)
  if sock < 0 then return 1 else
  let name := ifname.take ifNameLength
  match ← perform (.onSocket (.inetPton config.address)) with
  | none => closeAnd sock 1
  | some addr =>
    if ¬ (← perform (.setAddress sock name addr)) then closeAnd sock 1 else
    match ← perform (.onSocket (.inetPton config.netmask)) with
    | none => closeAnd sock 1
    | some mask =>
      if ¬ (← perform (.setNetmask sock name mask)) then closeAnd sock 1 else
      match ← perform (.getFlags sock name) with
      | none => closeAnd sock 1
      | some flags =>
        if ¬ (← perform (.setFlags sock name (flags ||| iffUp))) then closeAnd sock 1 else
        closeAnd sock 0

def tunOpen (config : TunConfig) : SetupProg Buf (Option TunDevice) := do
  let fd ← perform .openTun
  if fd < 0 then return none else
  match ← perform (.tunSetIff fd (config.ifname.take ifNameLength) iffTun) with
  | none => closeAnd fd none
  | some name =>
    let code ← tunAssignAddress name config
    if code ≠ 0 then closeAnd fd none else
    if ← perform .malloc then return some ⟨name.take ifNameLength, fd⟩ else
    closeAnd fd none

end Tun

section Server

/-- `SERVER_DEFAULT_VNI`, `DEFAULT_NETMASK` and `SERVER_TUN_INTERFACE_NAME`. -/
def serverTunConfig : TunConfig :=
  ⟨"10.8.0.1".toList, "255.255.255.0".toList, "sencd0".toList⟩

variable (M : Memory Buf)

def sessionManagerInit : SetupProg Buf (ℕ × SessionManager Buf × Option TunDevice) := do
  match ← perform (.configPath "server_identity.key".toList) with
  | none => return ((Sencd.sessionManagerInit M none false).1,
      (Sencd.sessionManagerInit M none false).2, none)
  | some path =>
    match ← perform (.identityLoadOrCreate path) with
    | none => return ((Sencd.sessionManagerInit M none false).1,
        (Sencd.sessionManagerInit M none false).2, none)
    | some identity =>
      let tun ← tunOpen serverTunConfig
      let result := Sencd.sessionManagerInit M (some identity) tun.isSome
      return (result.1, result.2, tun)

def sessionManagerUdpBind (m : SessionManager Buf) (port : UInt16) :
    SetupProg Buf (ℕ × SessionManager Buf) := do
  let fd ← perform (.onSocket .socket)
  if fd < 0 then
    return (1, { m with udpSocket := fd })
  else
    let _ ← perform (.onSocket (.setsockopt fd))
    if ← perform (.onSocket (.bind fd port)) then return (0, { m with udpSocket := fd })
    else closeAnd fd (1, { m with udpSocket := -1 })

/-- `start_server_environment` up to its threads. It returns early when a step fails. -/
def startServerEnvironment (port : UInt16) :
    SetupProg Buf (Option (Server × SessionManager Buf × Option TunDevice)) := do
  let (code, server) ← onSockets (Server.start Server.init port)
  if code ≠ 0 then return none else
  let (code, m, tun) ← sessionManagerInit M
  if code ≠ 0 then do
    let _ ← onSockets (Server.shutdown server)
    return none
  else
    let (code, m) ← sessionManagerUdpBind m port
    if code ≠ 0 then do
      let _ ← onSockets (Server.shutdown server)
      return none
    else return some (server, m, tun)

end Server

section Rules

variable {α : Type} {P : SetupCalls Buf → SetupCall → Prop} {Q : SetupCalls Buf → α → Prop}
  {h h' : SetupCalls Buf} {log log' : FdLog ℤ}

theorem holds_perform {c : SetupCall} {f : c.Answer Buf → SetupProg Buf α} (hc : P h c)
    (hf : ∀ r, Holds P Q (h ++ [⟨c, r⟩]) (f r)) : Holds P Q h (perform c >>= f) :=
  ⟨hc, hf⟩

theorem holds_closeAnd {fd : ℤ} {result : α} (hc : P h (.onSocket (.close fd)))
    (hQ : Q (h ++ [⟨.onSocket (.close fd), ()⟩]) result) : Holds P Q h (closeAnd fd result) :=
  ⟨hc, fun _ => hQ⟩

@[simp] theorem setupLog_append (h h' : SetupCalls Buf) :
    setupLog (h ++ h') = setupLog h ++ setupLog h' := List.filterMap_append

theorem setupLog_socket (h : SetupCalls Buf) {fd : ℤ} (hfd : 0 ≤ fd) :
    setupLog (h ++ [⟨.onSocket .socket, fd⟩]) = setupLog h ++ [.opened fd] := by
  simp [setupLog, setupEvent, socketEvent, hfd]

theorem setupLog_openTun (h : SetupCalls Buf) {fd : ℤ} (hfd : 0 ≤ fd) :
    setupLog (h ++ [⟨.openTun, fd⟩]) = setupLog h ++ [.opened fd] := by
  simp [setupLog, setupEvent, hfd]

theorem setupLog_close (h : SetupCalls Buf) (fd : ℤ) :
    setupLog (h ++ [⟨.onSocket (.close fd), ()⟩]) = setupLog h ++ [.closed fd] := by
  simp [setupLog, setupEvent, socketEvent]

/-- The other calls open and close nothing. -/
theorem setupLog_quiet (h : SetupCalls Buf) {e : Event (SetupCall.Answer Buf)}
    (he : setupEvent e = none) : setupLog (h ++ [e]) = setupLog h := by
  simp [setupLog, he]

/-- What holds of a function on sockets holds of it here. -/
theorem holds_onSockets {p : SocketProg α} {Q : SocketCalls → α → Prop} {t : SocketCalls}
    (hp : Holds (fun _ _ => True) Q t p) (hP : ∀ h c, P h (.onSocket c)) (h : SetupCalls Buf) :
    Holds P (fun h' a => ∃ u, Q (t ++ u) a ∧ setupLog h' = setupLog h ++ fdLog u) h
      (onSockets p) := by
  induction p generalizing t h with
  | ret a => exact ⟨[], by simpa using hp, by simp⟩
  | call c k ih =>
      refine ⟨hP h c, fun r => (ih r (hp.2 r) (h ++ [⟨.onSocket c, r⟩])).mono fun h' a hQ => ?_⟩
      obtain ⟨u, hu, hlog⟩ := hQ
      refine ⟨⟨c, r⟩ :: u, by simpa using hu, ?_⟩
      have hfirst : setupLog ([⟨.onSocket c, r⟩] : SetupCalls Buf) = fdLog [⟨c, r⟩] := rfl
      rw [hlog, setupLog_append, hfirst, List.append_assoc, ← fdLog_append]
      rfl

end Rules

section Tun

variable {h h' : SetupCalls Buf} {base : FdLog ℤ} {config : TunConfig}

/-- The interface has been given its address and its netmask. -/
def Addressed (config : TunConfig) (name : List Char) (calls : SetupCalls Buf) : Prop :=
  ∃ sock addr mask, ⟨.onSocket (.inetPton config.address), some addr⟩ ∈ calls ∧
    ⟨.setAddress sock name addr, true⟩ ∈ calls ∧
    ⟨.onSocket (.inetPton config.netmask), some mask⟩ ∈ calls ∧
    ⟨.setNetmask sock name mask, true⟩ ∈ calls

theorem Addressed.of_prefix {name : List Char} (hh : Addressed config name h) (hbefore : h <+: h') :
    Addressed config name h' := by
  obtain ⟨sock, addr, mask, haddr, hassigned, hmask, hmasked⟩ := hh
  exact ⟨sock, addr, mask, hbefore.subset haddr, hbefore.subset hassigned, hbefore.subset hmask,
    hbefore.subset hmasked⟩

/-- It is brought up only with both, and keeps the flags it had. -/
def UpWhenAddressed (config : TunConfig) (calls : SetupCalls Buf) : SetupCall → Prop
  | .setFlags sock name flags => Addressed config name calls ∧
      ∃ old, ⟨.getFlags sock name, some old⟩ ∈ calls ∧ flags = old ||| iffUp
  | _ => True

/-- Since `base`, whatever was opened has been closed again. -/
def Undone (base : FdLog ℤ) (calls : SetupCalls Buf) : Prop :=
  ∃ log, setupLog calls = base ++ log ∧ Balanced log

/-- Since `base`, one descriptor was opened that has not been closed again. -/
def Opened (base : FdLog ℤ) (fd : ℤ) (calls : SetupCalls Buf) : Prop :=
  0 ≤ fd ∧ ∃ log, setupLog calls = base ++ .opened fd :: log ∧ Balanced log

theorem Undone.refl (h : SetupCalls Buf) : Undone (setupLog h) h :=
  ⟨[], (List.append_nil _).symm, .nil⟩

theorem Undone.quiet (hh : Undone base h) {e : Event (SetupCall.Answer Buf)}
    (he : setupEvent e = none) : Undone base (h ++ [e]) := by
  obtain ⟨log, hlog, hbalanced⟩ := hh
  exact ⟨log, (setupLog_quiet h he).trans hlog, hbalanced⟩

theorem Opened.quiet {fd : ℤ} (hh : Opened base fd h) {e : Event (SetupCall.Answer Buf)}
    (he : setupEvent e = none) : Opened base fd (h ++ [e]) := by
  obtain ⟨hfd, log, hlog, hbalanced⟩ := hh
  exact ⟨hfd, log, (setupLog_quiet h he).trans hlog, hbalanced⟩

theorem Opened.close {fd : ℤ} (hh : Opened base fd h) :
    Undone base (h ++ [⟨.onSocket (.close fd), ()⟩]) := by
  obtain ⟨-, log, hlog, hbalanced⟩ := hh
  refine ⟨.opened fd :: log ++ [.closed fd], ?_, .bracket fd hbalanced⟩
  rw [setupLog_close, hlog, List.append_assoc]

theorem Undone.trans (hh : Undone base h) (hh' : Undone (setupLog h) h') : Undone base h' := by
  obtain ⟨log, hlog, hbalanced⟩ := hh
  obtain ⟨log', hlog', hbalanced'⟩ := hh'
  exact ⟨log ++ log', by rw [hlog', hlog, List.append_assoc], hbalanced.append hbalanced'⟩

theorem Opened.trans {fd : ℤ} (hh : Opened base fd h) (hh' : Undone (setupLog h) h') :
    Opened base fd h' := by
  obtain ⟨hfd, log, hlog, hbalanced⟩ := hh
  obtain ⟨log', hlog', hbalanced'⟩ := hh'
  refine ⟨hfd, log ++ log', ?_, hbalanced.append hbalanced'⟩
  rw [hlog', hlog, List.append_assoc, List.cons_append]

/-- What `tun_assign_address` leaves: no descriptor, and if it succeeds an interface that is up
with its address and its netmask. -/
structure Assigned (base : FdLog ℤ) (config : TunConfig) (name : List Char)
    (calls : SetupCalls Buf) (code : ℕ) : Prop where
  undone : Undone base calls
  up : code = 0 → Addressed config name calls ∧
    ∃ sock flags, ⟨.setFlags sock name (flags ||| iffUp), true⟩ ∈ calls

theorem assign_fails {sock : ℤ} {name : List Char} (hh : Opened base sock h) :
    Holds (UpWhenAddressed config) (Assigned base config name) h (closeAnd sock 1) :=
  holds_closeAnd trivial ⟨hh.close, nofun⟩

theorem tunAssignAddress_holds (h : SetupCalls Buf) (ifname : List Char) (config : TunConfig) :
    Holds (UpWhenAddressed config) (Assigned (setupLog h) config (ifname.take ifNameLength)) h
      (tunAssignAddress ifname config) := by
  refine holds_perform trivial fun sock => holds_ite (fun hsock => ?_) fun hsock => ?_
  · refine ⟨(Undone.refl h).quiet ?_, by simp⟩
    simp [setupEvent, socketEvent, not_le.mpr hsock]
  have hsock : 0 ≤ sock := not_lt.mp hsock
  have hopened : Opened (setupLog h) sock (h ++ [⟨.onSocket .socket, sock⟩]) :=
    ⟨hsock, [], setupLog_socket h hsock, .nil⟩
  refine holds_perform trivial fun addr => ?_
  have haddr := hopened.quiet (e := ⟨.onSocket (.inetPton config.address), addr⟩) rfl
  cases addr with
  | none => exact assign_fails haddr
  | some addr =>
  refine holds_perform trivial fun assigned => ?_
  have hassigned := haddr.quiet
    (e := ⟨.setAddress sock (ifname.take ifNameLength) addr, assigned⟩) rfl
  refine holds_ite (fun _ => assign_fails hassigned) fun hok => ?_
  obtain rfl : assigned = true := not_not.mp hok
  refine holds_perform trivial fun mask => ?_
  have hmask := hassigned.quiet (e := ⟨.onSocket (.inetPton config.netmask), mask⟩) rfl
  cases mask with
  | none => exact assign_fails hmask
  | some mask =>
  refine holds_perform trivial fun masked => ?_
  have hmasked := hmask.quiet (e := ⟨.setNetmask sock (ifname.take ifNameLength) mask, masked⟩) rfl
  refine holds_ite (fun _ => assign_fails hmasked) fun hok => ?_
  obtain rfl : masked = true := not_not.mp hok
  refine holds_perform trivial fun flags => ?_
  have hflags := hmasked.quiet (e := ⟨.getFlags sock (ifname.take ifNameLength), flags⟩) rfl
  cases flags with
  | none => exact assign_fails hflags
  | some flags =>
  refine holds_perform ⟨?_, flags, by simp, rfl⟩ fun up => ?_
  · exact ⟨sock, addr, mask, by simp, by simp, by simp, by simp⟩
  have hup := hflags.quiet
    (e := ⟨.setFlags sock (ifname.take ifNameLength) (flags ||| iffUp), up⟩) rfl
  refine holds_ite (fun _ => assign_fails hup) fun hok => ?_
  obtain rfl : up = true := not_not.mp hok
  refine holds_closeAnd trivial ⟨hup.close, fun _ => ⟨?_, sock, flags, by simp⟩⟩
  exact ⟨sock, addr, mask, by simp, by simp, by simp, by simp⟩

/-- What `tun_open` leaves: nothing, or a device whose interface is up with its address. -/
def TunOpened (base : FdLog ℤ) (config : TunConfig) (calls : SetupCalls Buf) :
    Option TunDevice → Prop
  | none => Undone base calls
  | some tun => Opened base tun.fd calls ∧ Addressed config tun.name calls ∧
      ∃ sock flags, ⟨.setFlags sock tun.name (flags ||| iffUp), true⟩ ∈ calls

theorem tun_fails {fd : ℤ} (hh : Opened base fd h) :
    Holds (UpWhenAddressed config) (TunOpened base config) h (closeAnd fd none) :=
  holds_closeAnd trivial hh.close

theorem tunOpen_holds (h : SetupCalls Buf) (config : TunConfig) :
    Holds (UpWhenAddressed config) (TunOpened (setupLog h) config) h (tunOpen config) := by
  refine holds_perform trivial fun fd => holds_ite (fun hfd => ?_) fun hfd => ?_
  · refine (Undone.refl h).quiet (e := ⟨.openTun, fd⟩) ?_
    simp [setupEvent, not_le.mpr hfd]
  have hfd : 0 ≤ fd := not_lt.mp hfd
  have hopened : Opened (setupLog h) fd (h ++ [⟨.openTun, fd⟩]) :=
    ⟨hfd, [], setupLog_openTun h hfd, .nil⟩
  refine holds_perform trivial fun name => ?_
  have hnamed := hopened.quiet
    (e := ⟨.tunSetIff fd (config.ifname.take ifNameLength) iffTun, name⟩) rfl
  cases name with
  | none => exact tun_fails hnamed
  | some name =>
  refine (tunAssignAddress_holds _ name config).bind fun h' code hassigned => ?_
  have hkept := hnamed.trans hassigned.undone
  refine holds_ite (fun _ => tun_fails hkept) fun hcode => ?_
  obtain ⟨haddressed, sock, flags, hup⟩ := hassigned.up (not_not.mp hcode)
  refine holds_perform trivial fun allocated => ?_
  have hallocated := hkept.quiet (e := ⟨.malloc, allocated⟩) rfl
  refine holds_ite (fun _ => ?_) fun _ => tun_fails hallocated
  exact ⟨hallocated, haddressed.of_prefix (List.prefix_append _ _), sock, flags,
    List.mem_append_left _ hup⟩

end Tun

section Server

variable {M : Memory Buf} {h h' : SetupCalls Buf} {base : FdLog ℤ}

theorem undone_of_attempted {code : ℕ} {socket : ℤ} {u : SocketCalls}
    (hattempt : Attempted code socket (fdLog u)) (hcode : code ≠ 0)
    (hlog : setupLog h' = base ++ fdLog u) : Undone base h' := by
  refine ⟨fdLog u, hlog, ?_⟩
  generalize fdLog u = log at hattempt
  cases hattempt with
  | opened fd hfd => exact absurd rfl hcode
  | failed => exact .nil
  | abandoned fd hfd => exact .bracket fd .nil

theorem opened_of_attempted {socket : ℤ} {u : SocketCalls}
    (hattempt : Attempted 0 socket (fdLog u)) (hlog : setupLog h' = base ++ fdLog u) :
    Opened base socket h' := by
  obtain ⟨hfd, hu⟩ := hattempt.of_zero
  exact ⟨hfd, [], by rw [hlog, hu], .nil⟩

theorem serverStart_holds (h : SetupCalls Buf) (port : UInt16) :
    Holds (UpWhenAddressed serverTunConfig) (fun h' r => (r.1 ≠ 0 → Undone (setupLog h) h') ∧
      (r.1 = 0 → Opened (setupLog h) r.2.socket h' ∧ r.2.running = true))
      h (onSockets (Server.start Server.init port)) := by
  refine (holds_onSockets (Server.start_holds rfl port) (fun _ _ => trivial) h).mono ?_
  rintro h' ⟨code, server⟩ ⟨u, ⟨hattempt, hserver⟩, hlog⟩
  rw [List.nil_append] at hattempt
  refine ⟨fun hcode => undone_of_attempted hattempt hcode hlog, fun hcode => ?_⟩
  obtain rfl : code = 0 := hcode
  exact ⟨opened_of_attempted hattempt hlog, congrArg Server.running hserver⟩

theorem serverShutdown_holds (h : SetupCalls Buf) {server : Server}
    (hrunning : server.running = true) (hsocket : 0 ≤ server.socket) :
    Holds (UpWhenAddressed serverTunConfig)
      (fun h' _ => setupLog h' = setupLog h ++ [.closed server.socket])
      h (onSockets (Server.shutdown server)) := by
  refine (holds_onSockets (Server.shutdown_holds hrunning hsocket) (fun _ _ => trivial) h).mono ?_
  rintro h' r ⟨u, ⟨hclosed, -⟩, hlog⟩
  rw [hlog, ← hclosed, List.nil_append]

/-- What `session_manager_init` leaves. -/
structure ManagerInit (M : Memory Buf) (base : FdLog ℤ) (calls : SetupCalls Buf)
    (r : ℕ × SessionManager Buf × Option TunDevice) : Prop where
  failed : r.1 ≠ 0 → Undone base calls
  ready : r.1 = 0 → ∃ identity tun, r.2 = ((Sencd.sessionManagerInit M (some identity) true).2,
    some tun) ∧ TunOpened base serverTunConfig calls (some tun)

theorem sessionManagerInit_holds (h : SetupCalls Buf) :
    Holds (UpWhenAddressed serverTunConfig) (ManagerInit M (setupLog h)) h
      (sessionManagerInit M) := by
  refine holds_perform trivial fun path => ?_
  have hpath := (Undone.refl h).quiet
    (e := ⟨.configPath "server_identity.key".toList, path⟩) rfl
  cases path with
  | none => exact ⟨fun _ => hpath, nofun⟩
  | some path =>
  refine holds_perform trivial fun identity => ?_
  have hidentity := hpath.quiet (e := ⟨.identityLoadOrCreate path, identity⟩) rfl
  cases identity with
  | none => exact ⟨fun _ => hidentity, nofun⟩
  | some identity =>
  refine (tunOpen_holds _ serverTunConfig).bind fun h' tun htun => ?_
  rw [setupLog_quiet _ rfl, setupLog_quiet _ rfl] at htun
  cases tun with
  | none => exact ⟨fun _ => htun, nofun⟩
  | some tun => exact ⟨fun hcode => absurd rfl hcode, fun _ => ⟨identity, tun, rfl, htun⟩⟩

theorem sessionManagerUdpBind_holds (h : SetupCalls Buf) (m : SessionManager Buf)
    (port : UInt16) :
    Holds (UpWhenAddressed serverTunConfig)
      (fun h' r => r.1 = 0 → Opened (setupLog h) r.2.udpSocket h' ∧
        r.2 = { m with udpSocket := r.2.udpSocket })
      h (sessionManagerUdpBind m port) := by
  refine holds_perform trivial fun fd => holds_ite (fun hfd => ?_) fun hfd => ?_
  · exact fun hcode => absurd hcode Nat.one_ne_zero
  have hfd : 0 ≤ fd := not_lt.mp hfd
  have hopened : Opened (setupLog h) fd (h ++ [⟨.onSocket .socket, fd⟩]) :=
    ⟨hfd, [], setupLog_socket h hfd, .nil⟩
  refine holds_perform trivial fun opt => holds_perform trivial fun bound => ?_
  have hbound := (hopened.quiet (e := ⟨.onSocket (.setsockopt fd), opt⟩) rfl).quiet
    (e := ⟨.onSocket (.bind fd port), bound⟩) rfl
  refine holds_ite (fun _ _ => ⟨hbound, rfl⟩) fun _ => ?_
  exact holds_closeAnd trivial fun hcode => absurd hcode Nat.one_ne_zero

/-- The calls for a UDP socket that could not be created, or not bound. -/
def UdpRefused (port : UInt16) (calls : SetupCalls Buf) : Prop :=
  (∃ fd : ℤ, fd < 0 ∧ calls = [⟨.onSocket .socket, fd⟩]) ∨
    ∃ fd : ℤ, ∃ opt, 0 ≤ fd ∧ calls = [⟨.onSocket .socket, fd⟩, ⟨.onSocket (.setsockopt fd), opt⟩,
      ⟨.onSocket (.bind fd port), false⟩, ⟨.onSocket (.close fd), ()⟩]

theorem sessionManagerUdpBind_refused {m m' : SessionManager Buf} {port : UInt16} {code : ℕ}
    {calls : SetupCalls Buf}
    (hx : Exec (sessionManagerUdpBind m port) calls (.ret (code, m'))) (hcode : code ≠ 0) :
    UdpRefused port calls := by
  obtain ⟨fd, rest, rfl, hcreated⟩ := exec_call_ret.mp hx
  change Exec (if fd < 0 then _ else _) _ _ at hcreated
  by_cases hfd : fd < 0
  · rw [if_pos hfd] at hcreated
    obtain ⟨rfl, -⟩ := exec_ret.mp hcreated
    exact .inl ⟨fd, hfd, rfl⟩
  rw [if_neg hfd] at hcreated
  obtain ⟨opt, rest, rfl, hset⟩ := exec_call_ret.mp hcreated
  obtain ⟨bound, rest, rfl, hbound⟩ := exec_call_ret.mp hset
  cases bound with
  | true =>
      obtain ⟨-, he⟩ := exec_ret.mp hbound
      exact absurd (congrArg Prod.fst (Prog.ret.inj he)) hcode
  | false =>
      obtain ⟨_, rest, rfl, hclosed⟩ := exec_call_ret.mp hbound
      obtain ⟨rfl, -⟩ := exec_ret.mp hclosed
      exact .inr ⟨fd, opt, not_lt.mp hfd, rfl⟩

/-- Such calls leave no descriptor open. -/
theorem UdpRefused.undone {port : UInt16} {w : SetupCalls Buf} (hw : UdpRefused port w)
    (h : SetupCalls Buf) : Undone (setupLog h) (h ++ w) := by
  obtain ⟨fd, hfd, rfl⟩ | ⟨fd, opt, hfd, rfl⟩ := hw
  · refine (Undone.refl h).quiet ?_
    simp [setupEvent, socketEvent, not_le.mpr hfd]
  · have hopened : Opened (setupLog h) fd (h ++ [⟨.onSocket .socket, fd⟩]) :=
      ⟨hfd, [], setupLog_socket h hfd, .nil⟩
    have hbound := (hopened.quiet (e := ⟨.onSocket (.setsockopt fd), opt⟩) rfl).quiet
      (e := ⟨.onSocket (.bind fd port), false⟩) rfl
    simpa using hbound.close

theorem Undone.held_eq (hh : Undone base h) (hopens : OpensFree (setupLog h)) :
    held (setupLog h) = held base := by
  obtain ⟨log, hlog, hbalanced⟩ := hh
  rw [hlog] at hopens ⊢
  exact hbalanced.held_append hopens

theorem Opened.held_eq {fd : ℤ} (hh : Opened base fd h) (hopens : OpensFree (setupLog h)) :
    held (setupLog h) = insert fd (held base) ∧ fd ∉ held base := by
  obtain ⟨-, log, hlog, hbalanced⟩ := hh
  rw [hlog, ← List.singleton_append, ← List.append_assoc] at hopens ⊢
  rw [hbalanced.held_append hopens, held_opened]
  exact ⟨rfl, (opensFree_opened.mp (hopens.of_prefix (List.prefix_append _ log))).2⟩

/-- Nothing is closed that is not open. -/
theorem Undone.closesHeld (hh : Undone base h) (hopens : OpensFree (setupLog h))
    (hcloses : ClosesHeld base) : ClosesHeld (setupLog h) := by
  obtain ⟨log, hlog, hbalanced⟩ := hh
  rw [hlog] at hopens ⊢
  exact hbalanced.closesHeld_append hopens hcloses

theorem Opened.closesHeld {fd : ℤ} (hh : Opened base fd h) (hopens : OpensFree (setupLog h))
    (hcloses : ClosesHeld base) : ClosesHeld (setupLog h) := by
  obtain ⟨-, log, hlog, hbalanced⟩ := hh
  rw [hlog, ← List.singleton_append, ← List.append_assoc] at hopens ⊢
  exact hbalanced.closesHeld_append hopens (closesHeld_opened.mpr hcloses)

theorem Undone.opensFree (hh : Undone base h) (hopens : OpensFree (setupLog h)) :
    OpensFree base := by
  obtain ⟨log, hlog, -⟩ := hh
  rw [hlog] at hopens
  exact hopens.of_prefix (List.prefix_append _ _)

theorem Opened.opensFree {fd : ℤ} (hh : Opened base fd h) (hopens : OpensFree (setupLog h)) :
    OpensFree base := by
  obtain ⟨-, log, hlog, -⟩ := hh
  rw [hlog] at hopens
  exact hopens.of_prefix (List.prefix_append _ _)

/-- The calls of the set-up, and what it returns. -/
inductive SetUpCalls (M : Memory Buf) (port : UInt16) :
    SetupCalls Buf → Option (Server × SessionManager Buf × Option TunDevice) → Prop
  | unstarted {u : SetupCalls Buf} {code : ℕ} {server : Server} :
      Exec (onSockets (Server.start Server.init port)) u (.ret (code, server)) → code ≠ 0 →
      SetUpCalls M port u none
  | uninitialized {u v x : SetupCalls Buf} {code : ℕ} {server : Server}
      {r : SessionManager Buf × Option TunDevice} {down : ℕ × Server} :
      Exec (onSockets (Server.start Server.init port)) u (.ret (0, server)) →
      Exec (sessionManagerInit M) v (.ret (code, r)) → code ≠ 0 →
      Exec (onSockets (Server.shutdown server)) x (.ret down) →
      SetUpCalls M port (u ++ (v ++ x)) none
  | unbound {u v w x : SetupCalls Buf} {code : ℕ} {server : Server} {m m' : SessionManager Buf}
      {tun : Option TunDevice} {down : ℕ × Server} :
      Exec (onSockets (Server.start Server.init port)) u (.ret (0, server)) →
      Exec (sessionManagerInit M) v (.ret (0, m, tun)) →
      Exec (sessionManagerUdpBind m port) w (.ret (code, m')) → code ≠ 0 →
      Exec (onSockets (Server.shutdown server)) x (.ret down) →
      SetUpCalls M port (u ++ (v ++ (w ++ x))) none
  | ready {u v w : SetupCalls Buf} {server : Server} {m m' : SessionManager Buf}
      {tun : Option TunDevice} :
      Exec (onSockets (Server.start Server.init port)) u (.ret (0, server)) →
      Exec (sessionManagerInit M) v (.ret (0, m, tun)) →
      Exec (sessionManagerUdpBind m port) w (.ret (0, m')) →
      SetUpCalls M port (u ++ (v ++ w)) (some (server, m', tun))

theorem startServerEnvironment_calls {port : UInt16} {calls : SetupCalls Buf}
    {r : Option (Server × SessionManager Buf × Option TunDevice)}
    (hx : Exec (startServerEnvironment M port) calls (.ret r)) : SetUpCalls M port calls r := by
  obtain ⟨⟨code, server⟩, u, rest, rfl, hstart, hrest⟩ := exec_bind_ret.mp hx
  dsimp only at hrest
  by_cases hcode : code ≠ 0
  · rw [if_pos hcode] at hrest
    obtain ⟨rfl, he⟩ := exec_ret.mp hrest
    obtain rfl := Prog.ret.inj he
    rw [List.append_nil]
    exact .unstarted hstart hcode
  rw [if_neg hcode] at hrest
  obtain rfl := not_not.mp hcode
  obtain ⟨⟨code, m, tun⟩, v, rest, rfl, hinit, hrest⟩ := exec_bind_ret.mp hrest
  dsimp only at hrest
  by_cases hcode : code ≠ 0
  · rw [if_pos hcode] at hrest
    obtain ⟨down, x, last, rfl, hdown, hlast⟩ := exec_bind_ret.mp hrest
    obtain ⟨rfl, he⟩ := exec_ret.mp hlast
    obtain rfl := Prog.ret.inj he
    rw [List.append_nil]
    exact .uninitialized hstart hinit hcode hdown
  rw [if_neg hcode] at hrest
  obtain rfl := not_not.mp hcode
  obtain ⟨⟨code, m'⟩, w, rest, rfl, hbind, hrest⟩ := exec_bind_ret.mp hrest
  dsimp only at hrest
  by_cases hcode : code ≠ 0
  · rw [if_pos hcode] at hrest
    obtain ⟨down, x, last, rfl, hdown, hlast⟩ := exec_bind_ret.mp hrest
    obtain ⟨rfl, he⟩ := exec_ret.mp hlast
    obtain rfl := Prog.ret.inj he
    rw [List.append_nil]
    exact .unbound hstart hinit hbind hcode hdown
  · rw [if_neg hcode] at hrest
    obtain rfl := not_not.mp hcode
    obtain ⟨rfl, he⟩ := exec_ret.mp hrest
    obtain rfl := Prog.ret.inj he
    rw [List.append_nil]
    exact .ready hstart hinit hbind

/-- The set-up had opened its TUN device when the UDP socket could not be created, or not
bound; it has closed the listening socket since. -/
def UdpFailed (M : Memory Buf) (port : UInt16) (calls : SetupCalls Buf) (tun : TunDevice) : Prop :=
  ∃ u v w x server m down, calls = u ++ (v ++ (w ++ x)) ∧
    Exec (onSockets (Server.start Server.init port)) u (.ret (0, server)) ∧
    Exec (sessionManagerInit M) v (.ret (0, m, some tun)) ∧ UdpRefused port w ∧
    Exec (onSockets (Server.shutdown server)) x (.ret down)

/-- All that is left of the set-up is the TUN device, with its interface up. -/
structure Leaked (calls : SetupCalls Buf) (tun : TunDevice) : Prop where
  held_eq : held (setupLog calls) = {tun.fd}
  up : Addressed serverTunConfig tun.name calls

/-- The threads start with three descriptors, and a manager without sessions. -/
structure ServerReady (M : Memory Buf) (calls : SetupCalls Buf) (server : Server)
    (m : SessionManager Buf) (tun : TunDevice) : Prop where
  running : server.running = true
  manager : ∃ identity, m = startedManager M identity m.udpSocket
  udpSocket : 0 ≤ m.udpSocket
  distinct : [server.socket, tun.fd, m.udpSocket].Nodup
  held_eq : held (setupLog calls) = {server.socket, tun.fd, m.udpSocket}
  up : Addressed serverTunConfig tun.name calls

/-- A set-up that fails leaves nothing open, unless it is the UDP socket that fails. -/
def SetUp (M : Memory Buf) (port : UInt16) (calls : SetupCalls Buf) :
    Option (Server × SessionManager Buf × Option TunDevice) → Prop
  | none => (∀ tun, UdpFailed M port calls tun → Leaked calls tun) ∧
      ((∀ tun, ¬ UdpFailed M port calls tun) → held (setupLog calls) = ∅)
  | some (server, m, tun) => ∃ device, tun = some device ∧ ServerReady M calls server m device

theorem Opened.shutdown {fd : ℤ} (hh : Opened [] fd h) (hopens : OpensFree (setupLog h'))
    (hlog : setupLog h' = setupLog h ++ [.closed fd]) :
    held (setupLog h') = ∅ ∧ ClosesHeld (setupLog h') := by
  rw [hlog] at hopens ⊢
  have hopens := opensFree_closed.mp hopens
  obtain ⟨hheld, -⟩ := hh.held_eq hopens
  rw [held_closed, closesHeld_closed, hheld]
  exact ⟨by simp, hh.closesHeld hopens closesHeld_nil, Set.mem_insert fd _⟩

/-- The listening socket and the TUN device. -/
theorem held_device {listening : ℤ} {tun : TunDevice} {h₁ h₂ : SetupCalls Buf}
    (hlistening : Opened [] listening h₁) (hdevice : Opened (setupLog h₁) tun.fd h₂)
    (hopens : OpensFree (setupLog h₂)) :
    held (setupLog h₂) = {tun.fd, listening} ∧ tun.fd ≠ listening ∧ ClosesHeld (setupLog h₂) := by
  have hopens₁ := hdevice.opensFree hopens
  obtain ⟨hheld₁, -⟩ := hlistening.held_eq hopens₁
  obtain ⟨hheld₂, hfree⟩ := hdevice.held_eq hopens
  rw [hheld₁, held_nil] at hheld₂ hfree
  simp only [insert_empty_eq, Set.mem_singleton_iff] at hheld₂ hfree
  exact ⟨hheld₂, hfree, hdevice.closesHeld hopens (hlistening.closesHeld hopens₁ closesHeld_nil)⟩

variable {u v w x : SetupCalls Buf} {server : Server} {port : UInt16}

theorem start_opened (hx : Exec (onSockets (Server.start Server.init port)) u (.ret (0, server))) :
    Opened [] server.socket u ∧ server.running = true :=
  ((serverStart_holds [] port).post hx).2 rfl

theorem init_opened {m : SessionManager Buf} {tun : Option TunDevice} (h : SetupCalls Buf)
    (hx : Exec (sessionManagerInit M) v (.ret (0, m, tun))) :
    ∃ identity device, m = (Sencd.sessionManagerInit M (some identity) true).2 ∧
      tun = some device ∧ Opened (setupLog h) device.fd (h ++ v) ∧
      Addressed serverTunConfig device.name (h ++ v) := by
  obtain ⟨identity, device, he, hopened, haddressed, -⟩ :=
    ((sessionManagerInit_holds (M := M) h).post hx).ready rfl
  obtain ⟨rfl, rfl⟩ := Prod.mk.inj he
  exact ⟨identity, device, rfl, rfl, hopened, haddressed⟩

theorem shutdown_log {down : ℕ × Server} (h : SetupCalls Buf) (hrunning : server.running = true)
    (hsocket : 0 ≤ server.socket) (hx : Exec (onSockets (Server.shutdown server)) x (.ret down)) :
    setupLog (h ++ x) = setupLog h ++ [.closed server.socket] :=
  (serverShutdown_holds h hrunning hsocket).post hx

/-- When the UDP socket fails, the TUN device stays open. -/
theorem udpFailed_leaked {m : SessionManager Buf} {tun : TunDevice} {down : ℕ × Server}
    (hstart : Exec (onSockets (Server.start Server.init port)) u (.ret (0, server)))
    (hinit : Exec (sessionManagerInit M) v (.ret (0, m, some tun))) (hw : UdpRefused port w)
    (hdown : Exec (onSockets (Server.shutdown server)) x (.ret down))
    (hopens : OpensFree (setupLog (u ++ (v ++ (w ++ x))))) :
    Leaked (u ++ (v ++ (w ++ x))) tun ∧ ClosesHeld (setupLog (u ++ (v ++ (w ++ x)))) := by
  obtain ⟨hlistening, hrunning⟩ := start_opened hstart
  obtain ⟨identity, device, -, he, hdevice, haddressed⟩ := init_opened u hinit
  obtain rfl := Option.some.inj he
  have hundone := hw.undone (u ++ v)
  have hassoc : u ++ (v ++ (w ++ x)) = u ++ v ++ w ++ x := by simp
  have hlog := shutdown_log (u ++ v ++ w) hrunning hlistening.1 hdown
  rw [hassoc] at hopens ⊢
  rw [hlog] at hopens
  have hopens := opensFree_closed.mp hopens
  obtain ⟨hheld, hne, hcloses⟩ := held_device hlistening hdevice (hundone.opensFree hopens)
  have hheld := (hundone.held_eq hopens).trans hheld
  refine ⟨⟨?_, haddressed.of_prefix ?_⟩, ?_⟩
  · rw [hlog, held_closed, hheld, Set.pair_comm]
    exact Set.insert_sdiff_self_of_notMem hne.symm
  · rw [List.append_assoc (u ++ v)]
    exact List.prefix_append _ _
  · rw [hlog, closesHeld_closed, hheld]
    exact ⟨hundone.closesHeld hopens hcloses, by simp⟩

/-- When all three succeed, the threads have what they need. -/
theorem setUp_ready {m m' : SessionManager Buf} {tun : Option TunDevice}
    (hstart : Exec (onSockets (Server.start Server.init port)) u (.ret (0, server)))
    (hinit : Exec (sessionManagerInit M) v (.ret (0, m, tun)))
    (hbind : Exec (sessionManagerUdpBind m port) w (.ret (0, m')))
    (hopens : OpensFree (setupLog (u ++ (v ++ w)))) :
    (∃ device, tun = some device ∧ ServerReady M (u ++ (v ++ w)) server m' device) ∧
      ClosesHeld (setupLog (u ++ (v ++ w))) := by
  obtain ⟨hlistening, hrunning⟩ := start_opened hstart
  obtain ⟨identity, device, rfl, rfl, hdevice, haddressed⟩ := init_opened u hinit
  obtain ⟨hudp, hm⟩ :=
    (sessionManagerUdpBind_holds (u ++ v) _ port).post hbind rfl
  rw [← List.append_assoc] at hopens ⊢
  obtain ⟨hheld, hne, hcloses⟩ := held_device hlistening hdevice (hudp.opensFree hopens)
  obtain ⟨hheld', hfree⟩ := hudp.held_eq hopens
  rw [hheld, Set.mem_insert_iff, Set.mem_singleton_iff, not_or] at hfree
  obtain ⟨hneTun, hneListening⟩ := hfree
  refine ⟨⟨device, rfl, hrunning, ⟨identity, ?_⟩, hudp.1, ?_, ?_,
    haddressed.of_prefix (List.prefix_append _ _)⟩, hudp.closesHeld hopens hcloses⟩
  · rw [startedManager, Sencd.sessionManagerUdpBind, if_neg (not_lt.mpr hudp.1), if_pos rfl]
    exact hm
  · simp [hne.symm, Ne.symm hneTun, Ne.symm hneListening]
  · rw [hheld', hheld, Set.pair_comm, Set.insert_comm, Set.pair_comm m'.udpSocket]

theorem startServerEnvironment_setUp {calls : SetupCalls Buf}
    {r : Option (Server × SessionManager Buf × Option TunDevice)}
    (hx : Exec (startServerEnvironment M port) calls (.ret r))
    (hopens : OpensFree (setupLog calls)) :
    SetUp M port calls r ∧ ClosesHeld (setupLog calls) := by
  have hleaks : ∀ tun, UdpFailed M port calls tun → Leaked calls tun := by
    rintro tun ⟨u, v, w, x, server, m, down, rfl, hstart, hinit, hw, hdown⟩
    exact (udpFailed_leaked hstart hinit hw hdown hopens).1
  cases startServerEnvironment_calls hx with
  | unstarted hstart hcode =>
      have hundone :=
        ((serverStart_holds [] port).post hstart).1 hcode
      exact ⟨⟨hleaks, fun _ => hundone.held_eq hopens⟩, hundone.closesHeld hopens closesHeld_nil⟩
  | @uninitialized u v x _ server _ _ hstart hinit hcode hdown =>
      obtain ⟨hlistening, hrunning⟩ := start_opened hstart
      have hundone := ((sessionManagerInit_holds (M := M) u).post hinit).failed hcode
      rw [← List.append_assoc] at hopens hleaks ⊢
      have hlog := shutdown_log (u ++ v) hrunning hlistening.1 hdown
      obtain ⟨hheld, hcloses⟩ := (hlistening.trans hundone).shutdown hopens hlog
      exact ⟨⟨hleaks, fun _ => hheld⟩, hcloses⟩
  | unbound hstart hinit hbind hcode hdown =>
      obtain ⟨identity, device, rfl, rfl, -⟩ := init_opened [] hinit
      have hrefused := sessionManagerUdpBind_refused hbind hcode
      have hcloses := (udpFailed_leaked hstart hinit hrefused hdown hopens).2
      refine ⟨⟨hleaks, fun hnone => absurd ?_ (hnone device)⟩, hcloses⟩
      exact ⟨_, _, _, _, _, _, _, rfl, hstart, hinit, hrefused, hdown⟩
  | ready hstart hinit hbind => exact setUp_ready hstart hinit hbind hopens

/-- No interface is brought up without its address. -/
theorem startServerEnvironment_holds (M : Memory Buf) (port : UInt16) :
    Holds (UpWhenAddressed serverTunConfig) (fun _ _ => True) []
      (startServerEnvironment M port) := by
  have hdown : ∀ h (server : Server), Holds (UpWhenAddressed serverTunConfig) (fun _ _ => True) h
      (onSockets (Server.shutdown server) >>= fun _ =>
        (pure none : SetupProg Buf (Option (Server × SessionManager Buf × Option TunDevice)))) :=
    fun h server => (holds_onSockets (Holds.of_true _) (t := []) (fun _ _ => trivial) h).bind
      fun _ _ _ => trivial
  refine (serverStart_holds [] port).bind ?_
  rintro h₁ ⟨code, server⟩ -
  refine holds_ite (fun _ => trivial) fun _ => ?_
  refine (sessionManagerInit_holds (M := M) h₁).bind ?_
  rintro h₂ ⟨code, m, tun⟩ -
  refine holds_ite (fun _ => hdown h₂ server) fun _ => ?_
  refine (sessionManagerUdpBind_holds h₂ m port).bind ?_
  rintro h₃ ⟨code, m'⟩ -
  exact holds_ite (fun _ => hdown h₃ server) fun _ => trivial

/-- However the set-up ends. -/
structure SetUpEnds (M : Memory Buf) (port : UInt16) (calls : SetupCalls Buf)
    (r : Option (Server × SessionManager Buf × Option TunDevice)) : Prop where
  setUp : SetUp M port calls r
  closes : ClosesHeld (setupLog calls)
  up : ∀ before e, before ++ [e] <+: calls → UpWhenAddressed serverTunConfig before e.1

/-- `start_server_environment` reaches its threads with the three descriptors it needs or returns
with all of them closed, except that the TUN device stays open, with its interface up, exactly
when the UDP socket cannot be created or bound. -/
theorem server_set_up {calls : SetupCalls Buf}
    {r : Option (Server × SessionManager Buf × Option TunDevice)}
    (h : Exec (startServerEnvironment M port) calls (.ret r))
    (hopens : OpensFree (setupLog calls)) : SetUpEnds M port calls r := by
  have hholds := startServerEnvironment_holds M port
  obtain ⟨hsetUp, hcloses⟩ := startServerEnvironment_setUp h hopens
  refine ⟨hsetUp, hcloses, fun before e hbefore => ?_⟩
  obtain ⟨after, rfl⟩ := hbefore
  rw [List.append_assoc] at h
  obtain ⟨q, hq, hrest⟩ := exec_append.mp h
  cases hrest with
  | cons _ => exact hholds.site hq

/-- The calls of a set-up up to the UDP socket. -/
def deviceCalls (port : UInt16) : SetupCalls MsgBuf :=
  [⟨.onSocket .socket, (3 : ℤ)⟩, ⟨.onSocket (.setsockopt 3), true⟩,
    ⟨.onSocket (.bind 3 port), true⟩, ⟨.onSocket (.listen 3), true⟩,
    ⟨.configPath "server_identity.key".toList, some ['k']⟩,
    ⟨.identityLoadOrCreate ['k'], some (identityOf 0)⟩, ⟨.openTun, (4 : ℤ)⟩,
    ⟨.tunSetIff 4 "sencd0".toList iffTun, some "sencd0".toList⟩, ⟨.onSocket .socket, (5 : ℤ)⟩,
    ⟨.onSocket (.inetPton serverTunConfig.address), some (0x0a080001 : UInt32)⟩,
    ⟨.setAddress 5 "sencd0".toList 0x0a080001, true⟩,
    ⟨.onSocket (.inetPton serverTunConfig.netmask), some (0xffffff00 : UInt32)⟩,
    ⟨.setNetmask 5 "sencd0".toList 0xffffff00, true⟩, ⟨.getFlags 5 "sencd0".toList, some 0⟩,
    ⟨.setFlags 5 "sencd0".toList (0 ||| iffUp), true⟩, ⟨.onSocket (.close 5), ()⟩, ⟨.malloc, true⟩]

/-- A server for whose tunnel no socket is left. -/
def leakCalls (port : UInt16) : SetupCalls MsgBuf :=
  deviceCalls port ++ [⟨.onSocket .socket, (-1 : ℤ)⟩, ⟨.onSocket (.close 3), ()⟩]

/-- A server that starts. -/
def readyCalls (port : UInt16) : SetupCalls MsgBuf :=
  deviceCalls port ++ [⟨.onSocket .socket, (6 : ℤ)⟩, ⟨.onSocket (.setsockopt 6), true⟩,
    ⟨.onSocket (.bind 6 port), true⟩]

/-- Its manager. -/
def readyManager : SessionManager MsgBuf :=
  { (Sencd.sessionManagerInit msgMemory (some (identityOf 0)) true).2 with udpSocket := 6 }

theorem deviceCalls_opensFree (port : UInt16) : OpensFree (setupLog (deviceCalls port)) := by
  have hlog : setupLog (deviceCalls port) = [.opened 3, .opened 4, .opened 5, .closed 5] := rfl
  have hfirst : OpensFree ([] ++ [FdEvent.opened (3 : ℤ)]) :=
    opensFree_opened.mpr ⟨opensFree_nil, by simp⟩
  have hsecond := opensFree_opened.mpr ⟨hfirst, show (4 : ℤ) ∉ _ by simp [held, FdEvent.after]⟩
  have hthird := opensFree_opened.mpr ⟨hsecond, show (5 : ℤ) ∉ _ by simp [held, FdEvent.after]⟩
  rw [hlog]
  exact opensFree_closed.mpr hthird

/-- The tunnel of that server fails at its UDP socket. -/
theorem leakCalls_udpFailed :
    UdpFailed msgMemory 8080 (leakCalls 8080) ⟨"sencd0".toList, 4⟩ := by
  refine ⟨(deviceCalls 8080).take 4, (deviceCalls 8080).drop 4, [⟨.onSocket .socket, (-1 : ℤ)⟩],
    [⟨.onSocket (.close 3), ()⟩], ⟨3, true, 8080⟩,
    (Sencd.sessionManagerInit msgMemory (some (identityOf 0)) true).2, (0, ⟨-1, false, 8080⟩), rfl,
    ?_, ?_, .inl ⟨-1, by decide, rfl⟩, ?_⟩
  · iterate 4 refine .cons ?_
    exact .nil _
  · iterate 13 refine .cons ?_
    exact .nil _
  · refine .cons ?_
    exact .nil _

theorem server_set_up_leak : SetUpEnds msgMemory 8080 (leakCalls 8080) none ∧
    Leaked (leakCalls 8080) ⟨"sencd0".toList, 4⟩ := by
  have hrun : Exec (startServerEnvironment msgMemory 8080) (leakCalls 8080) (.ret none) := by
    iterate 19 refine .cons ?_
    exact .nil _
  have hlog : setupLog (leakCalls 8080) = setupLog (deviceCalls 8080) ++ [.closed 3] := rfl
  have hends := server_set_up hrun (by
    rw [hlog]
    exact opensFree_closed.mpr (deviceCalls_opensFree 8080))
  exact ⟨hends, hends.setUp.1 _ leakCalls_udpFailed⟩

end Server

end Sencd.StartUp
