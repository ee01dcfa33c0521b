import Sencd.ListenerSockets
import Sencd.ServerThreads
import Sencd.StartUp

/-!
# The descriptors of the server process

When the set-up is done the process holds the listening socket, the TUN device and the UDP
socket, and from then on the sockets of its clients. They are opened and closed by different
threads: the listener accepts, the main thread closes. A refused connection is closed with its
session and a second time by the listener, and the other threads go on in between.
-/
namespace Sencd.Threads
open ByteOrder CallProgram DescriptorLog LabelledPath Shared
open StartUp (SetupCalls deviceCalls deviceCalls_opensFree readyCalls readyManager setupLog
  startServerEnvironment)

variable {Buf : ℕ → Type}

section Steps

/-- The descriptors that the set-up leaves open. -/
structure ServerFds where
  listening : ℤ
  tun : ℤ
  udp : ℤ

/-- The threads with the descriptors the process has opened and closed. `refused` is the
descriptor of a connection for which `session_manager_connect` has returned no session. -/
structure Process (Buf : ℕ → Type) where
  threads : ServerState Buf
  log : FdLog ℤ
  refused : Option ℤ

/-- The socket the listener has accepted and not passed on. -/
def ListenerPc.socket : ListenerPc → Option ℤ
  | connecting socket _ => some socket
  | _ => none

variable (M : Memory Buf) (P : Platform Buf) (fds : ServerFds)

/-- What the main thread hands to `close` where it stands: `server_shutdown`, the UDP socket and
`session_manager_disconnect_all`. -/
def mainCloses (s : ServerState Buf) : List ℤ :=
  match s.main with
  | .shutdown => if s.running then [fds.listening] else []
  | .closeUdp => [s.manager.udpSocket]
  | .disconnectAll => effectFds (sessionManagerDisconnectAll M s.manager.values).2 ++
      if s.manager.tun then [fds.tun] else []
  | _ => []

/-- A step of the threads with what it opens and closes. `accept` gives out no descriptor that
is open. The listener takes no other step before it has closed a refused connection. -/
inductive ProcessStep : Process Buf → Thread × Option (ServerOp Buf) → Process Buf → Prop
  | main {p : Process Buf} {op : Option (ServerOp Buf)} {s : ServerState Buf} :
      MainStep p.threads op s →
      ProcessStep p (.main, op) ⟨s, p.log ++ closes (mainCloses M fds p.threads), p.refused⟩
  | accept {p : Process Buf} (socket : ℤ) (ip : List Char) :
      p.refused = none → p.threads.listener = .accept → 0 ≤ socket → socket ∉ held p.log →
      ProcessStep p (.listener, none)
        ⟨{ p.threads with listener := .connecting socket ip }, p.log ++ [.opened socket], none⟩
  | connect {p : Process Buf} {m : SharedManager Buf} {socket : ℤ} {ip : List Char}
      {calls : Calls Buf} {r : Option (Session Buf)} :
      p.refused = none → p.threads.listener = .connecting socket ip →
      Exec (sessionManagerConnect M p.threads.manager.values .server socket ip) calls
        (.ret (m.values, r)) →
      (m = p.threads.manager ∨ ∃ s, Shared.sessionManagerAdd p.threads.manager s = some m) →
      ProcessStep p (.listener, some (.connect .server socket ip calls))
        ⟨{ p.threads with manager := m, listener := .check }, p.log ++ closes (callFds calls),
          if r.isNone then some socket else none⟩
  | close {p : Process Buf} {fd : ℤ} :
      p.refused = some fd →
      ProcessStep p (.listener, none) ⟨p.threads, p.log ++ [.closed fd], none⟩
  | listener {p : Process Buf} {m : SharedManager Buf} {pc : ListenerPc} :
      p.refused = none → pc.socket = none →
      ListenerStep M p.threads.running p.threads.manager p.threads.listener none m pc →
      ProcessStep p (.listener, none)
        ⟨{ p.threads with manager := m, listener := pc }, p.log, none⟩
  | udp {p : Process Buf} {op : Option (ServerOp Buf)} {m : SharedManager Buf} {pc : UdpPc} :
      UdpStep P p.threads.manager p.threads.udp op m pc →
      ProcessStep p (.udp, op) { p with threads := { p.threads with manager := m, udp := pc } }
  | tun {p : Process Buf} {op : Option (ServerOp Buf)} {m : SharedManager Buf} {pc : TunPc} :
      TunStep P p.threads.manager p.threads.tun op m pc →
      ProcessStep p (.tun, op) { p with threads := { p.threads with manager := m, tun := pc } }

/-- The process when its threads have been created. -/
def Process.started (identity : CryptoContext Buf) (setup : FdLog ℤ) : Process Buf :=
  ⟨Threads.started M identity fds.udp, setup, none⟩

abbrev ProcessRun (identity : CryptoContext Buf) (setup : FdLog ℤ) :
    List (Process Buf × (Thread × Option (ServerOp Buf))) → Process Buf → Prop :=
  Path (ProcessStep M P fds) (.started M fds identity setup)

/-- The descriptors of the set-up that the main thread has not closed yet. -/
def ServerFds.Open (s : ServerState Buf) (fd : ℤ) : Prop :=
  (s.main.rank < 2 ∧ fd = fds.listening) ∨ (s.main.rank < 4 ∧ fd = fds.udp) ∨
    (s.main.rank < 8 ∧ fd = fds.tun)

/-- What has an owner: a descriptor of the set-up that the main thread has not closed yet, the
connection that is being accepted, the socket of a session in the table. The threads may go on
to use the listening socket and the UDP socket after the main thread has closed them. -/
def ServerFds.Owned (s : ServerState Buf) (fd : ℤ) : Prop :=
  fds.Open s fd ∨ s.listener.socket = some fd ∨
    ∃ i session, s.manager.values.sessions i = some session ∧ session.socket = fd

/-- What can be relied on in every state. The number of the UDP socket stays unused when it has
been closed, as its threads may still be about to use it. -/
structure Accounted (p : Process Buf) : Prop where
  owned : ∀ fd, fds.Owned p.threads fd → fd ∈ held p.log
  used : ∀ fd ∈ held p.log, fds.Owned p.threads fd ∨ p.refused = some fd
  apart : ∀ i j session session', p.threads.manager.values.sessions i = some session →
    p.threads.manager.values.sessions j = some session' → session.socket = session'.socket → i = j
  own : ∀ i session, p.threads.manager.values.sessions i = some session →
    ¬ fds.Open p.threads session.socket ∧ session.socket ≠ fds.udp ∧
      p.threads.listener.socket ≠ some session.socket
  accepted : ∀ fd, p.threads.listener.socket = some fd → ¬ fds.Open p.threads fd ∧ fd ≠ fds.udp
  refused : ∀ fd, p.refused = some fd → ¬ fds.Owned p.threads fd
  setUp : [fds.listening, fds.tun, fds.udp].Nodup
  udpGone : 4 ≤ p.threads.main.rank → fds.udp ∉ held p.log
  ended : p.threads.main = .ended → held p.log = ∅

end Steps

section Closes

variable {M : Memory Buf} {m m' : SessionManager Buf} {socket : ℤ} {ip : List Char}
  {calls : Calls Buf} {r : Option (Session Buf)}

/-- What the service of a connection closes, and what it leaves in the table. -/
theorem served_closes (h : Served M m socket ip calls m') (hfd : 0 ≤ socket) :
    (m' = m ∧ (callFds calls = [socket] ∨ callFds calls = [socket, socket])) ∨
      (callFds calls = [] ∧ ∃ s s', s.socket = socket ∧ s.udp.socket = -1 ∧
        sessionManagerAdd m s = some (m', s')) := by
  cases h with
  | unallocated => exact .inl ⟨rfl, .inl rfl⟩
  | @refused handshake code s hx hrefused =>
      obtain ⟨hsocket, hudp, hquiet⟩ := serverHandshake_sockets M hx
      refine .inl ⟨rfl, .inr ?_⟩
      change callFds (handshake ++ _ ++ _) = _
      rw [callFds_append, callFds_append, hquiet, callFds_closes,
        sessionDestroy_fds M hfd hsocket hudp]
      rfl
  | @stored handshake s s' _ hx hadd =>
      obtain ⟨hsocket, hudp, hquiet⟩ := serverHandshake_sockets M hx
      exact .inr ⟨hquiet, s, s', hsocket, hudp, hadd⟩

/-- A connection is refused, with its descriptor closed or not, or its session is stored. -/
theorem connect_closes
    (hx : Exec (sessionManagerConnect M m .server socket ip) calls (.ret (m', r)))
    (hfd : 0 ≤ socket) :
    (r = none ∧ m' = m ∧ (callFds calls = [] ∨ callFds calls = [socket])) ∨
      (r.isSome ∧ callFds calls = [] ∧ ∃ s s', s.socket = socket ∧ s.udp.socket = -1 ∧
        sessionManagerAdd m s = some (m', s')) := by
  obtain ⟨rfl, rfl⟩ | ⟨s, s', hadd, rfl⟩ := sessionManagerConnect_added hx
  · have hturn : Exec (serverListenerTurn M m' socket ip) (calls ++ [⟨.close socket, ()⟩])
        (.ret m') := exec_bind_ret.mpr ⟨(m', none), calls, _, rfl, hx, .cons (.nil _)⟩
    have hclose : callFds ([⟨.close socket, ()⟩] : Calls Buf) = [socket] := rfl
    refine .inl ⟨rfl, rfl, ?_⟩
    obtain ⟨-, hfds⟩ | ⟨hfds, -⟩ := served_closes (serverListenerTurn_served M hturn) hfd
    · rw [callFds_append, hclose] at hfds
      obtain hfds | hfds := hfds
      · exact .inl (by simpa using hfds)
      · change callFds calls ++ [socket] = [socket] ++ [socket] at hfds
        exact .inr (List.append_cancel_right hfds)
    · simp [hclose] at hfds
  · have hturn : Exec (serverListenerTurn M m socket ip) calls (.ret m') :=
      exec_bind_ret.mpr ⟨(m', some s'), calls, [], (List.append_nil _).symm, hx, .nil _⟩
    refine .inr ⟨rfl, ?_⟩
    obtain ⟨rfl, -⟩ | hstored := served_closes (serverListenerTurn_served M hturn) hfd
    · obtain ⟨i, hfree, -, he⟩ := sessionManagerAdd_eq_some.mp hadd
      have hslot := congrArg (fun m => m.sessions i) he
      rw [SessionManager.stored_sessions, (SlotTable.free_eq_some.mp hfree).1] at hslot
      simp at hslot
    · exact hstored

end Closes

section Invariant

variable {M : Memory Buf} {P : Platform Buf} {fds : ServerFds} {p p' : Process Buf}
  {log : FdLog ℤ} {accepted : Option ℤ}

/-- The set-up has opened three different descriptors. -/
structure ServerFds.Valid (fds : ServerFds) : Prop where
  udp_nonneg : 0 ≤ fds.udp
  listening_tun : fds.listening ≠ fds.tun
  listening_udp : fds.listening ≠ fds.udp
  tun_udp : fds.tun ≠ fds.udp

/-- The clients' descriptors have a log of their own, in which nothing is closed twice. Besides
them the process holds those of the set-up. -/
structure Accounts (fds : ServerFds) (p : Process Buf) (log : FdLog ℤ) (accepted : Option ℤ) :
    Prop where
  sound : ServerSockets.Sound ⟨(view fds.udp p.threads).values, log, accepted⟩
  held_iff : ∀ fd, fd ∈ held p.log ↔ fds.Open p.threads fd ∨ fd ∈ held log
  listening : p.threads.main.rank < 2 → fds.listening ∉ held log
  udp : fds.udp ∉ held log
  tun : fds.tun ∉ held log
  idle : p.refused = none → accepted = p.threads.listener.socket
  refused : ∀ fd, p.refused = some fd → p.threads.listener = .check ∧
    (accepted = some fd ∨ accepted = none ∧ fd ∉ held p.log)
  ended : p.threads.main = .ended → ∀ fd, fd ∉ held log

theorem mem_held_closes {log : FdLog ℤ} {own : List ℤ} {fd : ℤ} :
    fd ∈ held (log ++ closes own) ↔ fd ∈ held log ∧ fd ∉ own := by
  rw [held_closes, Set.mem_sdiff, Set.mem_ofPred_eq]

/-- The main thread goes on and closes some of the descriptors of the set-up. -/
theorem Accounts.close (h : Accounts fds p log accepted) {s : ServerState Buf} {own : List ℤ}
    (hsessions : s.manager.sessions = p.threads.manager.sessions)
    (hlistener : s.listener = p.threads.listener) (hrank : p.threads.main.rank ≤ s.main.rank)
    (hmain : s.main ≠ .ended)
    (hopen : ∀ fd, fds.Open s fd ↔ fds.Open p.threads fd ∧ fd ∉ own)
    (hown : ∀ fd ∈ own, fd ∉ held log) :
    Accounts fds ⟨s, p.log ++ closes own, p.refused⟩ log accepted := by
  have hvalues : (view fds.udp s).values.sessions = (view fds.udp p.threads).values.sessions := by
    simp only [view, SharedManager.values_sessions, hsessions]
  refine ⟨⟨?_, h.sound.nonneg, ?_⟩, fun fd => ?_,
    fun hlt => h.listening (hrank.trans_lt hlt), h.udp, h.tun,
    fun hnone => (h.idle hnone).trans (by rw [hlistener]), fun fd hfd => ?_,
    fun hended => absurd hended hmain⟩
  · have hsockets : (view fds.udp s).values.sockets = (view fds.udp p.threads).values.sockets := by
      unfold SessionManager.sockets
      rw [hvalues]
    rw [hsockets]
    exact h.sound.owns
  · rw [hvalues]
    exact h.sound.udp
  · rw [mem_held_closes, h.held_iff, hopen]
    constructor
    · rintro ⟨hfd | hfd, hnot⟩
      · exact .inl ⟨hfd, hnot⟩
      · exact .inr hfd
    · rintro (⟨hfd, hnot⟩ | hfd)
      · exact ⟨.inl hfd, hnot⟩
      · exact ⟨.inr hfd, fun hmem => hown fd hmem hfd⟩
  · obtain ⟨hcheck, haccepted⟩ := h.refused fd hfd
    refine ⟨hlistener.trans hcheck, haccepted.imp_right fun hgone => ⟨hgone.1, fun hheld => ?_⟩⟩
    exact hgone.2 (mem_held_closes.mp hheld).1

/-- The table is cleared and the TUN closed. -/
theorem Accounts.disconnectAll (h : Accounts fds p log accepted)
    (hp : Phased fds.udp p.threads) (hmain : p.threads.main = .disconnectAll) :
    Accounts fds
      ⟨{ p.threads with manager := Threads.disconnectAll p.threads.manager, main := .ended },
        p.log ++ closes (mainCloses M fds p.threads), p.refused⟩
      (log ++ closes (effectFds (sessionManagerDisconnectAll M (view fds.udp p.threads).values).2))
      accepted := by
  have hcloses : mainCloses M fds p.threads = effectFds (sessionManagerDisconnectAll M
      (view fds.udp p.threads).values).2 ++ [fds.tun] := by
    have htun := hp.tunOpen (by rw [hmain]; decide)
    rw [mainCloses, hmain]
    dsimp only
    rw [if_pos htun]
    rfl
  have hsound := listenerStep_sound (M := M) (P := copyPlatform Buf)
    (.disconnectAll (o := ⟨(view fds.udp p.threads).values, log, accepted⟩) rfl) trivial h.sound
  have hdone := hp.listenerDone (by rw [hmain]; decide)
  have hidle : p.refused = none := by
    cases hrefused : p.refused with
    | none => rfl
    | some fd =>
        have hcheck := (h.refused fd hrefused).1
        rw [hdone] at hcheck
        contradiction
  have hempty : ∀ fd, fd ∉ held (log ++ closes (effectFds
      (sessionManagerDisconnectAll M (view fds.udp p.threads).values).2)) := by
    intro fd hfd
    obtain hpending | ⟨i, hi⟩ := (hsound.owns.held_iff fd).mp hfd
    · rw [h.idle hidle, hdone] at hpending
      contradiction
    · contradiction
  refine ⟨⟨hsound.owns, hsound.nonneg, hsound.udp⟩, fun fd => ?_, fun _ => hempty _, hempty _,
    hempty _, h.idle, fun fd hfd => by simp [hidle] at hfd, fun _ => hempty⟩
  rw [hcloses, mem_held_closes, h.held_iff, List.mem_append, List.mem_singleton, not_or]
  refine iff_of_false ?_ ?_
  · rintro ⟨hopen | hfd, hnot, hne⟩
    · simp only [ServerFds.Open, hmain, MainPc.rank] at hopen
      omega
    · exact hempty fd (mem_held_closes.mpr ⟨hfd, hnot⟩)
  · rintro (hopen | hfd)
    · simp [ServerFds.Open, MainPc.rank] at hopen
    · exact hempty fd hfd

/-- The steps of the main thread close what is theirs. -/
theorem Accounts.main (h : Accounts fds p log accepted) (hfds : fds.Valid)
    (hp : Phased fds.udp p.threads) {op : Option (ServerOp Buf)} {s : ServerState Buf}
    (hstep : MainStep p.threads op s) : ∃ log' accepted', Accounts fds
      ⟨s, p.log ++ closes (mainCloses M fds p.threads), p.refused⟩ log' accepted' := by
  obtain ⟨-, hlistening_tun, hlistening_udp, htun_udp⟩ := hfds
  cases hstep with
  | disconnectAll hmain => exact ⟨_, _, h.disconnectAll hp hmain⟩
  | command hmain =>
      refine ⟨log, accepted, h.close rfl rfl le_rfl ?_ (fun fd => ?_) ?_⟩ <;>
        simp [mainCloses, hmain]
  | shutdown hmain =>
      have hrank : p.threads.main.rank = 1 := by rw [hmain]; rfl
      have hrunning := hp.running.mpr (by omega)
      have hown : mainCloses M fds p.threads = [fds.listening] := by
        simp [mainCloses, hmain, hrunning]
      rw [hown]
      refine ⟨log, accepted, h.close rfl rfl (by simp [hmain, MainPc.rank]) (by simp) (fun fd => ?_)
        ?_⟩
      · simp only [ServerFds.Open, hmain, MainPc.rank, List.mem_singleton]
        omega
      · simpa using h.listening (by omega)
  | closeUdp hmain =>
      have hrank : p.threads.main.rank = 3 := by rw [hmain]; rfl
      have hsocket := hp.socket
      rw [if_pos (by omega)] at hsocket
      have hown : mainCloses M fds p.threads = [fds.udp] := by
        simp [mainCloses, hmain, hsocket]
      rw [hown]
      refine ⟨log, accepted, h.close rfl rfl (by simp [hmain, MainPc.rank]) (by simp) (fun fd => ?_)
        ?_⟩
      · simp only [ServerFds.Open, hmain, MainPc.rank, List.mem_singleton]
        omega
      · simpa using h.udp
  | leave hmain | joinListener hmain _ | markUdp hmain | joinUdp hmain _ | joinTun hmain _ =>
      have hown : mainCloses M fds p.threads = [] := by simp [mainCloses, hmain]
      rw [hown]
      refine ⟨log, accepted, h.close rfl rfl ?_ (by simp) (fun fd => ?_) (by simp)⟩
      · simp [hmain, MainPc.rank]
      · simp [ServerFds.Open, hmain, MainPc.rank]

/-- A descriptor that is accepted is none of those the process holds. -/
theorem Accounts.accept (h : Accounts fds p log accepted) (hp : Phased fds.udp p.threads)
    {socket : ℤ} (ip : List Char) (hrefused : p.refused = none)
    (hlistener : p.threads.listener = .accept) (hfd : 0 ≤ socket) (hfree : socket ∉ held p.log) :
    Accounts fds
      ⟨{ p.threads with listener := .connecting socket ip }, p.log ++ [.opened socket], none⟩
      (log ++ [.opened socket]) (some socket) := by
  have hnone : accepted = none := by rw [h.idle hrefused, hlistener]; rfl
  have hfreeLog : socket ∉ held log := fun hmem => hfree ((h.held_iff socket).mpr (.inr hmem))
  have hrank : p.threads.main.rank < 3 := by
    by_contra hlate
    have hdone := hp.listenerDone (by omega)
    rw [hlistener] at hdone
    contradiction
  have hother : ∀ fd, fds.Open p.threads fd → fd ∉ held log →
      fd ∉ held (log ++ [.opened socket]) := by
    intro fd hopen hnot hmem
    rw [held_opened] at hmem
    obtain rfl | hmem := hmem
    · exact hfree ((h.held_iff fd).mpr (.inl hopen))
    · exact hnot hmem
  have howns := h.sound.owns
  rw [hnone] at howns
  refine ⟨⟨howns.accept hfreeLog, fun fd hmem => ?_, h.sound.udp⟩, fun fd => ?_, fun hlt => ?_, ?_,
    ?_, fun _ => rfl, nofun, fun hended => ?_⟩
  · rw [held_opened] at hmem
    obtain rfl | hmem := hmem
    · exact hfd
    · exact h.sound.nonneg fd hmem
  · rw [held_opened, held_opened, Set.mem_insert_iff, Set.mem_insert_iff, h.held_iff]
    exact or_left_comm
  · exact hother _ (.inl ⟨hlt, rfl⟩) (h.listening hlt)
  · exact hother _ (.inr (.inl ⟨by omega, rfl⟩)) h.udp
  · exact hother _ (.inr (.inr ⟨by omega, rfl⟩)) h.tun
  · rw [show p.threads.main = .ended from hended] at hrank
    simp [MainPc.rank] at hrank

theorem Accounts.open_ne (h : Accounts fds p log accepted) {fd fd' : ℤ}
    (hfd : fd ∈ held log) (hopen : fds.Open p.threads fd') : fd' ≠ fd := by
  rintro rfl
  obtain ⟨hlt, rfl⟩ | ⟨-, rfl⟩ | ⟨-, rfl⟩ := hopen
  · exact h.listening hlt hfd
  · exact h.udp hfd
  · exact h.tun hfd

/-- A descriptor that no session has taken is closed. -/
theorem Accounts.release {fd : ℤ} (h : Accounts fds p log (some fd)) {s : ServerState Buf}
    (hview : (view fds.udp s).values = (view fds.udp p.threads).values)
    (hmain : s.main = p.threads.main) (hcheck : s.listener = .check) {refused : Option ℤ}
    (hrefused : ∀ fd', refused = some fd' → fd' = fd) :
    Accounts fds ⟨s, p.log ++ [.closed fd], refused⟩ (log ++ [.closed fd]) none := by
  have hlogged : fd ∈ held log := (h.sound.owns.held_iff fd).mpr (.inl rfl)
  have hless : ∀ fd', fd' ∉ held log → fd' ∉ held (log ++ [.closed fd]) := by
    intro fd' hnot hmem
    rw [held_closed] at hmem
    exact hnot hmem.1
  have hsound := h.sound
  rw [← hview] at hsound
  refine ⟨⟨hsound.owns.refuse, fun fd' hmem => ?_, hsound.udp⟩, fun fd' => ?_, fun hlt => ?_,
    hless _ h.udp, hless _ h.tun, fun _ => by rw [hcheck]; rfl,
    fun fd' hfd' => ⟨hcheck, .inr ⟨rfl, ?_⟩⟩,
    fun hended fd' => hless _ (h.ended (hmain ▸ hended) fd')⟩
  · rw [held_closed] at hmem
    exact hsound.nonneg fd' hmem.1
  · have hopen : fds.Open s fd' ↔ fds.Open p.threads fd' := by simp only [ServerFds.Open, hmain]
    rw [held_closed, held_closed, Set.mem_sdiff, Set.mem_sdiff, h.held_iff, hopen, or_and_right]
    exact or_congr_left (and_iff_left_of_imp fun hopen => h.open_ne hlogged hopen)
  · exact hless _ (h.listening (hmain ▸ hlt))
  · rw [hrefused fd' hfd', held_closed]
    exact fun hmem => hmem.2 rfl

/-- A handshake ends: the session keeps the descriptor, or it has been closed or is about to
be. -/
theorem Accounts.connect (h : Accounts fds p log accepted) (hp : Phased fds.udp p.threads)
    {m : SharedManager Buf} {socket : ℤ} {ip : List Char} {calls : Calls Buf}
    {r : Option (Session Buf)} (hrefused : p.refused = none)
    (hlistener : p.threads.listener = .connecting socket ip)
    (hx : Exec (sessionManagerConnect M p.threads.manager.values .server socket ip) calls
      (.ret (m.values, r)))
    (hkept : Kept p.threads.manager m) : ∃ log' accepted', Accounts fds
      ⟨{ p.threads with manager := m, listener := .check }, p.log ++ closes (callFds calls),
        if r.isNone then some socket else none⟩ log' accepted' := by
  obtain rfl : accepted = some socket := by rw [h.idle hrefused, hlistener]; rfl
  have hlogged : socket ∈ held log := (h.sound.owns.held_iff socket).mpr (.inl rfl)
  have hrank : p.threads.main.rank < 5 := by
    by_contra hlate
    have hdone := hp.listenerDone (by omega)
    rw [hlistener] at hdone
    contradiction
  have hbefore : view fds.udp p.threads = p.threads.manager := view_eq hp hrank
  have hafter : view fds.udp { p.threads with manager := m, listener := .check } = m := by
    have hsocket := congrArg SharedManager.udpSocket hbefore
    dsimp only [view] at hsocket ⊢
    rw [hsocket, ← hkept.socket]
  obtain ⟨rfl, hvalues, hfds⟩ | ⟨hsome, hfds, s, s', hsocket, hudp, hadd⟩ :=
    connect_closes hx (h.sound.nonneg socket hlogged)
  · have hview : (view fds.udp { p.threads with manager := m, listener := .check }).values =
        (view fds.udp p.threads).values := by rw [hafter, hbefore, hvalues]
    obtain hfds | hfds := hfds
    · rw [hfds, closes_nil, List.append_nil]
      exact ⟨log, some socket, hview ▸ h.sound, h.held_iff, h.listening, h.udp, h.tun, nofun,
        fun fd hfd => ⟨rfl, .inl hfd⟩, h.ended⟩
    · rw [hfds]
      exact ⟨_, _, h.release hview rfl rfl fun fd hfd => (Option.some.inj hfd).symm⟩
  · obtain ⟨i, hfree, rfl, hvalues⟩ := sessionManagerAdd_eq_some.mp hadd
    obtain ⟨session, rfl⟩ := Option.isSome_iff_exists.mp hsome
    rw [hfds, closes_nil, List.append_nil, if_neg (by simp)]
    have hsound := h.sound
    rw [hbefore, ← hsocket] at hsound
    have hstored := hsound.stored rfl hfree hudp
    refine ⟨log, none, ?_, h.held_iff, h.listening, h.udp, h.tun, fun _ => rfl, nofun,
      h.ended⟩
    rw [hafter, hvalues]
    exact hstored

/-- The listener closes what has been refused, a second time if its session has done so. -/
theorem Accounts.closeRefused (h : Accounts fds p log accepted) {fd : ℤ}
    (hrefused : p.refused = some fd) : ∃ log' accepted', Accounts fds
      ⟨p.threads, p.log ++ [.closed fd], none⟩ log' accepted' := by
  obtain ⟨hcheck, rfl | ⟨rfl, hgone⟩⟩ := h.refused fd hrefused
  · exact ⟨_, _, h.release rfl rfl hcheck nofun⟩
  · have hheld : held (p.log ++ [.closed fd]) = held p.log := by
      rw [held_closed]
      exact Set.sdiff_singleton_eq_self hgone
    refine ⟨log, none, h.sound, ?_, h.listening, h.udp, h.tun, fun _ => by rw [hcheck]; rfl, nofun,
      h.ended⟩
    rw [hheld]
    exact h.held_iff

/-- The tunnel threads open and close nothing. -/
theorem Accounts.tunnels (h : Accounts fds p log accepted) {s : ServerState Buf}
    {op : Option (ServerOp Buf)} (hmain : s.main = p.threads.main)
    (hlistener : s.listener = p.threads.listener) (hop : ∀ o, op = some o → o.Tunnels)
    (hstep : op.elim ((view fds.udp s).values = (view fds.udp p.threads).values) fun op =>
      ServerStep M P (view fds.udp p.threads).values op (view fds.udp s).values) :
    Accounts fds { p with threads := s } log accepted := by
  have hsound : ServerSockets.Sound ⟨(view fds.udp s).values, log, accepted⟩ := by
    cases op with
    | none =>
        rw [show (view fds.udp s).values = _ from hstep]
        exact h.sound
    | some o => exact h.sound.tunnels (hop o rfl) hstep
  refine ⟨hsound, fun fd => ?_, fun hlt => h.listening (hmain ▸ hlt), h.udp, h.tun,
    fun hnone => (h.idle hnone).trans (by rw [hlistener]), fun fd hfd => ?_,
    fun hended => h.ended (hmain ▸ hended)⟩
  · rw [h.held_iff]
    simp only [ServerFds.Open, hmain]
  · rw [hlistener]
    exact h.refused fd hfd

theorem UdpStep.tunnels {m m' : SharedManager Buf} {pc pc' : UdpPc} {label : Option (ServerOp Buf)}
    (h : UdpStep P m pc label m' pc') (op : ServerOp Buf) (hlabel : label = some op) :
    op.Tunnels := by
  cases h with
  | update session sender buffer =>
      obtain rfl := Option.some.inj hlabel
      exact .inl ⟨_, _, rfl⟩
  | _ => simp at hlabel

theorem TunStep.tunnels {m m' : SharedManager Buf} {pc pc' : TunPc} {label : Option (ServerOp Buf)}
    (h : TunStep P m pc label m' pc') (op : ServerOp Buf) (hlabel : label = some op) :
    op.Tunnels := by
  cases h with
  | lock raw compressed =>
      obtain rfl := Option.some.inj hlabel
      exact .inr (.inl ⟨_, rfl⟩)
  | _ => simp at hlabel

theorem ListenerStep.idle {running : Bool} {m m' : SharedManager Buf} {pc pc' : ListenerPc}
    (h : ListenerStep M running m pc none m' pc') : m' = m ∧ pc.socket = none := by
  cases h <;> exact ⟨rfl, rfl⟩

theorem Accounts.step (h : Accounts fds p log accepted) (hfds : fds.Valid)
    (hp : Phased fds.udp p.threads) (ht : Tidy P p.threads)
    {a : Thread × Option (ServerOp Buf)} (hstep : ProcessStep M P fds p a p') :
    ∃ log' accepted', Accounts fds p' log' accepted' := by
  cases hstep with
  | main hmain => exact h.main hfds hp hmain
  | accept socket ip hrefused hlistener hfd hfree =>
      exact ⟨_, _, h.accept hp ip hrefused hlistener hfd hfree⟩
  | connect hrefused hlistener hx hadd =>
      have hthread : ListenerStep M p.threads.running _ _ _ _ _ := .connected hx hadd
      exact h.connect hp hrefused hlistener hx hthread.kept
  | close hrefused => exact h.closeRefused hrefused
  | @listener m pc hrefused hpc hlistener =>
      obtain ⟨rfl, hsocket⟩ := hlistener.idle
      have hidle := (h.idle hrefused).trans hsocket
      exact ⟨log, accepted, h.sound, h.held_iff, h.listening, h.udp, h.tun,
        fun _ => hidle.trans hpc.symm, nofun, h.ended⟩
  | udp hudp =>
      exact ⟨log, accepted, h.tunnels rfl rfl hudp.tunnels
        ((ThreadStep.udp (M := M) hudp).refines hfds.udp_nonneg hp ht).step⟩
  | tun htun =>
      exact ⟨log, accepted, h.tunnels rfl rfl htun.tunnels
        ((ThreadStep.tun (M := M) htun).refines hfds.udp_nonneg hp ht).step⟩

/-- Seen without the descriptors, a step of the process is one of its threads or none. -/
theorem ProcessStep.threads {a : Thread × Option (ServerOp Buf)}
    (h : ProcessStep M P fds p a p') :
    p'.threads = p.threads ∨ ThreadStep M P p.threads a p'.threads := by
  cases h with
  | main h => exact .inr (.main h)
  | accept socket ip _ hlistener _ _ =>
      refine .inr (.listener ?_)
      rw [hlistener]
      exact .accepted _ socket ip
  | connect _ hlistener hx hadd =>
      refine .inr (.listener ?_)
      rw [hlistener]
      exact .connected hx hadd
  | close _ => exact .inl rfl
  | listener _ _ h => exact .inr (.listener h)
  | udp h => exact .inr (.udp h)
  | tun h => exact .inr (.tun h)

theorem Accounts.start {identity : CryptoContext Buf} {setup : FdLog ℤ}
    (hheld : held setup = {fds.listening, fds.tun, fds.udp}) :
    Accounts fds (.started M fds identity setup) [] none := by
  refine ⟨?_, fun fd => ?_, by simp, by simp, by simp, fun _ => rfl, nofun, by simp⟩
  · have hsound := startedSockets_sound (M := M) identity fds.udp
    rw [startedSockets] at hsound
    rw [Process.started, view_started]
    exact hsound
  · have hrank : (Threads.started M identity fds.udp).main.rank = 0 := rfl
    simp [Process.started, hheld, ServerFds.Open, hrank, or_comm]

theorem ProcessRun.accounts (hfds : fds.Valid) {identity : CryptoContext Buf} {setup : FdLog ℤ}
    (hheld : held setup = {fds.listening, fds.tun, fds.udp})
    {steps : List (Process Buf × (Thread × Option (ServerOp Buf)))}
    (h : ProcessRun M P fds identity setup steps p) :
    ∃ log accepted, Accounts fds p log accepted := by
  have hall := h.invariant (I := fun p => (Phased fds.udp p.threads ∧ Tidy P p.threads) ∧
    ∃ log accepted, Accounts fds p log accepted) ?_ ?_
  · exact hall.2
  · exact ⟨ThreadRun.ordered (M := M) .nil, _, _, .start hheld⟩
  · rintro p a p' ⟨⟨hp, ht⟩, log, accepted, haccounts⟩ hstep
    refine ⟨?_, haccounts.step hfds hp ht hstep⟩
    obtain hsame | hthread := hstep.threads
    · rw [hsame]
      exact ⟨hp, ht⟩
    · exact ⟨hp.step hthread, ht.step hp hthread⟩

/-- The clients' descriptors are those in the listener's hands and in the table. -/
theorem Accounts.owned (h : Accounts fds p log accepted) {fd : ℤ} :
    fd ∈ held log ↔ accepted = some fd ∨ ∃ i session,
      p.threads.manager.values.sessions i = some session ∧ session.socket = fd :=
  h.sound.oneOwner.held_iff fd

/-- The listener cannot hold one while another is refused. -/
theorem Accounts.accepted_of_socket (h : Accounts fds p log accepted) {fd : ℤ}
    (hsocket : p.threads.listener.socket = some fd) : accepted = some fd := by
  cases hrefused : p.refused with
  | none => exact (h.idle hrefused).trans hsocket
  | some fd' =>
      rw [(h.refused fd' hrefused).1] at hsocket
      contradiction

/-- What is open has an owner, or is about to be closed for the first time. -/
theorem Accounts.used (h : Accounts fds p log accepted) {fd : ℤ} (hfd : fd ∈ held p.log) :
    fds.Owned p.threads fd ∨ p.refused = some fd := by
  obtain hopen | hmem := (h.held_iff fd).mp hfd
  · exact .inl (.inl hopen)
  obtain haccepted | hsession := h.owned.mp hmem
  · cases hrefused : p.refused with
    | none => exact .inl (.inr (.inl ((h.idle hrefused).symm.trans haccepted)))
    | some fd' =>
        obtain hsome | ⟨hnone, -⟩ := (h.refused fd' hrefused).2
        · exact .inr (hsome.symm.trans haccepted)
        · rw [haccepted] at hnone
          contradiction
  · exact .inl (.inr (.inr hsession))

/-- A refused connection has no owner, whether it has been closed once or not yet. -/
theorem Accounts.not_owned (h : Accounts fds p log accepted) {fd : ℤ}
    (hrefused : p.refused = some fd) : ¬ fds.Owned p.threads fd := by
  obtain ⟨hsocket, hpending⟩ := h.refused fd hrefused
  rintro (hopen | haccepted | ⟨i, session, hi, hsame⟩)
  · obtain hpending | ⟨-, hclosed⟩ := hpending
    · exact h.open_ne (h.owned.mpr (.inl hpending)) hopen rfl
    · exact hclosed ((h.held_iff fd).mpr (.inl hopen))
  · rw [hsocket] at haccepted
    contradiction
  · have hmem : fd ∈ held log := h.owned.mpr (.inr ⟨i, session, hi, hsame⟩)
    obtain hpending | ⟨-, hclosed⟩ := hpending
    · exact h.sound.owns.apart i fd hpending (sockets_eq_some.mpr ⟨session, hi, hsame⟩)
    · exact hclosed ((h.held_iff fd).mpr (.inr hmem))

theorem Accounts.accounted (h : Accounts fds p log accepted) (hfds : fds.Valid) :
    Accounted fds p where
  owned fd hfd := by
    rw [h.held_iff]
    obtain hopen | hsocket | hsession := hfd
    · exact .inl hopen
    · exact .inr (h.owned.mpr (.inl (h.accepted_of_socket hsocket)))
    · exact .inr (h.owned.mpr (.inr hsession))
  used _ := h.used
  apart i j session session' hi hj hsame :=
    h.sound.owns.distinct i j session'.socket (sockets_eq_some.mpr ⟨session, hi, hsame⟩)
      (sockets_eq_some.mpr ⟨session', hj, rfl⟩)
  own i session hi := by
    have hmem : session.socket ∈ held log := h.owned.mpr (.inr ⟨i, session, hi, rfl⟩)
    refine ⟨fun hopen => h.open_ne hmem hopen rfl, ?_, fun hsocket => ?_⟩
    · rintro hudp
      exact h.udp (hudp ▸ hmem)
    · exact h.sound.owns.apart i _ (h.accepted_of_socket hsocket)
        (sockets_eq_some.mpr ⟨session, hi, rfl⟩)
  accepted fd hsocket := by
    have hmem : fd ∈ held log := h.owned.mpr (.inl (h.accepted_of_socket hsocket))
    refine ⟨fun hopen => h.open_ne hmem hopen rfl, ?_⟩
    rintro rfl
    exact h.udp hmem
  refused _ := h.not_owned
  setUp := by simp [hfds.listening_tun, hfds.listening_udp, hfds.tun_udp]
  udpGone hrank hmem := by
    obtain hopen | hmem := (h.held_iff fds.udp).mp hmem
    · obtain ⟨hlt, -⟩ | ⟨hlt, -⟩ | ⟨-, hudp⟩ := hopen
      · omega
      · omega
      · exact hfds.tun_udp hudp.symm
    · exact h.udp hmem
  ended hmain := by
    refine Set.eq_empty_iff_forall_notMem.mpr fun fd hmem => ?_
    obtain hopen | hmem := (h.held_iff fd).mp hmem
    · simp [ServerFds.Open, hmain, MainPc.rank] at hopen
    · exact h.ended hmain fd hmem

/-- The server's set-up and every run of its threads after it: what has an owner is open, nothing
else is but a refused connection that is about to be closed, no two owners share a number, a
refused connection that is about to be closed again has no owner, and in the end all has been
closed. -/
theorem server_descriptors {port : UInt16} {calls : SetupCalls Buf} {server : Server}
    {m : SessionManager Buf} {tun : StartUp.TunDevice}
    (hsetup : Exec (startServerEnvironment M port) calls (.ret (some (server, m, some tun))))
    (hopens : OpensFree (setupLog calls))
    {steps : List (Process Buf × (Thread × Option (ServerOp Buf)))}
    (h : ProcessRun M P ⟨server.socket, tun.fd, m.udpSocket⟩ m.identity (setupLog calls) steps p) :
    Accounted ⟨server.socket, tun.fd, m.udpSocket⟩ p := by
  obtain ⟨⟨device, he, hready⟩, -⟩ := StartUp.startServerEnvironment_setUp hsetup hopens
  obtain rfl := Option.some.inj he
  have hdistinct := hready.distinct
  simp only [List.nodup_cons, List.mem_cons, List.not_mem_nil, or_false, not_or] at hdistinct
  obtain ⟨⟨htun, hudp⟩, hne, -⟩ := hdistinct
  have hfds : ServerFds.Valid ⟨server.socket, tun.fd, m.udpSocket⟩ :=
    ⟨hready.udpSocket, htun, hudp, hne⟩
  obtain ⟨log, accepted, haccounts⟩ := ProcessRun.accounts hfds hready.held_eq h
  exact haccounts.accounted hfds

/-- A client hangs up before its hello, and the server is shut down between the two closes. -/
theorem hangup_run (setup : FdLog ℤ) (h : (7 : ℤ) ∉ held setup) :
    ∃ steps p steps' p',
      ProcessRun msgMemory (copyPlatform MsgBuf) ⟨3, 4, 6⟩ (identityOf 0) setup steps p ∧
      ProcessRun msgMemory (copyPlatform MsgBuf) ⟨3, 4, 6⟩ (identityOf 0) setup steps' p' ∧
      p.refused = some 7 ∧ p'.threads.main = .ended := by
  let calls : Calls MsgBuf :=
    [⟨.malloc, true⟩, ⟨.generateSessionId, 1⟩, ⟨.packetReceive 7, none⟩, ⟨.close 7, ()⟩]
  have hx : Exec (sessionManagerConnect msgMemory
      (Threads.started msgMemory (identityOf 0) 6).manager.values .server 7 []) calls
      (.ret (_, none)) := .cons (.cons (.cons (.cons (.nil _))))
  have hudp : ProcessRun msgMemory (copyPlatform MsgBuf) ⟨3, 4, 6⟩ (identityOf 0) setup _ _ :=
    Path.nil.snoc (.udp (.start _ false))
  have htun := hudp.snoc (.tun (.start _ false))
  have hcheck := htun.snoc (.listener rfl rfl (.check _))
  have hselect := hcheck.snoc (.listener rfl rfl (.select _ .ready))
  have hrecheck := hselect.snoc (.listener rfl rfl (.recheck _ .ready))
  have haccept := hrecheck.snoc (.accept 7 [] rfl rfl (by decide) h)
  have hconnect := haccept.snoc (.connect rfl rfl hx (.inl rfl))
  have hleave := hconnect.snoc (.main (.leave _ rfl))
  have hshutdown := hleave.snoc (.main (.shutdown _ rfl))
  have hclose := hshutdown.snoc (.close rfl)
  have hlistener := hclose.snoc (.listener rfl rfl (.check _))
  have hjoined := hlistener.snoc (.main (.joinListener _ rfl rfl))
  have hclosed := hjoined.snoc (.main (.closeUdp _ rfl))
  have hmarked := hclosed.snoc (.main (.markUdp _ rfl))
  have hudpDone := hmarked.snoc (.main (.joinUdp _ rfl rfl))
  have htunDone := hudpDone.snoc (.main (.joinTun _ rfl rfl))
  exact ⟨_, _, _, _, hconnect, htunDone.snoc (.main (.disconnectAll _ rfl)), rfl, rfl⟩

/-- A refused connection is about to be closed again, and later the server has ended. -/
theorem server_descriptors_hangup : ∃ p p' : Process MsgBuf,
    (p.refused = some 7 ∧ Accounted ⟨3, 4, 6⟩ p) ∧
      p'.threads.main = .ended ∧ Accounted ⟨3, 4, 6⟩ p' := by
  have hsetup : Exec (startServerEnvironment msgMemory 8080) (readyCalls 8080)
      (.ret (some (⟨3, true, 8080⟩, readyManager,
        some ⟨"sencd0".toList.take StartUp.ifNameLength, 4⟩))) := by
    iterate 20 refine .cons ?_
    exact .nil _
  have hlog : setupLog (readyCalls 8080) = setupLog (deviceCalls 8080) ++ [.opened 6] := rfl
  have hopens : OpensFree (setupLog (readyCalls 8080)) := by
    rw [hlog]
    refine opensFree_opened.mpr ⟨deviceCalls_opensFree 8080, ?_⟩
    change (6 : ℤ) ∉ held [.opened 3, .opened 4, .opened 5, .closed 5]
    simp [held, FdEvent.after]
  have hfree : (7 : ℤ) ∉ held (setupLog (readyCalls 8080)) := by
    change (7 : ℤ) ∉ held [.opened 3, .opened 4, .opened 5, .closed 5, .opened 6]
    simp [held, FdEvent.after]
  obtain ⟨steps, p, steps', p', hrun, hrun', hrefused, hended⟩ := hangup_run _ hfree
  exact ⟨p, p', ⟨hrefused, server_descriptors hsetup hopens hrun⟩, hended,
    server_descriptors hsetup hopens hrun'⟩

end Invariant

end Sencd.Threads
