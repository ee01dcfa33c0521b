import Sencd.DescriptorTable
import Sencd.Guests
import Sencd.SessionDescriptors

/-!
# The descriptors `server_listener` accepts

An accepted descriptor belongs to the listener until `session_manager_connect` returns, and to
the session in the table afterwards. When the connection is refused after a session has been
created for it, `session_manager_connect` closes the descriptor with that session and the
listener closes it once more.
-/
namespace Sencd
open CallProgram DescriptorLog DescriptorTable LabelledPath

variable {Buf : ℕ → Type}

section Listener

variable (M : Memory Buf)

/-- What `server_listener` does with a descriptor it has accepted. -/
def serverListenerTurn (m : SessionManager Buf) (client : ℤ) (clientIp : List Char) :
    Handshake Buf (SessionManager Buf) := do
  let (m, session) ← sessionManagerConnect M m .server client clientIp
  match session with
  | none =>
    perform (.close client)
    return m
  | some _ => return m

/-- The descriptors handed to `close`, in order. -/
def callFds (calls : Calls Buf) : List ℤ :=
  calls.filterMap fun
    | ⟨.close fd, _⟩ => some fd
    | _ => none

def effectFds (effects : List (Effect Buf)) : List ℤ :=
  effects.filterMap fun
    | .close fd => some fd
    | _ => none

/-- The manager with the descriptors accepted and closed so far, and the one that is being
served. -/
structure ServerSockets (Buf : ℕ → Type) where
  manager : SessionManager Buf
  log : FdLog ℤ
  accepted : Option ℤ

inductive ListenerOp (Buf : ℕ → Type)
  | accept (client : ℤ)
  | serve (clientIp : List Char) (calls : Calls Buf)
  | remove (sessionId : UInt64)
  | disconnectAll
  | thread (op : ServerOp Buf)

/-- The operation leaves the table's members and closes nothing. -/
def ServerOp.Tunnels (op : ServerOp Buf) : Prop :=
  (∃ sender datagram, op = .udpListener sender datagram) ∨ (∃ packet, op = .tunSender packet) ∨
    op = .closeUdp

variable (P : Platform Buf)

/-- The steps of the listener and of the threads that share the table with it. `accept` gives
out no descriptor that is open; when it fails, nothing happens. -/
inductive ListenerStep : ServerSockets Buf → ListenerOp Buf → ServerSockets Buf → Prop
  | accept {o : ServerSockets Buf} {client : ℤ} :
      o.accepted = none → 0 ≤ client → client ∉ held o.log →
      ListenerStep o (.accept client)
        ⟨o.manager, o.log ++ [.opened client], some client⟩
  | serve {o : ServerSockets Buf} {client : ℤ} {clientIp : List Char} {calls : Calls Buf}
      {m : SessionManager Buf} :
      o.accepted = some client →
      Exec (serverListenerTurn M o.manager client clientIp) calls (.ret m) →
      ListenerStep o (.serve clientIp calls) ⟨m, o.log ++ closes (callFds calls), none⟩
  | remove {o : ServerSockets Buf} {sessionId : UInt64} {m : SessionManager Buf}
      {effects : List (Effect Buf)} :
      (sessionManagerRemove M o.manager sessionId).getD (o.manager, []) = (m, effects) →
      ListenerStep o (.remove sessionId) ⟨m, o.log ++ closes (effectFds effects), o.accepted⟩
  | disconnectAll {o : ServerSockets Buf} {m : SessionManager Buf} {effects : List (Effect Buf)} :
      sessionManagerDisconnectAll M o.manager = (m, effects) →
      ListenerStep o .disconnectAll ⟨m, o.log ++ closes (effectFds effects), o.accepted⟩
  | thread {o : ServerSockets Buf} {op : ServerOp Buf} {m : SessionManager Buf} :
      op.Tunnels → ServerStep M P o.manager op m →
      ListenerStep o (.thread op) ⟨m, o.log, o.accepted⟩

/-- The server has started and nobody has connected. -/
def startedSockets (identity : CryptoContext Buf) (udpSocket : ℤ) : ServerSockets Buf :=
  ⟨startedManager M identity udpSocket, [], none⟩

/-- A descriptor that has somebody to close it. -/
def ServerSockets.Owned (o : ServerSockets Buf) (fd : ℤ) : Prop :=
  o.accepted = some fd ∨ ∃ i s, o.manager.sessions i = some s ∧ s.socket = fd

/-- Only descriptors that are open and in somebody's hands are closed, and all others have been
closed once for each time they were accepted. -/
structure OneOwner (o : ServerSockets Buf) : Prop where
  closes : ClosesHeld o.log
  held_iff : ∀ fd, fd ∈ held o.log ↔ o.Owned fd
  count : ∀ fd, (o.Owned fd → o.log.count (.opened fd) = o.log.count (.closed fd) + 1) ∧
    (¬ o.Owned fd → o.log.count (.opened fd) = o.log.count (.closed fd))

/-- The session could not be allocated, or it was established and the table has room for it. -/
def ListenerOp.Safe (op : ListenerOp Buf) (o : ServerSockets Buf) : Prop :=
  match op with
  | .serve clientIp calls =>
    (∃ rest, calls = ⟨.malloc, false⟩ :: rest) ∨
      ∃ client s handshake, o.accepted = some client ∧ calls = ⟨.malloc, true⟩ :: handshake ∧
        Exec (serverHandshake M client clientIp o.manager.identity) handshake (.ret (0, s)) ∧
        SlotTable.free o.manager.sessions ≠ none
  | _ => True

end Listener

section Serve

variable (M : Memory Buf) {m m' : SessionManager Buf} {client : ℤ} {clientIp : List Char}
  {calls : Calls Buf}

/-- How the service of an accepted descriptor ends. -/
inductive Served (m : SessionManager Buf) (client : ℤ) (clientIp : List Char) :
    Calls Buf → SessionManager Buf → Prop
  | unallocated : Served m client clientIp [⟨.malloc, false⟩, ⟨.close client, ()⟩] m
  | refused {handshake : Calls Buf} {code : ℕ} {s : Session Buf} :
      Exec (serverHandshake M client clientIp m.identity) handshake (.ret (code, s)) →
      (code ≠ 0 ∨ SlotTable.free m.sessions = none) →
      Served m client clientIp (⟨.malloc, true⟩ :: (handshake ++
        ((sessionDestroy M s).2.map fun fd => ⟨.close fd, ()⟩) ++ [⟨.close client, ()⟩])) m
  | stored {handshake : Calls Buf} {s s' : Session Buf} {m' : SessionManager Buf} :
      Exec (serverHandshake M client clientIp m.identity) handshake (.ret (0, s)) →
      sessionManagerAdd m s = some (m', s') →
      Served m client clientIp (⟨.malloc, true⟩ :: handshake) m'

theorem serverListenerTurn_served
    (h : Exec (serverListenerTurn M m client clientIp) calls (.ret m')) :
    Served M m client clientIp calls m' := by
  obtain ⟨⟨m₁, session⟩, u, v, rfl, hconnect, hrest⟩ := exec_bind_ret.mp h
  cases sessionManagerConnect_calls hconnect with
  | unallocated =>
      obtain ⟨_, _, rfl, hlast⟩ := exec_call_ret.mp hrest
      obtain ⟨rfl, he⟩ := exec_ret.mp hlast
      cases he
      exact .unallocated
  | refused hserver hrefused =>
      obtain ⟨_, _, rfl, hlast⟩ := exec_call_ret.mp hrest
      obtain ⟨rfl, he⟩ := exec_ret.mp hlast
      cases he
      exact Served.refused (.cons hserver) hrefused
  | stored hserver hadd =>
      obtain ⟨rfl, he⟩ := exec_ret.mp hrest
      cases he
      simpa using Served.stored (.cons hserver) hadd

@[simp] theorem callFds_append (calls calls' : Calls Buf) :
    callFds (calls ++ calls') = callFds calls ++ callFds calls' := List.filterMap_append

@[simp] theorem callFds_closes (fds : List ℤ) :
    callFds (fds.map fun fd => ⟨.close fd, ()⟩ : Calls Buf) = fds := by
  induction fds with
  | nil => rfl
  | cons fd fds ih => exact congrArg (fd :: ·) ih

/-- The handshake works on the descriptor it was given, opens no other and closes none. -/
theorem serverHandshake_sockets {identity : CryptoContext Buf} {code : ℕ} {s : Session Buf}
    (h : Exec (serverHandshake M client clientIp identity) calls (.ret (code, s))) :
    s.socket = client ∧ s.udp.socket = -1 ∧ callFds calls = [] := by
  have hholds : Holds ClosesNothing (fun _ r => r.2.socket = client ∧ r.2.udp.socket = -1) []
      (serverHandshake M client clientIp identity) := by
    refine holds_perform nofun fun id => holds_ite (fun hcode => absurd rfl hcode) fun _ => ?_
    refine (sessionServerConnect_kept M _).mono fun _ r hr => ⟨?_, ?_⟩
    · exact congrArg (fun s => s.socket) hr.frame
    · exact congrArg (fun s => s.udp.socket) hr.frame
  obtain ⟨hsocket, hudp⟩ := hholds.post h
  refine ⟨hsocket, hudp, List.filterMap_eq_nil_iff.mpr fun e he => ?_⟩
  obtain ⟨_, _, _, hclose⟩ := hholds.site_of_mem h he
  split
  · exact absurd rfl (hclose _)
  · rfl

theorem sessionDestroy_fds {s : Session Buf} {fd : ℤ} (hfd : 0 ≤ fd) (hsocket : s.socket = fd)
    (hudp : s.udp.socket = -1) : (sessionDestroy M s).2 = [fd] := by
  simp [sessionDestroy, udpTunnelClose, hsocket, hudp, hfd]

end Serve

section Safe

variable {M : Memory Buf} {o : ServerSockets Buf} {client : ℤ} {clientIp : List Char}
  {calls : Calls Buf} {m' : SessionManager Buf}

/-- A safe service either never had a session or puts it in the table. -/
theorem Served.of_safe (h : Served M o.manager client clientIp calls m')
    (hclient : o.accepted = some client)
    (hsafe : (ListenerOp.serve clientIp calls).Safe M o) :
    (callFds calls = [client] ∧ m' = o.manager) ∨
    (callFds calls = [] ∧ ∃ s s', s.socket = client ∧ s.udp.socket = -1 ∧
      sessionManagerAdd o.manager s = some (m', s')) := by
  cases h with
  | unallocated => exact .inl ⟨rfl, rfl⟩
  | @refused handshake code s hx hrefused =>
      exfalso
      obtain ⟨rest, he⟩ | ⟨client', s', handshake', hclient', he, hx', hroom⟩ := hsafe
      · simp at he
      · obtain rfl := Option.some.inj (hclient.symm.trans hclient')
        have he := (List.cons.inj he).2
        rw [← he, List.append_assoc] at hx'
        obtain ⟨hnil, he⟩ := exec_ret_append hx hx'
        simp at hnil
  | @stored handshake s s' _ hx hadd =>
      obtain ⟨hsocket, hudp, hquiet⟩ := serverHandshake_sockets M hx
      exact .inr ⟨hquiet, s, s', hsocket, hudp, hadd⟩

/-- Any other closes the descriptor twice. -/
theorem Served.twice (h : Served M o.manager client clientIp calls m') (hfd : 0 ≤ client)
    (hclient : o.accepted = some client)
    (hbad : ¬ (ListenerOp.serve clientIp calls).Safe M o) : callFds calls = [client, client] := by
  cases h with
  | unallocated => exact absurd (.inl ⟨_, rfl⟩) hbad
  | @refused handshake code s hx hrefused =>
      obtain ⟨hsocket, hudp, hquiet⟩ := serverHandshake_sockets M hx
      change callFds (handshake ++ _ ++ _) = _
      rw [callFds_append, callFds_append, hquiet, callFds_closes,
        sessionDestroy_fds M hfd hsocket hudp]
      rfl
  | @stored handshake s s' _ hx hadd =>
      refine absurd (.inr ⟨client, s, handshake, hclient, rfl, hx, fun hfull => ?_⟩) hbad
      rw [sessionManagerAdd_eq_none.mpr hfull] at hadd
      contradiction

end Safe

section Invariant

variable {M : Memory Buf} {P : Platform Buf} {o o' : ServerSockets Buf} {op : ListenerOp Buf}

/-- The TCP descriptors of the sessions in the table. -/
def SessionManager.sockets (m : SessionManager Buf) : SlotTable.Table maxSessions ℤ :=
  fun i => (m.sessions i).map Session.socket

/-- The listener and the table own the open descriptors; the sessions have no others. -/
structure ServerSockets.Sound (o : ServerSockets Buf) : Prop where
  owns : Owns o.manager.sockets o.accepted o.log
  nonneg : ∀ fd ∈ held o.log, 0 ≤ fd
  udp : ∀ i s, o.manager.sessions i = some s → s.udp.socket = -1

theorem ServerSockets.owned_iff (fd : ℤ) :
    o.Owned fd ↔ o.accepted = some fd ∨ ∃ i, o.manager.sockets i = some fd := by
  simp [ServerSockets.Owned, SessionManager.sockets]

theorem ServerSockets.Sound.oneOwner (h : o.Sound) : OneOwner o := by
  have hheld : ∀ fd, fd ∈ held o.log ↔ o.Owned fd := fun fd =>
    (h.owns.held_iff fd).trans (ServerSockets.owned_iff fd).symm
  refine ⟨h.owns.closes, hheld, fun fd => ?_⟩
  rw [← hheld]
  exact count_opened h.owns.opens h.owns.closes fd

theorem sockets_eq_some {m : SessionManager Buf} {i : Fin maxSessions} {fd : ℤ} :
    m.sockets i = some fd ↔ ∃ s, m.sessions i = some s ∧ s.socket = fd := Option.map_eq_some_iff

theorem sockets_update {m m' : SessionManager Buf} {i : Fin maxSessions} {e : Option (Session Buf)}
    (h : m'.sessions = Function.update m.sessions i e) :
    m'.sockets = Function.update m.sockets i (e.map Session.socket) := by
  funext j
  unfold SessionManager.sockets
  rw [h]
  by_cases hj : j = i
  · subst hj
    simp
  · simp [Function.update_of_ne hj]

/-- A session of the table that is destroyed gives up its TCP descriptor. -/
theorem ServerSockets.Sound.destroyed (h : o.Sound) {i : Fin maxSessions} {s : Session Buf}
    (hs : o.manager.sessions i = some s) : (sessionDestroy M s).2 = [s.socket] := by
  refine sessionDestroy_fds M (h.nonneg _ ?_) rfl (h.udp i s hs)
  exact (h.owns.held_iff _).mpr (.inr ⟨i, sockets_eq_some.mpr ⟨s, hs, rfl⟩⟩)

theorem effectFds_close (fds : List ℤ) :
    effectFds (fds.map (Effect.close : ℤ → Effect Buf)) = fds := by
  induction fds with
  | nil => rfl
  | cons fd fds ih => exact congrArg (fd :: ·) ih

theorem ServerSockets.Sound.disconnected (h : o.Sound) :
    effectFds (sessionManagerDisconnectAll M o.manager).2 =
      (List.finRange maxSessions).filterMap o.manager.sockets := by
  have hslot : ∀ i, effectFds (disconnectEffects M (o.manager.sessions i)) =
      (o.manager.sockets i).toList := by
    intro i
    unfold SessionManager.sockets
    cases hs : o.manager.sessions i with
    | none => rfl
    | some s =>
        change effectFds ((sessionDestroy M s).2.map .close) = [s.socket]
        rw [effectFds_close, h.destroyed hs]
  have htun : effectFds (if o.manager.tun then [.tunClose] else [] : List (Effect Buf)) = [] := by
    cases o.manager.tun <;> rfl
  unfold sessionManagerDisconnectAll effectFds at *
  rw [List.filterMap_append, htun, List.append_nil, List.filterMap_flatMap]
  simp only [hslot]
  exact (List.filterMap_eq_flatMap_toList _ _).symm

/-- The tunnel threads leave the sessions their descriptors. -/
theorem tunnels_sockets {m m' : SessionManager Buf} {op : ServerOp Buf} (hop : op.Tunnels)
    (h : ServerStep M P m op m') (i : Fin maxSessions) :
    (m'.sessions i).map (fun s => (s.socket, s.udp.socket)) =
      (m.sessions i).map fun s => (s.socket, s.udp.socket) := by
  have hslot := h.slot M P i
  generalize m'.sessions i = e at hslot
  cases hslot with
  | keep => rfl
  | free hremoves =>
      cases hs : m.sessions i with
      | none => rfl
      | some s =>
          obtain rfl | rfl := hremoves s hs <;> simp [ServerOp.Tunnels] at hop
  | add _ _ => simp [ServerOp.Tunnels] at hop
  | peer _ htarget => rw [mem_of_udpListenerTarget P htarget]; rfl
  | count htarget => rw [mem_of_tunSenderTarget P htarget]; rfl

/-- The session of an accepted connection takes its descriptor into the table. -/
theorem ServerSockets.Sound.stored (h : o.Sound) {s : Session Buf} {i : Fin maxSessions}
    (haccepted : o.accepted = some s.socket) (hfree : SlotTable.free o.manager.sessions = some i)
    (hudp : s.udp.socket = -1) :
    ServerSockets.Sound ⟨o.manager.stored i (s.placedAt i), o.log, none⟩ := by
  have howns : Owns o.manager.sockets (some s.socket) o.log := haccepted ▸ h.owns
  have hslot : o.manager.sessions i = none := (SlotTable.free_eq_some.mp hfree).1
  have hsockets : (o.manager.stored i (s.placedAt i)).sockets =
      Function.update o.manager.sockets i (some s.socket) := by
    rw [sockets_update (SessionManager.stored_sessions i _)]
    rfl
  refine ⟨?_, h.nonneg, fun j t ht => ?_⟩
  · rw [hsockets]
    exact howns.store (by rw [SessionManager.sockets, hslot]; rfl)
  · obtain ⟨-, rfl⟩ | ⟨-, ht⟩ := SlotTable.update_some_eq_some.mp ht
    · exact hudp
    · exact h.udp j t ht

/-- A removal closes the descriptor of the session it takes out. -/
theorem ServerSockets.Sound.removed (h : o.Sound) {sessionId : UInt64} {m : SessionManager Buf}
    {effects : List (Effect Buf)}
    (hremove : (sessionManagerRemove M o.manager sessionId).getD (o.manager, []) = (m, effects)) :
    ServerSockets.Sound ⟨m, o.log ++ closes (effectFds effects), o.accepted⟩ := by
  unfold sessionManagerRemove at hremove
  cases hfind : sessionManagerFind o.manager sessionId with
  | none =>
      rw [hfind] at hremove
      obtain ⟨rfl, rfl⟩ := Prod.mk.inj hremove
      simpa [effectFds] using h
  | some e =>
      obtain ⟨i, s⟩ := e
      rw [hfind] at hremove
      obtain ⟨rfl, rfl⟩ := Prod.mk.inj hremove
      have hs : o.manager.sessions i = some s := (SlotTable.find_eq_some.mp hfind).1
      rw [effectFds_close, h.destroyed hs]
      refine ⟨?_, fun fd hheld => ?_, fun j t ht => ?_⟩
      · rw [sockets_update rfl]
        exact h.owns.remove (sockets_eq_some.mpr ⟨s, hs, rfl⟩)
      · rw [held_closes] at hheld
        exact h.nonneg fd hheld.1
      · exact h.udp j t (SlotTable.update_none_eq_some.mp ht).2

/-- The tunnel threads close nothing. -/
theorem ServerSockets.Sound.tunnels (h : o.Sound) {op : ServerOp Buf} {m : SessionManager Buf}
    (hop : op.Tunnels) (hstep : ServerStep M P o.manager op m) :
    ServerSockets.Sound ⟨m, o.log, o.accepted⟩ := by
  have hmap := tunnels_sockets hop hstep
  have hsockets : m.sockets = o.manager.sockets := by
    funext i
    have hfst := congrArg (Option.map Prod.fst) (hmap i)
    simpa [SessionManager.sockets, Function.comp_def] using hfst
  refine ⟨?_, h.nonneg, fun i s hs => ?_⟩
  · rw [hsockets]
    exact h.owns
  · have hsome := hmap i
    rw [hs, Option.map_some, eq_comm, Option.map_eq_some_iff] at hsome
    obtain ⟨t, ht, he⟩ := hsome
    exact (congrArg Prod.snd he).symm.trans (h.udp i t ht)

theorem listenerStep_sound (h : ListenerStep M P o op o') (hsafe : op.Safe M o) (hi : o.Sound) :
    o'.Sound := by
  cases h with
  | @accept client hidle hfd hfree =>
      refine ⟨(hidle ▸ hi.owns).accept hfree, fun fd hheld => ?_, hi.udp⟩
      rw [held_opened] at hheld
      obtain rfl | hheld := hheld
      · exact hfd
      · exact hi.nonneg fd hheld
  | @serve client clientIp calls m haccepted hx =>
      obtain ⟨hfds, rfl⟩ | ⟨hfds, s, s', rfl, hudp, hadd⟩ :=
        (serverListenerTurn_served M hx).of_safe haccepted hsafe
      · have howns : Owns o.manager.sockets (some client) o.log := haccepted ▸ hi.owns
        rw [hfds]
        refine ⟨howns.refuse, fun fd hheld => ?_, hi.udp⟩
        rw [held_closes] at hheld
        exact hi.nonneg fd hheld.1
      · rw [hfds, closes_nil, List.append_nil]
        obtain ⟨i, hfree, rfl, rfl⟩ := sessionManagerAdd_eq_some.mp hadd
        exact hi.stored haccepted hfree hudp
  | remove hremove => exact hi.removed hremove
  | disconnectAll hall =>
      obtain ⟨rfl, rfl⟩ := Prod.mk.inj hall
      change ServerSockets.Sound ⟨_, o.log ++
        closes (effectFds (sessionManagerDisconnectAll M o.manager).2), o.accepted⟩
      rw [hi.disconnected]
      refine ⟨hi.owns.clear, fun fd hheld => ?_, fun i s hs => ?_⟩
      · rw [held_closes] at hheld
        exact hi.nonneg fd hheld.1
      · simp at hs
  | thread hop hstep => exact hi.tunnels hop hstep

theorem listenerStep_log (h : ListenerStep M P o op o') : o.log <+: o'.log := by
  cases h with
  | accept _ _ _ => exact List.prefix_append _ _
  | serve _ _ => exact List.prefix_append _ _
  | remove _ => exact List.prefix_append _ _
  | disconnectAll _ => exact List.prefix_append _ _
  | thread _ _ => exact List.prefix_rfl

/-- A service that is not safe closes a descriptor that is nobody's any more. -/
theorem listenerStep_bad (h : ListenerStep M P o op o') (hbad : ¬ op.Safe M o) (hi : o.Sound) :
    ¬ ClosesHeld o'.log := by
  cases h with
  | accept _ _ _ => exact absurd trivial hbad
  | remove _ => exact absurd trivial hbad
  | disconnectAll _ => exact absurd trivial hbad
  | thread _ _ => exact absurd trivial hbad
  | @serve client clientIp calls m haccepted hx =>
      have hheld : client ∈ held o.log := (hi.owns.held_iff client).mpr (.inl haccepted)
      rw [(serverListenerTurn_served M hx).twice (hi.nonneg client hheld) haccepted hbad,
        closesHeld_closes]
      rintro ⟨-, hnodup, -⟩
      simp at hnodup

theorem startedSockets_sound (identity : CryptoContext Buf) (udpSocket : ℤ) :
    (startedSockets M identity udpSocket).Sound := by
  refine ⟨?_, by simp [startedSockets], fun i s hs => ?_⟩
  · have hsockets : (startedManager M identity udpSocket).sockets = fun _ => none := by
      funext i
      simp [SessionManager.sockets]
    change Owns (startedManager M identity udpSocket).sockets none []
    rw [hsockets]
    exact .nil
  · simp [startedSockets] at hs

end Invariant

section Main

variable {M : Memory Buf} {P : Platform Buf} {o : ServerSockets Buf}

/-- Every accepted descriptor has one owner, who alone closes it, exactly as long as no
connection is refused once a session has been allocated for it. -/
theorem acceptedSockets_oneOwner_iff {identity : CryptoContext Buf} {udpSocket : ℤ}
    {steps : List (ServerSockets Buf × ListenerOp Buf)}
    (h : Path (ListenerStep M P) (startedSockets M identity udpSocket) steps o) :
    OneOwner o ↔ ∀ p ∈ steps, p.2.Safe M p.1 := by
  have hsound : ∀ o op o', o.Sound → op.Safe M o → ListenerStep M P o op o' → o'.Sound :=
    fun _ _ _ hi hsafe hstep => listenerStep_sound hstep hsafe hi
  have hcloses : ClosesHeld o.log ↔ ∀ p ∈ steps, p.2.Safe M p.1 := by
    refine h.holds_iff (G := fun o => ClosesHeld o.log) (C := fun o op => op.Safe M o)
      (startedSockets_sound identity udpSocket) hsound ?_ ?_ ?_
    · exact fun o hi => hi.oneOwner.closes
    · exact fun o op o' hstep hg => hg.of_prefix (listenerStep_log hstep)
    · exact fun o op o' hi hbad hstep => listenerStep_bad hstep hbad hi
  refine ⟨fun hone => hcloses.mp hone.closes, fun hsafe => ?_⟩
  exact (h.invariant_of (C := fun o op => op.Safe M o) (startedSockets_sound identity udpSocket)
    hsound hsafe).oneOwner

/-- The server's first client is established on descriptor 6; for the next one, on descriptor 7,
there is no memory. -/
theorem acceptedSockets_oneOwner_first : OneOwner
    (⟨(startedManager msgMemory (identityOf 0) 5).stored 0 ((guestSession 0).placedAt 0),
      [.opened 6, .opened 7, .closed 7], none⟩ : ServerSockets MsgBuf) := by
  let m := startedManager msgMemory (identityOf 0) 5
  let m' := m.stored 0 ((guestSession 0).placedAt 0)
  have hfree : SlotTable.free m.sessions = some 0 :=
    SlotTable.free_eq_some.mpr ⟨rfl, fun j hj => absurd hj (Fin.not_lt_zero j)⟩
  have hstore : Exec (sessionManagerStore msgMemory m (guestSession 0)) []
      (.ret (m', some ((guestSession 0).placedAt 0))) := by
    have hadd : sessionManagerAdd m (guestSession 0) = some (m', (guestSession 0).placedAt 0) :=
      sessionManagerAdd_eq_some.mpr ⟨0, hfree, rfl, rfl⟩
    unfold sessionManagerStore
    rw [hadd]
    exact .nil _
  have hconnect := sessionManagerConnect_exec msgMemory 6 (guestId 0) (guestServerAnswers 0) hstore
  have hserve : Exec (serverListenerTurn msgMemory m 6 []) (guestCalls 0) (.ret m') := by
    refine exec_bind_ret.mpr ⟨(m', some ((guestSession 0).placedAt 0)), guestCalls 0, [],
      (List.append_nil _).symm, ?_, .nil _⟩
    rw [List.append_nil] at hconnect
    exact hconnect
  have hfail : Exec (serverListenerTurn msgMemory m' 7 []) [⟨.malloc, false⟩, ⟨.close 7, ()⟩]
      (.ret m') := .cons (.cons (.nil _))
  have hhandshake : Exec (serverHandshake msgMemory 6 [] (identityOf 0))
      (guestCalls 0).tail (.ret (0, guestSession 0)) :=
    .cons (sessionServerConnect_exec msgMemory _ (guestServerAnswers 0))
  let Step := ListenerStep msgMemory (copyPlatform MsgBuf)
  have h₁ : Step (startedSockets msgMemory (identityOf 0) 5) (.accept 6)
      ⟨m, [.opened 6], some 6⟩ := .accept rfl (by decide) (by simp [startedSockets])
  have h₂ : Step ⟨m, [.opened 6], some 6⟩ (.serve [] (guestCalls 0)) ⟨m', [.opened 6], none⟩ :=
    .serve rfl hserve
  have h₃ : Step ⟨m', [.opened 6], none⟩ (.accept 7) ⟨m', [.opened 6, .opened 7], some 7⟩ :=
    .accept rfl (by decide) (by simp [held, FdEvent.after])
  have h₄ : Step ⟨m', [.opened 6, .opened 7], some 7⟩
      (.serve [] [⟨.malloc, false⟩, ⟨.close 7, ()⟩])
      ⟨m', [.opened 6, .opened 7, .closed 7], none⟩ := .serve rfl hfail
  refine (acceptedSockets_oneOwner_iff (Path.nil.snoc h₁ |>.snoc h₂ |>.snoc h₃ |>.snoc h₄)).mpr ?_
  have hroom : SlotTable.free m.sessions ≠ none := by simp [hfree]
  have hsafe : (ListenerOp.serve [] (guestCalls 0)).Safe msgMemory ⟨m, [.opened 6], some 6⟩ :=
    .inr ⟨6, guestSession 0, (guestCalls 0).tail, rfl, rfl, hhandshake, hroom⟩
  simp only [List.nil_append, List.cons_append, List.forall_mem_cons]
  exact ⟨trivial, hsafe, trivial, .inl ⟨_, rfl⟩, by simp⟩

/-- A client that hangs up before its hello: `session_manager_connect` destroys the session, and
the listener closes the descriptor a second time. -/
theorem acceptedSocket_closed_twice :
    ¬ ∀ steps (o : ServerSockets MsgBuf), Path (ListenerStep msgMemory (copyPlatform MsgBuf))
        (startedSockets msgMemory (identityOf 0) 5) steps o → OneOwner o := by
  let m := startedManager msgMemory (identityOf 0) 5
  let calls : Calls MsgBuf := [⟨.malloc, true⟩, ⟨.generateSessionId, 1⟩, ⟨.packetReceive 6, none⟩,
    ⟨.close 6, ()⟩, ⟨.close 6, ()⟩]
  have hserve : Exec (serverListenerTurn msgMemory m 6 []) calls (.ret m) :=
    .cons (.cons (.cons (.cons (.cons (.nil _)))))
  let Step := ListenerStep msgMemory (copyPlatform MsgBuf)
  have h₁ : Step (startedSockets msgMemory (identityOf 0) 5) (.accept 6)
      ⟨m, [.opened 6], some 6⟩ := .accept rfl (by decide) (by simp [startedSockets])
  have h₂ : Step ⟨m, [.opened 6], some 6⟩ (.serve [] calls)
      ⟨m, [.opened 6, .closed 6, .closed 6], none⟩ := .serve rfl hserve
  intro hall
  have hcloses := (hall _ _ (Path.nil.snoc h₁ |>.snoc h₂)).closes
  have hheld := hcloses [.opened 6, .closed 6] 6 List.prefix_rfl
  simp [held, FdEvent.after] at hheld

end Main

end Sencd
