import Sencd.NonceUniqueness
import Sencd.TunnelThreads

/-!
# The threads of a server and of its clients

The threads of a server and of any number of clients take their steps in any order, and the
network delivers whatever datagrams it likes. Seen by turns every such run is a run of
`TunnelRun`. A thread that goes on after its session has been destroyed takes no turn any more.
-/
namespace Sencd.Threads
open ByteOrder CallProgram LabelledPath Shared

variable {Buf : ℕ → Type} {ι : Type}

section System

structure SystemState (Buf : ℕ → Type) (ι : Type) where
  server : ServerState Buf
  clients : ι → TunnelThreads Buf

inductive SystemEvent (Buf : ℕ → Type) (ι : Type)
  | server (a : Thread × Option (ServerOp Buf))
  | client (k : ι) (e : TunnelEvent)

variable [DecidableEq ι] (M : Memory Buf) (P : Platform Buf) (hosts : ι → Endian)

/-- The hosts of the server and of its clients may differ in byte order. -/
inductive SystemStep : SystemState Buf ι → SystemEvent Buf ι → SystemState Buf ι → Prop
  | server {s : SystemState Buf ι} {a : Thread × Option (ServerOp Buf)} {t : ServerState Buf} :
      ThreadStep M P s.server a t → SystemStep s (.server a) { s with server := t }
  | client {s : SystemState Buf ι} {k : ι} {e : TunnelEvent} {t : TunnelThreads Buf} :
      TunnelStep M (P.on (hosts k)) (s.clients k) e t →
      SystemStep s (.client k e) { s with clients := Function.update s.clients k t }

/-- The runs of a server from its set-up and of clients from the start of their tunnel threads. -/
abbrev SystemRun (identity : CryptoContext Buf) (udpSocket : ℤ) (clients : ι → Client Buf) :
    List (SystemState Buf ι × SystemEvent Buf ι) → SystemState Buf ι → Prop :=
  Path (SystemStep M P hosts)
    ⟨started M identity udpSocket, fun k => ⟨clients k, .start, .start⟩⟩

end System

section Turns

variable (M : Memory Buf) (P : Platform Buf) (hosts : ι → Endian)

/-- A client as its turns see it. What its sender does to a destroyed session is not seen. -/
def tunnelView (c : Client Buf) : Client Buf :=
  if c.connected then c else clientDestroyed M c

def systemView (fd : ℤ) (s : SystemState Buf ι) : TunnelState Buf ι :=
  ⟨(view fd s.server).values, fun k => tunnelView M (s.clients k).client⟩

def TunnelThreads.op (t : TunnelThreads Buf) (e : TunnelEvent) : Option ClientOp :=
  if t.client.connected then e.op else none

/-- The turn that a step completes, if it does. -/
def systemOp (s : SystemState Buf ι) : SystemEvent Buf ι → Option (TunnelOp Buf ι)
  | .server a => a.2.map .server
  | .client k e => ((s.clients k).op e).map (.client k)

def systemTurn (fd : ℤ) :
    SystemState Buf ι × SystemEvent Buf ι → Option (TunnelState Buf ι × TunnelOp Buf ι) :=
  turnOf (systemView M fd) systemOp

/-- What a step of a connected client hands to `send` and to `tun_write`. -/
def TunnelThreads.sends (t : TunnelThreads Buf) (e : TunnelEvent) : Option Bytes :=
  if t.client.connected then e.sends else none

def TunnelThreads.writes (t : TunnelThreads Buf) (e : TunnelEvent) : Option Bytes :=
  if t.client.connected then e.writes else none

def TunnelThreads.toSend (t : TunnelThreads Buf) : Option Bytes :=
  if t.client.connected then t.sender.pending else none

def TunnelThreads.toWrite (t : TunnelThreads Buf) : Option Bytes :=
  if t.client.connected then t.receiver.pending else none

/-- The server's part of what comes out. -/
def systemWrites : SystemState Buf ι × SystemEvent Buf ι → Option Bytes
  | (s, .server a) => stepWrites (s.server, a)
  | _ => none

def systemSends : SystemState Buf ι × SystemEvent Buf ι → Option (SockaddrIn × Bytes)
  | (s, .server a) => stepSends (s.server, a)
  | _ => none

/-- The server's part of what the turns make. -/
def madeWrites : TunnelState Buf ι × TunnelOp Buf ι → Option Bytes
  | (t, .server op) => turnWrites P (t.manager, op)
  | _ => none

def madeSends : TunnelState Buf ι × TunnelOp Buf ι → Option (SockaddrIn × Bytes)
  | (t, .server op) => turnSends P (t.manager, op)
  | _ => none

variable [DecidableEq ι]

/-- The part of client `k` in what comes out. -/
def tunnelWrites (k : ι) : SystemState Buf ι × SystemEvent Buf ι → Option Bytes
  | (s, .client j e) => if j = k then (s.clients k).writes e else none
  | _ => none

def tunnelSends (k : ι) : SystemState Buf ι × SystemEvent Buf ι → Option Bytes
  | (s, .client j e) => if j = k then (s.clients k).sends e else none
  | _ => none

/-- The steps of client `k`'s threads. -/
def tunnelEvent (k : ι) (_ : SystemState Buf ι) : SystemEvent Buf ι → Option TunnelEvent
  | .client j e => if j = k then some e else none
  | _ => none

def tunnelPart (k : ι) :
    SystemState Buf ι × SystemEvent Buf ι → Option (TunnelThreads Buf × TunnelEvent) :=
  turnOf (fun s => s.clients k) (tunnelEvent k)

/-- The part of client `k` in what the turns make. -/
def tunnelMadeWrites (k : ι) : TunnelState Buf ι × TunnelOp Buf ι → Option Bytes
  | (t, .client j op) => if j = k then clientWrites (P.on (hosts k)) (t.clients k, op) else none
  | _ => none

def tunnelMadeSends (k : ι) : TunnelState Buf ι × TunnelOp Buf ι → Option Bytes
  | (t, .client j op) => if j = k then clientSends (P.on (hosts k)) (t.clients k, op) else none
  | _ => none

/-- The turns of all threads make a run of `TunnelRun`. What the server writes and sends is what
its turns make; of what a client's turns make only what it had not yet handed over when its
session was destroyed is missing. From then on its threads stop. -/
structure SystemTurns (identity : CryptoContext Buf) (fd : ℤ) (clients : ι → Client Buf)
    (steps : List (SystemState Buf ι × SystemEvent Buf ι)) (s : SystemState Buf ι) : Prop where
  run : TunnelRun M P hosts identity fd clients (steps.filterMap (systemTurn M fd))
    (systemView M fd s)
  serverWrites : (steps.filterMap (systemTurn M fd)).filterMap (madeWrites P) =
    steps.filterMap systemWrites ++ (s.server.udp.pending P s.server.manager).toList
  serverSends : (steps.filterMap (systemTurn M fd)).filterMap (madeSends P) =
    steps.filterMap systemSends ++ s.server.tun.sends.toList
  clientWrites : ∀ k, (steps.filterMap (tunnelWrites k) ++ (s.clients k).toWrite.toList).Sublist
    ((steps.filterMap (systemTurn M fd)).filterMap (tunnelMadeWrites P hosts k))
  clientSends : ∀ k, (steps.filterMap (tunnelSends k) ++ (s.clients k).toSend.toList).Sublist
    ((steps.filterMap (systemTurn M fd)).filterMap (tunnelMadeSends P hosts k))
  clientStops : ∀ k before s₁ after, steps = before ++ (s₁, .client k .destroyed) :: after →
    Stops M (P.on (hosts k)) (s₁.clients k) (after.filterMap (tunnelPart k))

end Turns

section Client

variable {M : Memory Buf} {P : Platform Buf} {c₀ : Client Buf} {t t' : TunnelThreads Buf}
  {e : TunnelEvent}

/-- A client's step is a turn or is not seen, and hands over nothing that its turns have not
made. -/
structure ClientRefines (M : Memory Buf) (P : Platform Buf) (t : TunnelThreads Buf)
    (e : TunnelEvent) (t' : TunnelThreads Buf) : Prop where
  step : (t.op e).elim (tunnelView M t'.client = tunnelView M t.client) fun op =>
    clientStep P M (tunnelView M t.client) op = tunnelView M t'.client
  writes : ((t.writes e).toList ++ t'.toWrite.toList).Sublist
    (t.toWrite.toList ++
      ((t.op e).bind fun op => clientWrites P (tunnelView M t.client, op)).toList)
  sends : ((t.sends e).toList ++ t'.toSend.toList).Sublist
    (t.toSend.toList ++
      ((t.op e).bind fun op => clientSends P (tunnelView M t.client, op)).toList)

theorem tunnelView_connected {c : Client Buf} (hc : c.connected) : tunnelView M c = c :=
  if_pos hc

theorem clientDestroyed_destroyed (c : Client Buf) :
    clientDestroyed M (clientDestroyed M c) = clientDestroyed M c := rfl

theorem SenderStep.destroyed {c c' : Client Buf} {pc pc' : ClientTunPc}
    (h : SenderStep P c pc e c' pc') : clientDestroyed M c' = clientDestroyed M c := by
  cases h <;> rfl

/-- Only `session_destroy` ends a connection. -/
theorem TunnelStep.disconnected (h : TunnelStep M P t e t') (ht : t.client.connected)
    (ht' : ¬ t'.client.connected) :
    e = .destroyed ∧ t' = { t with client := clientDestroyed M t.client } := by
  cases h with
  | sender h =>
      obtain ⟨-, hudp, hstate⟩ := h.client
      exact absurd ⟨hstate.trans ht.1, (congrArg UdpTunnel.socket hudp).ge.trans' ht.2⟩ ht'
  | receiver h => exact absurd ht ht'
  | destroy => exact ⟨rfl, rfl⟩

/-- What a thread does to a destroyed session is not seen. -/
theorem TunnelStep.unseen (h : TunnelStep M P t e t') :
    clientDestroyed M t'.client = clientDestroyed M t.client := by
  cases h with
  | sender h => exact h.destroyed
  | receiver h => rfl
  | destroy => exact clientDestroyed_destroyed t.client

theorem TunnelStep.refines (hs : t.client.connected → UnderWay P c₀ t)
    (h : TunnelStep M P t e t') : ClientRefines M P t e t' := by
  by_cases ht' : t'.client.connected
  · have ht := h.connected ht'
    have hturns := h.turns (hs ht) ht'
    have hop : t.op e = e.op := if_pos ht
    constructor
    · rw [hop, tunnelView_connected ht, tunnelView_connected ht']
      exact hturns.step
    · have hwrites := hturns.writes
      rw [clientTurn, Option.bind_map] at hwrites
      rw [hop, tunnelView_connected ht, TunnelThreads.writes, TunnelThreads.toWrite,
        TunnelThreads.toWrite, if_pos ht, if_pos ht, if_pos ht', ← hwrites]
      exact List.Sublist.refl _
    · have hsends := hturns.sends
      rw [clientTurn, Option.bind_map] at hsends
      rw [hop, tunnelView_connected ht, TunnelThreads.sends, TunnelThreads.toSend,
        TunnelThreads.toSend, if_pos ht, if_pos ht, if_pos ht', ← hsends]
      exact List.Sublist.refl _
  have hwrite : t'.toWrite = none := if_neg ht'
  have hsend : t'.toSend = none := if_neg ht'
  by_cases ht : t.client.connected
  · obtain ⟨rfl, rfl⟩ := h.disconnected ht ht'
    have hop : t.op .destroyed = some .disconnect := if_pos ht
    constructor
    · rw [hop, tunnelView_connected ht, tunnelView, if_neg ht']
      exact if_pos ht.1
    · simp [hwrite, TunnelThreads.writes, TunnelEvent.writes]
    · simp [hsend, TunnelThreads.sends, TunnelEvent.sends]
  · have hop : t.op e = none := if_neg ht
    constructor
    · rw [hop, tunnelView, tunnelView, if_neg ht, if_neg ht']
      exact h.unseen
    · simp [hwrite, TunnelThreads.writes, ht]
    · simp [hsend, TunnelThreads.sends, ht]

end Client

section Refinement

variable [DecidableEq ι] {M : Memory Buf} {P : Platform Buf} {hosts : ι → Endian} {fd : ℤ}
  {clients : ι → Client Buf} {s s' : SystemState Buf ι} {a : SystemEvent Buf ι}
  {identity : CryptoContext Buf} {steps : List (SystemState Buf ι × SystemEvent Buf ι)}

/-- The server is in order, and so is every client that is still connected. -/
structure Composed (P : Platform Buf) (hosts : ι → Endian) (fd : ℤ) (clients : ι → Client Buf)
    (s : SystemState Buf ι) : Prop where
  phased : Phased fd s.server
  tidy : Tidy P s.server
  underWay : ∀ k, (s.clients k).client.connected →
    UnderWay (P.on (hosts k)) (clients k) (s.clients k)

theorem Composed.step (hs : Composed P hosts fd clients s) (h : SystemStep M P hosts s a s') :
    Composed P hosts fd clients s' := by
  cases h with
  | server h => exact ⟨hs.phased.step h, hs.tidy.step hs.phased h, hs.underWay⟩
  | @client k e t h =>
      refine ⟨hs.phased, hs.tidy, fun j hj => ?_⟩
      dsimp only at hj ⊢
      by_cases hjk : j = k
      · subst hjk
        rw [Function.update_self] at hj ⊢
        exact (hs.underWay j (h.connected hj)).step h hj
      · rw [Function.update_of_ne hjk] at hj ⊢
        exact hs.underWay j hj

theorem SystemRun.composed (h : SystemRun M P hosts identity fd clients steps s) :
    Composed P hosts fd clients s := by
  refine h.invariant (I := Composed P hosts fd clients) ⟨?_, ?_, fun k _ => ?_⟩
    fun _ _ _ hs hstep => hs.step hstep
  · exact (ThreadRun.ordered (M := M) (P := P) Path.nil).1
  · exact (ThreadRun.ordered (M := M) Path.nil).2
  · exact ⟨rfl, rfl, by simp, by simp⟩

/-- A step of any thread is a turn or is not seen, and no party hands over what its turns have
not made. -/
structure SystemRefines (M : Memory Buf) (P : Platform Buf) (hosts : ι → Endian) (fd : ℤ)
    (s : SystemState Buf ι) (a : SystemEvent Buf ι) (s' : SystemState Buf ι) : Prop where
  step : (systemOp s a).elim (systemView M fd s' = systemView M fd s) fun op =>
    Sencd.TunnelStep M P hosts (systemView M fd s) op (systemView M fd s')
  serverWrites : (s.server.udp.pending P s.server.manager).toList ++
      ((systemTurn M fd (s, a)).bind (madeWrites P)).toList =
    (systemWrites (s, a)).toList ++ (s'.server.udp.pending P s'.server.manager).toList
  serverSends : s.server.tun.sends.toList ++
      ((systemTurn M fd (s, a)).bind (madeSends P)).toList =
    (systemSends (s, a)).toList ++ s'.server.tun.sends.toList
  clientWrites : ∀ k, ((tunnelWrites k (s, a)).toList ++ (s'.clients k).toWrite.toList).Sublist
    ((s.clients k).toWrite.toList ++
      ((systemTurn M fd (s, a)).bind (tunnelMadeWrites P hosts k)).toList)
  clientSends : ∀ k, ((tunnelSends k (s, a)).toList ++ (s'.clients k).toSend.toList).Sublist
    ((s.clients k).toSend.toList ++
      ((systemTurn M fd (s, a)).bind (tunnelMadeSends P hosts k)).toList)

theorem server_refines {b : Thread × Option (ServerOp Buf)} {t : ServerState Buf}
    (h : Refines M P fd s.server b t) :
    SystemRefines M P hosts fd s (.server b) { s with server := t } := by
  obtain ⟨thread, op⟩ := b
  obtain ⟨hstep, hwrites, hsends⟩ := h
  cases op with
  | none =>
      refine ⟨?_, hwrites, hsends, fun k => ?_, fun k => ?_⟩
      · exact congrArg (fun m => (⟨m, _⟩ : TunnelState Buf ι)) hstep
      · exact (List.nil_append _).symm ▸ List.sublist_append_left _ _
      · exact (List.nil_append _).symm ▸ List.sublist_append_left _ _
  | some op =>
      refine ⟨.server _ hstep, hwrites, hsends, fun k => ?_, fun k => ?_⟩
      · exact (List.nil_append _).symm ▸ List.sublist_append_left _ _
      · exact (List.nil_append _).symm ▸ List.sublist_append_left _ _

theorem systemView_update (M : Memory Buf) (fd : ℤ) (s : SystemState Buf ι) (k : ι)
    (t : TunnelThreads Buf) :
    systemView M fd { s with clients := Function.update s.clients k t } =
      ⟨(systemView M fd s).manager,
        Function.update (systemView M fd s).clients k (tunnelView M t.client)⟩ := by
  have hclients : (fun j => tunnelView M (Function.update s.clients k t j).client) =
      Function.update (fun j => tunnelView M (s.clients j).client) k (tunnelView M t.client) :=
    funext fun j => Function.apply_update (fun _ u => tunnelView M (TunnelThreads.client u)) _ _ _ j
  rw [systemView, hclients]
  rfl

omit [DecidableEq ι] in
theorem systemTurn_client (M : Memory Buf) (fd : ℤ) (s : SystemState Buf ι) (k : ι)
    (e : TunnelEvent) {α : Type} (made : TunnelState Buf ι × TunnelOp Buf ι → Option α) :
    (systemTurn M fd (s, .client k e)).bind made =
      ((s.clients k).op e).bind fun op => made (systemView M fd s, .client k op) := by
  unfold systemTurn turnOf systemOp
  dsimp only
  cases (s.clients k).op e <;> rfl

theorem client_refines {k : ι} {e : TunnelEvent} {t : TunnelThreads Buf}
    (h : ClientRefines M (P.on (hosts k)) (s.clients k) e t) :
    SystemRefines M P hosts fd s (.client k e)
      { s with clients := Function.update s.clients k t } := by
  obtain ⟨hstep, hwrites, hsends⟩ := h
  have hquiet : ∀ {α : Type} (made : TunnelState Buf ι × TunnelOp Buf ι → Option α),
      (∀ u op, made (u, .client k op) = none) →
      (systemTurn M fd (s, .client k e)).bind made = none := by
    intro α made hnone
    rw [systemTurn_client]
    simp [hnone]
  refine ⟨?_, ?_, ?_, fun j => ?_, fun j => ?_⟩
  · rw [systemView_update]
    unfold systemOp
    dsimp only
    cases hop : (s.clients k).op e with
    | none =>
        rw [hop] at hstep
        have hsame : tunnelView M t.client = (systemView M fd s).clients k := hstep
        simp [hsame]
    | some op =>
        rw [hop] at hstep
        have hnext : clientStep (P.on (hosts k)) M ((systemView M fd s).clients k) op =
          tunnelView M t.client := hstep
        rw [← hnext]
        exact .client _ _ k op
  · rw [hquiet (madeWrites P) fun _ _ => rfl]
    simp [systemWrites]
  · rw [hquiet (madeSends P) fun _ _ => rfl]
    simp [systemSends]
  · by_cases hjk : k = j
    · subst hjk
      rw [systemTurn_client]
      simpa [tunnelWrites, tunnelMadeWrites, systemView] using hwrites
    · rw [hquiet (tunnelMadeWrites P hosts j) fun _ _ => if_neg hjk]
      simp [tunnelWrites, hjk, Function.update_of_ne (Ne.symm hjk)]
  · by_cases hjk : k = j
    · subst hjk
      rw [systemTurn_client]
      simpa [tunnelSends, tunnelMadeSends, systemView] using hsends
    · rw [hquiet (tunnelMadeSends P hosts j) fun _ _ => if_neg hjk]
      simp [tunnelSends, hjk, Function.update_of_ne (Ne.symm hjk)]

theorem SystemStep.refines (hfd : 0 ≤ fd) (hs : Composed P hosts fd clients s)
    (h : SystemStep M P hosts s a s') : SystemRefines M P hosts fd s a s' := by
  cases h with
  | server h => exact server_refines (h.refines hfd hs.phased hs.tidy)
  | @client k e t h => exact client_refines (h.refines (hs.underWay k))

omit [DecidableEq ι] in
theorem systemView_started (hconnected : ∀ k, (clients k).connected) :
    systemView M fd ⟨started M identity fd, fun k => ⟨clients k, .start, .start⟩⟩ =
      ⟨startedManager M identity fd, clients⟩ := by
  unfold systemView
  rw [view_started]
  exact congrArg _ (funext fun k => tunnelView_connected (hconnected k))

theorem SystemRun.refines (hfd : 0 ≤ fd) (h : SystemRun M P hosts identity fd clients steps s)
    (hstep : SystemStep M P hosts s a s') : SystemRefines M P hosts fd s a s' :=
  hstep.refines hfd h.composed

theorem SystemRun.run (hfd : 0 ≤ fd) (hconnected : ∀ k, (clients k).connected)
    (h : SystemRun M P hosts identity fd clients steps s) :
    TunnelRun M P hosts identity fd clients (steps.filterMap (systemTurn M fd))
      (systemView M fd s) := by
  have hrun := Path.turns (Sencd.TunnelStep M P hosts) (systemView M fd) systemOp h
    fun _ _ _ _ hbefore hstep => (SystemRun.refines hfd hbefore hstep).step
  rw [systemView_started hconnected] at hrun
  exact hrun

theorem SystemRun.serverWrites (hfd : 0 ≤ fd)
    (h : SystemRun M P hosts identity fd clients steps s) :
    (steps.filterMap (systemTurn M fd)).filterMap (madeWrites P) =
      steps.filterMap systemWrites ++ (s.server.udp.pending P s.server.manager).toList :=
  h.delivered (madeWrites P) systemWrites (fun s => s.server.udp.pending P s.server.manager) rfl
    fun _ _ _ _ hbefore hstep => (SystemRun.refines hfd hbefore hstep).serverWrites

theorem SystemRun.clientWrites (hfd : 0 ≤ fd)
    (h : SystemRun M P hosts identity fd clients steps s) (k : ι) :
    (steps.filterMap (tunnelWrites k) ++ (s.clients k).toWrite.toList).Sublist
      ((steps.filterMap (systemTurn M fd)).filterMap (tunnelMadeWrites P hosts k)) :=
  h.delivered_sublist (tunnelMadeWrites P hosts k) (tunnelWrites k)
    (fun s => (s.clients k).toWrite) (ite_self _)
    fun _ _ _ _ hbefore hstep => (SystemRun.refines hfd hbefore hstep).clientWrites k

theorem SystemStep.tunnel (h : SystemStep M P hosts s a s') (k : ι) :
    (tunnelEvent k s a).elim (s'.clients k = s.clients k) fun e =>
      TunnelStep M (P.on (hosts k)) (s.clients k) e (s'.clients k) := by
  cases h with
  | server h => exact rfl
  | @client j e t h =>
      unfold tunnelEvent
      dsimp only
      by_cases hjk : j = k
      · subst hjk
        rw [if_pos rfl, Function.update_self]
        exact h
      · rw [if_neg hjk]
        exact Function.update_of_ne (Ne.symm hjk) _ _

/-- The threads of one client make a run of their own. -/
theorem tunnel_path (h : Path (SystemStep M P hosts) s steps s') (k : ι) :
    Path (TunnelStep M (P.on (hosts k))) (s.clients k) (steps.filterMap (tunnelPart k))
      (s'.clients k) :=
  h.turns _ _ _ fun _ _ _ _ _ hstep => hstep.tunnel k

theorem SystemRun.clientStops (h : SystemRun M P hosts identity fd clients steps s) (k : ι)
    {before after : List (SystemState Buf ι × SystemEvent Buf ι)} {s₁ : SystemState Buf ι}
    (hsteps : steps = before ++ (s₁, .client k .destroyed) :: after) :
    Stops M (P.on (hosts k)) (s₁.clients k) (after.filterMap (tunnelPart k)) := by
  subst hsteps
  obtain ⟨-, s₂, hdestroy, hafter⟩ := Path.middle_iff.mp h
  have hstep := hdestroy.tunnel k
  rw [tunnelEvent, if_pos rfl] at hstep
  exact LastTurns.stops (tunnel_path hafter k) (TunnelStep.lastTurns hstep)

/-- The threads of a server and of its clients refine the model by turns. -/
theorem system_threads_refine (hfd : 0 ≤ fd) (hconnected : ∀ k, (clients k).connected)
    (h : SystemRun M P hosts identity fd clients steps s) :
    SystemTurns M P hosts identity fd clients steps s := by
  refine ⟨SystemRun.run hfd hconnected h, SystemRun.serverWrites hfd h, ?_,
    SystemRun.clientWrites hfd h, fun k => ?_, fun k _ _ _ => SystemRun.clientStops h k⟩
  · exact h.delivered (madeSends P) systemSends (fun s => s.server.tun.sends) rfl
      fun _ _ _ _ hbefore hstep => (SystemRun.refines hfd hbefore hstep).serverSends
  · exact h.delivered_sublist (tunnelMadeSends P hosts k) (tunnelSends k)
      (fun s => (s.clients k).toSend) (ite_self _)
      fun _ _ _ _ hbefore hstep => (SystemRun.refines hfd hbefore hstep).clientSends k

end Refinement

section Reaches

variable {Buf : ℕ → Type} {ι : Type} [DecidableEq ι] {M : Memory Buf} {P : Platform Buf}
  {hosts : ι → Endian} {identity : CryptoContext Buf} {fd : ℤ} {clients : ι → Client Buf}

/-- A run of the threads leads to `s`, through these turns. -/
def Reaches (M : Memory Buf) (P : Platform Buf) (hosts : ι → Endian)
    (identity : CryptoContext Buf) (fd : ℤ) (clients : ι → Client Buf)
    (ops : List (TunnelOp Buf ι)) (s : SystemState Buf ι) : Prop :=
  ∃ steps, SystemRun M P hosts identity fd clients steps s ∧
    (steps.filterMap (systemTurn M fd)).map Prod.snd = ops

theorem Reaches.step {ops : List (TunnelOp Buf ι)} {s s' : SystemState Buf ι}
    {a : SystemEvent Buf ι} (h : Reaches M P hosts identity fd clients ops s)
    (hstep : SystemStep M P hosts s a s') :
    Reaches M P hosts identity fd clients (ops ++ (systemOp s a).toList) s' := by
  obtain ⟨steps, hrun, rfl⟩ := h
  refine ⟨_, hrun.snoc hstep, ?_⟩
  rw [filterMap_snoc, List.map_append, systemTurn, turnOf]
  cases systemOp s a <;> rfl

theorem Reaches.server {ops : List (TunnelOp Buf ι)} {s s' : ServerState Buf}
    {threads : ι → TunnelThreads Buf} {thread : Thread}
    (h : Reaches M P hosts identity fd clients ops ⟨s, threads⟩)
    (hstep : ThreadStep M P s (thread, none) s') :
    Reaches M P hosts identity fd clients ops ⟨s', threads⟩ := by
  have hreached := h.step (.server hstep)
  rwa [systemOp, Option.map_none, Option.toList_none, List.append_nil] at hreached

theorem Reaches.serverTurn {ops : List (TunnelOp Buf ι)} {s s' : ServerState Buf}
    {threads : ι → TunnelThreads Buf} {thread : Thread} {op : ServerOp Buf}
    (h : Reaches M P hosts identity fd clients ops ⟨s, threads⟩)
    (hstep : ThreadStep M P s (thread, some op) s') :
    Reaches M P hosts identity fd clients (ops ++ [.server op]) ⟨s', threads⟩ :=
  h.step (.server hstep)

theorem Reaches.clientTurn {ops : List (TunnelOp Buf ι)} {s : ServerState Buf}
    {threads : ι → TunnelThreads Buf} {k : ι} {t t' : TunnelThreads Buf} {e : TunnelEvent}
    (h : Reaches M P hosts identity fd clients ops ⟨s, Function.update threads k t⟩)
    (hstep : TunnelStep M (P.on (hosts k)) t e t') (hc : t.client.connected) :
    Reaches M P hosts identity fd clients (ops ++ (e.op.map (.client k)).toList)
      ⟨s, Function.update threads k t'⟩ := by
  have hnext : SystemStep M P hosts ⟨s, Function.update threads k t⟩ (.client k e)
      ⟨s, Function.update (Function.update threads k t) k t'⟩ :=
    .client (by
      dsimp only
      rwa [Function.update_self])
  rw [Function.update_idem] at hnext
  have hreached := h.step hnext
  simpa only [systemOp, TunnelThreads.op, Function.update_self, if_pos hc] using hreached

theorem Reaches.client {ops : List (TunnelOp Buf ι)} {s : ServerState Buf}
    {threads : ι → TunnelThreads Buf} {k : ι} {t t' : TunnelThreads Buf} {e : TunnelEvent}
    (h : Reaches M P hosts identity fd clients ops ⟨s, Function.update threads k t⟩)
    (hstep : TunnelStep M (P.on (hosts k)) t e t') (hc : t.client.connected) (he : e.op = none) :
    Reaches M P hosts identity fd clients ops ⟨s, Function.update threads k t'⟩ := by
  have hreached := h.clientTurn hstep hc
  rwa [he, Option.map_none, Option.toList_none, List.append_nil] at hreached

end Reaches

section Guest

/-- The guest connects, sends, and its datagram arrives. -/
theorem guest_reaches : ∃ s, Reaches msgMemory guestPlatform guestHosts (identityOf 0) 5 guestTunnel
    (guestTraffic.map Prod.snd) s ∧ s.server.udp = .inTurn (.write 0 firstRead) ∧
      (s.clients 0).sender = .send firstSent := by
  have hstart : Reaches msgMemory guestPlatform guestHosts (identityOf 0) 5 guestTunnel []
      ⟨started msgMemory (identityOf 0) 5, fun k => ⟨guestTunnel k, .start, .start⟩⟩ :=
    ⟨[], .nil, rfl⟩
  obtain ⟨r, hx⟩ := guest_connect
  have haccepted := (((hstart.server (.listener (.check _))).server
    (.listener (.select _ .ready))).server (.listener (.recheck _ _))).server
      (.listener (.accepted _ (guestSocket 0) []))
  have hconnected := haccepted.serverTurn
    (.listener (.connected hx (.inr ⟨_, guestShared_add⟩)))
  rw [← Function.update_eq_self (0 : ℕ) fun k => TunnelThreads.mk (guestTunnel k) .start .start]
    at hconnected
  have hc := guestTunnel_connected 0
  have hread := ((((hconnected.client (.sender (.start _ true)) hc rfl).client
    (.sender (.check _)) hc rfl).client (.sender (.select _ true)) hc rfl).client
      (.sender (.recheck _ true)) hc rfl).client (.sender (.read _ firstRead)) hc rfl
  have hsent := hread.clientTurn (.sender (.encode _ firstRead firstPacked)) hc
  have hreceived := ((((hsent.server (.udp (.start _ true))).server (.udp (.check _))).server
    (.udp (.select _ .ready))).server (.udp (.recheck _ _))).server
      (.udp (.receive _ ⟨9, 9⟩ firstSent (by decide) (by decide)))
  have hlooked := hreceived.server (.udp guest_lookup)
  have hwritten := (hlooked.serverTurn (.udp (.update _ 0 ⟨9, 9⟩ firstSent))).server
    (.udp (.decode _ 0 firstSent))
  refine ⟨_, hwritten, guest_decode, ?_⟩
  dsimp only
  rw [Function.update_self]
  rfl

/-- Then the server's thread writes the packet. The turns of these steps are the guest's traffic. -/
theorem guest_threads : ∃ before s s', SystemRun msgMemory guestPlatform guestHosts (identityOf 0) 5
    guestTunnel (before ++ [(s, .server (.udp, none))]) s' ∧
      (before ++ [(s, .server (.udp, none))]).filterMap (systemTurn msgMemory 5) = guestTraffic ∧
      systemWrites (s, .server (.udp, none)) = some firstRead ∧
      (s'.clients 0).sender = .send firstSent := by
  obtain ⟨s, ⟨before, hrun, hops⟩, hudp, hsender⟩ := guest_reaches
  have hwrite : UdpStep guestPlatform s.server.manager s.server.udp none s.server.manager
      .check := by
    rw [hudp]
    exact .write s.server.manager 0 firstRead
  have hlast := hrun.snoc (.server (.udp hwrite))
  refine ⟨before, s, _, hlast, ?_, congrArg UdpPc.writes hudp, hsender⟩
  have hturns := SystemRun.run (by decide) guestTunnel_connected hlast
  refine (Path.unique hturns guestTraffic_run (fun _ _ _ _ h h' => h.unique h') ?_).1
  rw [filterMap_snoc, ← hops]
  exact congrArg _ (List.append_nil _)

/-- The guest's packet goes through all threads on its way. Then its session is destroyed, and
its sender still sends the datagram, on descriptor 0. -/
theorem system_threads_refine_guest : ∃ before s₁ s₂ s,
    before.filterMap (systemTurn msgMemory 5) = guestTraffic ∧
      SystemTurns msgMemory guestPlatform guestHosts (identityOf 0) 5 guestTunnel
        (before ++ [(s₁, .client 0 .destroyed), (s₂, .client 0 (.sent 0 firstSent))]) s := by
  obtain ⟨before, s, s', hrun, hturns, -, hsender⟩ := guest_threads
  have hsend : SenderStep (guestPlatform.on (guestHosts 0))
      (clientDestroyed msgMemory (s'.clients 0).client) (s'.clients 0).sender (.sent 0 firstSent)
      (clientDestroyed msgMemory (s'.clients 0).client) .check := by
    rw [hsender]
    exact .send _ firstSent
  have hdestroyed := hrun.snoc (.client (k := 0) (.destroy (s'.clients 0)))
  have hsent := hdestroyed.snoc (.client (k := 0) (e := .sent 0 firstSent) (.sender (by
    dsimp only
    rw [Function.update_self]
    exact hsend)))
  rw [List.append_assoc] at hsent
  exact ⟨_, _, _, _, hturns, system_threads_refine (by decide) guestTunnel_connected hsent⟩

end Guest

end Sencd.Threads
