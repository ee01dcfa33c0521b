import Sencd.Crypto
import Sencd.LabelledPath
import Sencd.SocketCalls

/-!
# The descriptors of a session

A session holds the TCP descriptor it was created with and the UDP descriptor its tunnel opens.
`session_init` and `session_destroy` clear the session to zeros and set only the TCP descriptor
to -1 afterwards, so that until the next `session_create` the tunnel names descriptor 0.
-/
namespace Sencd
open CallProgram DescriptorLog LabelledPath

section Open

def udpTunnelClientOpen (tunnel : UdpTunnel) (serverIp : List Char) (port : UInt16) :
    SocketProg (ℕ × UdpTunnel) := do
  let fd ← Prog.perform SocketCall.socket
  let tunnel := { tunnel with socket := fd }
  if tunnel.socket < 0 then return (1, tunnel) else
  match ← Prog.perform (SocketCall.inetPton serverIp) with
  | none =>
    Prog.perform (SocketCall.close tunnel.socket)
    return (1, { tunnel with socket := -1 })
  | some addr =>
    if ← Prog.perform (SocketCall.connect tunnel.socket ⟨addr, port⟩) then
      return (0, { tunnel with peerAddr := ⟨addr, port⟩, peerKnown := true })
    else
      Prog.perform (SocketCall.close tunnel.socket)
      return (1, { tunnel with socket := -1 })

/-- How opening the tunnel comes out: it holds a new descriptor, or none and what was opened has
been closed. -/
inductive TunnelOpened : ℤ → FdLog ℤ → Prop
  | opened (fd : ℤ) : 0 ≤ fd → TunnelOpened fd [.opened fd]
  | failed (fd : ℤ) : fd < 0 → TunnelOpened fd []
  | abandoned (fd : ℤ) : 0 ≤ fd → TunnelOpened (-1) [.opened fd, .closed fd]

theorem udpTunnelClientOpen_holds (tunnel : UdpTunnel) (serverIp : List Char) (port : UInt16) :
    Holds (fun _ _ => True) (fun calls r => TunnelOpened r.2.socket (fdLog calls)) []
      (udpTunnelClientOpen tunnel serverIp port) := by
  refine holds_socketCall trivial fun fd => holds_ite (fun hfd => ?_) fun hfd => ?_
  · change TunnelOpened fd (fdLog [⟨.socket, fd⟩])
    rw [fdLog_no_socket hfd]
    exact .failed fd hfd
  · have hfd : 0 ≤ fd := not_lt.mp hfd
    refine holds_socketCall trivial fun addr => ?_
    cases addr with
    | none =>
        refine holds_socketCall trivial fun _ => ?_
        change TunnelOpened (-1) (fdLog ([⟨.socket, fd⟩] ++ _ ++ _))
        rw [fdLog_append, fdLog_append, fdLog_socket hfd]
        exact .abandoned fd hfd
    | some addr =>
        refine holds_socketCall trivial fun ok => holds_ite (fun _ => ?_) fun _ => ?_
        · change TunnelOpened fd (fdLog ([⟨.socket, fd⟩] ++ _ ++ _))
          rw [fdLog_append, fdLog_append, fdLog_socket hfd]
          exact .opened fd hfd
        · refine holds_socketCall trivial fun _ => ?_
          change TunnelOpened (-1) (fdLog ([⟨.socket, fd⟩] ++ _ ++ _ ++ _))
          rw [fdLog_append, fdLog_append, fdLog_append, fdLog_socket hfd]
          exact .abandoned fd hfd

end Open

variable {Buf : ℕ → Type} (M : Memory Buf)

section Destroy

/-- `session_destroy` closes whichever of the two descriptors is not negative. -/
theorem mem_sessionDestroy {s : Session Buf} {fd : ℤ} :
    fd ∈ (sessionDestroy M s).2 ↔ 0 ≤ fd ∧ (fd = s.socket ∨ fd = s.udp.socket) := by
  have hmem : ∀ fd' : ℤ, fd ∈ (if fd' ≥ 0 then [fd'] else []) ↔ 0 ≤ fd ∧ fd = fd' := by
    intro fd'
    split_ifs with h
    · rw [List.mem_singleton]
      exact ⟨fun he => ⟨he ▸ h, he⟩, And.right⟩
    · simp only [List.not_mem_nil, false_iff, not_and]
      rintro hfd rfl
      exact h hfd
  change fd ∈ (if s.socket ≥ 0 then [s.socket] else []) ++
    (if s.udp.socket ≥ 0 then [s.udp.socket] else []) ↔ _
  rw [List.mem_append, hmem, hmem, ← and_or_left]

theorem nodup_sessionDestroy {s : Session Buf} (h : 0 ≤ s.socket → s.socket ≠ s.udp.socket) :
    (sessionDestroy M s).2.Nodup := by
  change ((if s.socket ≥ 0 then [s.socket] else []) ++
    (if s.udp.socket ≥ 0 then [s.udp.socket] else [])).Nodup
  split_ifs with hs hu <;> simp_all

end Destroy

section Calls

/-- A session with the descriptors it has been given and has closed. `cleared` says that no
`session_create` and no `udp_tunnel_client_open` came after the last `session_init` or
`session_destroy`, and `mayOpen` that the tunnel has not been opened since the last
`session_create`. -/
structure SessionOwner (Buf : ℕ → Type) where
  session : Session Buf
  log : FdLog ℤ
  cleared : Bool
  mayOpen : Bool

inductive SessionCall (Buf : ℕ → Type)
  | init (role : SessionRole)
  | create (role : SessionRole) (socket : ℤ) (ip : List Char) (identity : CryptoContext Buf)
      (trustedPeerKey : Option (Buf cryptoPublicKeySize))
  | clientOpen (serverIp : List Char) (port : UInt16)
  | destroy

/-- A descriptor handed over by the caller. -/
def handed (socket : ℤ) : FdLog ℤ := if 0 ≤ socket then [.opened socket] else []

/-- The calls on a session: it is only set up again when it holds no descriptor, its tunnel is
opened at most once after it was created, and no open descriptor is given out again. -/
inductive SessionStep : SessionOwner Buf → SessionCall Buf → SessionOwner Buf → Prop
  | init {o : SessionOwner Buf} {role : SessionRole} :
      held o.log = ∅ →
      SessionStep o (.init role) ⟨sessionInit M role, o.log, true, o.mayOpen⟩
  | create {o : SessionOwner Buf} {role : SessionRole} {socket : ℤ} {ip : List Char}
      {identity : CryptoContext Buf} {trustedPeerKey : Option (Buf cryptoPublicKeySize)}
      {calls : Calls Buf} {code : ℕ} {s : Session Buf} :
      held o.log = ∅ →
      Exec (sessionCreate M role socket ip identity trustedPeerKey) calls (.ret (code, s)) →
      SessionStep o (.create role socket ip identity trustedPeerKey)
        ⟨s, o.log ++ handed socket, false, true⟩
  | clientOpen {o : SessionOwner Buf} {serverIp : List Char} {port : UInt16}
      {calls : SocketCalls} {code : ℕ} {udp : UdpTunnel} :
      o.mayOpen = true →
      Exec (udpTunnelClientOpen o.session.udp serverIp port) calls (.ret (code, udp)) →
      OpensFree (o.log ++ fdLog calls) →
      SessionStep o (.clientOpen serverIp port)
        ⟨{ o.session with udp := udp }, o.log ++ fdLog calls, false, false⟩
  | destroy {o : SessionOwner Buf} :
      SessionStep o .destroy ⟨(sessionDestroy M o.session).1,
        o.log ++ closes (sessionDestroy M o.session).2, true, o.mayOpen⟩

/-- The owner after `session_init`, with which every sequence of calls can begin:
`session_create` starts with a `session_init` of its own. -/
def sessionOwnerInit (role : SessionRole) : SessionOwner Buf :=
  ⟨sessionInit M role, [], true, false⟩

/-- What a `session_destroy` is to do: close what the session still holds and nothing else, and
leave a session alone that was set up or destroyed just before. -/
structure DestroysOwned (o : SessionOwner Buf) : Prop where
  nodup : (sessionDestroy M o.session).2.Nodup
  closes : ∀ fd, fd ∈ (sessionDestroy M o.session).2 ↔ fd ∈ held o.log
  cleared : o.cleared = true → (sessionDestroy M o.session).2 = [] ∧
    (sessionDestroy M o.session).1 = o.session ∧
    (sessionDestroy M o.session).1.socket < 0 ∧ (sessionDestroy M o.session).1.udp.socket < 0

/-- A cleared session holds nothing but names descriptor 0; any other one names what it holds. -/
structure SessionOwner.Owns (o : SessionOwner Buf) : Prop where
  cleared : o.cleared = true →
    held o.log = ∅ ∧ o.session.socket = -1 ∧ o.session.udp.socket = 0
  held_eq : o.cleared = false →
    ∀ fd, fd ∈ held o.log ↔ 0 ≤ fd ∧ (fd = o.session.socket ∨ fd = o.session.udp.socket)
  distinct : o.cleared = false → 0 ≤ o.session.socket → o.session.socket ≠ o.session.udp.socket
  mayOpen : o.mayOpen = true → o.cleared = false → o.session.udp.socket < 0

end Calls

section Invariant

theorem TunnelOpened.mem_held {log fresh : FdLog ℤ} {socket : ℤ} (h : TunnelOpened socket fresh)
    (hopens : OpensFree (log ++ fresh)) :
    (0 ≤ socket → socket ∉ held log) ∧
      ∀ fd, fd ∈ held (log ++ fresh) ↔ fd ∈ held log ∨ 0 ≤ fd ∧ fd = socket := by
  cases h with
  | opened _ hfd =>
      refine ⟨fun _ => (opensFree_opened.mp hopens).2, fun fd => ?_⟩
      rw [held_opened, Set.mem_insert_iff, or_comm]
      exact or_congr_right ⟨fun he => ⟨he ▸ hfd, he⟩, And.right⟩
  | failed _ hfd =>
      refine ⟨fun h => absurd h hfd.not_ge, fun fd => ?_⟩
      rw [List.append_nil]
      exact ⟨Or.inl, fun h => h.elim id fun h => absurd h.1 (h.2 ▸ hfd.not_ge)⟩
  | abandoned fd' hfd =>
      rw [← List.singleton_append, ← List.append_assoc] at hopens ⊢
      have hfree : fd' ∉ held log := (opensFree_opened.mp (opensFree_closed.mp hopens)).2
      refine ⟨fun h => absurd h (by decide), fun fd => ?_⟩
      rw [held_closed, held_opened, Set.insert_sdiff_of_mem _ (Set.mem_singleton fd'),
        Set.sdiff_singleton_eq_self hfree]
      exact ⟨Or.inl, fun h => h.elim id fun h => absurd h.1 (h.2 ▸ by decide)⟩

theorem mem_held_handed {log : FdLog ℤ} {socket : ℤ} (h : held log = ∅) (fd : ℤ) :
    fd ∈ held (log ++ handed socket) ↔ 0 ≤ fd ∧ fd = socket := by
  unfold handed
  split_ifs with hsocket
  · rw [held_opened, h, Set.mem_insert_iff]
    exact ⟨fun hfd => hfd.elim (fun he => ⟨he ▸ hsocket, he⟩) False.elim, fun hfd => .inl hfd.2⟩
  · rw [List.append_nil, h]
    exact ⟨False.elim, fun hfd => hsocket (hfd.2 ▸ hfd.1)⟩

theorem sessionCreate_sockets (role : SessionRole) (socket : ℤ) (ip : List Char)
    (identity : CryptoContext Buf) (trustedPeerKey : Option (Buf cryptoPublicKeySize)) :
    Holds (fun _ _ => True) (fun _ r => r.2.socket = socket ∧ r.2.udp.socket = -1) []
      (sessionCreate M role socket ip identity trustedPeerKey) := by
  refine ⟨trivial, fun id => ?_⟩
  exact ⟨rfl, rfl⟩

variable {M} {o o' : SessionOwner Buf} {c : SessionCall Buf}

theorem SessionOwner.Owns.closes (h : o.Owns) (hcleared : o.cleared = false) (fd : ℤ) :
    fd ∈ (sessionDestroy M o.session).2 ↔ fd ∈ held o.log :=
  (mem_sessionDestroy M).trans (h.held_eq hcleared fd).symm

/-- No call loses track of the descriptors, whatever `session_destroy` closes. -/
theorem sessionStep_owns (h : SessionStep M o c o') (hi : o.Owns) : o'.Owns := by
  cases h with
  | init hheld => exact ⟨fun _ => ⟨hheld, rfl, rfl⟩, nofun, nofun, fun _ => nofun⟩
  | @create _ socket _ _ _ _ _ s hheld hx =>
      obtain ⟨hsocket, hudp⟩ : s.socket = socket ∧ s.udp.socket = -1 :=
        (sessionCreate_sockets M _ _ _ _ _).post hx
      refine ⟨nofun, fun _ fd => ?_, fun _ h => ?_, fun _ _ => ?_⟩
      · rw [mem_held_handed hheld, hsocket, hudp]
        refine and_congr_right fun hfd => ⟨Or.inl, fun h => h.elim id fun he => ?_⟩
        exact absurd hfd (he ▸ by decide)
      · rw [hudp]
        rintro he
        exact absurd h (he ▸ by decide)
      · rw [hudp]
        decide
  | @clientOpen _ _ calls _ udp hmay hx hopens =>
      have hopened : TunnelOpened udp.socket (fdLog calls) :=
        (udpTunnelClientOpen_holds _ _ _).post hx
      obtain ⟨hfresh, hheld⟩ := hopened.mem_held hopens
      have hbefore : ∀ fd, fd ∈ held o.log ↔ 0 ≤ fd ∧ fd = o.session.socket := by
        intro fd
        by_cases hcleared : o.cleared = true
        · obtain ⟨hnone, hsocket, -⟩ := hi.cleared hcleared
          rw [hnone, hsocket]
          exact ⟨False.elim, fun h => absurd h.1 (h.2 ▸ by decide)⟩
        · have hlive : o.cleared = false := Bool.not_eq_true _ ▸ hcleared
          have hudp := hi.mayOpen hmay hlive
          rw [hi.held_eq hlive]
          refine and_congr_right fun hfd => ⟨fun h => h.elim id fun he => ?_, Or.inl⟩
          exact absurd hfd (he ▸ hudp.not_ge)
      refine ⟨nofun, fun _ fd => ?_, fun _ h he => ?_, nofun⟩
      · rw [hheld, hbefore, ← and_or_left]
      · have he : o.session.socket = udp.socket := he
        exact hfresh (he ▸ h) ((hbefore _).mpr ⟨he ▸ h, he.symm⟩)
  | destroy =>
      refine ⟨fun _ => ⟨?_, rfl, rfl⟩, nofun, nofun, fun _ => nofun⟩
      rw [held_closes, Set.sdiff_eq_empty]
      intro fd hfd
      by_cases hcleared : o.cleared = true
      · rw [(hi.cleared hcleared).1] at hfd
        exact hfd.elim
      · exact (hi.closes (Bool.not_eq_true _ ▸ hcleared) fd).mpr hfd

/-- Destroying a session that is in use closes what it holds. -/
theorem SessionOwner.Owns.destroys (h : o.Owns) (hcleared : o.cleared = false) :
    DestroysOwned M o where
  nodup := nodup_sessionDestroy M (h.distinct hcleared)
  closes := h.closes hcleared
  cleared hc := by
    rw [hcleared] at hc
    contradiction

/-- Destroying a cleared one closes descriptor 0. -/
theorem SessionOwner.Owns.closes_zero (h : o.Owns) (hcleared : o.cleared = true) :
    (sessionDestroy M o.session).2 = [0] := by
  obtain ⟨-, hsocket, hudp⟩ := h.cleared hcleared
  simp [sessionDestroy, udpTunnelClose, hsocket, hudp]

theorem sessionOwner_owns {role : SessionRole} {steps : List (SessionOwner Buf × SessionCall Buf)}
    (h : Path (SessionStep M) (sessionOwnerInit M role) steps o) : o.Owns := by
  refine h.invariant ?_ fun o c o' hi hstep => sessionStep_owns hstep hi
  exact ⟨fun _ => ⟨held_nil, rfl, rfl⟩, nofun, nofun, fun _ => nofun⟩

end Invariant

section Main

variable {M}

/-- Every `session_destroy` of a run closes just what the session holds exactly when each is
called after a `session_create` or a `udp_tunnel_client_open` that no `session_init` and no other
`session_destroy` came after. -/
theorem sessionDestroy_closes_owned_iff {role : SessionRole}
    {steps : List (SessionOwner Buf × SessionCall Buf)} {o : SessionOwner Buf}
    (h : Path (SessionStep M) (sessionOwnerInit M role) steps o) :
    (∀ p ∈ steps, p.2 = .destroy → DestroysOwned M p.1) ↔
      ∀ p ∈ steps, p.2 = .destroy → p.1.cleared = false := by
  have howns : ∀ p ∈ steps, p.1.Owns := by
    rintro ⟨o', c⟩ hp
    obtain ⟨_, _, _, _, hbefore, _⟩ := h.split hp
    exact sessionOwner_owns hbefore
  refine forall₂_congr fun p hp => imp_congr_right fun _ => ⟨fun hd => ?_, (howns p hp).destroys⟩
  by_contra hc
  have hcleared : p.1.cleared = true := Bool.not_eq_false _ ▸ hc
  have hnone := (hd.cleared hcleared).1
  rw [(howns p hp).closes_zero hcleared] at hnone
  contradiction

/-- A session created with descriptor 5. -/
def handedOwner : SessionOwner ByteBuf :=
  ⟨sessionCreated (byteMemory .little) .client 5 ['h'] (cryptoContextInit (byteMemory .little)) 1,
    [.opened 5], false, true⟩

/-- Its tunnel has opened descriptor 6. -/
def openedOwner : SessionOwner ByteBuf :=
  ⟨{ handedOwner.session with udp := ⟨⟨0, 80⟩, 1, 6, true⟩ }, [.opened 5, .opened 6], false, false⟩

theorem sessionDestroy_closes_owned_once : DestroysOwned (byteMemory .little) openedOwner := by
  have hcreate : Exec (sessionCreate (byteMemory .little) .client 5 ['h']
      (cryptoContextInit (byteMemory .little)) none) [⟨.generateSessionId, 1⟩]
      (.ret (0, handedOwner.session)) := .cons (.nil _)
  have hcreated : SessionStep (byteMemory .little) (sessionOwnerInit (byteMemory .little) .client)
      (.create .client 5 ['h'] (cryptoContextInit (byteMemory .little)) none) handedOwner :=
    .create held_nil hcreate
  have hopen : Exec (udpTunnelClientOpen (udpTunnelInit 1) ['h'] 80)
      [⟨.socket, 6⟩, ⟨.inetPton ['h'], some 0⟩, ⟨.connect 6 ⟨0, 80⟩, true⟩]
      (.ret (0, ⟨⟨0, 80⟩, 1, 6, true⟩)) := .cons (.cons (.cons (.nil _)))
  have hfree : OpensFree (([] : FdLog ℤ) ++ [.opened 5] ++ [.opened 6]) := by
    refine opensFree_opened.mpr ⟨opensFree_opened.mpr ⟨opensFree_nil, by simp⟩, ?_⟩
    rw [held_opened]
    simp
  have hopened : SessionStep (byteMemory .little) handedOwner (.clientOpen ['h'] 80)
      ⟨openedOwner.session, handedOwner.log ++ fdLog [⟨.socket, 6⟩, ⟨.inetPton ['h'], some 0⟩,
        ⟨.connect 6 ⟨0, 80⟩, true⟩], false, false⟩ := .clientOpen rfl hopen hfree
  have hall := (sessionDestroy_closes_owned_iff
    (.snoc (.snoc (.snoc .nil hcreated) hopened) .destroy)).mpr (by simp)
  exact hall (openedOwner, .destroy) (by simp [openedOwner, handedOwner, fdLog, socketEvent]) rfl

/-- After `session_init` alone, `session_destroy` closes standard input. -/
theorem sessionDestroy_closes_stdin :
    (sessionDestroy (byteMemory .little) (sessionInit (byteMemory .little) .server)).2 = [0] ∧
    ¬ ∀ steps o,
      Path (SessionStep (byteMemory .little)) (sessionOwnerInit (byteMemory .little) .server)
        steps o →
      ∀ p ∈ steps, p.2 = .destroy → DestroysOwned (byteMemory .little) p.1 := by
  refine ⟨rfl, fun h => ?_⟩
  have hall := h _ _ (.snoc .nil .destroy)
  have hdestroys := hall (sessionOwnerInit (byteMemory .little) .server, .destroy) (by simp) rfl
  have hnone := (hdestroys.cleared rfl).1
  contradiction

end Main

end Sencd
