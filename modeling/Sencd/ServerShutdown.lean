import Sencd.ServerThreads

/-!
# Shutting the server down

The main thread clears `running`, waits for the listener, marks the UDP socket closed, waits for
the two tunnel threads and then frees the sessions. Each thread sees the change at its next check
and ends, and none of them is left with a pointer to a freed session. A listener that is in a
handshake reaches its check only when the handshake returns, and `packet_receive` waits for the
client without a limit: as long as the client is silent the shutdown waits too.
-/
namespace Sencd.Threads
open ByteOrder CallProgram LabelledPath Shared

variable {Buf : ℕ → Type}

section Measure

/-- How many steps the listener can still take once `running` has been cleared. -/
def ListenerPc.left : ListenerPc → ℕ
  | done => 0
  | check => 1
  | recheck _ => 1
  | select => 2
  | connecting _ _ => 2
  | accept => 3

/-- How many the UDP listener can take once `udp_socket` has been marked closed. -/
def UdpPc.left : UdpPc → ℕ
  | done => 0
  | check => 1
  | recheck _ => 1
  | inTurn .waiting => 2
  | inTurn (.write _ _) => 2
  | start => 2
  | select => 2
  | inTurn (.decode _ _) => 3
  | inTurn (.update _ _ _) => 4
  | lookup _ _ => 5
  | receive => 6

/-- How many the TUN sender can take. -/
def TunPc.left : TunPc → ℕ
  | done => 0
  | check => 1
  | recheck _ => 1
  | start => 2
  | select => 2
  | send _ _ => 2
  | lock _ _ => 3
  | read => 4

/-- What is left of a run that ends as soon as it can. -/
def ServerState.left (s : ServerState Buf) : ℕ :=
  (8 - s.main.rank) + s.listener.left + s.udp.left + s.tun.left

/-- The thread that a `pthread_join` waits for. -/
def MainPc.waitsFor : MainPc → Thread
  | joinListener => .listener
  | joinUdp => .udp
  | joinTun => .tun
  | _ => .main

/-- The listener is in a handshake, which goes on for as long as its client likes. -/
def ListenerPc.Connecting (pc : ListenerPc) : Prop := ∃ socket ip, pc = .connecting socket ip

/-- A step that is taken while no handshake is under way. -/
def UnhinderedStep (M : Memory Buf) (P : Platform Buf) (s : ServerState Buf)
    (a : Thread × Option (ServerOp Buf)) (s' : ServerState Buf) : Prop :=
  ThreadStep M P s a s' ∧ ¬ s.listener.Connecting

end Measure

section Steps

variable {M : Memory Buf} {P : Platform Buf} {m m' : SharedManager Buf} {s s' : ServerState Buf}
  {fd : ℤ}

theorem ListenerStep.left_lt {pc pc' : ListenerPc} {op : Option (ServerOp Buf)}
    (h : ListenerStep M false m pc op m' pc') : pc'.left < pc.left := by
  cases h <;> simp [ListenerPc.left]

theorem udpLookup_left (sender : SockaddrIn) (buffer : Bytes) :
    (udpLookup P m sender buffer).left ≤ 4 := by
  obtain hlookup | ⟨i, session, hlookup, -⟩ := udpLookup_cases (P := P) m sender buffer
  · rw [hlookup]
    decide
  · rw [hlookup]
    exact le_refl 4

theorem udpDecode_left (session : ℕ) (buffer : Bytes) :
    (udpNext (listenerDecode P m session buffer)).left ≤ 2 := by
  rw [listenerDecode_eq]
  cases decodedPacket P m.tun (m.sessions.object session).crypto buffer <;>
    simp [udpNext, UdpPc.left]

theorem UdpStep.left_lt {pc pc' : UdpPc} {op : Option (ServerOp Buf)}
    (h : UdpStep P m pc op m' pc') (hclosed : m.udpSocket < 0) : pc'.left < pc.left := by
  cases h with
  | start allocated => cases allocated <;> decide
  | check => simp [not_le.mpr hclosed, UdpPc.left]
  | recheck r => simp [hclosed, UdpPc.left]
  | lookup sender datagram => exact Nat.lt_succ_of_le (udpLookup_left sender _)
  | decode session buffer => exact Nat.lt_succ_of_le (udpDecode_left session buffer)
  | nothing | select r | receive sender datagram | update session sender buffer
  | write session packet => simp [UdpPc.left]

theorem tunRead_left (packet : Bytes) : (tunRead P packet).left ≤ 3 := by
  unfold tunRead
  dsimp only
  split_ifs <;> simp [TunPc.left]

theorem tunLocked_left (raw compressed : Bytes) : (tunLocked P m raw compressed).2.left ≤ 2 := by
  unfold tunLocked
  cases SlotTable.find m.sessions.slots fun session =>
      tunSenderAccepts (raw.getD 19 0) (m.sessions.object session) with
  | none => simp [TunPc.left]
  | some target =>
      dsimp only
      split <;> simp [TunPc.left]

theorem TunStep.left_lt {pc pc' : TunPc} {op : Option (ServerOp Buf)}
    (h : TunStep P m pc op m' pc') (hclosed : m.udpSocket < 0) : pc'.left < pc.left := by
  cases h with
  | start allocated => split <;> simp [TunPc.left]
  | check => simp [not_le.mpr hclosed, TunPc.left]
  | recheck r => simp [hclosed, TunPc.left]
  | read packet => exact Nat.lt_succ_of_le (tunRead_left packet)
  | lock raw compressed => exact Nat.lt_succ_of_le (tunLocked_left raw compressed)
  | select r | send peer datagram => simp [TunPc.left]

/-- Once the UDP socket has been marked closed every step is one of the last. -/
theorem ThreadStep.left_lt {a : Thread × Option (ServerOp Buf)} (hp : Phased fd s)
    (hrank : 5 ≤ s.main.rank) (h : ThreadStep M P s a s') : s'.left < s.left := by
  have hclosed : s.manager.udpSocket < 0 := by
    rw [hp.socket, if_neg (by omega)]
    decide
  cases h with
  | main h =>
      cases h with
      | command hmain | leave hmain | shutdown hmain | joinListener hmain _ | closeUdp hmain
      | markUdp hmain => simp [hmain, MainPc.rank] at hrank
      | joinUdp hmain _ | joinTun hmain _ | disconnectAll hmain =>
          simp [ServerState.left, hmain, MainPc.rank]
  | listener h =>
      rw [hp.listenerDone (by omega)] at h
      cases h
  | udp h =>
      have hlt := h.left_lt hclosed
      simp only [ServerState.left]
      omega
  | tun h =>
      have hlt := h.left_lt hclosed
      simp only [ServerState.left]
      omega

/-- The rank of the main thread never falls. -/
theorem ThreadStep.rank_le {a : Thread × Option (ServerOp Buf)} (h : ThreadStep M P s a s') :
    s.main.rank ≤ s'.main.rank := by
  cases h with
  | main h =>
      cases h with
      | command _ => exact le_refl _
      | leave hmain | shutdown hmain | joinListener hmain _ | closeUdp hmain | markUdp hmain
      | joinUdp hmain _ | joinTun hmain _ | disconnectAll hmain => simp [hmain, MainPc.rank]
  | _ => exact le_refl _

/-- Once `running` has been cleared the listener takes one of its last steps, or none. -/
theorem ThreadStep.listener_left {a : Thread × Option (ServerOp Buf)} (hp : Phased fd s)
    (hrank : 2 ≤ s.main.rank) (h : ThreadStep M P s a s') :
    s'.listener.left + (if a.1 = .listener then 1 else 0) ≤ s.listener.left := by
  have hstopped : s.running = false := by
    rw [← Bool.not_eq_true, hp.running]
    omega
  cases h with
  | main h => cases h <;> simp
  | listener h =>
      rw [hstopped] at h
      have hlt := h.left_lt
      simpa using hlt
  | udp h => simp
  | tun h => simp

end Steps

section Progress

variable {M : Memory Buf} {P : Platform Buf} {m : SharedManager Buf} {s s' : ServerState Buf}
  {fd : ℤ}

/-- Outside its handshakes only `done` has no next step, and `accept` may bring no connection. -/
theorem ListenerPc.next (M : Memory Buf) (running : Bool) (m : SharedManager Buf) {pc : ListenerPc}
    (hdone : pc ≠ .done) (hfree : ¬ pc.Connecting) :
    ∃ m' pc', ListenerStep M running m pc none m' pc' ∧ ¬ pc'.Connecting := by
  cases pc with
  | check => exact ⟨_, _, .check m, by cases running <;> simp [Connecting]⟩
  | select => exact ⟨_, _, .select m .timeout, by simp [Connecting]⟩
  | recheck r =>
      refine ⟨_, _, .recheck m r, ?_⟩
      cases running with
      | false => simp [Connecting]
      | true => cases r <;> simp [Connecting, Ready.listenerNext]
  | accept => exact ⟨_, _, .refused m, by simp [Connecting]⟩
  | connecting socket ip => exact absurd ⟨socket, ip, rfl⟩ hfree
  | done => exact absurd rfl hdone

/-- The UDP listener goes back to its check when a turn is over. -/
def Turning (s : ServerState Buf) : Prop :=
  s.udp ≠ .inTurn .waiting

theorem UdpPc.next (P : Platform Buf) (m : SharedManager Buf) {pc : UdpPc} (h : pc ≠ .done)
    (hturn : pc ≠ .inTurn .waiting) : ∃ op m' pc', UdpStep P m pc op m' pc' := by
  cases pc with
  | start => exact ⟨_, _, _, .start m true⟩
  | check => exact ⟨_, _, _, .check m⟩
  | select => exact ⟨_, _, _, .select m .timeout⟩
  | recheck r => exact ⟨_, _, _, .recheck m r⟩
  | receive => exact ⟨_, _, _, .nothing m⟩
  | lookup sender datagram => exact ⟨_, _, _, .lookup m sender datagram⟩
  | inTurn turn =>
      cases turn with
      | waiting => exact absurd rfl hturn
      | update session sender buffer => exact ⟨_, _, _, .update m session sender buffer⟩
      | decode session buffer => exact ⟨_, _, _, .decode m session buffer⟩
      | write session packet => exact ⟨_, _, _, .write m session packet⟩
  | done => exact absurd rfl h

theorem TunPc.next (P : Platform Buf) (m : SharedManager Buf) {pc : TunPc} (h : pc ≠ .done) :
    ∃ op m' pc', TunStep P m pc op m' pc' := by
  cases pc with
  | start => exact ⟨_, _, _, .start m true⟩
  | check => exact ⟨_, _, _, .check m⟩
  | select => exact ⟨_, _, _, .select m .timeout⟩
  | recheck r => exact ⟨_, _, _, .recheck m r⟩
  | read => exact ⟨_, _, _, .read m []⟩
  | lock raw compressed => exact ⟨_, _, _, .lock m raw compressed⟩
  | send peer datagram => exact ⟨_, _, _, .send m peer datagram⟩
  | done => exact absurd rfl h

theorem udpNext_turning (turn : ListenerTurn) : udpNext turn ≠ .inTurn .waiting := by
  cases turn <;> simp [udpNext]

theorem UdpStep.turning {m' : SharedManager Buf} {pc pc' : UdpPc} {op : Option (ServerOp Buf)}
    (h : UdpStep P m pc op m' pc') : pc' ≠ .inTurn .waiting := by
  cases h with
  | start allocated => cases allocated <;> simp
  | check => split <;> simp
  | recheck r =>
      split
      · simp
      · cases r <;> simp [Ready.udpNext]
  | lookup sender datagram =>
      obtain hlookup | ⟨i, session, hlookup, -⟩ :=
        udpLookup_cases (P := P) m sender (datagram.take tunnelPacketMaxSize)
      · simp [hlookup]
      · simp [hlookup]
  | decode session buffer => exact udpNext_turning _
  | _ => simp

theorem Turning.step {a : Thread × Option (ServerOp Buf)} (hs : Turning s)
    (h : ThreadStep M P s a s') : Turning s' := by
  cases h with
  | main h => cases h <;> exact hs
  | listener h => exact hs
  | udp h => exact h.turning
  | tun h => exact hs

/-- The step of a thread that the main thread waits for, or its own. -/
def Awaited (s : ServerState Buf) (a : Thread × Option (ServerOp Buf)) : Prop :=
  a.1 = .main ∨ a.1 = s.main.waitsFor

/-- While no handshake is under way the main thread can go on, or it waits for a thread that can,
and that brings the run closer to its end. -/
theorem progress (hp : Phased fd s) (hturn : Turning s) (hmain : s.main ≠ .ended)
    (hfree : ¬ s.listener.Connecting) : ∃ a s', ThreadStep M P s a s' ∧ Awaited s a ∧
      ¬ s'.listener.Connecting ∧ s'.left < s.left := by
  cases hpc : s.main with
  | shell =>
      exact ⟨_, _, .main (.leave s hpc), .inl rfl, hfree,
        by simp [ServerState.left, hpc, MainPc.rank]⟩
  | shutdown =>
      exact ⟨_, _, .main (.shutdown s hpc), .inl rfl, hfree,
        by simp [ServerState.left, hpc, MainPc.rank]⟩
  | joinListener =>
      by_cases hdone : s.listener = .done
      · exact ⟨_, _, .main (.joinListener s hpc hdone), .inl rfl, hfree,
          by simp [ServerState.left, hpc, MainPc.rank]⟩
      · have hstopped : s.running = false := by
          rw [← Bool.not_eq_true, hp.running, hpc]
          decide
        obtain ⟨m', pc', hstep, hfree'⟩ := ListenerPc.next M s.running s.manager hdone hfree
        have hlt := hstep
        rw [hstopped] at hlt
        have hleft := hlt.left_lt
        refine ⟨_, _, .listener hstep, .inr (by rw [hpc]; rfl), hfree', ?_⟩
        simp only [ServerState.left]
        omega
  | closeUdp =>
      exact ⟨_, _, .main (.closeUdp s hpc), .inl rfl, hfree,
        by simp [ServerState.left, hpc, MainPc.rank]⟩
  | markUdp =>
      exact ⟨_, _, .main (.markUdp s hpc), .inl rfl, hfree,
        by simp [ServerState.left, hpc, MainPc.rank]⟩
  | joinUdp =>
      have hrank : 5 ≤ s.main.rank := by rw [hpc]; decide
      by_cases hdone : s.udp = .done
      · have hstep := ThreadStep.main (M := M) (P := P) (.joinUdp s hpc hdone)
        exact ⟨_, _, hstep, .inl rfl, hfree, hstep.left_lt hp hrank⟩
      · obtain ⟨op, m', pc', hudp⟩ := UdpPc.next P s.manager hdone hturn
        have hstep := ThreadStep.udp (M := M) hudp
        exact ⟨_, _, hstep, .inr (by rw [hpc]; rfl), hfree, hstep.left_lt hp hrank⟩
  | joinTun =>
      have hrank : 5 ≤ s.main.rank := by rw [hpc]; decide
      by_cases hdone : s.tun = .done
      · have hstep := ThreadStep.main (M := M) (P := P) (.joinTun s hpc hdone)
        exact ⟨_, _, hstep, .inl rfl, hfree, hstep.left_lt hp hrank⟩
      · obtain ⟨op, m', pc', htun⟩ := TunPc.next P s.manager hdone
        have hstep := ThreadStep.tun (M := M) htun
        exact ⟨_, _, hstep, .inr (by rw [hpc]; rfl), hfree, hstep.left_lt hp hrank⟩
  | disconnectAll =>
      exact ⟨_, _, .main (.disconnectAll s hpc), .inl rfl, hfree,
        by simp [ServerState.left, hpc, MainPc.rank]⟩
  | ended => exact absurd hpc hmain

/-- The end of a handshake brings the listener back to its check. -/
theorem ThreadStep.returns {op : Option (ServerOp Buf)} (hlistener : s.listener.Connecting)
    (h : ThreadStep M P s (.listener, op) s') : s'.listener = .check := by
  obtain ⟨socket, ip, hpc⟩ := hlistener
  cases h with
  | listener h =>
      rw [hpc] at h
      cases h
      rfl

/-- Until the listener has ended, the main thread cannot join it. -/
theorem ThreadStep.blocked {op : Option (ServerOp Buf)} (hmain : s.main = .joinListener)
    (hlistener : s.listener.Connecting) : ¬ ThreadStep M P s (.main, op) s' := by
  obtain ⟨socket, ip, hpc⟩ := hlistener
  intro h
  cases h with
  | main h =>
      cases h with
      | joinListener _ hdone =>
          rw [hpc] at hdone
          contradiction
      | command hs | leave hs | shutdown hs | closeUdp hs | markUdp hs | joinUdp hs _
      | joinTun hs _ | disconnectAll hs =>
          rw [hmain] at hs
          contradiction

end Progress

section Shutdown

variable {M : Memory Buf} {P : Platform Buf} {s s' : ServerState Buf} {fd : ℤ}

/-- What can be relied on wherever the threads of the server stand: no thread holds a session that
has been freed, the TUN stays open while one of them may use it, a handshake is all that a
shutdown may have to wait for and the end can be reached without one, and once the flags have
been set the threads end within a few steps. -/
structure ShutsDown (M : Memory Buf) (P : Platform Buf) (s : ServerState Buf) : Prop where
  held : ∀ session, s.udp.session = some session → s.manager.sessions.Holds session
  tunOpen : ¬ (s.listener = .done ∧ s.udp = .done ∧ s.tun = .done) → s.manager.tun = true
  waits : s.main ≠ .shell → s.main ≠ .ended → (s.main = .joinListener ∧ s.listener.Connecting) ∨
    ∃ a s', ThreadStep M P s a s' ∧ Awaited s a
  blocked : s.main = .joinListener → s.listener.Connecting →
    ∀ op s', ¬ ThreadStep M P s (.main, op) s'
  returns : s.listener.Connecting →
    ∀ op s', ThreadStep M P s (.listener, op) s' → s'.listener = .check
  ends : ¬ s.listener.Connecting →
    ∃ steps s', Path (UnhinderedStep M P) s steps s' ∧ s'.main = .ended
  quiet : s.main = .ended → ∀ a s', ¬ ThreadStep M P s a s'
  listener : s.running = false → ∀ steps s', Path (ThreadStep M P) s steps s' →
    steps.countP (fun p => p.2.1 = .listener) ≤ 3
  bounded : s.manager.udpSocket < 0 → ∀ steps s', Path (ThreadStep M P) s steps s' →
    steps.length ≤ 13

theorem ListenerPc.left_le (pc : ListenerPc) : pc.left ≤ 3 := by
  cases pc <;> simp [left]

theorem UdpPc.left_le (pc : UdpPc) : pc.left ≤ 6 := by
  cases pc with
  | inTurn turn => cases turn <;> simp [left]
  | _ => simp [left]

theorem TunPc.left_le (pc : TunPc) : pc.left ≤ 4 := by
  cases pc <;> simp [left]

theorem exists_ended (hp : Phased fd s) (hturn : Turning s) (hfree : ¬ s.listener.Connecting) :
    ∃ steps s', Path (UnhinderedStep M P) s steps s' ∧ s'.main = .ended := by
  refine Path.exists_reaching (I := fun s => Phased fd s ∧ Turning s ∧ ¬ s.listener.Connecting)
    (f := ServerState.left) ?_ ⟨hp, hturn, hfree⟩
  rintro s ⟨hp, hturn, hfree⟩ hmain
  obtain ⟨a, s', hstep, -, hfree', hlt⟩ := progress hp hturn hmain hfree
  exact ⟨a, s', ⟨hstep, hfree⟩, ⟨hp.step hstep, hturn.step hstep, hfree'⟩, hlt⟩

/-- Only where it joins the listener does the main thread depend on a handshake. -/
theorem progress_or_handshake (hp : Phased fd s) (hturn : Turning s) (hshell : s.main ≠ .shell)
    (hmain : s.main ≠ .ended) : (s.main = .joinListener ∧ s.listener.Connecting) ∨
      ∃ a s', ThreadStep M P s a s' ∧ Awaited s a := by
  by_cases hfree : s.listener.Connecting
  · cases hpc : s.main with
    | shell => exact absurd hpc hshell
    | shutdown => exact .inr ⟨_, _, .main (.shutdown s hpc), .inl rfl⟩
    | joinListener => exact .inl ⟨rfl, hfree⟩
    | ended => exact absurd hpc hmain
    | _ =>
        obtain ⟨socket, ip, hconnecting⟩ := hfree
        have hdone := hp.listenerDone (by rw [hpc]; decide)
        rw [hconnecting] at hdone
        contradiction
  · obtain ⟨a, s', hstep, hwaits, -⟩ := progress (M := M) (P := P) hp hturn hmain hfree
    exact .inr ⟨a, s', hstep, hwaits⟩

theorem ended_stops (hp : Phased fd s) (hmain : s.main = .ended)
    {a : Thread × Option (ServerOp Buf)} : ¬ ThreadStep M P s a s' := by
  intro h
  have hlt := h.left_lt hp (by rw [hmain]; decide)
  simp [ServerState.left, hmain, MainPc.rank, hp.listenerDone, hp.udpDone, hp.tunDone,
    ListenerPc.left, UdpPc.left, TunPc.left] at hlt

theorem listener_steps (hp : Phased fd s) (hstopped : s.running = false)
    {steps : List (ServerState Buf × (Thread × Option (ServerOp Buf)))}
    (h : Path (ThreadStep M P) s steps s') :
    steps.countP (fun p => p.2.1 = .listener) ≤ 3 := by
  have hrank : 2 ≤ s.main.rank := by
    by_contra hearly
    have hrunning := hp.running.mpr (by omega)
    simp [hstopped] at hrunning
  obtain ⟨-, hcount⟩ := h.countP_le (I := fun s => Phased fd s ∧ 2 ≤ s.main.rank)
    (f := fun s => s.listener.left)
    (p := fun a : Thread × Option (ServerOp Buf) => decide (a.1 = .listener)) ⟨hp, hrank⟩ (by
      rintro s a s' ⟨hp, hrank⟩ hstep
      refine ⟨⟨hp.step hstep, hrank.trans hstep.rank_le⟩, ?_⟩
      simpa using hstep.listener_left hp hrank)
  have hle := s.listener.left_le
  omega

theorem last_steps (hfd : 0 ≤ fd) (hp : Phased fd s) (hclosed : s.manager.udpSocket < 0)
    {steps : List (ServerState Buf × (Thread × Option (ServerOp Buf)))}
    (h : Path (ThreadStep M P) s steps s') : steps.length ≤ 13 := by
  have hrank : 5 ≤ s.main.rank := by
    by_contra hearly
    have hsocket := hp.socket
    rw [if_pos (by omega)] at hsocket
    omega
  obtain ⟨-, hcount⟩ := h.countP_le (I := fun s => Phased fd s ∧ 5 ≤ s.main.rank)
    (f := ServerState.left) (p := fun _ => true) ⟨hp, hrank⟩ (by
      rintro s a s' ⟨hp, hrank⟩ hstep
      refine ⟨⟨hp.step hstep, hrank.trans hstep.rank_le⟩, ?_⟩
      have hlt := hstep.left_lt hp hrank
      simpa using hlt)
  have hlistener : s.listener.left = 0 := by
    rw [hp.listenerDone (by omega)]
    rfl
  have hudp := s.udp.left_le
  have htun := s.tun.left_le
  simp only [List.countP_true, ServerState.left] at hcount
  omega

/-- In every run of the server's threads. -/
theorem shutdown_orderly {identity : CryptoContext Buf} (hfd : 0 ≤ fd)
    {steps : List (ServerState Buf × (Thread × Option (ServerOp Buf)))}
    (h : ThreadRun M P identity fd steps s) : ShutsDown M P s := by
  obtain ⟨hp, ht⟩ := h.ordered
  have hturn : Turning s :=
    h.invariant (I := Turning) (by simp [Turning, started]) fun _ _ _ hs hstep => hs.step hstep
  refine ⟨ht.holds, fun hbusy => hp.tunOpen ?_, progress_or_handshake hp hturn,
    fun hmain hlistener _ _ => ThreadStep.blocked hmain hlistener,
    fun hlistener _ _ => ThreadStep.returns hlistener, exists_ended hp hturn,
    fun hmain _ _ => ended_stops hp hmain, fun hstopped _ _ => listener_steps hp hstopped,
    fun hclosed _ _ => last_steps hfd hp hclosed⟩
  by_contra hlate
  exact hbusy ⟨hp.listenerDone (by omega), hp.udpDone (by omega), hp.tunDone (by omega)⟩

/-- The UDP listener holds the session of a packet it is about to write, and the TUN sender a
datagram, when the socket has been marked closed. Another server has a silent client. -/
theorem shutdown_orderly_busy : (∃ s, s.main = .joinUdp ∧ s.udp.session = some 0 ∧
      s.tun = .send ⟨9, 9⟩ replySent ∧ s.manager.udpSocket = -1 ∧
      ShutsDown msgMemory guestPlatform s) ∧
    ∃ s, s.main = .joinListener ∧ s.listener.Connecting ∧ ShutsDown msgMemory guestPlatform s := by
  obtain ⟨steps, s, hrun, -, -, hmain, hsocket, -, hudp, htun⟩ := busy_run
  have hselect : ThreadRun msgMemory guestPlatform (identityOf 0) 5 _ _ :=
    (Path.nil.snoc (.listener (.check _))).snoc (.listener (.select _ .ready))
  have haccept := (hselect.snoc (.listener (.recheck _ .ready))).snoc
    (.listener (.accepted _ (guestSocket 0) []))
  have hstopped := (haccept.snoc (.main (.leave _ rfl))).snoc (.main (.shutdown _ rfl))
  refine ⟨⟨s, hmain, by rw [hudp]; rfl, htun, hsocket, shutdown_orderly (by decide) hrun⟩,
    _, rfl, ⟨_, _, rfl⟩, shutdown_orderly (by decide) hstopped⟩

end Shutdown

end Sencd.Threads
