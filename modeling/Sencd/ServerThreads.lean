import Sencd.ListenerRemoval
import Sencd.NonceUniqueness
import Sencd.SessionHistory

/-!
# The threads of the server

`start_server_environment` runs four threads: its own, with the shell and the shutdown, the
listener, the UDP listener and the TUN sender. They meet in the manager and in two fields that
the loops poll, `running` and `udp_socket`. A step is a check of such a field, a call that
may wait, a critical section, or what a thread does on its own in between.
-/
namespace Sencd.Threads
open ByteOrder CallProgram LabelledPath Shared

variable {Buf : ℕ → Type}

section Positions

/-- How `select` returns within its timeout of a second. -/
inductive Ready
  | ready
  | timeout
  | interrupted
  | failed

/-- Where `server_listener` stands. -/
inductive ListenerPc
  | check
  | select
  | recheck (r : Ready)
  | accept
  | connecting (socket : ℤ) (ip : List Char)
  | done

/-- Where `session_manager_udp_listener` stands. -/
inductive UdpPc
  | start
  | check
  | select
  | recheck (r : Ready)
  | receive
  | lookup (sender : SockaddrIn) (datagram : Bytes)
  | inTurn (turn : ListenerTurn)
  | done

/-- Where `session_manager_tun_sender` stands. -/
inductive TunPc
  | start
  | check
  | select
  | recheck (r : Ready)
  | read
  | lock (raw compressed : Bytes)
  | send (peer : SockaddrIn) (datagram : Bytes)
  | done

/-- Where `start_server_environment` stands once it has created its threads. -/
inductive MainPc
  | shell
  | shutdown
  | joinListener
  | closeUdp
  | markUdp
  | joinUdp
  | joinTun
  | disconnectAll
  | ended

/-- The phases come in this order. -/
def MainPc.rank : MainPc → ℕ
  | shell => 0
  | shutdown => 1
  | joinListener => 2
  | closeUdp => 3
  | markUdp => 4
  | joinUdp => 5
  | joinTun => 6
  | disconnectAll => 7
  | ended => 8

inductive Thread
  | main
  | listener
  | udp
  | tun
  deriving DecidableEq

/-- `server_listener` goes on after an interruption and ends on any other failure. -/
def Ready.listenerNext : Ready → ListenerPc
  | ready => .accept
  | timeout => .check
  | interrupted => .check
  | failed => .done

def Ready.udpNext : Ready → UdpPc
  | ready => .receive
  | _ => .check

def Ready.tunNext : Ready → TunPc
  | ready => .read
  | _ => .check

/-- The session pointer the UDP listener holds. -/
def UdpPc.session : UdpPc → Option ℕ
  | .inTurn turn => turn.session
  | _ => none

/-- The loop goes on to its condition when a turn ends. -/
def udpNext : ListenerTurn → UdpPc
  | .waiting => .check
  | turn => .inTurn turn

end Positions

structure ServerState (Buf : ℕ → Type) where
  manager : SharedManager Buf
  running : Bool
  main : MainPc
  listener : ListenerPc
  udp : UdpPc
  tun : TunPc

section Calls

variable (P : Platform Buf)

/-- The UDP listener from `tunnel_packet_peek_session_id` to the lookup, on what `recvfrom` has
left in the buffer. -/
def udpLookup (m : SharedManager Buf) (sender : SockaddrIn) (buffer : Bytes) : UdpPc :=
  match tunnelPacketPeekSessionId P buffer with
  | none => .check
  | some sessionId =>
    match Shared.sessionManagerGet m sessionId with
    | none => .check
    | some session => .inTurn (.update session sender buffer)

/-- The TUN sender from `tun_read` to the lock. -/
def tunRead (packet : Bytes) : TunPc :=
  let raw := packet.take tunnelPacketMaxPlaintext
  if raw.length < 20 then .check else
  let compressed := tunnelPipelineCompress P raw tunnelPacketMaxPlaintext
  if compressed = [] then .check else .lock raw compressed

/-- Its critical section. -/
def tunLocked (m : SharedManager Buf) (raw compressed : Bytes) : SharedManager Buf × TunPc :=
  match SlotTable.find m.sessions.slots fun session =>
      tunSenderAccepts (raw.getD 19 0) (m.sessions.object session) with
  | none => (m, .check)
  | some (_, session) =>
    let s := m.sessions.object session
    ({ m with sessions := m.sessions.write session s.counted },
      match tunnelPacketEncode P ⟨s.sessionId, s.crypto.txNonce, compressed⟩ s.crypto with
      | none => .check
      | some datagram => .send s.udp.peerAddr datagram)

/-- `session_manager_disconnect_all`, with the TUN it closes. -/
def disconnectAll (m : SharedManager Buf) : SharedManager Buf :=
  { m with sessions := m.sessions.clear, sessionCount := 0, tun := false }

end Calls

section Steps

variable (M : Memory Buf) (P : Platform Buf)

/-- A step of the listener, with the operation on the table it amounts to. -/
inductive ListenerStep (running : Bool) : SharedManager Buf → ListenerPc → Option (ServerOp Buf) →
    SharedManager Buf → ListenerPc → Prop
  | check (m : SharedManager Buf) :
      ListenerStep running m .check none m (if running then .select else .done)
  | select (m : SharedManager Buf) (r : Ready) : ListenerStep running m .select none m (.recheck r)
  | recheck (m : SharedManager Buf) (r : Ready) :
      ListenerStep running m (.recheck r) none m (if running then r.listenerNext else .done)
  | refused (m : SharedManager Buf) : ListenerStep running m .accept none m .check
  | accepted (m : SharedManager Buf) (socket : ℤ) (ip : List Char) :
      ListenerStep running m .accept none m (.connecting socket ip)
  | connected {m m' : SharedManager Buf} {socket : ℤ} {ip : List Char} {calls : Calls Buf}
      {r : Option (Session Buf)} :
      Exec (sessionManagerConnect M m.values .server socket ip) calls (.ret (m'.values, r)) →
      (m' = m ∨ ∃ s, Shared.sessionManagerAdd m s = some m') →
      ListenerStep running m (.connecting socket ip) (some (.connect .server socket ip calls)) m'
        .check

/-- A step of the UDP listener. `recvfrom` may return nothing. -/
inductive UdpStep : SharedManager Buf → UdpPc → Option (ServerOp Buf) → SharedManager Buf → UdpPc →
    Prop
  | start (m : SharedManager Buf) (allocated : Bool) :
      UdpStep m .start none m (if allocated then .check else .done)
  | check (m : SharedManager Buf) :
      UdpStep m .check none m (if 0 ≤ m.udpSocket then .select else .done)
  | select (m : SharedManager Buf) (r : Ready) : UdpStep m .select none m (.recheck r)
  | recheck (m : SharedManager Buf) (r : Ready) :
      UdpStep m (.recheck r) none m (if m.udpSocket < 0 then .done else r.udpNext)
  | nothing (m : SharedManager Buf) : UdpStep m .receive none m .check
  | receive (m : SharedManager Buf) (sender : SockaddrIn) (datagram : Bytes) :
      0 ≤ m.udpSocket → datagram.take tunnelPacketMaxSize ≠ [] →
      UdpStep m .receive none m (.lookup sender datagram)
  | lookup (m : SharedManager Buf) (sender : SockaddrIn) (datagram : Bytes) :
      UdpStep m (.lookup sender datagram) none m
        (udpLookup P m sender (datagram.take tunnelPacketMaxSize))
  | update (m : SharedManager Buf) (session : ℕ) (sender : SockaddrIn) (buffer : Bytes) :
      UdpStep m (.inTurn (.update session sender buffer)) (some (.udpListener sender buffer))
        (listenerUpdate m session sender) (.inTurn (.decode session buffer))
  | decode (m : SharedManager Buf) (session : ℕ) (buffer : Bytes) :
      UdpStep m (.inTurn (.decode session buffer)) none m
        (udpNext (listenerDecode P m session buffer))
  | write (m : SharedManager Buf) (session : ℕ) (packet : Bytes) :
      UdpStep m (.inTurn (.write session packet)) none m .check

/-- A step of the TUN sender. `tun_read` may return nothing. -/
inductive TunStep : SharedManager Buf → TunPc → Option (ServerOp Buf) → SharedManager Buf → TunPc →
    Prop
  | start (m : SharedManager Buf) (allocated : Bool) :
      TunStep m .start none m (if m.tun && allocated then .check else .done)
  | check (m : SharedManager Buf) :
      TunStep m .check none m (if 0 ≤ m.udpSocket then .select else .done)
  | select (m : SharedManager Buf) (r : Ready) : TunStep m .select none m (.recheck r)
  | recheck (m : SharedManager Buf) (r : Ready) :
      TunStep m (.recheck r) none m (if m.udpSocket < 0 then .done else r.tunNext)
  | read (m : SharedManager Buf) (packet : Bytes) : TunStep m .read none m (tunRead P packet)
  | lock (m : SharedManager Buf) (raw compressed : Bytes) :
      TunStep m (.lock raw compressed) (some (.tunSender raw)) (tunLocked P m raw compressed).1
        (tunLocked P m raw compressed).2
  | send (m : SharedManager Buf) (peer : SockaddrIn) (datagram : Bytes) :
      TunStep m (.send peer datagram) none m .check

/-- A step of the main thread. Commands other than `shutdown` leave it in the shell, and so
does a `shutdown` of a server that is not running; the end of input leaves the shell. -/
inductive MainStep : ServerState Buf → Option (ServerOp Buf) → ServerState Buf → Prop
  | command (s : ServerState Buf) : s.main = .shell → MainStep s none s
  | leave (s : ServerState Buf) : s.main = .shell → MainStep s none { s with main := .shutdown }
  | shutdown (s : ServerState Buf) : s.main = .shutdown →
      MainStep s none { s with running := false, main := .joinListener }
  | joinListener (s : ServerState Buf) : s.main = .joinListener → s.listener = .done →
      MainStep s none { s with main := .closeUdp }
  | closeUdp (s : ServerState Buf) : s.main = .closeUdp →
      MainStep s none { s with main := .markUdp }
  | markUdp (s : ServerState Buf) : s.main = .markUdp →
      MainStep s none { s with manager := { s.manager with udpSocket := -1 }, main := .joinUdp }
  | joinUdp (s : ServerState Buf) : s.main = .joinUdp → s.udp = .done →
      MainStep s none { s with main := .joinTun }
  | joinTun (s : ServerState Buf) : s.main = .joinTun → s.tun = .done →
      MainStep s (some .closeUdp) { s with main := .disconnectAll }
  | disconnectAll (s : ServerState Buf) : s.main = .disconnectAll →
      MainStep s (some .disconnectAll)
        { s with manager := Threads.disconnectAll s.manager, main := .ended }

/-- A step of the server. The operation on the table that ends the use of the UDP socket is
counted where the last thread that uses it has been joined. -/
inductive ThreadStep : ServerState Buf → Thread × Option (ServerOp Buf) → ServerState Buf → Prop
  | main {s s' : ServerState Buf} {op : Option (ServerOp Buf)} :
      MainStep s op s' → ThreadStep s (.main, op) s'
  | listener {s : ServerState Buf} {op : Option (ServerOp Buf)} {m : SharedManager Buf}
      {pc : ListenerPc} : ListenerStep M s.running s.manager s.listener op m pc →
      ThreadStep s (.listener, op) { s with manager := m, listener := pc }
  | udp {s : ServerState Buf} {op : Option (ServerOp Buf)} {m : SharedManager Buf} {pc : UdpPc} :
      UdpStep P s.manager s.udp op m pc →
      ThreadStep s (.udp, op) { s with manager := m, udp := pc }
  | tun {s : ServerState Buf} {op : Option (ServerOp Buf)} {m : SharedManager Buf} {pc : TunPc} :
      TunStep P s.manager s.tun op m pc →
      ThreadStep s (.tun, op) { s with manager := m, tun := pc }

/-- The server once its threads have been created. -/
def started (identity : CryptoContext Buf) (udpSocket : ℤ) : ServerState Buf where
  manager := ⟨.empty maxSessions (zeroSession M), identity, true, 0, udpSocket⟩
  running := true
  main := .shell
  listener := .check
  udp := .start
  tun := .start

/-- The runs of `start_server_environment` after its set-up. -/
abbrev ThreadRun (identity : CryptoContext Buf) (udpSocket : ℤ) :
    List (ServerState Buf × (Thread × Option (ServerOp Buf))) → ServerState Buf → Prop :=
  Path (ThreadStep M P) (started M identity udpSocket)

end Steps

section Invariant

/-- The pointer the listener is about to update was found for the id in its buffer, and the
scan will keep finding it: the slots before it are taken by other ids. -/
structure Found (P : Platform Buf) (m : SharedManager Buf) (session : ℕ) (buffer : Bytes) :
    Prop where
  id : tunnelPacketPeekSessionId P buffer = some (m.sessions.object session).sessionId
  slot : ∃ i, m.sessions.slots i = some session ∧ ∀ j < i, ∃ o, m.sessions.slots j = some o ∧
    (m.sessions.object o).sessionId ≠ (m.sessions.object session).sessionId
  cut : buffer.length ≤ tunnelPacketMaxSize

/-- How far the main thread has come says what the others have seen and which of them have
ended. -/
structure Phased (udpSocket : ℤ) (s : ServerState Buf) : Prop where
  running : s.running = true ↔ s.main.rank < 2
  socket : s.manager.udpSocket = if s.main.rank < 5 then udpSocket else -1
  listenerDone : 3 ≤ s.main.rank → s.listener = .done
  udpDone : 6 ≤ s.main.rank → s.udp = .done
  tunDone : 7 ≤ s.main.rank → s.tun = .done
  tunOpen : s.main.rank < 8 → s.manager.tun = true

/-- A packet the TUN sender has packed. -/
structure Packed (P : Platform Buf) (raw compressed : Bytes) : Prop where
  header : 20 ≤ raw.length
  cut : raw.length ≤ tunnelPacketMaxPlaintext
  packed : compressed = tunnelPipelineCompress P raw tunnelPacketMaxPlaintext
  nonempty : compressed ≠ []

/-- The occupied slots come first, and the pointer of the UDP listener is in one of them. -/
structure Tidy (P : Platform Buf) (s : ServerState Buf) : Prop where
  filled : ∀ i j, j < i → s.manager.sessions.slots i ≠ none → s.manager.sessions.slots j ≠ none
  holds : ∀ o, s.udp.session = some o → s.manager.sessions.Holds o
  found : ∀ o sender buffer, s.udp = .inTurn (.update o sender buffer) →
    Found P s.manager o buffer
  packed : ∀ raw compressed, s.tun = .lock raw compressed → Packed P raw compressed

/-- What the threads other than the main one do to the manager: sessions stay where they are,
with their ids and receive keys, and a new one takes the first free slot. -/
structure Kept (m m' : SharedManager Buf) : Prop where
  identity : m'.identity = m.identity
  tun : m'.tun = m.tun
  socket : m'.udpSocket = m.udpSocket
  slots : ∀ i o, m.sessions.slots i = some o → m'.sessions.slots i = some o ∧
    (m'.sessions.object o).sessionId = (m.sessions.object o).sessionId ∧
    (m'.sessions.object o).crypto.rxKey = (m.sessions.object o).crypto.rxKey
  new : ∀ i, m.sessions.slots i = none → m'.sessions.slots i ≠ none →
    SlotTable.free m.sessions.slots = some i

variable {M : Memory Buf} {P : Platform Buf} {m m' : SharedManager Buf}

theorem Kept.refl (m : SharedManager Buf) : Kept m m :=
  ⟨rfl, rfl, rfl, fun _ _ h => ⟨h, rfl, rfl⟩, fun _ h h' => absurd h h'⟩

theorem Kept.of_add {s : Session Buf} (h : Shared.sessionManagerAdd m s = some m') : Kept m m' := by
  obtain ⟨i, hi, rfl⟩ := Option.map_eq_some_iff.mp h
  have hnone := (SlotTable.free_eq_some.mp hi).1
  refine ⟨rfl, rfl, rfl, fun j o hj => ?_, fun j hj hj' => ?_⟩
  · have hji : j ≠ i := by
      rintro rfl
      simp [hnone] at hj
    have ho : o ≠ m.sessions.allocated := ne_of_lt (m.sessions.lt_allocated hj)
    simp [PointerTable.insert, hji, hj, ho]
  · by_cases hji : j = i
    · subst hji
      exact hi
    · simp [PointerTable.insert, hji, hj] at hj'

/-- Rewriting an object keeps the table when it keeps the id and the receive key. -/
theorem Kept.of_write {session : ℕ} {s : Session Buf}
    (hid : s.sessionId = (m.sessions.object session).sessionId)
    (hkey : s.crypto.rxKey = (m.sessions.object session).crypto.rxKey) :
    Kept m { m with sessions := m.sessions.write session s } := by
  refine ⟨rfl, rfl, rfl, fun i o hi => ⟨hi, ?_⟩, fun i h h' => absurd h h'⟩
  by_cases ho : o = session
  · subst ho
    simp [hid, hkey]
  · simp [PointerTable.write, ho]

theorem kept_update (m : SharedManager Buf) (session : ℕ) (sender : SockaddrIn) :
    Kept m (listenerUpdate m session sender) := .of_write rfl rfl

theorem kept_locked (m : SharedManager Buf) (raw compressed : Bytes) :
    Kept m (tunLocked P m raw compressed).1 := by
  unfold tunLocked
  cases SlotTable.find m.sessions.slots fun session =>
      tunSenderAccepts (raw.getD 19 0) (m.sessions.object session) with
  | none => exact .refl m
  | some target => exact .of_write rfl rfl

theorem ListenerStep.kept {running : Bool} {pc pc' : ListenerPc} {op : Option (ServerOp Buf)}
    (h : ListenerStep M running m pc op m' pc') : Kept m m' := by
  cases h with
  | connected _ hadd =>
      obtain rfl | ⟨s, hadd⟩ := hadd
      · exact .refl m'
      · exact .of_add hadd
  | _ => exact .refl m

theorem UdpStep.kept {pc pc' : UdpPc} {op : Option (ServerOp Buf)}
    (h : UdpStep P m pc op m' pc') : Kept m m' := by
  cases h with
  | update session sender buffer => exact kept_update m session sender
  | _ => exact .refl m

theorem TunStep.kept {pc pc' : TunPc} {op : Option (ServerOp Buf)}
    (h : TunStep P m pc op m' pc') : Kept m m' := by
  cases h with
  | lock raw compressed => exact kept_locked m raw compressed
  | _ => exact .refl m

theorem Kept.holds (h : Kept m m') {o : ℕ} (ho : m.sessions.Holds o) : m'.sessions.Holds o := by
  obtain ⟨i, hi⟩ := ho
  exact ⟨i, (h.slots i o hi).1⟩

theorem Found.kept (h : Kept m m') {session : ℕ} {buffer : Bytes} (hf : Found P m session buffer) :
    Found P m' session buffer := by
  obtain ⟨i, hi, hbefore⟩ := hf.slot
  obtain ⟨hi', hid, -⟩ := h.slots i session hi
  refine ⟨by rw [hid]; exact hf.id, ⟨i, hi', fun j hj => ?_⟩, hf.cut⟩
  obtain ⟨o, ho, hne⟩ := hbefore j hj
  obtain ⟨ho', hido, -⟩ := h.slots j o ho
  exact ⟨o, ho', by rw [hido, hid]; exact hne⟩

theorem Kept.filled (h : Kept m m')
    (hm : ∀ i j, j < i → m.sessions.slots i ≠ none → m.sessions.slots j ≠ none) :
    ∀ i j, j < i → m'.sessions.slots i ≠ none → m'.sessions.slots j ≠ none := by
  intro i j hj hi
  have hold : m.sessions.slots j ≠ none := by
    cases hmi : m.sessions.slots i with
    | none => exact (SlotTable.free_eq_some.mp (h.new i hmi hi)).2 j hj
    | some o => exact hm i j hj (by simp [hmi])
  obtain ⟨o, ho⟩ := Option.ne_none_iff_exists'.mp hold
  simp [(h.slots j o ho).1]

/-- The lookup ends the turn or leaves a pointer of the table, under the id it was found by. -/
theorem udpLookup_cases (m : SharedManager Buf) (sender : SockaddrIn) (buffer : Bytes) :
    udpLookup P m sender buffer = .check ∨ ∃ i session,
      udpLookup P m sender buffer = .inTurn (.update session sender buffer) ∧
      tunnelPacketPeekSessionId P buffer = some (m.sessions.object session).sessionId ∧
      Shared.sessionManagerFind m (m.sessions.object session).sessionId = some (i, session) := by
  unfold udpLookup
  cases hid : tunnelPacketPeekSessionId P buffer with
  | none => exact .inl rfl
  | some sessionId =>
      cases hfind : Shared.sessionManagerFind m sessionId with
      | none => simp [Shared.sessionManagerGet, hfind]
      | some e =>
          obtain ⟨i, session⟩ := e
          have hsame : (m.sessions.object session).sessionId = sessionId :=
            of_decide_eq_true (SlotTable.find_eq_some.mp hfind).2.1
          subst hsame
          exact .inr ⟨i, session, by simp [Shared.sessionManagerGet, hfind], rfl, hfind⟩

/-- The lookup leaves a pointer that it will find again. -/
theorem found_of_lookup
    (hm : ∀ i j, j < i → m.sessions.slots i ≠ none → m.sessions.slots j ≠ none)
    {o : ℕ} {sender sender' : SockaddrIn} {buffer buffer' : Bytes}
    (hcut : buffer.length ≤ tunnelPacketMaxSize)
    (h : udpLookup P m sender buffer = .inTurn (.update o sender' buffer')) :
    Found P m o buffer' := by
  obtain hlookup | ⟨i, session, hlookup, hid, hfind⟩ := udpLookup_cases (P := P) m sender buffer
  · simp [hlookup] at h
  · rw [hlookup] at h
    obtain ⟨rfl, rfl, rfl⟩ := ListenerTurn.update.inj (UdpPc.inTurn.inj h)
    obtain ⟨hi, -, hbefore⟩ := SlotTable.find_eq_some.mp hfind
    refine ⟨hid, ⟨i, hi, fun j hj => ?_⟩, hcut⟩
    have hne : m.sessions.slots i ≠ none := Option.ne_none_iff_exists'.mpr ⟨_, hi⟩
    obtain ⟨o, ho⟩ := Option.ne_none_iff_exists'.mp (hm i j hj hne)
    exact ⟨o, ho, of_decide_eq_false (hbefore j hj o ho)⟩

variable {s s' : ServerState Buf} {fd : ℤ} {a : Thread × Option (ServerOp Buf)}

/-- The pointer of the UDP listener after one of its steps is in the table. -/
theorem UdpStep.holds {pc pc' : UdpPc} {op : Option (ServerOp Buf)} (h : UdpStep P m pc op m' pc')
    (hpc : ∀ o, pc.session = some o → m.sessions.Holds o) :
    ∀ o, pc'.session = some o → m'.sessions.Holds o := by
  intro o ho
  have hnext : ∀ {turn : ListenerTurn}, (udpNext turn).session = some o →
      turn.session = some o := by
    intro turn hturn
    cases turn with
    | waiting => simp [udpNext, UdpPc.session] at hturn
    | _ => exact hturn
  cases h with
  | lookup sender datagram =>
      obtain hlookup | ⟨i, session, hlookup, -, hfind⟩ :=
        udpLookup_cases (P := P) m sender (datagram.take tunnelPacketMaxSize)
      · simp [hlookup, UdpPc.session] at ho
      · rw [hlookup] at ho
        obtain rfl : session = o := Option.some.inj ho
        exact ⟨i, (SlotTable.find_eq_some.mp hfind).1⟩
  | update session sender buffer => exact (kept_update m session sender).holds (hpc o ho)
  | decode session buffer =>
      exact hpc o (congrArg some (listenerDecode_session (hnext ho)))
  | start allocated => cases allocated <;> simp [UdpPc.session] at ho
  | check => split at ho <;> simp [UdpPc.session] at ho
  | recheck r =>
      split at ho
      · simp [UdpPc.session] at ho
      · cases r <;> simp [Ready.udpNext, UdpPc.session] at ho
  | nothing | select r | receive sender datagram | write session packet =>
      simp [UdpPc.session] at ho

theorem UdpStep.found {pc pc' : UdpPc} {op : Option (ServerOp Buf)} (h : UdpStep P m pc op m' pc')
    (hm : ∀ i j, j < i → m.sessions.slots i ≠ none → m.sessions.slots j ≠ none) :
    ∀ o sender buffer, pc' = .inTurn (.update o sender buffer) → Found P m' o buffer := by
  intro o sender buffer hpc'
  have hnext : ∀ {turn : ListenerTurn}, udpNext turn = .inTurn (.update o sender buffer) →
      turn = .update o sender buffer := by
    intro turn hturn
    cases turn with
    | waiting => simp [udpNext] at hturn
    | _ => exact UdpPc.inTurn.inj hturn
  cases h with
  | lookup sender' datagram => exact found_of_lookup hm (List.length_take_le _ _) hpc'
  | decode session buffer' =>
      have hdecode := hnext hpc'
      rw [listenerDecode_eq] at hdecode
      cases hout : decodedPacket P m.tun (m.sessions.object session).crypto buffer' with
      | none => simp [hout] at hdecode
      | some packet => simp [hout] at hdecode
  | start allocated => cases allocated <;> simp at hpc'
  | check => split at hpc' <;> simp at hpc'
  | recheck r =>
      split at hpc'
      · simp at hpc'
      · cases r <;> simp [Ready.udpNext] at hpc'
  | _ => simp at hpc'

theorem Phased.main {op : Option (ServerOp Buf)} (hs : Phased fd s) (h : MainStep s op s') :
    Phased fd s' := by
  obtain ⟨hrunning, hsocket, hlistener, hudp, htun, hopen⟩ := hs
  cases h with
  | command _ => exact ⟨hrunning, hsocket, hlistener, hudp, htun, hopen⟩
  | joinListener hmain hdone | joinUdp hmain hdone | joinTun hmain hdone =>
      simp only [hmain, MainPc.rank] at hrunning hsocket hlistener hudp hopen
      constructor <;> simp_all [MainPc.rank]
  | leave hmain | shutdown hmain | closeUdp hmain | markUdp hmain | disconnectAll hmain =>
      simp only [hmain, MainPc.rank] at hrunning hsocket hlistener hudp htun hopen
      constructor <;> simp_all [MainPc.rank, Threads.disconnectAll]

theorem Phased.step (hs : Phased fd s) (h : ThreadStep M P s a s') : Phased fd s' := by
  cases h with
  | main h => exact hs.main h
  | listener h =>
      refine ⟨hs.running, h.kept.socket.trans hs.socket, fun hrank => ?_, hs.udpDone, hs.tunDone,
        fun hrank => h.kept.tun.trans (hs.tunOpen hrank)⟩
      rw [hs.listenerDone hrank] at h
      cases h
  | udp h =>
      refine ⟨hs.running, h.kept.socket.trans hs.socket, hs.listenerDone, fun hrank => ?_,
        hs.tunDone, fun hrank => h.kept.tun.trans (hs.tunOpen hrank)⟩
      rw [hs.udpDone hrank] at h
      cases h
  | tun h =>
      refine ⟨hs.running, h.kept.socket.trans hs.socket, hs.listenerDone, hs.udpDone,
        fun hrank => ?_, fun hrank => h.kept.tun.trans (hs.tunOpen hrank)⟩
      rw [hs.tunDone hrank] at h
      cases h

theorem packed_of_read {packet raw compressed : Bytes}
    (h : tunRead P packet = .lock raw compressed) : Packed P raw compressed := by
  unfold tunRead at h
  dsimp only at h
  split_ifs at h with hshort hempty
  obtain ⟨rfl, rfl⟩ := TunPc.lock.inj h
  exact ⟨by omega, List.length_take_le _ _, rfl, hempty⟩

theorem TunStep.packed {pc pc' : TunPc} {op : Option (ServerOp Buf)}
    (h : TunStep P m pc op m' pc') :
    ∀ raw compressed, pc' = .lock raw compressed → Packed P raw compressed := by
  intro raw compressed hpc'
  cases h with
  | read packet => exact packed_of_read hpc'
  | lock raw' compressed' =>
      unfold tunLocked at hpc'
      split at hpc'
      · simp at hpc'
      · dsimp only at hpc'
        split at hpc' <;> simp at hpc'
  | start allocated => split at hpc' <;> simp at hpc'
  | check => split at hpc' <;> simp at hpc'
  | recheck r =>
      split at hpc'
      · simp at hpc'
      · cases r <;> simp [Ready.tunNext] at hpc'
  | _ => simp at hpc'

theorem Tidy.kept (hs : Tidy P s) (h : Kept s.manager m') {running : Bool} {main : MainPc}
    {listener : ListenerPc} {tun : TunPc}
    (htun : ∀ raw compressed, tun = .lock raw compressed → Packed P raw compressed) :
    Tidy P ⟨m', running, main, listener, s.udp, tun⟩ :=
  ⟨h.filled hs.filled, fun o ho => h.holds (hs.holds o ho),
    fun o sender buffer hpc => (hs.found o sender buffer hpc).kept h, htun⟩

theorem Tidy.main {op : Option (ServerOp Buf)} (hs : Tidy P s) (hp : Phased fd s)
    (h : MainStep s op s') : Tidy P s' := by
  cases h with
  | markUdp _ =>
      refine ⟨hs.filled, hs.holds, fun o sender buffer hpc => ?_, hs.packed⟩
      have hfound := hs.found o sender buffer hpc
      exact ⟨hfound.id, hfound.slot, hfound.cut⟩
  | disconnectAll hmain =>
      have hdone := hp.udpDone (by rw [hmain]; decide)
      refine ⟨fun i j _ hi => absurd rfl hi, fun o ho => ?_, fun o sender buffer hpc => ?_,
        hs.packed⟩
      · simp [hdone, UdpPc.session] at ho
      · simp [hdone] at hpc
  | _ => exact ⟨hs.filled, hs.holds, hs.found, hs.packed⟩

theorem Tidy.step (hs : Tidy P s) (hp : Phased fd s) (h : ThreadStep M P s a s') : Tidy P s' := by
  cases h with
  | main h => exact hs.main hp h
  | listener h => exact hs.kept h.kept hs.packed
  | udp h => exact ⟨h.kept.filled hs.filled, h.holds hs.holds, h.found hs.filled, hs.packed⟩
  | tun h => exact hs.kept h.kept h.packed

theorem ThreadRun.ordered {identity : CryptoContext Buf}
    {steps : List (ServerState Buf × (Thread × Option (ServerOp Buf)))}
    (h : ThreadRun M P identity fd steps s) : Phased fd s ∧ Tidy P s := by
  refine h.invariant (I := fun s => Phased fd s ∧ Tidy P s) ⟨?_, ?_⟩ ?_
  · constructor <;> simp [started, MainPc.rank]
  · constructor <;> simp [started, UdpPc.session, PointerTable.empty]
  · rintro s a s' ⟨hp, ht⟩ hstep
    exact ⟨hp.step hstep, ht.step hp hstep⟩

end Invariant

section Refinement

variable {M : Memory Buf} {P : Platform Buf} {m m' : SharedManager Buf} {s s' : ServerState Buf}
  {fd : ℤ}

/-- The manager as the turns of the threads see it: the UDP socket counts as open until the
last thread that uses it has been joined. -/
def view (fd : ℤ) (s : ServerState Buf) : SharedManager Buf :=
  { s.manager with udpSocket := if s.main.rank < 7 then fd else -1 }

theorem Found.target {session : ℕ} {buffer : Bytes} (h : Found P m session buffer) :
    ∃ i, m.sessions.slots i = some session ∧
      udpListenerTarget P m.values (buffer.take tunnelPacketMaxSize) =
        some (i, m.sessions.object session) := by
  obtain ⟨i, hi, hbefore⟩ := h.slot
  have hfind : Shared.sessionManagerFind m (m.sessions.object session).sessionId =
      some (i, session) := by
    refine SlotTable.find_eq_some.mpr ⟨hi, decide_eq_true rfl, fun j hj o ho => ?_⟩
    obtain ⟨o', ho', hne⟩ := hbefore j hj
    obtain rfl := Option.some.inj (ho.symm.trans ho')
    exact decide_eq_false hne
  refine ⟨i, hi, ?_⟩
  rw [List.take_of_length_le h.cut, udpListenerTarget, h.id]
  dsimp only
  rw [sessionManagerFind_values, hfind]
  rfl

/-- The critical section of the TUN sender, with what it goes on to send, is a turn of
`sessionManagerTunSender` on the packet. -/
theorem tunLocked_values {raw compressed : Bytes} (hp : Packed P raw compressed)
    (htun : m.tun = true) (hsocket : 0 ≤ m.udpSocket) :
    (sessionManagerTunSender P m.values raw).1 = (tunLocked P m raw compressed).1.values ∧
      ((sessionManagerTunSender P m.values raw).2.elim .check fun t => .send t.peer t.datagram) =
        (tunLocked P m raw compressed).2 := by
  have hwhole := List.take_of_length_le hp.cut
  have htarget : tunSenderTarget P m.values raw =
      (SlotTable.find m.sessions.slots fun session =>
        tunSenderAccepts (raw.getD 19 0) (m.sessions.object session)).map fun e =>
          (compressed, e.1, m.sessions.object e.2) := by
    have hactive : ¬ (m.values.tun = false ∨ m.values.udpSocket < 0 ∨ raw.length < 20) := by
      have hheader := hp.header
      simp only [SharedManager.values, htun, not_or, not_lt]
      exact ⟨by simp, hsocket, hheader⟩
    have hpacked := hp.nonempty
    rw [hp.packed] at hpacked
    unfold tunSenderTarget
    dsimp only
    rw [hwhole, if_neg hactive, if_neg hpacked, SharedManager.values_sessions,
      PointerTable.find_values, Option.map_map, hp.packed]
    rfl
  unfold tunLocked
  cases hfind : SlotTable.find m.sessions.slots fun session =>
      tunSenderAccepts (raw.getD 19 0) (m.sessions.object session) with
  | none =>
      rw [hfind] at htarget
      rw [sessionManagerTunSender_idle P htarget]
      exact ⟨rfl, rfl⟩
  | some e =>
      obtain ⟨i, session⟩ := e
      rw [hfind] at htarget
      rw [sessionManagerTunSender_target P htarget]
      have hslot : m.sessions.slots i = some session := (SlotTable.find_eq_some.mp hfind).1
      constructor
      · simp only [SharedManager.values, PointerTable.values_write hslot]
      · dsimp only
        cases tunnelPacketEncode P ⟨(m.sessions.object session).sessionId,
          (m.sessions.object session).crypto.txNonce, compressed⟩
          (m.sessions.object session).crypto <;> rfl

variable (P)

/-- What a turn writes to the TUN, and what it sends. -/
def turnWrites : SessionManager Buf × ServerOp Buf → Option Bytes
  | (m, .udpListener sender datagram) => (sessionManagerUdpListener P m sender datagram).2
  | _ => none

def turnSends : SessionManager Buf × ServerOp Buf → Option (SockaddrIn × Bytes)
  | (m, .tunSender packet) =>
    (sessionManagerTunSender P m packet).2.map fun t => (t.peer, t.datagram)
  | _ => none

/-- What the UDP listener hands to `tun_write` when it goes on from here. -/
def UdpPc.writes : UdpPc → Option Bytes
  | .inTurn (.write _ packet) => some packet
  | _ => none

/-- What it will hand to `tun_write` before it looks at another datagram. -/
def UdpPc.pending (m : SharedManager Buf) : UdpPc → Option Bytes
  | .inTurn (.decode session buffer) =>
    decodedPacket P m.tun (m.sessions.object session).crypto buffer
  | .inTurn (.write _ packet) => some packet
  | _ => none

/-- What the TUN sender hands to `sendto` when it goes on from here. -/
def TunPc.sends : TunPc → Option (SockaddrIn × Bytes)
  | .send peer datagram => some (peer, datagram)
  | _ => none

/-- The writes and the sends of the threads. -/
def stepWrites : ServerState Buf × (Thread × Option (ServerOp Buf)) → Option Bytes
  | (s, (.udp, _)) => s.udp.writes
  | _ => none

def stepSends : ServerState Buf × (Thread × Option (ServerOp Buf)) → Option (SockaddrIn × Bytes)
  | (s, (.tun, _)) => s.tun.sends
  | _ => none

/-- The turn a step completes, if it does. -/
def turn (fd : ℤ) (step : ServerState Buf × (Thread × Option (ServerOp Buf))) :
    Option (SessionManager Buf × ServerOp Buf) :=
  step.2.2.map fun op => ((view fd step.1).values, op)

variable {P}

/-- A step is a step of `ServerStep` or changes nothing that a turn sees, and what it has
written or sent is what its turns have produced. -/
structure Refines (M : Memory Buf) (P : Platform Buf) (fd : ℤ) (s : ServerState Buf)
    (a : Thread × Option (ServerOp Buf)) (s' : ServerState Buf) : Prop where
  step : a.2.elim ((view fd s').values = (view fd s).values) fun op =>
    ServerStep M P (view fd s).values op (view fd s').values
  writes : (s.udp.pending P s.manager).toList ++ ((turn fd (s, a)).bind (turnWrites P)).toList =
    (stepWrites (s, a)).toList ++ (s'.udp.pending P s'.manager).toList
  sends : s.tun.sends.toList ++ ((turn fd (s, a)).bind (turnSends P)).toList =
    (stepSends (s, a)).toList ++ s'.tun.sends.toList

/-- What the UDP listener will write does not depend on what the other threads do. -/
theorem Kept.pending (h : Kept m m') {pc : UdpPc}
    (hpc : ∀ o, pc.session = some o → m.sessions.Holds o) :
    pc.pending P m' = pc.pending P m := by
  cases pc with
  | inTurn turn =>
      cases turn with
      | decode session buffer =>
          obtain ⟨i, hi⟩ := hpc session rfl
          have hkey := (h.slots i session hi).2.2
          have hdecode := tunnelPacketDecode_congr P hkey buffer
          simp only [UdpPc.pending, decodedPacket, hdecode, h.tun]
      | _ => rfl
  | _ => rfl

theorem main_refines {op : Option (ServerOp Buf)} (hp : Phased fd s) (h : MainStep s op s') :
    Refines M P fd s (.main, op) s' := by
  cases h with
  | command _ => exact ⟨rfl, by simp [turn, stepWrites], by simp [turn, stepSends]⟩
  | leave hmain | shutdown hmain | joinListener hmain _ | closeUdp hmain | joinUdp hmain _ =>
      refine ⟨?_, by simp [turn, stepWrites], by simp [turn, stepSends]⟩
      simp [view, hmain, MainPc.rank, SharedManager.values]
  | markUdp hmain =>
      refine ⟨?_, ?_, by simp [turn, stepSends]⟩
      · simp [view, hmain, MainPc.rank, SharedManager.values]
      · have hpending : s.udp.pending P { s.manager with udpSocket := -1 } =
            s.udp.pending P s.manager := by
          unfold UdpPc.pending
          rfl
        simp [turn, stepWrites, hpending]
  | joinTun hmain hdone =>
      refine ⟨?_, by simp [turn, stepWrites, turnWrites], by simp [turn, stepSends, turnSends]⟩
      have hclose := ServerStep.closeUdp (M := M) (P := P) (view fd s).values
      simpa [view, hmain, MainPc.rank, SharedManager.values] using hclose
  | disconnectAll hmain =>
      have hdone := hp.udpDone (by rw [hmain]; decide)
      refine ⟨?_, by simp [turn, stepWrites, turnWrites, hdone, UdpPc.pending],
        by simp [turn, stepSends, turnSends]⟩
      have hall := ServerStep.disconnectAll (M := M) (P := P) (view fd s).values
      simpa [view, hmain, MainPc.rank, SharedManager.values, sessionManagerDisconnectAll,
        Threads.disconnectAll, PointerTable.values_clear] using hall

/-- Until the UDP socket is marked closed the turns see the manager as it is. -/
theorem view_eq (hp : Phased fd s) (hrank : s.main.rank < 5) : view fd s = s.manager := by
  have hsocket := hp.socket
  rw [if_pos hrank] at hsocket
  have hearly : s.main.rank < 7 := by omega
  rw [view, if_pos hearly, ← hsocket]

theorem listener_refines {op : Option (ServerOp Buf)} {pc : ListenerPc} (hp : Phased fd s)
    (ht : Tidy P s) (h : ListenerStep M s.running s.manager s.listener op m' pc) :
    Refines M P fd s (.listener, op) { s with manager := m', listener := pc } := by
  have hpending := h.kept.pending (P := P) ht.holds
  have hsocket := h.kept.socket
  generalize hpc : s.listener = pc₀ at h
  cases h with
  | connected hx _ =>
      refine ⟨?_, by simp [turn, stepWrites, turnWrites, hpending],
        by simp [turn, stepSends, turnSends]⟩
      have hrank : s.main.rank < 5 := by
        by_contra hlate
        have hdone := hp.listenerDone (by omega)
        simp [hpc] at hdone
      have hbefore := view_eq hp hrank
      have hafter : view fd { s with manager := m', listener := .check } = m' := by
        have hview := congrArg SharedManager.udpSocket hbefore
        dsimp only [view] at hview ⊢
        rw [hview, ← hsocket]
      rw [hafter, hbefore]
      exact .connect hx
  | _ => exact ⟨rfl, by simp [turn, stepWrites], by simp [turn, stepSends]⟩

/-- No packet is pending before a datagram has been handled. -/
theorem pending_lookup (sender : SockaddrIn) (buffer : Bytes) :
    (udpLookup P m sender buffer).pending P m' = none := by
  obtain hlookup | ⟨i, session, hlookup, -⟩ := udpLookup_cases (P := P) m sender buffer
  · rw [hlookup]
    rfl
  · rw [hlookup]
    rfl

theorem pending_decode (session : ℕ) (buffer : Bytes) :
    (udpNext (listenerDecode P m session buffer)).pending P m' =
      decodedPacket P m.tun (m.sessions.object session).crypto buffer := by
  rw [listenerDecode_eq]
  cases decodedPacket P m.tun (m.sessions.object session).crypto buffer <;> rfl

theorem udp_refines {op : Option (ServerOp Buf)} {pc : UdpPc} (hfd : 0 ≤ fd) (hp : Phased fd s)
    (ht : Tidy P s) (h : UdpStep P s.manager s.udp op m' pc) :
    Refines M P fd s (.udp, op) { s with manager := m', udp := pc } := by
  generalize hpc : s.udp = pc₀ at h
  have hquiet : ∀ {pc' : UdpPc}, s.udp.pending P s.manager = none → s.udp.writes = none →
      pc'.pending P s.manager = none →
      Refines M P fd s (.udp, none) { s with manager := s.manager, udp := pc' } := by
    intro pc' hold hwrites hnew
    exact ⟨rfl, by simp [turn, stepWrites, hold, hwrites, hnew], by simp [turn, stepSends]⟩
  cases h with
  | start allocated => exact hquiet (by rw [hpc]; rfl) (by rw [hpc]; rfl) (by split <;> rfl)
  | check => exact hquiet (by rw [hpc]; rfl) (by rw [hpc]; rfl) (by split <;> rfl)
  | select r => exact hquiet (by rw [hpc]; rfl) (by rw [hpc]; rfl) rfl
  | recheck r =>
      refine hquiet (by rw [hpc]; rfl) (by rw [hpc]; rfl) ?_
      split
      · rfl
      · cases r <;> rfl
  | nothing => exact hquiet (by rw [hpc]; rfl) (by rw [hpc]; rfl) rfl
  | receive sender datagram _ _ => exact hquiet (by rw [hpc]; rfl) (by rw [hpc]; rfl) rfl
  | lookup sender datagram =>
      exact hquiet (by rw [hpc]; rfl) (by rw [hpc]; rfl) (pending_lookup sender _)
  | update session sender buffer =>
      have hrank : s.main.rank < 7 := by
        by_contra hlate
        have hdone := hp.udpDone (by omega)
        simp [hpc] at hdone
      have hfound := ht.found session sender buffer hpc
      have hopen : 0 ≤ (view fd s).udpSocket := by
        rw [view, if_pos hrank]
        exact hfd
      have hview : Found P (view fd s) session buffer := ⟨hfound.id, hfound.slot, hfound.cut⟩
      obtain ⟨i, hi, htarget⟩ := hview.target
      have hstep := ServerStep.udpListener (M := M) (P := P) (view fd s).values sender buffer
      have hvalues : sessionManagerUdpListener P (view fd s).values sender buffer = _ :=
        sessionManagerUdpListener_values P hi hopen htarget
      rw [hvalues] at hstep
      refine ⟨hstep, ?_, by simp [turn, stepSends, turnSends]⟩
      have hcut := List.take_of_length_le hfound.cut
      have hcrypto : ((listenerUpdate s.manager session sender).sessions.object session).crypto =
          (s.manager.sessions.object session).crypto := by
        simp [listenerUpdate, Session.withPeer]
      simp only [hpc, turn, stepWrites, turnWrites, UdpPc.pending, UdpPc.writes, Option.map_some,
        Option.bind_some, hvalues, hcut, hcrypto, Option.toList_none, List.nil_append]
      rfl
  | decode session buffer =>
      have hold : s.udp.pending P s.manager = decodedPacket P s.manager.tun
          (s.manager.sessions.object session).crypto buffer := by
        rw [hpc]
        rfl
      have hnew : (udpNext (listenerDecode P s.manager session buffer)).pending P s.manager = _ :=
        pending_decode session buffer
      refine ⟨rfl, ?_, by simp [turn, stepSends]⟩
      rw [hold, hnew]
      simp [turn, stepWrites, hpc, UdpPc.writes]
  | write session packet =>
      refine ⟨rfl, ?_, by simp [turn, stepSends]⟩
      simp [hpc, turn, stepWrites, UdpPc.writes, UdpPc.pending]

/-- The critical section does not look at the socket. -/
theorem tunLocked_socket (m : SharedManager Buf) (raw compressed : Bytes) (x : ℤ) :
    tunLocked P { m with udpSocket := x } raw compressed =
      ({ (tunLocked P m raw compressed).1 with udpSocket := x },
        (tunLocked P m raw compressed).2) := by
  unfold tunLocked
  dsimp only
  cases SlotTable.find m.sessions.slots fun session =>
      tunSenderAccepts (raw.getD 19 0) (m.sessions.object session) <;> rfl

theorem tunLocked_view (s : ServerState Buf) (raw compressed : Bytes) :
    tunLocked P (view fd s) raw compressed =
      (view fd { s with
        manager := (tunLocked P s.manager raw compressed).1
        tun := (tunLocked P s.manager raw compressed).2 },
        (tunLocked P s.manager raw compressed).2) := by
  unfold view
  rw [tunLocked_socket]

theorem sends_elim (t : Option TunSend) :
    (t.elim TunPc.check fun t => .send t.peer t.datagram).sends =
      t.map fun t => (t.peer, t.datagram) := by
  cases t <;> rfl

theorem tun_refines {op : Option (ServerOp Buf)} {pc : TunPc} (hfd : 0 ≤ fd) (hp : Phased fd s)
    (ht : Tidy P s) (h : TunStep P s.manager s.tun op m' pc) :
    Refines M P fd s (.tun, op) { s with manager := m', tun := pc } := by
  have hpending := h.kept.pending (P := P) ht.holds
  generalize hpc : s.tun = pc₀ at h
  have hquiet : ∀ {pc' : TunPc}, s.tun.sends = none → pc'.sends = none →
      Refines M P fd s (.tun, none) { s with manager := s.manager, tun := pc' } := by
    intro pc' hold hnew
    exact ⟨rfl, by simp [turn, stepWrites], by simp [turn, stepSends, hold, hnew]⟩
  cases h with
  | start allocated => exact hquiet (by rw [hpc]; rfl) (by split <;> rfl)
  | check => exact hquiet (by rw [hpc]; rfl) (by split <;> rfl)
  | select r => exact hquiet (by rw [hpc]; rfl) rfl
  | recheck r =>
      refine hquiet (by rw [hpc]; rfl) ?_
      split
      · rfl
      · cases r <;> rfl
  | read packet =>
      refine hquiet (by rw [hpc]; rfl) ?_
      unfold tunRead
      dsimp only
      split_ifs <;> rfl
  | lock raw compressed =>
      have hrank : s.main.rank < 7 := by
        by_contra hlate
        have hdone := hp.tunDone (by omega)
        simp [hpc] at hdone
      have hopen : 0 ≤ (view fd s).udpSocket := by
        rw [view, if_pos hrank]
        exact hfd
      obtain ⟨hstate, hsends⟩ := tunLocked_values (m := view fd s) (ht.packed raw compressed hpc)
        (hp.tunOpen (by omega)) hopen
      have hstep := ServerStep.tunSender (M := M) (P := P) (view fd s).values raw
      rw [hstate, tunLocked_view] at hstep
      refine ⟨hstep, by simp [turn, stepWrites, turnWrites, hpending], ?_⟩
      rw [tunLocked_view] at hsends
      have hturn := sends_elim (sessionManagerTunSender P (view fd s).values raw).2
      rw [hsends] at hturn
      have hold : s.tun.sends = none := by
        rw [hpc]
        rfl
      dsimp only at hturn ⊢
      rw [hturn, hold, stepSends, hold]
      rfl
  | send peer datagram =>
      exact ⟨rfl, by simp [turn, stepWrites],
        by simp [hpc, turn, stepSends, TunPc.sends]⟩

theorem ThreadStep.refines {a : Thread × Option (ServerOp Buf)} (hfd : 0 ≤ fd) (hp : Phased fd s)
    (ht : Tidy P s) (h : ThreadStep M P s a s') : Refines M P fd s a s' := by
  cases h with
  | main h => exact main_refines hp h
  | listener h => exact listener_refines hp ht h
  | udp h => exact udp_refines hfd hp ht h
  | tun h => exact tun_refines hfd hp ht h

/-- The turns of the threads make a run of the server, with the same packets written and sent
in the same order; the socket is closed and the table cleared after all of them have ended. -/
structure TurnsRun (M : Memory Buf) (P : Platform Buf) (identity : CryptoContext Buf) (fd : ℤ)
    (steps : List (ServerState Buf × (Thread × Option (ServerOp Buf)))) (s : ServerState Buf) :
    Prop where
  run : ServerRun M P identity fd (steps.filterMap (turn fd)) (view fd s).values
  writes : (steps.filterMap (turn fd)).filterMap (turnWrites P) =
    steps.filterMap stepWrites ++ (s.udp.pending P s.manager).toList
  sends : (steps.filterMap (turn fd)).filterMap (turnSends P) =
    steps.filterMap stepSends ++ s.tun.sends.toList
  closed : ∀ p ∈ steps, ∀ op, p.2.2 = some op → (op = .closeUdp ∨ ∃ id, op.Removes id) →
    p.1.listener = .done ∧ p.1.udp = .done ∧ p.1.tun = .done

theorem view_started (M : Memory Buf) (identity : CryptoContext Buf) (fd : ℤ) :
    (view fd (started M identity fd)).values = startedManager M identity fd := by
  have hempty : (PointerTable.empty maxSessions (zeroSession M)).values = fun _ => none := rfl
  by_cases h : fd < 0 <;>
    simp [view, started, MainPc.rank, SharedManager.values, startedManager, sessionManagerUdpBind,
      sessionManagerInit, h, hempty]

/-- The threads other than the main one neither close the socket nor remove a session. -/
theorem ListenerStep.keeps {running : Bool} {pc pc' : ListenerPc} {label : Option (ServerOp Buf)}
    (h : ListenerStep M running m pc label m' pc') {op : ServerOp Buf} (hlabel : label = some op) :
    ¬ (op = .closeUdp ∨ ∃ id, op.Removes id) := by
  cases h with
  | connected _ _ =>
      obtain rfl := Option.some.inj hlabel
      simp [ServerOp.Removes]
  | _ => simp at hlabel

theorem UdpStep.keeps {pc pc' : UdpPc} {label : Option (ServerOp Buf)}
    (h : UdpStep P m pc label m' pc') {op : ServerOp Buf} (hlabel : label = some op) :
    ¬ (op = .closeUdp ∨ ∃ id, op.Removes id) := by
  cases h with
  | update session sender buffer =>
      obtain rfl := Option.some.inj hlabel
      simp [ServerOp.Removes]
  | _ => simp at hlabel

theorem TunStep.keeps {pc pc' : TunPc} {label : Option (ServerOp Buf)}
    (h : TunStep P m pc label m' pc') {op : ServerOp Buf} (hlabel : label = some op) :
    ¬ (op = .closeUdp ∨ ∃ id, op.Removes id) := by
  cases h with
  | lock raw compressed =>
      obtain rfl := Option.some.inj hlabel
      simp [ServerOp.Removes]
  | _ => simp at hlabel

theorem ThreadStep.closes {a : Thread × Option (ServerOp Buf)} {op : ServerOp Buf}
    (hp : Phased fd s) (h : ThreadStep M P s a s') (ha : a.2 = some op)
    (hop : op = .closeUdp ∨ ∃ id, op.Removes id) :
    s.listener = .done ∧ s.udp = .done ∧ s.tun = .done := by
  cases h with
  | main h =>
      cases h with
      | joinTun hmain hdone =>
          exact ⟨hp.listenerDone (by rw [hmain]; decide), hp.udpDone (by rw [hmain]; decide), hdone⟩
      | disconnectAll hmain =>
          exact ⟨hp.listenerDone (by rw [hmain]; decide), hp.udpDone (by rw [hmain]; decide),
            hp.tunDone (by rw [hmain]; decide)⟩
      | _ => simp at ha
  | listener h => exact absurd hop (h.keeps ha)
  | udp h => exact absurd hop (h.keeps ha)
  | tun h => exact absurd hop (h.keeps ha)

/-- The server's threads refine the model by turns: every run of theirs is, seen by turns, a run
of `ServerRun` that removes nothing and keeps the socket open until the last thread has ended. -/
theorem threads_refine {identity : CryptoContext Buf} (hfd : 0 ≤ fd)
    {steps : List (ServerState Buf × (Thread × Option (ServerOp Buf)))}
    (h : ThreadRun M P identity fd steps s) : TurnsRun M P identity fd steps s := by
  have hrefines : ∀ before s a s', ThreadRun M P identity fd before s → ThreadStep M P s a s' →
      Refines M P fd s a s' := by
    intro before s a s' hpath hstep
    obtain ⟨hp, ht⟩ := ThreadRun.ordered hpath
    exact hstep.refines hfd hp ht
  refine ⟨?_, ?_, ?_, ?_⟩
  · have hrun := h.turns (ServerStep M P) (fun s => (view fd s).values) (fun _ => Prod.snd)
      fun before s a s' hpath hstep => (hrefines before s a s' hpath hstep).step
    rw [view_started] at hrun
    exact hrun
  · exact h.delivered (turnWrites P) stepWrites (fun s => s.udp.pending P s.manager) rfl
      fun before s a s' hpath hstep => (hrefines before s a s' hpath hstep).writes
  · exact h.delivered (turnSends P) stepSends (fun s => s.tun.sends) rfl
      fun before s a s' hpath hstep => (hrefines before s a s' hpath hstep).sends
  · rintro ⟨s₁, a⟩ hmem op hop hcloses
    obtain ⟨before, after, s₂, -, hbefore, hstep, -⟩ := h.split hmem
    exact hstep.closes (ThreadRun.ordered hbefore).1 hop hcloses

end Refinement

section Guest

/-- A turn that will reach a session holds its pointer once it has been looked up. -/
theorem udpLookup_target {Buf : ℕ → Type} {P : Platform Buf} {m : SharedManager Buf}
    {buffer : Bytes} {i : Fin maxSessions} {s : Session Buf}
    (h : udpListenerTarget P m.values buffer = some (i, s)) (sender : SockaddrIn) :
    ∃ session, m.sessions.slots i = some session ∧
      udpLookup P m sender buffer = .inTurn (.update session sender buffer) := by
  unfold udpListenerTarget at h
  unfold udpLookup Shared.sessionManagerGet
  cases hid : tunnelPacketPeekSessionId P buffer with
  | none => simp [hid] at h
  | some sessionId =>
      rw [hid] at h
      dsimp only at h ⊢
      rw [sessionManagerFind_values] at h
      obtain ⟨⟨j, session⟩, hfind, he⟩ := Option.map_eq_some_iff.mp h
      obtain ⟨rfl, -⟩ := Prod.mk.inj he
      rw [hfind]
      exact ⟨session, (SlotTable.find_eq_some.mp hfind).1, rfl⟩

theorem firstSlot_lt : 0 < maxSessions := Nat.zero_lt_succ 1023

/-- The manager with the first guest's session. -/
def guestShared : SharedManager MsgBuf :=
  let m := (started msgMemory (identityOf 0) 5).manager
  { m with
    sessions := m.sessions.insert ⟨0, firstSlot_lt⟩ ((guestSession 0).placedAt 0)
    sessionCount := 1 }

theorem guestManager_zero :
    guestManager 0 = (started msgMemory (identityOf 0) 5).manager.values := by
  rw [guestManager, SessionManager.filled, SlotTable.filled_zero]
  rfl

theorem guestShared_values : guestShared.values = guestManager 1 := by
  have hstored : (guestManager 0).stored ⟨0, firstSlot_lt⟩ ((guestSession 0).placedAt 0) =
      guestManager 1 := SessionManager.stored_filled guestSession _
  rw [← hstored, guestManager_zero]
  unfold guestShared SharedManager.values SessionManager.stored
  rw [PointerTable.values_insert]
  rfl

theorem guest_lookup : UdpStep guestPlatform guestShared (.lookup ⟨9, 9⟩ firstSent) none guestShared
    (.inTurn (.update 0 ⟨9, 9⟩ firstSent)) := by
  have htarget := firstSent_target
  rw [← guestShared_values] at htarget
  obtain ⟨session, hslot, hlookup⟩ := udpLookup_target htarget ⟨9, 9⟩
  obtain rfl : 0 = session := Option.some.inj hslot
  have hstep := UdpStep.lookup (P := guestPlatform) guestShared ⟨9, 9⟩ firstSent
  rw [hlookup, List.take_of_length_le (by decide)] at hstep
  exact hstep

theorem guest_connect : ∃ r, Exec (sessionManagerConnect msgMemory
    (started msgMemory (identityOf 0) 5).manager.values .server (guestSocket 0) []) (guestCalls 0)
      (.ret (guestShared.values, r)) := by
  have hrun := guests_run (n := 1) (by decide)
  obtain ⟨-, hstep⟩ := Path.snoc_iff.mp (show Path _ _ ([] ++ [_]) _ from hrun)
  rw [guestShared_values, ← guestManager_zero]
  cases hstep with
  | connect hx => exact ⟨_, hx⟩

theorem guestShared_add : Shared.sessionManagerAdd (started msgMemory (identityOf 0) 5).manager
    (guestSession 0) = some guestShared := by
  have hfree : SlotTable.free (started msgMemory (identityOf 0) 5).manager.sessions.slots =
      some ⟨0, firstSlot_lt⟩ :=
    SlotTable.free_eq_some.mpr ⟨rfl, fun j hj => absurd hj (Nat.not_lt_zero j)⟩
  rw [Shared.sessionManagerAdd, hfree]
  rfl

theorem guest_decode : udpNext (listenerDecode guestPlatform
    (listenerUpdate guestShared 0 ⟨9, 9⟩) 0 firstSent) = .inTurn (.write 0 firstRead) := rfl

/-- That manager once the guest's datagram has arrived. -/
def reachedShared : SharedManager MsgBuf := listenerUpdate guestShared 0 ⟨9, 9⟩

def firstReplyPacked : Bytes := tunnelCompressFlagNone :: (List.replicate 4 0 ++ firstReply)

/-- The reply as the server sends it. -/
def replySent : Bytes :=
  beBytes 8 (guestId 0).toNat ++
    (beBytes 8 0 ++ (firstReplyPacked ++ List.replicate tunnelAeadTagSize 0))

theorem reply_read : TunStep guestPlatform reachedShared .read none reachedShared
    (.lock firstReply firstReplyPacked) :=
  TunStep.read reachedShared firstReply

/-- The manager once the reply has been encoded. -/
def repliedShared : SharedManager MsgBuf :=
  (tunLocked guestPlatform reachedShared firstReply firstReplyPacked).1

/-- The reply is for the guest. -/
theorem reply_locked : TunStep guestPlatform reachedShared (.lock firstReply firstReplyPacked)
    (some (.tunSender firstReply)) repliedShared (.send ⟨9, 9⟩ replySent) := by
  have hfind : SlotTable.find reachedShared.sessions.slots (fun session => tunSenderAccepts
      (firstReply.getD 19 0) (reachedShared.sessions.object session)) =
      some (⟨0, firstSlot_lt⟩, 0) :=
    SlotTable.find_eq_some.mpr ⟨rfl, rfl, fun j hj => absurd hj (Nat.not_lt_zero j)⟩
  have hsend : (tunLocked guestPlatform reachedShared firstReply firstReplyPacked).2 =
      .send ⟨9, 9⟩ replySent := by
    unfold tunLocked
    rw [hfind]
    rfl
  exact hsend ▸ TunStep.lock reachedShared firstReply firstReplyPacked

/-- A guest connects and its datagram arrives while there is a reply for it. The server is shut
down when its threads are about to write the packet and to send the reply. -/
theorem busy_run : ∃ steps s,
    ThreadRun msgMemory guestPlatform (identityOf 0) 5 steps s ∧
      steps.filterMap stepWrites = [] ∧ steps.filterMap stepSends = [] ∧ s.main = .joinUdp ∧
      s.manager.udpSocket = -1 ∧ s.listener = .done ∧ s.udp = .inTurn (.write 0 firstRead) ∧
      s.tun = .send ⟨9, 9⟩ replySent := by
  obtain ⟨r, hx⟩ := guest_connect
  have hselect : ThreadRun msgMemory guestPlatform (identityOf 0) 5 _ _ :=
    (Path.nil.snoc (.listener (.check _))).snoc (.listener (.select _ .ready))
  have haccept := (hselect.snoc (.listener (.recheck _ .ready))).snoc
    (.listener (.accepted _ (guestSocket 0) []))
  have hconnect := haccept.snoc (.listener (.connected hx (.inr ⟨_, guestShared_add⟩)))
  have hready := ((hconnect.snoc (.udp (.start _ true))).snoc (.udp (.check _))).snoc
    (.udp (.select _ .ready))
  have hreceive := (hready.snoc (.udp (.recheck _ .ready))).snoc
    (.udp (.receive _ ⟨9, 9⟩ firstSent (by decide) (by decide)))
  have hwrite := ((hreceive.snoc (.udp guest_lookup)).snoc
    (.udp (.update _ 0 ⟨9, 9⟩ firstSent))).snoc (.udp (.decode _ 0 firstSent))
  have hpacket := ((hwrite.snoc (.tun (.start _ true))).snoc (.tun (.check _))).snoc
    (.tun (.select _ .ready))
  have hsend := ((hpacket.snoc (.tun (.recheck _ .ready))).snoc (.tun reply_read)).snoc
    (.tun reply_locked)
  have hstopped := ((hsend.snoc (.main (.leave _ rfl))).snoc (.main (.shutdown _ rfl))).snoc
    (.listener (.check _))
  have hmarked := ((hstopped.snoc (.main (.joinListener _ rfl rfl))).snoc
    (.main (.closeUdp _ rfl))).snoc (.main (.markUdp _ rfl))
  exact ⟨_, _, hmarked, rfl, rfl, rfl, rfl, rfl, guest_decode, rfl⟩

/-- The two threads finish what they are doing, and the server ends. -/
theorem delivered_run : ∃ steps s,
    ThreadRun msgMemory guestPlatform (identityOf 0) 5 steps s ∧ s.main = .ended ∧
      steps.filterMap stepWrites = [firstRead] ∧
      steps.filterMap stepSends = [(⟨9, 9⟩, replySent)] := by
  obtain ⟨steps, s, hrun, hwrites, hsends, hmain, hsocket, -, hudp, htun⟩ := busy_run
  have hwrite : UdpStep guestPlatform s.manager s.udp none s.manager .check := by
    rw [hudp]
    exact .write s.manager 0 firstRead
  have hsend : TunStep guestPlatform s.manager s.tun none s.manager .check := by
    rw [htun]
    exact .send s.manager ⟨9, 9⟩ replySent
  have hdone : (if 0 ≤ s.manager.udpSocket then UdpPc.select else .done) = .done := by
    rw [hsocket]
    exact if_neg (by decide)
  have hdone' : (if 0 ≤ s.manager.udpSocket then TunPc.select else .done) = .done := by
    rw [hsocket]
    exact if_neg (by decide)
  have hwritten := (hrun.snoc (.udp hwrite)).snoc (.udp (.check _))
  have hjoined := hwritten.snoc (.main (.joinUdp _ hmain hdone))
  have hsent := (hjoined.snoc (.tun hsend)).snoc (.tun (.check _))
  have hended := (hsent.snoc (.main (.joinTun _ rfl hdone'))).snoc (.main (.disconnectAll _ rfl))
  refine ⟨_, _, hended, rfl, ?_, ?_⟩
  · simp only [filterMap_snoc, hwrites, stepWrites, hudp, UdpPc.writes]
    rfl
  · simp only [filterMap_snoc, hsends, stepSends, htun, TunPc.sends]
    rfl

/-- The turns of both runs, with a packet and a reply pending and with both of them delivered. -/
theorem threads_refine_shutdown : (∃ steps s, s.main = .joinUdp ∧
      s.udp = .inTurn (.write 0 firstRead) ∧ s.tun = .send ⟨9, 9⟩ replySent ∧
      TurnsRun msgMemory guestPlatform (identityOf 0) 5 steps s) ∧
    ∃ steps s, s.main = .ended ∧ steps.filterMap stepWrites = [firstRead] ∧
      steps.filterMap stepSends = [(⟨9, 9⟩, replySent)] ∧
      TurnsRun msgMemory guestPlatform (identityOf 0) 5 steps s := by
  obtain ⟨steps, s, hrun, -, -, hmain, -, -, hudp, htun⟩ := busy_run
  obtain ⟨steps', s', hrun', hended, hwrites, hsends⟩ := delivered_run
  exact ⟨⟨steps, s, hmain, hudp, htun, threads_refine (by decide) hrun⟩,
    steps', s', hended, hwrites, hsends, threads_refine (by decide) hrun'⟩

end Guest

end Sencd.Threads
