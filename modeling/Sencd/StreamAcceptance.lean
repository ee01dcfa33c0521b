import Sencd.WireHandshake

/-!
# What a handshake accepts

A run on the wire goes with the bytes that the peer still delivers and with the file of the
trusted key. A part of a handshake accepts a stream when some result of it can be continued on
the rest of the stream; it has that result exactly when its sends succeed and nothing on the
machine fails.
-/
namespace Sencd
open ByteOrder CallProgram StreamNetwork Wire

/-- What an answered call leaves of the file. Reads and writes may fail or stop short. -/
def FileStep : Event (StreamCall.Answer (α := UInt8) LocalCall.Answer) → Option Bytes →
    Option Bytes → Prop
  | ⟨.own .fopenRead, ok⟩, file, file' => (ok = true → file.isSome = true) ∧ file' = file
  | ⟨.own (.fread _), bytes⟩, file, file' => bytes.1 <+: file.getD [] ∧ file' = file
  | ⟨.own .fopenWrite, ok⟩, file, file' => file' = if ok = true then some [] else file
  | ⟨.own (.fwrite data), n⟩, _, file' => file' = some (data.take n.val)
  | _, file, file' => file' = file

/-- `Filed t file file'`: the calls `t` find `file` and leave `file'`. -/
def Filed : WireCalls → Option Bytes → Option Bytes → Prop
  | [], file, file' => file' = file
  | e :: t, file, file' => ∃ file'', FileStep e file file'' ∧ Filed t file'' file'

theorem filed_append {t u : WireCalls} {file file' : Option Bytes} :
    Filed (t ++ u) file file' ↔ ∃ file'', Filed t file file'' ∧ Filed u file'' file' := by
  induction t generalizing file with
  | nil => simp [Filed]
  | cons e t ih =>
      simp only [List.cons_append, Filed, ih]
      constructor
      · intro h
        obtain ⟨file₁, hstep, file₂, ht, hu⟩ := h
        exact ⟨file₂, ⟨file₁, hstep, ht⟩, hu⟩
      · intro h
        obtain ⟨file₂, ⟨file₁, hstep, ht⟩, hu⟩ := h
        exact ⟨file₁, hstep, file₂, ht, hu⟩

/-- The whole of a key has been written to the file. -/
def WritesKey (t : WireCalls) : Prop :=
  ∃ data : Bytes, ⟨.own (.fwrite data), Fin.last data.length⟩ ∈ t

/-- Calls that do not touch the file of the trusted key. -/
def OffFile : StreamCall UInt8 LocalCall → Prop
  | .own .fopenRead | .own (.fread _) | .own .fopenWrite | .own (.fwrite _) => False
  | _ => True

theorem fileStep_offFile {c : StreamCall UInt8 LocalCall} (h : OffFile c)
    {r : c.Answer LocalCall.Answer} {file file' : Option Bytes} :
    FileStep ⟨c, r⟩ file file' ↔ file' = file := by
  match c, h with
  | .send _, _ => rfl
  | .recv _, _ => rfl
  | .own i, h =>
      cases i with
      | fopenRead | fread _ | fopenWrite | fwrite _ => exact absurd h id
      | _ => rfl

theorem filed_offFile {t : WireCalls} (h : ∀ e ∈ t, OffFile e.1) {file file' : Option Bytes} :
    Filed t file file' ↔ file' = file := by
  induction t generalizing file with
  | nil => rfl
  | cons e t ih =>
      have hrest : ∀ {file : Option Bytes}, Filed t file file' ↔ file' = file :=
        ih fun e' he => h e' (List.mem_cons_of_mem _ he)
      obtain ⟨c, r⟩ := e
      simp only [Filed, fileStep_offFile (h ⟨c, r⟩ List.mem_cons_self), hrest]
      simp

/-- What a call is answered on a device, when it does not fail: libsodium computes its functions,
and random bytes and key pairs are those of the device. -/
def Answers (S : Sodium) (D : Device) :
    Event (StreamCall.Answer (α := UInt8) LocalCall.Answer) → Prop
  | ⟨.own (.randombytesBuf size), bytes⟩ => bytes = D.random size
  | ⟨.own .cryptoKxKeypair, r⟩ => ∀ keys, r = some keys → keys = (D.ephPublicKey, D.ephPrivateKey)
  | ⟨.own (.cryptoSignVerifyDetached signature message publicKey), ok⟩ =>
      ok = S.verify signature message publicKey
  | ⟨.own (.cryptoKxServerSessionKeys serverPk serverSk clientPk), r⟩ =>
      r = S.serverKeys serverPk serverSk clientPk
  | ⟨.own (.cryptoKxClientSessionKeys clientPk clientSk serverPk), r⟩ =>
      r = S.clientKeys clientPk clientSk serverPk
  | _ => True

/-- A call that has not failed for want of memory, or of key generation or signing. -/
def Works : Event (StreamCall.Answer (α := UInt8) LocalCall.Answer) → Prop
  | ⟨.own .malloc, ok⟩ => ok = true
  | ⟨.own .cryptoKxKeypair, r⟩ => r ≠ none
  | ⟨.own (.cryptoSignDetached _ _), r⟩ => r ≠ none
  | _ => True

/-- Key generation, signing and allocation succeed. -/
def Unfailing (u : WireCalls) : Prop := ∀ e ∈ u, Works e

theorem unfailing_append {u v : WireCalls} : Unfailing (u ++ v) ↔ Unfailing u ∧ Unfailing v := by
  simp only [Unfailing, List.mem_append, or_imp, forall_and]

theorem unfailing_cons {e : Event (StreamCall.Answer (α := UInt8) LocalCall.Answer)}
    {u : WireCalls} : Unfailing (e :: u) ↔ Works e ∧ Unfailing u := by
  simp only [Unfailing, List.mem_cons, forall_eq_or_imp]

theorem Unfailing.snoc {u : WireCalls} (h : Unfailing u)
    {e : Event (StreamCall.Answer (α := UInt8) LocalCall.Answer)} (he : Works e) :
    Unfailing (u ++ [e]) :=
  unfailing_append.mpr ⟨h, unfailing_cons.mpr ⟨he, List.forall_mem_nil _⟩⟩

theorem Unfailing.allocated {u : WireCalls} (h : Unfailing u) : Allocated u :=
  fun ok hmem => h ⟨.own .malloc, ok⟩ hmem

/-- The surroundings of a program: what the peer still delivers, and the file of the trusted
key. -/
@[ext] structure Machine where
  stream : Bytes
  file : Option Bytes

/-- The program returns `a` after the calls `u`, which turn `m` into `m'`. -/
structure Ran (S : Sodium) (D : Device) {α : Type} (p : Wire α) (u : WireCalls) (m : Machine)
    (a : α) (m' : Machine) : Prop where
  exec : Exec p u (.ret a)
  fed : Fed u m.stream m'.stream
  filed : Filed u m.file m'.file
  answered : ∀ e ∈ u, Answers S D e

variable {S : Sodium} {D : Device} {α β : Type} {u : WireCalls} {m m' : Machine} {a : α}
  {host : Endian}

theorem ran_ret {b : α} : Ran S D (.ret b) u m a m' ↔ u = [] ∧ a = b ∧ m' = m := by
  obtain ⟨stream, file⟩ := m
  obtain ⟨stream', file'⟩ := m'
  constructor
  · intro h
    obtain ⟨rfl, he⟩ := exec_ret.mp h.exec
    obtain rfl := Prog.ret.inj he
    obtain rfl := fed_nil.mp h.fed
    obtain rfl : file' = file := h.filed
    exact ⟨rfl, rfl, rfl⟩
  · rintro ⟨rfl, rfl, he⟩
    obtain ⟨rfl, rfl⟩ := Machine.mk.inj he
    exact ⟨.nil _, fed_nil.mpr rfl, rfl, by simp⟩

/-- A sequence runs by its parts. -/
theorem ran_bind {p : Wire β} {f : β → Wire α} :
    Ran S D (p >>= f) u m a m' ↔
      ∃ b v w m₁, u = v ++ w ∧ Ran S D p v m b m₁ ∧ Ran S D (f b) w m₁ a m' := by
  constructor
  · intro h
    obtain ⟨b, v, w, rfl, hv, hw⟩ := exec_bind_ret.mp h.exec
    obtain ⟨stream, hfv, hfw⟩ := fed_append.mp h.fed
    obtain ⟨file, hlv, hlw⟩ := filed_append.mp h.filed
    have hv' := fun e he => h.answered e (List.mem_append_left w he)
    have hw' := fun e he => h.answered e (List.mem_append_right v he)
    exact ⟨b, v, w, ⟨stream, file⟩, rfl, ⟨hv, hfv, hlv, hv'⟩, ⟨hw, hfw, hlw, hw'⟩⟩
  · rintro ⟨b, v, w, m₁, rfl, hv, hw⟩
    refine ⟨exec_bind_ret.mpr ⟨b, v, w, rfl, hv.exec, hw.exec⟩, fed_append.mpr ⟨_, hv.fed, hw.fed⟩,
      filed_append.mpr ⟨_, hv.filed, hw.filed⟩, fun e he => ?_⟩
    obtain he | he := List.mem_append.mp he
    · exact hv.answered e he
    · exact hw.answered e he

/-- A local call leaves the stream alone. -/
theorem ran_own {i : LocalCall} {k : i.Answer → Wire α} (h : Ran S D (.call (.own i) k) u m a m') :
    ∃ r w m₁, u = ⟨.own i, r⟩ :: w ∧ Answers S D ⟨.own i, r⟩ ∧ m₁.stream = m.stream ∧
      FileStep ⟨.own i, r⟩ m.file m₁.file ∧ Ran S D (k r) w m₁ a m' := by
  obtain ⟨r, w, rfl, hw⟩ := exec_call_ret.mp h.exec
  obtain ⟨file, hstep, hfiled⟩ := h.filed
  have hrest := fun e he => h.answered e (List.mem_cons_of_mem _ he)
  exact ⟨r, w, ⟨m.stream, file⟩, rfl, h.answered _ List.mem_cons_self, rfl, hstep,
    ⟨hw, fed_own.mp h.fed, hfiled, hrest⟩⟩

section Frames

variable {h : WireCalls}

variable {C : StreamCall UInt8 LocalCall → Prop}

/-- The loops issue transfers only. -/
theorem sendAll_holds (hsend : ∀ data, data ≠ [] → C (.send data)) (hh : Unfailing h)
    (buffer : Bytes) (totalSent : ℕ) :
    Holds (fun _ c => C c) (fun h' _ => Unfailing h') h (sendAll buffer totalSent) := by
  induction hleft : buffer.length - totalSent using Nat.strong_induction_on
    generalizing h totalSent with
  | _ left ih =>
      by_cases hlt : totalSent < buffer.length
      · rw [sendAll_lt hlt]
        have hne : buffer.drop totalSent ≠ [] := by
          rw [Ne, List.drop_eq_nil_iff]
          omega
        refine ⟨hsend _ hne, fun sent => ?_⟩
        have hsent : Unfailing (h ++ [⟨.send (buffer.drop totalSent), sent⟩]) := hh.snoc trivial
        by_cases hzero : sent.val = 0
        · simp only [hzero, if_true]
          exact hsent
        · simp only [hzero, if_false]
          exact ih _ (by omega) hsent _ rfl
      · rw [sendAll_done (by omega)]
        exact hh

theorem recvAll_holds (hrecv : ∀ limit, C (.recv limit)) (hh : Unfailing h) (length : ℕ)
    (received : Filled length) :
    Holds (fun _ c => C c) (fun h' _ => Unfailing h') h (recvAll length received) := by
  induction hleft : length - received.1.length using Nat.strong_induction_on
    generalizing h received with
  | _ left ih =>
      by_cases hlt : received.1.length < length
      · rw [recvAll_lt hlt]
        refine ⟨hrecv _, fun chunk => ?_⟩
        have hchunk : Unfailing (h ++ [⟨.recv (length - received.1.length), chunk⟩]) :=
          hh.snoc trivial
        by_cases hempty : chunk.1 = []
        · simp only [hempty, if_true]
          exact hchunk
        · simp only [hempty, if_false]
          have hpos : 0 < chunk.1.length := List.length_pos_iff.mpr hempty
          refine ih _ ?_ hchunk _ rfl
          simp only [Filled.more, List.length_append]
          omega
      · rw [recvAll_done (le_antisymm received.2 (by omega))]
        exact hh

theorem packetSend_holds (hsend : ∀ data, data ≠ [] → C (.send data))
    (hpadding : C (.own .headerPadding)) (hh : Unfailing h) (packet : Packet ByteBuf) :
    Holds (fun _ c => C c) (fun h' _ => Unfailing h') h (packetSend host packet) := by
  refine ⟨hpadding, fun padding => ?_⟩
  have hh' : Unfailing (h ++ [⟨.own .headerPadding, padding⟩]) := hh.snoc trivial
  dsimp only
  split_ifs with hlong hpayload
  · exact hh'
  · apply (sendAll_holds hsend hh' _ 0).bind
    intro h' ok hok
    cases ok with
    | true => exact sendAll_holds hsend hok _ 0
    | false => exact hok
  · apply (sendAll_holds hsend hh' _ 0).bind
    intro h' ok hok
    cases ok with
    | true => exact hok
    | false => exact hok

/-- A packet has been received only if its payload was allocated. -/
theorem packetReceive_holds (hrecv : ∀ limit, C (.recv limit)) (hmalloc : C (.own .malloc))
    (hh : Unfailing h) :
    Holds (fun _ c => C c) (fun h' r => r ≠ none → Unfailing h') h (packetReceive host) := by
  apply (recvAll_holds hrecv hh _ _).bind
  intro h' header hh'
  cases header with
  | none => exact fun _ => hh'
  | some header =>
      change Holds _ _ h' (packetReceiveChecked host header.1)
      unfold packetReceiveChecked
      dsimp only
      by_cases hversion : header.1.getD 4 0 ≠ currentProtocolVersion
      · rw [if_pos hversion]
        exact fun _ => hh'
      rw [if_neg hversion]
      cases PacketType.ofByte (header.1.getD 5 0) with
      | none => exact fun _ => hh'
      | some type =>
          dsimp only
          split_ifs with hlen
          · exact fun _ => hh'
          unfold packetReceivePayload
          split_ifs with hpos
          · refine ⟨hmalloc, fun ok => ?_⟩
            cases ok with
            | false => exact fun hr => absurd rfl hr
            | true =>
                have hdata : Unfailing (h' ++ [⟨.own .malloc, true⟩]) := hh'.snoc rfl
                apply (recvAll_holds hrecv hdata _ _).bind
                intro h'' data hh''
                cases data with
                | none => exact fun _ => hh''
                | some data => exact fun _ => hh''
          · exact fun _ => hh'

end Frames

/-- The stream starts with the frame of a valid packet that satisfies `P` with the rest. -/
def Starts (P : Packet ByteBuf → Bytes → Prop) (stream : Bytes) : Prop :=
  ∃ packet padding rest, packet.Valid ∧ stream = frameBytes packet padding ++ rest ∧ P packet rest

theorem starts_frameBytes {P : Packet ByteBuf → Bytes → Prop} {packet : Packet ByteBuf}
    {padding : ByteBuf 2} {rest : Bytes} (h : packet.Valid) :
    Starts P (frameBytes packet padding ++ rest) ↔ P packet rest := by
  constructor
  · rintro ⟨packet', padding', rest', hvalid, hsame, hP⟩
    obtain ⟨rfl, rfl⟩ := frameBytes_inj h hvalid hsame
    exact hP
  · intro hP
    exact ⟨packet, padding, rest, h, rfl, hP⟩

/-- `packet_receive` takes the frame off with which the stream starts, if there is memory. -/
theorem ran_packetReceive {r : Option (Packet ByteBuf)}
    (h : Ran S D (packetReceive host) u m r m') :
    AllSent u ∧ (∀ e ∈ u, OffFile e.1) ∧
      (∀ packet, r = some packet → Unfailing u ∧ packet.Valid ∧
        ∃ padding, m.stream = frameBytes packet padding ++ m'.stream) ∧
      (r = none → Unfailing u → ∀ P, ¬ Starts P m.stream) := by
  obtain ⟨hsent, hsome, hnone⟩ := fed_packetReceive h.exec h.fed
  have hholds : Holds (fun _ c => OffFile c) (fun h' r => r ≠ none → Unfailing h') []
      (packetReceive host) := packetReceive_holds (fun _ => trivial) trivial (by simp [Unfailing])
  refine ⟨hsent, fun e he => ?_, fun packet hr => ?_, fun hr hwork P => ?_⟩
  · obtain ⟨_, _, -, hoff⟩ := hholds.site_of_mem h.exec he
    exact hoff
  · have hwork : Unfailing u := hholds.post h.exec (by simp [hr])
    exact ⟨hwork, hsome packet hr⟩
  · rintro ⟨packet, padding, rest, hvalid, hstream, -⟩
    exact hnone hr hwork.allocated packet padding rest hvalid hstream

/-- `packet_send` reads nothing. -/
theorem ran_packetSend {packet : Packet ByteBuf} {ok : Bool}
    (hlen : packet.payloadLength ≤ maxPacketSize) (h : Ran S D (packetSend host packet) u m ok m') :
    m' = m ∧ Unfailing u ∧ (ok = true ↔ AllSent u) := by
  obtain ⟨stream, file⟩ := m
  obtain ⟨stream', file'⟩ := m'
  obtain ⟨rfl, hsent⟩ := fed_packetSend hlen h.exec h.fed
  have hholds : Holds (fun _ c => OffFile c) (fun h' _ => Unfailing h') []
      (packetSend host packet) :=
    packetSend_holds (fun _ _ => trivial) trivial (by simp [Unfailing]) packet
  have hfile : file' = file := by
    apply (filed_offFile fun e he => ?_).mp h.filed
    obtain ⟨_, _, -, hoff⟩ := hholds.site_of_mem h.exec he
    exact hoff
  subst hfile
  exact ⟨rfl, hholds.post h.exec, hsent⟩

section Calls

variable {C : StreamCall UInt8 LocalCall → Prop} {h : WireCalls}

/-- The calls on the wire behind one call of a handshake; only saving a key uses the file. -/
theorem wireCall_holds (hsend : ∀ data, data ≠ [] → C (.send data)) (hrecv : ∀ n, C (.recv n))
    (hown : ∀ i, OffFile (.own i) → C (.own i)) (c : Call ByteBuf)
    (hfile : ∀ key, c = .cryptoTrustKeySave key → C (.own .fopenWrite) ∧ C (.own (.fwrite key.1))) :
    Holds (fun _ c => C c) (fun _ _ => True) h (wireCall host c) := by
  have hwork : Unfailing ([] : WireCalls) := by simp [Unfailing]
  cases c with
  | packetReceive _ =>
      exact (packetReceive_holds hrecv (hown _ trivial) hwork).anywhere h
  | packetSend _ packet =>
      exact (packetSend_holds hsend (hown _ trivial) hwork packet).anywhere h
  | cryptoTrustKeySave key =>
      refine ⟨(hfile key rfl).1, fun ok => ?_⟩
      cases ok with
      | true => exact ⟨(hfile key rfl).2, fun _ => trivial⟩
      | false => trivial
  | _ => exact ⟨hown _ trivial, fun _ => trivial⟩

/-- What holds of the calls on the wire holds throughout a handshake. -/
theorem onWire_holds {P : Call ByteBuf → Prop} {Q : Calls ByteBuf → α → Prop}
    {p : Handshake ByteBuf α} {t : Calls ByteBuf} (hp : Holds (fun _ c => P c) Q t p)
    (hC : ∀ c h, P c → Holds (fun _ c => C c) (fun _ _ => True) h (wireCall host c)) :
    Holds (fun _ c => C c) (fun _ _ => True) h (onWire host p) := by
  induction p generalizing t h with
  | ret b => trivial
  | call c k ih => exact (hC c h hp.1).bind fun h' r _ => ih r (hp.2 r)

end Calls

theorem onWire_sends (p : Handshake ByteBuf α) (h : WireCalls) :
    Holds (fun _ c => c.Sends) (fun _ _ => True) h (onWire host p) :=
  onWire_holds (Holds.of_true (h := []) p) fun c _ _ => wireCall_holds (fun _ hdata => hdata)
    (fun _ => trivial) (fun _ _ => trivial) c fun _ _ => ⟨trivial, trivial⟩

/-- What a device that has no file to read answers can be followed on the file. -/
theorem exists_filed (S : Sodium) {D : Device} (hD : D.file = none) {t : WireCalls}
    (ht : ∀ i r, ⟨.own i, r⟩ ∈ t → r = D.answer S 0 i) (file : Option Bytes) :
    ∃ file', Filed t file file' := by
  induction t generalizing file with
  | nil => exact ⟨file, rfl⟩
  | cons e t ih =>
      obtain ⟨c, r⟩ := e
      have hstep : ∃ file', FileStep ⟨c, r⟩ file file' := by
        cases c with
        | send data => exact ⟨file, rfl⟩
        | recv limit => exact ⟨file, rfl⟩
        | own i =>
            obtain rfl := ht i r List.mem_cons_self
            cases i with
            | fopenRead => exact ⟨file, by simp [Device.answer, hD], rfl⟩
            | fread size => exact ⟨file, by simp [Device.answer, hD], rfl⟩
            | fopenWrite => exact ⟨_, rfl⟩
            | fwrite data => exact ⟨_, rfl⟩
            | _ => exact ⟨file, rfl⟩
      obtain ⟨file₁, hstep⟩ := hstep
      obtain ⟨file₂, hrest⟩ := ih (fun i r hr => ht i r (List.mem_cons_of_mem _ hr)) file₁
      exact ⟨file₂, file₁, hstep, hrest⟩

/-- A device answers as the library does, and nothing fails on it. -/
theorem device_answers (S : Sodium) (D : Device) (i : LocalCall) :
    Answers S D ⟨.own i, D.answer S 0 i⟩ ∧ Works ⟨.own i, D.answer S 0 i⟩ := by
  cases i with
  | cryptoKxKeypair =>
      exact ⟨fun keys hkeys => (Option.some.inj hkeys).symm, by simp [Works, Device.answer]⟩
  | cryptoSignDetached _ _ => exact ⟨trivial, by simp [Works, Device.answer]⟩
  | _ => exact ⟨by first | exact rfl | exact trivial, by first | exact rfl | exact trivial⟩

/-- A program runs to its end, on any stream and next to any file, with the local answers of a
device that has no file to read. -/
theorem exists_answered (S : Sodium) {D : Device} (hD : D.file = none) {p : Wire α}
    (hp : Holds (fun _ c => c.Sends) (fun _ _ => True) [] p) (m : Machine) :
    ∃ u a m', Ran S D p u m a m' ∧ AllSent u ∧ Unfailing u ∧
      ∀ i r, ⟨.own i, r⟩ ∈ u → r = D.answer S 0 i := by
  obtain ⟨u, a, stream, hexec, hfed, hsent, hown⟩ :=
    exists_fed (fun i => D.answer S 0 i) hp m.stream
  obtain ⟨file, hfile⟩ := exists_filed S hD hown m.file
  have hcalls : ∀ e ∈ u, Answers S D e ∧ Works e := by
    intro e he
    obtain ⟨c, r⟩ := e
    cases c with
    | send data => exact ⟨trivial, trivial⟩
    | recv limit => exact ⟨trivial, trivial⟩
    | own i =>
        obtain rfl := hown i r he
        exact device_answers S D i
  exact ⟨u, a, ⟨stream, file⟩, ⟨hexec, hfed, hfile, fun e he => (hcalls e he).1⟩, hsent,
    fun e he => (hcalls e he).2, hown⟩

/-- It also does if nothing fails but the opening of the file. -/
theorem exists_ran (S : Sodium) (D : Device) {p : Wire α}
    (hp : Holds (fun _ c => c.Sends) (fun _ _ => True) [] p) (m : Machine) :
    ∃ u a m', Ran S D p u m a m' ∧ AllSent u ∧ Unfailing u ∧ ⟨.own .fopenWrite, true⟩ ∉ u := by
  let unopened : Device := { D with file := none, opened := false }
  have hD : unopened.file = none := rfl
  obtain ⟨u, a, m', hran, hsent, hwork, hown⟩ := exists_answered S hD hp m
  exact ⟨u, a, m', ⟨hran.exec, hran.fed, hran.filed, hran.answered⟩, hsent, hwork,
    fun hmem => Bool.false_ne_true (hown .fopenWrite true hmem).symm⟩

theorem onWire_bind (p : Handshake ByteBuf β) (f : β → Handshake ByteBuf α) :
    onWire host (p >>= f) = onWire host p >>= fun b => onWire host (f b) :=
  Prog.interpret_bind (wireCall host) p f

theorem ran_perform {c : Call ByteBuf} {f : c.Answer → Handshake ByteBuf α} :
    Ran S D (onWire host (perform c >>= f)) u m a m' ↔ ∃ r v w m₁, u = v ++ w ∧
      Ran S D (wireCall host c) v m r m₁ ∧ Ran S D (onWire host (f r)) w m₁ a m' := ran_bind

/-- A part of a handshake accepts what `A` says: it has the result `r` with which the rest of the
stream satisfies a condition exactly when the stream satisfies `A` of the condition. -/
structure Takes (u : WireCalls) (r : Option β) (A : (β → Bytes → Prop) → Bytes → Prop)
    (s s' : Bytes) : Prop where
  sound : ∀ (P : β → Bytes → Prop) (b : β), r = some b → P b s' → AllSent u ∧ A P s
  complete : Unfailing u → AllSent u → ∀ P, A P s → ∃ b, r = some b ∧ P b s'

namespace Takes

variable {γ : Type} {v w : WireCalls} {r : Option β} {r' : Option γ} {s s' s'' : Bytes}
  {A : (β → Bytes → Prop) → Bytes → Prop} {B : β → (γ → Bytes → Prop) → Bytes → Prop}

theorem ret (b : β) (s : Bytes) : Takes [] (some b) (fun P => P b) s s where
  sound P b' hb hP := by
    obtain rfl := Option.some.inj hb
    exact ⟨allSent_nil, hP⟩
  complete _ _ P hP := ⟨b, rfl, hP⟩

/-- Nothing is accepted. -/
theorem refuse (hA : ∀ P, ¬ A P s) : Takes u none A s s' where
  sound _ b hb := absurd hb (Option.some_ne_none b).symm
  complete _ _ P hP := absurd hP (hA P)

/-- A part that cannot end well unless something on the machine fails. -/
theorem fail (hu : ¬ (Unfailing u ∧ AllSent u)) : Takes u none A s s' where
  sound _ b hb := absurd hb (Option.some_ne_none b).symm
  complete hwork hsent := absurd ⟨hwork, hsent⟩ hu

/-- Where a condition holds it may be asked for. -/
theorem guard {c : Prop} (hc : c) (h : Takes u r A s s') :
    Takes u r (fun P s => c ∧ A P s) s s' where
  sound P b hb hP := ⟨(h.sound P b hb hP).1, hc, (h.sound P b hb hP).2⟩
  complete hwork hsent P hP := h.complete hwork hsent P hP.2

/-- A value that is there may be asked for. -/
theorem value {x : γ} {C : γ → (β → Bytes → Prop) → Bytes → Prop} (h : Takes u r (C x) s s') :
    Takes u r (fun P s => ∃ x', some x = some x' ∧ C x' P s) s s' where
  sound P b hb hP := ⟨(h.sound P b hb hP).1, x, rfl, (h.sound P b hb hP).2⟩
  complete hwork hsent P hP := by
    obtain ⟨x', hx, hC⟩ := hP
    obtain rfl := Option.some.inj hx
    exact h.complete hwork hsent P hC

/-- One part after the other. -/
theorem andThen (hv : Takes v r A s s') (hnone : r = none → r' = none)
    (hw : ∀ b, r = some b → Takes w r' (B b) s' s'') :
    Takes (v ++ w) r' (fun P => A fun b => B b P) s s'' where
  sound P c hc hP := by
    cases hr : r with
    | none =>
        rw [hnone hr] at hc
        contradiction
    | some b =>
        obtain ⟨hsent, hB⟩ := (hw b hr).sound P c hc hP
        obtain ⟨hsent', hA⟩ := hv.sound (fun b => B b P) b hr hB
        exact ⟨allSent_append.mpr ⟨hsent', hsent⟩, hA⟩
  complete hwork hsent P hA := by
    obtain ⟨hwork', hworkw⟩ := unfailing_append.mp hwork
    obtain ⟨hsent', hsentw⟩ := allSent_append.mp hsent
    obtain ⟨b, hr, hB⟩ := hv.complete hwork' hsent' _ hA
    exact (hw b hr).complete hworkw hsentw P hB

end Takes

section Calls

variable {r : Option β} {A : (β → Bytes → Prop) → Bytes → Prop}

/-- A handshake that receives a packet accepts what starts with a frame it goes on with. -/
theorem takes_receive {socket : ℤ} {f : Option (Packet ByteBuf) → Handshake ByteBuf α}
    {B : Packet ByteBuf → (β → Bytes → Prop) → Bytes → Prop}
    (h : Ran S D (onWire host (perform (.packetReceive socket) >>= f)) u m a m')
    (hnone : ∀ w m₁, Ran S D (onWire host (f none)) w m₁ a m' → r = none)
    (hsome : ∀ packet w m₁, Ran S D (onWire host (f (some packet))) w m₁ a m' →
      packet.Valid → Takes w r (B packet) m₁.stream m'.stream) :
    Takes u r (fun P => Starts fun packet => B packet P) m.stream m'.stream := by
  obtain ⟨received, v, w, m₁, rfl, hv, hw⟩ := ran_perform.mp h
  obtain ⟨hsent, -, hframe, hno⟩ := ran_packetReceive hv
  cases received with
  | none =>
      rw [hnone w m₁ hw]
      constructor
      · intro _ b hb
        contradiction
      · intro hwork _ _ hP
        exact absurd hP (hno rfl (unfailing_append.mp hwork).1 _)
  | some packet =>
      obtain ⟨-, hvalid, padding, hstream⟩ := hframe packet rfl
      have hrest := hsome packet w m₁ hw hvalid
      rw [hstream]
      constructor
      · intro P b hb hP
        obtain ⟨hsent', hB⟩ := hrest.sound P b hb hP
        exact ⟨allSent_append.mpr ⟨hsent, hsent'⟩, (starts_frameBytes hvalid).mpr hB⟩
      · intro hwork hsent' P hP
        exact hrest.complete (unfailing_append.mp hwork).2 (allSent_append.mp hsent').2 P
          ((starts_frameBytes hvalid).mp hP)

/-- A handshake that sends a packet and gives up when it cannot. -/
theorem takes_send {socket : ℤ} {packet : Packet ByteBuf} {f : Bool → Handshake ByteBuf α}
    (hlen : packet.payloadLength ≤ maxPacketSize)
    (h : Ran S D (onWire host (perform (.packetSend socket packet) >>= f)) u m a m')
    (hfalse : ∀ w, Ran S D (onWire host (f false)) w m a m' → r = none)
    (htrue : ∀ w, Ran S D (onWire host (f true)) w m a m' → Takes w r A m.stream m'.stream) :
    Takes u r A m.stream m'.stream := by
  obtain ⟨ok, v, w, m₁, rfl, hv, hw⟩ := ran_perform.mp h
  obtain ⟨rfl, hwork, hiff⟩ := ran_packetSend hlen hv
  cases ok with
  | false =>
      rw [hfalse w hw]
      exact .fail fun hu => Bool.false_ne_true (hiff.mpr (allSent_append.mp hu.2).1)
  | true =>
      have hrest := htrue w hw
      have hsent := hiff.mp rfl
      constructor
      · intro P b hb hP
        obtain ⟨hsent', hA⟩ := hrest.sound P b hb hP
        exact ⟨allSent_append.mpr ⟨hsent, hsent'⟩, hA⟩
      · intro hwork' hsent' P hA
        exact hrest.complete (unfailing_append.mp hwork').2 (allSent_append.mp hsent').2 P hA

/-- A handshake that makes a local call, and may give up when it fails. -/
theorem takes_own {i : LocalCall} {k : i.Answer → Wire α} (h : Ran S D (.call (.own i) k) u m a m')
    (hk : ∀ r' w m₁, Ran S D (k r') w m₁ a m' → Answers S D ⟨.own i, r'⟩ →
      (¬ Works ⟨.own i, r'⟩ ∧ r = none) ∨ Takes w r A m₁.stream m'.stream) :
    Takes u r A m.stream m'.stream := by
  obtain ⟨r', w, m₁, rfl, hanswer, hstream, -, hw⟩ := ran_own h
  rw [← hstream]
  obtain ⟨hfail, rfl⟩ | hrest := hk r' w m₁ hw hanswer
  · exact .fail fun hu => hfail (unfailing_cons.mp hu.1).1
  · constructor
    · intro P b hb hP
      obtain ⟨hsent, hA⟩ := hrest.sound P b hb hP
      exact ⟨allSent_own.mpr hsent, hA⟩
    · intro hwork hsent P hA
      exact hrest.complete (unfailing_cons.mp hwork).2 (allSent_own.mp hsent) P hA

end Calls

end Sencd
