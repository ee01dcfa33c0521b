import Sencd.HandshakeCompletion
import Sencd.FrameRoundTrip
import Sencd.StreamAcceptance
import Sencd.TableRefinement

/-!
# The end of the TCP connection

After the handshake a client reads frames until a DISCONNECT arrives or no frame can be read, and
the server sends nothing but that DISCONNECT, when it shuts down. Frames of other types are
dropped.
-/
namespace Sencd
open ByteOrder CallProgram LabelledPath StreamNetwork Wire

section Loop

/-- How the loop of `client_receiver` ends; `running` when the turns have run out. -/
inductive ReceiverEnd
  | failed
  | closed
  | running
  deriving DecidableEq

/-- A number of turns of the loop of `client_receiver`, as long as nobody else destroys the
session: the packets it drops, and how it ends. -/
def clientReceiver (host : Endian) : ℕ → Wire (List (Packet ByteBuf) × ReceiverEnd)
  | 0 => return ([], .running)
  | turns + 1 => do
    match ← packetReceive host with
    | none => return ([], .failed)
    | some packet =>
      if packet.type = .disconnect then return ([], .closed) else
      let (packets, ending) ← clientReceiver host turns
      return (packet :: packets, ending)

/-- What a turn does with what `packet_receive` has brought. -/
def receiverTurn (host : Endian) (turns : ℕ) :
    Option (Packet ByteBuf) → Wire (List (Packet ByteBuf) × ReceiverEnd)
  | none => .ret ([], .failed)
  | some packet =>
    if packet.type = .disconnect then .ret ([], .closed) else
    clientReceiver host turns >>= fun r => .ret (packet :: r.1, r.2)

theorem clientReceiver_succ (host : Endian) (turns : ℕ) :
    clientReceiver host (turns + 1) = packetReceive host >>= receiverTurn host turns := rfl

end Loop

section Stream

/-- What the loop has found on a stream `s`, of which `s'` is left: frames that it dropped and
then the reason why it ended. -/
structure ReceiverFinds (t : WireCalls) (turns : ℕ) (s s' : Bytes) (packets : List (Packet ByteBuf))
    (ending : ReceiverEnd) : Prop where
  dropped : ∀ packet ∈ packets, packet.Valid ∧ packet.type ≠ .disconnect
  closed : ending = .closed → ∃ notice padding bytes, notice.Valid ∧ notice.type = .disconnect ∧
    FramesOf packets bytes ∧ s = bytes ++ (frameBytes notice padding ++ s') ∧
    packets.length < turns
  failed : ending = .failed → Allocated t → ∃ bytes rest, FramesOf packets bytes ∧
    s = bytes ++ rest ∧ packets.length < turns ∧
    ∀ (packet : Packet ByteBuf) padding rest', packet.Valid →
      rest ≠ frameBytes packet padding ++ rest'
  running : ending = .running → packets.length = turns ∧ ∃ bytes, FramesOf packets bytes ∧
    s = bytes ++ s'

variable {host : Endian} {turns : ℕ} {t : WireCalls} {s s' : Bytes}
  {packets : List (Packet ByteBuf)} {ending : ReceiverEnd}

/-- Behind one more dropped frame the loop finds what it found without it. -/
theorem ReceiverFinds.cons {u : WireCalls} {packet : Packet ByteBuf} (padding : ByteBuf 2)
    (hvalid : packet.Valid) (htype : packet.type ≠ .disconnect)
    (h : ReceiverFinds u turns s s' packets ending) (hu : u ⊆ t) :
    ReceiverFinds t (turns + 1) (frameBytes packet padding ++ s) s' (packet :: packets) ending := by
  refine ⟨List.forall_mem_cons.mpr ⟨⟨hvalid, htype⟩, h.dropped⟩, fun hend => ?_, fun hend ht => ?_,
    fun hend => ?_⟩
  · obtain ⟨notice, padding', bytes, hnotice, hdisconnect, hbytes, rfl, hlt⟩ := h.closed hend
    refine ⟨notice, padding', _, hnotice, hdisconnect, .cons padding hbytes, ?_, ?_⟩
    · rw [List.append_assoc]
    · simpa using hlt
  · obtain ⟨bytes, rest, hbytes, rfl, hlt, hrest⟩ := h.failed hend (ht.mono hu)
    refine ⟨_, rest, .cons padding hbytes, ?_, ?_, hrest⟩
    · rw [List.append_assoc]
    · simpa using hlt
  · obtain ⟨hlen, bytes, hbytes, rfl⟩ := h.running hend
    refine ⟨by simpa using hlen, _, .cons padding hbytes, ?_⟩
    rw [List.append_assoc]

/-- Whatever arrives, however it is cut: the loop drops frames up to the first DISCONNECT, or up
to where no frame can be read. -/
theorem clientReceiver_finds (hx : Exec (clientReceiver host turns) t (.ret (packets, ending)))
    (hf : Fed t s s') : ReceiverFinds t turns s s' packets ending := by
  induction turns generalizing t s packets with
  | zero =>
      obtain ⟨rfl, he⟩ := exec_ret.mp hx
      obtain ⟨rfl, rfl⟩ := Prod.mk.inj (Prog.ret.inj he)
      obtain rfl := fed_nil.mp hf
      exact ⟨by simp, by simp, by simp, fun _ => ⟨rfl, [], .nil, rfl⟩⟩
  | succ turns ih =>
      rw [clientReceiver_succ] at hx
      obtain ⟨answer, u, v, rfl, hu, hv⟩ := exec_bind_ret.mp hx
      obtain ⟨s₁, hs₁, hs'⟩ := fed_append.mp hf
      obtain ⟨-, hframe, hnone⟩ := fed_packetReceive hu hs₁
      cases answer with
      | none =>
          obtain ⟨rfl, he⟩ := exec_ret.mp hv
          obtain ⟨rfl, rfl⟩ := Prod.mk.inj (Prog.ret.inj he)
          refine ⟨by simp, by simp, fun _ ht => ?_, by simp⟩
          refine ⟨[], s, .nil, rfl, Nat.succ_pos _, ?_⟩
          exact hnone rfl (ht.mono (List.subset_append_left _ _))
      | some packet =>
          obtain ⟨hvalid, padding, rfl⟩ := hframe packet rfl
          unfold receiverTurn at hv
          dsimp only at hv
          split_ifs at hv with htype
          · obtain ⟨rfl, he⟩ := exec_ret.mp hv
            obtain ⟨rfl, rfl⟩ := Prod.mk.inj (Prog.ret.inj he)
            obtain rfl := fed_nil.mp hs'
            refine ⟨by simp, fun _ => ?_, by simp, by simp⟩
            exact ⟨packet, padding, [], hvalid, htype, .nil, rfl, Nat.succ_pos _⟩
          · obtain ⟨⟨packets', ending'⟩, w, z, rfl, hw, hz⟩ := exec_bind_ret.mp hv
            obtain ⟨rfl, he⟩ := exec_ret.mp hz
            obtain ⟨rfl, rfl⟩ := Prod.mk.inj (Prog.ret.inj he)
            rw [List.append_nil] at hs' ⊢
            exact (ih hw hs').cons padding hvalid htype (List.subset_append_right _ _)

/-- The stream brings these packets, which are dropped, then a DISCONNECT, and then `rest`. -/
structure Closes (packets : List (Packet ByteBuf)) (s rest : Bytes) : Prop where
  dropped : ∀ packet ∈ packets, packet.Valid ∧ packet.type ≠ .disconnect
  notice : ∃ notice padding bytes, notice.Valid ∧ notice.type = .disconnect ∧
    FramesOf packets bytes ∧ s = bytes ++ (frameBytes notice padding ++ rest)

/-- On such a stream the loop ends with the DISCONNECT, if it is given enough turns. -/
theorem clientReceiver_closes {rest : Bytes} (h : Closes packets s rest)
    (hlt : packets.length < turns) {r : List (Packet ByteBuf) × ReceiverEnd}
    (hx : Exec (clientReceiver host turns) t (.ret r)) (hf : Fed t s s') (ht : Allocated t) :
    r = (packets, .closed) ∧ s' = rest := by
  obtain ⟨hdropped, notice, padding, bytes, hnotice, hdisconnect, hbytes, rfl⟩ := h
  induction hbytes generalizing turns t r with
  | nil =>
      obtain ⟨turns, rfl⟩ := Nat.exists_eq_add_of_lt hlt
      rw [List.length_nil, Nat.zero_add, clientReceiver_succ] at hx
      obtain ⟨answer, u, v, rfl, hu, hv⟩ := exec_bind_ret.mp hx
      obtain ⟨s₁, hs₁, hs'⟩ := fed_append.mp hf
      obtain ⟨-, hframe, hnone⟩ := fed_packetReceive hu hs₁
      cases answer with
      | none =>
          exact absurd rfl (hnone rfl (ht.mono (List.subset_append_left _ _)) notice padding rest
            hnotice)
      | some packet =>
          obtain ⟨hvalid, padding', he⟩ := hframe packet rfl
          obtain ⟨rfl, rfl⟩ := frameBytes_inj hnotice hvalid he
          rw [receiverTurn, if_pos hdisconnect] at hv
          obtain ⟨rfl, hr⟩ := exec_ret.mp hv
          exact ⟨Prog.ret.inj hr, fed_nil.mp hs'⟩
  | @cons packet packets bytes padding' _ ih =>
      obtain ⟨⟨hpacket, htype⟩, hpackets⟩ := List.forall_mem_cons.mp hdropped
      obtain ⟨turns, rfl⟩ : ∃ n, turns = n + 1 := Nat.exists_eq_succ_of_ne_zero (by omega)
      rw [clientReceiver_succ] at hx
      obtain ⟨answer, u, v, rfl, hu, hv⟩ := exec_bind_ret.mp hx
      obtain ⟨s₁, hs₁, hs'⟩ := fed_append.mp hf
      obtain ⟨-, hframe, hnone⟩ := fed_packetReceive hu hs₁
      rw [List.append_assoc] at hframe hnone
      cases answer with
      | none =>
          exact absurd rfl (hnone rfl (ht.mono (List.subset_append_left _ _)) packet padding' _
            hpacket)
      | some packet' =>
          obtain ⟨hvalid, padding'', he⟩ := hframe packet' rfl
          obtain ⟨rfl, rfl⟩ := frameBytes_inj hpacket hvalid he
          rw [receiverTurn, if_neg htype] at hv
          obtain ⟨r', w, z, rfl, hw, hz⟩ := exec_bind_ret.mp hv
          obtain ⟨rfl, hr⟩ := exec_ret.mp hz
          rw [List.append_nil] at hs' ht
          have hlt' : packets.length < turns := by simpa using hlt
          obtain ⟨rfl, rfl⟩ := ih hlt' hw (ht.mono (List.subset_append_right _ _)) hpackets hs'
          exact ⟨Prog.ret.inj hr, rfl⟩

/-- The receiver of a client ends on a DISCONNECT exactly if the stream brings one behind whole
frames of other types, and then it has taken no byte more. -/
theorem receiver_closes_iff (hx : Exec (clientReceiver host turns) t (.ret (packets, ending)))
    (hf : Fed t s s') (ht : Allocated t) (packets' : List (Packet ByteBuf)) (rest : Bytes) :
    (ending = .closed ∧ packets = packets' ∧ s' = rest) ↔
      Closes packets' s rest ∧ packets'.length < turns := by
  constructor
  · rintro ⟨hend, rfl, rfl⟩
    have hfinds := clientReceiver_finds hx hf
    obtain ⟨notice, padding, bytes, hnotice, hdisconnect, hbytes, he, hlt⟩ := hfinds.closed hend
    exact ⟨⟨hfinds.dropped, notice, padding, bytes, hnotice, hdisconnect, hbytes, he⟩, hlt⟩
  · rintro ⟨hcloses, hlt⟩
    obtain ⟨he, hrest⟩ := clientReceiver_closes hcloses hlt hx hf ht
    obtain ⟨hpackets, hend⟩ := Prod.mk.inj he
    exact ⟨hend, hpackets, hrest⟩

/-- Every stream is read to an end of the loop. -/
theorem exists_receiving (host : Endian) (turns : ℕ) (s : Bytes) :
    ∃ t r s', Exec (clientReceiver host turns) t (.ret r) ∧ Fed t s s' ∧ Allocated t := by
  have hsends : ∀ turns h, Holds (fun _ c => c.Sends) (fun _ _ => True) h
      (clientReceiver host turns) := by
    intro turns
    induction turns with
    | zero => exact fun _ => trivial
    | succ turns ih =>
        intro h
        rw [clientReceiver_succ]
        have hreceive : Holds (fun _ c => StreamCall.Sends c) (fun h' r => r ≠ none → Unfailing h')
            [] (packetReceive host) :=
          packetReceive_holds (fun _ => trivial) trivial (by simp [Unfailing])
        refine (hreceive.anywhere h).bind fun h' answer _ => ?_
        cases answer with
        | none => trivial
        | some packet =>
            unfold receiverTurn
            dsimp only
            split_ifs
            · trivial
            · exact (ih h').bind fun _ _ _ => trivial
  obtain ⟨t, r, s', hx, hf, -, hown⟩ :=
    exists_fed ((plainDevice 0).answer plainSodium 0) (hsends turns []) s
  exact ⟨t, r, s', hx, hf, fun ok hmem => hown .malloc ok hmem⟩

/-- A SERVER_HELLO, which is dropped, and a DISCONNECT with another byte behind it. -/
theorem receiver_closes_iff_notice : ∃ (t : WireCalls) (packets : List (Packet ByteBuf))
    (ending : ReceiverEnd) (s' : Bytes),
    Exec (clientReceiver .big 2) t (.ret (packets, ending)) ∧ ending = .closed ∧
      packets = [⟨.serverHello, currentProtocolVersion, none⟩] ∧ s' = [7] := by
  let hello : Packet ByteBuf := ⟨.serverHello, currentProtocolVersion, none⟩
  let notice : Packet ByteBuf := ⟨.disconnect, currentProtocolVersion, none⟩
  have hcloses : Closes [hello] (frameBytes hello (plainBuf 2 0) ++
      (frameBytes notice (plainBuf 2 0) ++ [7])) [7] := by
    refine ⟨fun packet hp => ?_, notice, plainBuf 2 0, _, valid_hello, rfl,
      .cons (plainBuf 2 0) .nil, ?_⟩
    · obtain rfl := List.mem_singleton.mp hp
      exact ⟨valid_hello, by decide⟩
    · rw [List.append_nil]
  obtain ⟨t, ⟨packets, ending⟩, s', hx, hf, ht⟩ := exists_receiving .big 2 _
  exact ⟨t, packets, ending, s', hx,
    (receiver_closes_iff hx hf ht [hello] [7]).mpr ⟨hcloses, by decide⟩⟩

end Stream

section Turns

variable {host : Endian} {turns : ℕ} {t : WireCalls} {s s' : Bytes}
  {packets : List (Packet ByteBuf)} {ending : ReceiverEnd}

theorem FramesOf.length_le {bytes : Bytes} (h : FramesOf packets bytes) :
    sizeofPacketHeader * packets.length ≤ bytes.length := by
  induction h with
  | nil => simp
  | @cons packet packets bytes padding _ ih =>
      have hheader : (frameHeader packet padding).length = sizeofPacketHeader := frameHeader_length
      simp only [List.length_cons, List.length_append, frameBytes, hheader,
        sizeofPacketHeader] at ih ⊢
      omega

/-- More turns than the stream has headers are enough. -/
theorem clientReceiver_ends (hx : Exec (clientReceiver host turns) t (.ret (packets, ending)))
    (hf : Fed t s s') (hturns : s.length < sizeofPacketHeader * turns) : ending ≠ .running := by
  intro hend
  obtain ⟨rfl, bytes, hbytes, rfl⟩ := (clientReceiver_finds hx hf).running hend
  have hlen := hbytes.length_le
  rw [List.length_append] at hturns
  omega

end Turns

section Network

variable {env : ℕ → (i : LocalCall) → i.Answer}

theorem clientReceiver_fragmentable (host : Endian) (turns : ℕ) :
    Fragmentable (clientReceiver host turns) := by
  induction turns with
  | zero => trivial
  | succ turns ih =>
      rw [clientReceiver_succ]
      apply (packetReceive_fragmentable host).bind
      intro answer
      cases answer with
      | none => trivial
      | some packet =>
          unfold receiverTurn
          dsimp only
          split_ifs
          · trivial
          · exact ih.bind fun _ => trivial

/-- A DISCONNECT without a payload is read to its end, which allocates nothing. -/
theorem runs_clientReceiver (env : ℕ → (i : LocalCall) → i.Answer) (host : Endian)
    {notice : Packet ByteBuf} (hnotice : notice.Valid)
    (hdisconnect : notice.type = .disconnect) (hpayload : notice.payload = none)
    (padding : ByteBuf 2) (turns n : ℕ) :
    ∃ m, Runs env ⟨clientReceiver host (turns + 1), n⟩ (frameBytes notice padding)
      ⟨.ret ([], .closed), m⟩ [] [] := by
  have hallocated : notice.payload ≠ none → ∀ n, env n .malloc = true :=
    fun hne => absurd hpayload hne
  obtain ⟨m, hrun⟩ := runs_packetReceive host n hnotice hallocated padding []
  refine ⟨m, ?_⟩
  have hbegin := hrun.bind (receiverTurn host turns)
  have hend : (.ret (some notice) : Wire _) >>= receiverTurn host turns = .ret ([], .closed) :=
    if_pos hdisconnect
  rw [hend, List.append_nil] at hbegin
  exact hbegin

/-- In every run of a server that sends a DISCONNECT without a payload and a client that reads
its connection, the client's loop ends with it. -/
theorem notice_settles (host host' : Endian) (env env' : ℕ → (i : LocalCall) → i.Answer)
    {notice : Packet ByteBuf} (hnotice : notice.Valid) (hdisconnect : notice.type = .disconnect)
    (hpayload : notice.payload = none) (turns : ℕ) :
    ∃ m n, Settles env env'
      ⟨⟨packetSend host notice, 0⟩, ⟨clientReceiver host' (turns + 1), 0⟩, [], []⟩
      ⟨⟨.ret true, m⟩, ⟨.ret ([], .closed), n⟩, [], []⟩ := by
  have hsend := runs_packetSend host env 0 hnotice.payloadLength_le []
  obtain ⟨n, hreceive⟩ := runs_clientReceiver env' host' hnotice hdisconnect hpayload
    (env 0 .headerPadding) turns 0
  refine ⟨1, n, settles_of_run ⟨packetSend_fragmentable host notice,
    clientReceiver_fragmentable host' (turns + 1)⟩ ?_ fun _ => Step.ends⟩
  have hleft := hsend.left env' ⟨clientReceiver host' (turns + 1), 0⟩ []
  exact hleft.trans (hreceive.right env ⟨.ret true, 1⟩ [])

end Network

section Version

variable {Buf : ℕ → Type} {M : Memory Buf} {P : Platform Buf} {m m' : SessionManager Buf}
  {h : Calls Buf}

/-- The sessions in the table have the current version. -/
def Versioned (m : SessionManager Buf) : Prop :=
  ∀ i s, m.sessions i = some s → s.protocolVersion = currentProtocolVersion

theorem connect_versioned {role : SessionRole} {socket : ℤ} {ip : List Char} {calls : Calls Buf}
    (h : ServerStep M P m (.connect role socket ip calls) m') (hm : Versioned m) :
    Versioned m' := by
  obtain rfl | ⟨i, s, -, rfl, id, -, -, -, hframe⟩ := h.connect_establishes
  · exact hm
  intro j t ht
  rw [SessionManager.stored_sessions] at ht
  by_cases hji : j = i
  · subst hji
    rw [Function.update_self] at ht
    obtain rfl := Option.some.inj ht
    exact congrArg (fun s => s.protocolVersion) hframe
  · rw [Function.update_of_ne hji] at ht
    exact hm j t ht

theorem ServerStep.versioned {op : ServerOp Buf} (h : ServerStep M P m op m') (hm : Versioned m) :
    Versioned m' := by
  intro i s hs
  have hslot := h.slot M P i
  rw [hs] at hslot
  generalize he : some s = e at hslot
  cases hslot with
  | keep => exact hm i s he.symm
  | free _ => contradiction
  | add _ _ =>
      exact connect_versioned h hm i s hs
  | peer _ htarget =>
      obtain rfl := Option.some.inj he
      have hold := hm i _ (mem_of_udpListenerTarget P htarget)
      exact hold
  | count htarget =>
      obtain rfl := Option.some.inj he
      have hold := hm i _ (mem_of_tunSenderTarget P htarget)
      exact hold

theorem ServerRun.versioned {identity : CryptoContext Buf} {udpSocket : ℤ}
    {steps : List (SessionManager Buf × ServerOp Buf)}
    (h : ServerRun M P identity udpSocket steps m) : Versioned m := by
  refine h.invariant (I := Versioned) ?_ fun _ _ _ hm hstep => hstep.versioned hm
  intro i s hs
  simp at hs

end Version

section Shutdown

variable {P : Platform ByteBuf} {host : Endian} {identity : CryptoContext ByteBuf} {udpSocket : ℤ}
  {steps : List (SessionManager ByteBuf × ServerOp ByteBuf)} {m : SessionManager ByteBuf}

/-- When the server shuts down, each session in the table gets a notice over its own connection,
and the client at the other end ends its loop with it. -/
theorem shutdown_reaches_clients (h : ServerRun (byteMemory host) P identity udpSocket steps m)
    {i : Fin maxSessions} {s : Session ByteBuf} (hs : m.sessions i = some s) :
    s.notice ∈ notices (sessionManagerDisconnectAll (byteMemory host) m).2 ∧
      s.notice.1 = s.socket ∧
      ∀ (host' : Endian) (env env' : ℕ → (i : LocalCall) → i.Answer) (turns : ℕ),
        ∃ k n, Settles env env'
          ⟨⟨packetSend host s.notice.2, 0⟩, ⟨clientReceiver host' (turns + 1), 0⟩, [], []⟩
          ⟨⟨.ret true, k⟩, ⟨.ret ([], .closed), n⟩, [], []⟩ := by
  refine ⟨?_, rfl, fun host' env env' turns => ?_⟩
  · rw [notices_disconnectAll]
    exact List.mem_filterMap.mpr ⟨i, List.mem_finRange i, by rw [hs]; rfl⟩
  · have hvalid : s.notice.2.Valid := ⟨h.versioned i s hs, by simp [Session.notice]⟩
    exact notice_settles host host' env env' hvalid rfl rfl turns

/-- The answers to a server whose random bytes and keys are all zero. -/
def zeroAnswers : ServerAnswers ByteBuf where
  nonce := plainBuf _ 0
  ephPublicKey := plainBuf _ 0
  ephPrivateKey := plainBuf _ 0
  signature := plainBuf _ 0
  response := plainBuf _ 0
  rxKey := plainBuf _ 0
  txKey := plainBuf _ 0
  sessionNonce := plainBuf _ 0

/-- One client has connected, on descriptor 6; its host has the other byte order. -/
theorem shutdown_reaches_clients_one : ∃ (m : SessionManager ByteBuf) (s : Session ByteBuf),
    s.socket = 6 ∧ s.notice ∈ notices (sessionManagerDisconnectAll (byteMemory .big) m).2 ∧
      s.notice.1 = s.socket ∧
      ∃ k n, Settles ((plainDevice 0).answer plainSodium) ((plainDevice 0).answer plainSodium)
        ⟨⟨packetSend .big s.notice.2, 0⟩, ⟨clientReceiver .little 1, 0⟩, [], []⟩
        ⟨⟨.ret true, k⟩, ⟨.ret ([], .closed), n⟩, [], []⟩ := by
  have hfree : SlotTable.free (startedManager (byteMemory .big) (plainIdentity .big 2) 5).sessions =
      some ⟨0, by decide⟩ := by
    rw [startedManager_sessions]
    exact SlotTable.free_eq_some.mpr ⟨rfl, fun j hj => absurd hj (Fin.not_lt_zero j)⟩
  have hrun : ServerRun (byteMemory .big) (copyPlatform ByteBuf) (plainIdentity .big 2) 5 _ _ :=
    Path.nil.snoc (connect_step (byteMemory .big) (copyPlatform ByteBuf) 6 1 zeroAnswers hfree)
  obtain ⟨hnotice, hsocket, hsettles⟩ := shutdown_reaches_clients (i := ⟨0, by decide⟩) hrun (by
    rw [SessionManager.stored_sessions, Function.update_self])
  exact ⟨_, _, rfl, hnotice, hsocket, hsettles .little _ _ 0⟩

end Shutdown

end Sencd
