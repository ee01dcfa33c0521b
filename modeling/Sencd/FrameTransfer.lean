import Sencd.Framing

/-!
# Transfer of frames

The transfer loops do not depend on the cuts the kernel makes. A frame has one form on the wire
up to its padding, whatever the byte order of the host, and a stream starts with at most one
frame.
-/
namespace Sencd
open ByteOrder CallProgram StreamNetwork Wire

section Loops

theorem sendAll_lt {buffer : Bytes} {totalSent : ℕ} (h : totalSent < buffer.length) :
    sendAll buffer totalSent = .call (.send (buffer.drop totalSent)) fun sent =>
      if sent.val = 0 then .ret false else sendAll buffer (totalSent + sent.val) := by
  rw [sendAll, dif_pos h, send_bind]
  rfl

theorem sendAll_done {buffer : Bytes} {totalSent : ℕ} (h : buffer.length ≤ totalSent) :
    sendAll buffer totalSent = .ret true := by
  rw [sendAll, dif_neg (by omega)]
  rfl

theorem recvAll_lt {length : ℕ} {received : Filled length} (h : received.1.length < length) :
    recvAll length received = .call (.recv (length - received.1.length)) fun chunk =>
      if chunk.1 = [] then .ret none else recvAll length (received.more chunk) := by
  rw [recvAll, dif_pos h, recv_bind]
  rfl

theorem recvAll_done {length : ℕ} {received : Filled length} (h : received.1.length = length) :
    recvAll length received = .ret (some ⟨received.1, h⟩) := by
  rw [recvAll, dif_neg (by omega)]
  rfl

theorem sendAll_fragmentable (buffer : Bytes) (totalSent : ℕ) :
    Fragmentable (sendAll buffer totalSent) := by
  induction h : buffer.length - totalSent using Nat.strong_induction_on generalizing totalSent with
  | _ left ih =>
      by_cases hlt : totalSent < buffer.length
      · rw [sendAll_lt hlt]
        refine ⟨fun sent => ?_, fun sent hpos hless => ?_⟩
        · by_cases hsent : sent.val = 0
          · simp only [hsent, if_true]
            trivial
          · simp only [hsent, if_false]
            exact ih _ (by omega) _ rfl
        · have hrest : totalSent + sent.val < buffer.length := by
            have hlen : (buffer.drop totalSent).length = buffer.length - totalSent :=
              List.length_drop
            omega
          refine ⟨buffer.drop (totalSent + sent.val), fun more => if more.val = 0 then .ret false
            else sendAll buffer (totalSent + sent.val + more.val), (List.drop_drop).symm, ?_, ?_⟩
          · simp only [hpos.ne', if_false]
            exact sendAll_lt hrest
          · intro more total hmore htotal
            have hne : total.val ≠ 0 := by omega
            simp only [hmore.ne', hne, if_false]
            rw [htotal, Nat.add_assoc]
      · rw [sendAll_done (by omega)]
        trivial

theorem recvAll_fragmentable (length : ℕ) (received : Filled length) :
    Fragmentable (recvAll length received) := by
  induction h : length - received.1.length using Nat.strong_induction_on generalizing received with
  | _ left ih =>
      by_cases hlt : received.1.length < length
      · rw [recvAll_lt hlt]
        refine ⟨fun chunk => ?_, fun chunk hne hless => ?_⟩
        · by_cases hchunk : chunk.1 = []
          · simp only [hchunk, if_true]
            trivial
          · simp only [hchunk, if_false]
            have hpos := List.length_pos_iff.mpr hchunk
            refine ih _ ?_ _ rfl
            simp only [Filled.more, List.length_append]
            omega
        · have hlong : (received.more chunk).1.length < length := by
            simp only [Filled.more, List.length_append]
            omega
          refine ⟨length - (received.more chunk).1.length, fun more => if more.1 = [] then .ret none
            else recvAll length ((received.more chunk).more more), ?_, ?_, ?_⟩
          · simp only [Filled.more, List.length_append]
            omega
          · simp only [hne, if_false]
            exact recvAll_lt hlong
          · intro more total hmore htotal
            have hne' : total.1 ≠ [] := by
              rw [htotal]
              exact List.append_ne_nil_of_left_ne_nil hne _
            have hsame : (received.more chunk).more more = received.more total := by
              apply Subtype.ext
              simp only [Filled.more, htotal, List.append_assoc]
            simp only [hmore, hne', if_false, hsame]
      · rw [recvAll_done (le_antisymm received.2 (by omega))]
        trivial

variable {env : ℕ → (i : LocalCall) → i.Answer} {n : ℕ}

/-- A whole buffer can be sent at once. -/
theorem runs_sendAll (env : ℕ → (i : LocalCall) → i.Answer) (n : ℕ) (buffer inbox : Bytes) :
    Runs env ⟨sendAll buffer 0, n⟩ inbox ⟨.ret true, n⟩ inbox buffer := by
  by_cases hempty : buffer = []
  · subst hempty
    rw [sendAll_done (Nat.zero_le _)]
    exact .refl _ _
  · have hpos : 0 < buffer.length := List.length_pos_iff.mpr hempty
    have hdone : sendAll buffer (0 + buffer.length) = .ret true := sendAll_done (by omega)
    rw [sendAll_lt hpos, ← hdone]
    have hrun : Runs env _ inbox ⟨_, n⟩ inbox buffer :=
      Runs.send (fun sent => if sent.val = 0 then .ret false else sendAll buffer (0 + sent.val))
        hempty
    simp only [Fin.val_last, hpos.ne', if_false] at hrun
    exact hrun

/-- A buffer that has arrived can be received at once. -/
theorem runs_recvAll {length : ℕ} (x : ByteBuf length) (rest : Bytes) :
    Runs env ⟨recvAll length (.empty length), n⟩ (x.1 ++ rest) ⟨.ret (some x), n⟩ rest [] := by
  by_cases hzero : length = 0
  · subst hzero
    have hx : x.1 = [] := List.length_eq_zero_iff.mp x.2
    have hdone : recvAll 0 (.empty 0) = .ret (some x) := by
      rw [recvAll_done rfl]
      exact congrArg (fun y => Prog.ret (some y)) (Subtype.ext hx.symm)
    rw [hdone, hx]
    exact .refl _ _
  · have hpos : (Filled.empty length).1.length < length := Nat.pos_of_ne_zero hzero
    have hx : x.1 ≠ [] := by
      intro hx
      exact hzero (by rw [← x.2, hx, List.length_nil])
    have hdone : recvAll length ((Filled.empty length).more ⟨x.1, x.2.le⟩) = .ret (some x) :=
      recvAll_done x.2
    rw [recvAll_lt hpos, ← hdone]
    have hrun : Runs env _ (x.1 ++ rest) ⟨_, n⟩ rest [] :=
      Runs.recv (fun chunk : Filled length =>
        if chunk.1 = [] then .ret none else recvAll length ((Filled.empty length).more chunk))
        ⟨x.1, x.2.le⟩ hx
    simp only [hx, if_false] at hrun
    exact hrun

variable {t : WireCalls} {s s' : Bytes}

/-- Sending reads nothing, and succeeds with its calls of `send`. -/
theorem fed_sendAll {buffer : Bytes} {totalSent : ℕ} {ok : Bool}
    (hx : Exec (sendAll buffer totalSent) t (.ret ok)) (hf : Fed t s s') :
    s' = s ∧ (ok = true ↔ AllSent t) := by
  induction h : buffer.length - totalSent using Nat.strong_induction_on
    generalizing totalSent t with
  | _ left ih =>
      by_cases hlt : totalSent < buffer.length
      · rw [sendAll_lt hlt] at hx
        obtain ⟨sent, u, rfl, hrest⟩ := exec_call_ret.mp hx
        rw [fed_send] at hf
        rw [allSent_send]
        by_cases hsent : sent.val = 0
        · simp only [hsent, if_true] at hrest
          obtain ⟨rfl, he⟩ := exec_ret.mp hrest
          obtain rfl := Prog.ret.inj he
          exact ⟨fed_nil.mp hf, by simp [hsent]⟩
        · simp only [hsent, if_false] at hrest
          obtain ⟨hs, hiff⟩ := ih _ (by omega) hrest hf rfl
          have hpos : 0 < sent.val := Nat.pos_of_ne_zero hsent
          exact ⟨hs, by rw [hiff]; simp [hpos]⟩
      · rw [sendAll_done (by omega)] at hx
        obtain ⟨rfl, he⟩ := exec_ret.mp hx
        obtain rfl := Prog.ret.inj he
        exact ⟨fed_nil.mp hf, by simp [allSent_nil]⟩

/-- Receiving takes exactly the buffer off the stream, and fails only when the stream is too
short. -/
theorem fed_recvAll {length : ℕ} {received : Filled length} {r : Option (ByteBuf length)}
    (hx : Exec (recvAll length received) t (.ret r)) (hf : Fed t s s') :
    AllSent t ∧ (∀ x, r = some x → received.1 ++ s = x.1 ++ s') ∧
      (r = none → received.1.length + s.length < length) := by
  induction h : length - received.1.length using Nat.strong_induction_on
    generalizing received t s with
  | _ left ih =>
      by_cases hlt : received.1.length < length
      · rw [recvAll_lt hlt] at hx
        obtain ⟨chunk, u, rfl, hrest⟩ := exec_call_ret.mp hx
        obtain ⟨hempty, rest, rfl, hu⟩ := fed_recv.mp hf
        rw [allSent_recv]
        by_cases hchunk : chunk.1 = []
        · simp only [hchunk, if_true] at hrest
          obtain ⟨rfl, he⟩ := exec_ret.mp hrest
          obtain rfl := Prog.ret.inj he
          obtain hs | hlimit := hempty hchunk
          · rw [hs]
            exact ⟨allSent_nil, by simp, fun _ => by simpa using hlt⟩
          · omega
        · simp only [hchunk, if_false] at hrest
          have hpos : 0 < chunk.1.length := List.length_pos_iff.mpr hchunk
          have hmore : (received.more chunk).1 = received.1 ++ chunk.1 := rfl
          have hless : length - (received.more chunk).1.length < left := by
            rw [hmore, List.length_append]
            omega
          obtain ⟨hsent, hsome, hnone⟩ := ih _ hless hrest hu rfl
          rw [hmore, List.append_assoc] at hsome
          rw [hmore, List.length_append, Nat.add_assoc] at hnone
          rw [List.length_append]
          exact ⟨hsent, hsome, hnone⟩
      · have hfull : received.1.length = length := le_antisymm received.2 (by omega)
        rw [recvAll_done hfull] at hx
        obtain ⟨rfl, he⟩ := exec_ret.mp hx
        obtain rfl := Prog.ret.inj he
        rw [fed_nil.mp hf]
        refine ⟨allSent_nil, fun x hx => ?_, by simp⟩
        obtain rfl := Option.some.inj hx
        rfl

end Loops

section Frame

/-- The header as it is on the wire. -/
def frameHeader (packet : Packet ByteBuf) (padding : ByteBuf 2) : Bytes :=
  beBytes 4 packet.payloadLength ++ (packet.version :: packet.type.toByte :: padding.1)

/-- A frame as it is on the wire. -/
def frameBytes (packet : Packet ByteBuf) (padding : ByteBuf 2) : Bytes :=
  frameHeader packet padding ++ packet.payloadBytes

/-- The packets `packet_construct` builds of the current version and of at most
`MAX_PACKET_SIZE` bytes: there is no empty payload. -/
structure Packet.Valid (packet : Packet ByteBuf) : Prop where
  version : packet.version = currentProtocolVersion
  payload : ∀ payload, packet.payload = some payload →
    0 < payload.length ∧ payload.length ≤ maxPacketSize

variable {packet packet' : Packet ByteBuf} {padding padding' : ByteBuf 2}

@[simp] theorem frameHeader_length : (frameHeader packet padding).length = sizeofPacketHeader := by
  simp [frameHeader, padding.2]

theorem Packet.Valid.payloadLength_le (h : packet.Valid) :
    packet.payloadLength ≤ maxPacketSize := by
  obtain ⟨type, version, _ | payload⟩ := packet
  · exact Nat.zero_le _
  · exact (h.payload payload rfl).2

/-- The header is the same on the wire whatever host has built it. -/
theorem packetHeader_eq (host : Endian) (h : packet.payloadLength ≤ maxPacketSize)
    (padding : ByteBuf 2) : packetHeader host packet padding = frameHeader packet padding := by
  have hlt : packet.payloadLength < 2 ^ 32 := by
    simp only [maxPacketSize] at h
    omega
  rw [packetHeader, objectBytes_htobe32, UInt32.toNat_ofNat_of_lt' hlt]
  rfl

/-- A header spells the length that any host reads in it. -/
theorem header_eq (host : Endian) {header : Bytes} (h : header.length = sizeofPacketHeader) :
    header = beBytes 4 (headerPayloadLength host header) ++
      (header.getD 4 0 :: header.getD 5 0 :: header.drop 6) := by
  have hlen : (header.take 4).length = 4 := by
    rw [List.length_take, h]
    rfl
  have hlt : ofBeBytes (header.take 4) < 2 ^ 32 := by
    simpa [hlen] using ofBeBytes_lt (header.take 4)
  have hread : headerPayloadLength host header = ofBeBytes (header.take 4) := by
    rw [headerPayloadLength, be32toh_ofObjectBytes host hlen, UInt32.toNat_ofNat_of_lt' hlt]
  have hbytes : beBytes 4 (headerPayloadLength host header) = header.take 4 := by
    have hback := beBytes_ofBeBytes (header.take 4)
    rwa [hlen, ← hread] at hback
  rw [hbytes]
  match header, h with
  | [_, _, _, _, _, _, _, _], _ => rfl

/-- What a host reads in the header of a frame. -/
theorem headerPayloadLength_frameHeader (host : Endian) (h : packet.payloadLength ≤ maxPacketSize)
    (padding : ByteBuf 2) :
    headerPayloadLength host (frameHeader packet padding) = packet.payloadLength := by
  have hlt : packet.payloadLength < 256 ^ 4 := by
    simp only [maxPacketSize] at h
    omega
  have htake : (frameHeader packet padding).take 4 = beBytes 4 packet.payloadLength :=
    List.take_left' (beBytes_length 4 _)
  rw [headerPayloadLength, htake, be32toh_ofObjectBytes host (beBytes_length 4 _),
    ofBeBytes_beBytes, Nat.mod_eq_of_lt hlt, UInt32.toNat_ofNat_of_lt' hlt]

theorem getD_frameHeader (packet : Packet ByteBuf) (padding : ByteBuf 2) :
    (frameHeader packet padding).getD 4 0 = packet.version ∧
      (frameHeader packet padding).getD 5 0 = packet.type.toByte :=
  ⟨rfl, rfl⟩

/-- A frame with a payload of a message's size is valid. -/
theorem valid_message {type : PacketType} {n : ℕ} (x : ByteBuf n) (hpos : 0 < n)
    (hle : n ≤ maxPacketSize) :
    Packet.Valid ⟨type, currentProtocolVersion, some ⟨n, x⟩⟩ := by
  refine ⟨rfl, fun payload hpayload => ?_⟩
  obtain rfl := Option.some.inj hpayload
  exact ⟨hpos, hle⟩

theorem valid_hello {type : PacketType} : Packet.Valid ⟨type, currentProtocolVersion, none⟩ :=
  ⟨rfl, by simp⟩

/-- A stream starts with at most one frame. -/
theorem frameBytes_inj {rest rest' : Bytes} (hp : packet.Valid) (hp' : packet'.Valid)
    (h : frameBytes packet padding ++ rest = frameBytes packet' padding' ++ rest') :
    packet = packet' ∧ rest = rest' := by
  rw [frameBytes, frameBytes, List.append_assoc, List.append_assoc] at h
  obtain ⟨hheader, hrest⟩ := List.append_inj h (by simp)
  have hlength : packet.payloadLength = packet'.payloadLength := by
    rw [← headerPayloadLength_frameHeader .big hp.payloadLength_le padding, hheader,
      headerPayloadLength_frameHeader .big hp'.payloadLength_le padding']
  obtain ⟨hpayload, hrest⟩ := List.append_inj hrest (by simp [hlength])
  have hversion : packet.version = packet'.version := hp.version.trans hp'.version.symm
  have htype : packet.type = packet'.type := by
    have hbyte : packet.type.toByte = packet'.type.toByte := by
      rw [← (getD_frameHeader packet padding).2, hheader, (getD_frameHeader packet' padding').2]
    have hread := PacketType.ofByte_eq_some.mpr hbyte
    rw [PacketType.ofByte_eq_some.mpr rfl] at hread
    exact Option.some.inj hread
  refine ⟨?_, hrest⟩
  obtain ⟨type, version, payload⟩ := packet
  obtain ⟨type', version', payload'⟩ := packet'
  dsimp only at hversion htype
  subst hversion htype
  cases payload with
  | none =>
      cases payload' with
      | none => rfl
      | some payload' =>
          have hpos := (hp'.payload payload' rfl).1
          have hzero : 0 = payload'.length := hlength
          omega
  | some payload =>
      cases payload' with
      | none =>
          have hpos := (hp.payload payload rfl).1
          have hzero : payload.length = 0 := hlength
          omega
      | some payload' =>
          obtain ⟨length, data⟩ := payload
          obtain ⟨length', data'⟩ := payload'
          have hlen : length = length' := hlength
          subst hlen
          have hdata : data = data' := Subtype.ext hpayload
          rw [hdata]

/-- `bytes` are the frames of `packets` in order, with some padding. -/
inductive FramesOf : List (Packet ByteBuf) → Bytes → Prop
  | nil : FramesOf [] []
  | cons {packet : Packet ByteBuf} {packets : List (Packet ByteBuf)} {bytes : Bytes}
      (padding : ByteBuf 2) : FramesOf packets bytes →
      FramesOf (packet :: packets) (frameBytes packet padding ++ bytes)

theorem FramesOf.append {packets packets' : List (Packet ByteBuf)} {bytes bytes' : Bytes}
    (h : FramesOf packets bytes) (h' : FramesOf packets' bytes') :
    FramesOf (packets ++ packets') (bytes ++ bytes') := by
  induction h with
  | nil => exact h'
  | cons padding _ ih =>
      rw [List.append_assoc]
      exact .cons padding ih

theorem FramesOf.split {packets packets' : List (Packet ByteBuf)} {bytes : Bytes}
    (h : FramesOf (packets ++ packets') bytes) :
    ∃ front back, bytes = front ++ back ∧ FramesOf packets front ∧ FramesOf packets' back := by
  induction packets generalizing bytes with
  | nil => exact ⟨[], bytes, rfl, .nil, h⟩
  | cons packet packets ih =>
      cases h with
      | cons padding hrest =>
          obtain ⟨front, back, rfl, hfront, hback⟩ := ih hrest
          exact ⟨_, back, (List.append_assoc _ _ _).symm, .cons padding hfront, hback⟩

end Frame

section Packet

variable (host : Endian) (packet : Packet ByteBuf)

theorem packetSend_long (h : packet.payloadLength > maxPacketSize) :
    packetSend host packet = .call (.own .headerPadding) fun _ => .ret false := by
  rw [packetSend, own_bind]
  simp only [if_pos h]
  rfl

/-- A packet without payload is sent as one whose payload is sent in no call. -/
theorem packetSend_eq (h : packet.payloadLength ≤ maxPacketSize) :
    packetSend host packet = .call (.own .headerPadding) fun padding =>
      sendAll (frameHeader packet padding) 0 >>= fun ok =>
        if ok then sendAll packet.payloadBytes 0 else .ret false := by
  have hpayload : (if packet.payloadLength > 0 then sendAll packet.payloadBytes 0
      else .ret true) = sendAll packet.payloadBytes 0 := by
    by_cases hpos : packet.payloadLength > 0
    · rw [if_pos hpos]
    · rw [if_neg hpos, sendAll_done (by rw [packet.payloadBytes_length]; omega)]
  rw [packetSend, own_bind]
  simp only [if_neg h.not_gt, packetHeader_eq host h, Prog.pure_eq_ret, hpayload]

theorem packetSend_fragmentable : Fragmentable (packetSend host packet) := by
  by_cases hlen : packet.payloadLength > maxPacketSize
  · rw [packetSend_long host packet hlen]
    exact fun _ => trivial
  · rw [packetSend_eq host packet (not_lt.mp hlen)]
    intro padding
    apply (sendAll_fragmentable _ 0).bind
    intro ok
    cases ok with
    | false => trivial
    | true => exact sendAll_fragmentable _ 0

theorem packetReceivePayload_fragmentable (type : PacketType) (version : UInt8) (length : ℕ) :
    Fragmentable (packetReceivePayload type version length) := by
  unfold packetReceivePayload
  by_cases hpos : length > 0
  · rw [if_pos hpos]
    intro ok
    cases ok with
    | false => trivial
    | true =>
        apply (recvAll_fragmentable length _).bind
        intro data
        cases data <;> trivial
  · rw [if_neg hpos]
    trivial

theorem packetReceiveChecked_fragmentable (header : Bytes) :
    Fragmentable (packetReceiveChecked host header) := by
  unfold packetReceiveChecked
  dsimp only
  by_cases hversion : header.getD 4 0 ≠ currentProtocolVersion
  · rw [if_pos hversion]
    trivial
  rw [if_neg hversion]
  cases PacketType.ofByte (header.getD 5 0) with
  | none => trivial
  | some type =>
      dsimp only
      by_cases hlen : headerPayloadLength host header > maxPacketSize
      · rw [if_pos hlen]
        trivial
      · rw [if_neg hlen]
        exact packetReceivePayload_fragmentable _ _ _

theorem packetReceive_fragmentable : Fragmentable (packetReceive host) := by
  apply (recvAll_fragmentable _ _).bind
  intro header
  cases header with
  | none => trivial
  | some header => exact packetReceiveChecked_fragmentable host header.1

variable {host packet} {env : ℕ → (i : LocalCall) → i.Answer} {n : ℕ}

/-- A packet that is not too long goes out as its frame. -/
theorem runs_packetSend (host : Endian) (env : ℕ → (i : LocalCall) → i.Answer) (n : ℕ)
    (h : packet.payloadLength ≤ maxPacketSize) (inbox : Bytes) :
    Runs env ⟨packetSend host packet, n⟩ inbox ⟨.ret true, n + 1⟩ inbox
      (frameBytes packet (env n .headerPadding)) := by
  rw [packetSend_eq host packet h]
  have hheader := (runs_sendAll env (n + 1)
    (frameHeader packet (env n .headerPadding)) inbox).bind fun ok =>
      if ok then sendAll packet.payloadBytes 0 else .ret false
  have hpayload := runs_sendAll env (n + 1) packet.payloadBytes inbox
  exact .own (hheader.trans hpayload)

/-- The checks let the header of a frame pass. -/
theorem packetReceiveChecked_frameHeader (h : packet.Valid) (padding : ByteBuf 2) :
    packetReceiveChecked host (frameHeader packet padding) =
      packetReceivePayload packet.type packet.version packet.payloadLength := by
  unfold packetReceiveChecked
  dsimp only
  rw [headerPayloadLength_frameHeader host h.payloadLength_le padding,
    (getD_frameHeader packet padding).1, (getD_frameHeader packet padding).2,
    if_neg (not_not.mpr h.version), PacketType.ofByte_eq_some.mpr rfl]
  exact if_neg h.payloadLength_le.not_gt

/-- A payload that has arrived is received. -/
theorem runs_packetReceivePayload (h : packet.Valid)
    (hmalloc : packet.payload ≠ none → ∀ n, env n .malloc = true) (rest : Bytes) :
    ∃ m, Runs env ⟨packetReceivePayload packet.type packet.version packet.payloadLength, n⟩
      (packet.payloadBytes ++ rest) ⟨.ret (some packet), m⟩ rest [] := by
  obtain ⟨type, version, _ | ⟨length, data⟩⟩ := packet
  · exact ⟨n, .refl _ _⟩
  · have hpos : length > 0 := (h.payload ⟨length, data⟩ rfl).1
    refine ⟨n + 1, ?_⟩
    change Runs env ⟨packetReceivePayload type version length, n⟩ (data.1 ++ rest) _ _ _
    rw [packetReceivePayload, if_pos hpos, own_bind]
    apply Runs.own
    rw [hmalloc (by simp) n, if_pos rfl]
    exact (runs_recvAll data rest).bind _

/-- A frame that has arrived is received as its packet. -/
theorem runs_packetReceive (host : Endian) (n : ℕ) (h : packet.Valid)
    (hmalloc : packet.payload ≠ none → ∀ n, env n .malloc = true) (padding : ByteBuf 2)
    (rest : Bytes) :
    ∃ m, Runs env ⟨packetReceive host, n⟩ (frameBytes packet padding ++ rest)
      ⟨.ret (some packet), m⟩ rest [] := by
  let header : ByteBuf sizeofPacketHeader := ⟨frameHeader packet padding, frameHeader_length⟩
  have hheader : Runs env ⟨packetReceive host, n⟩ (header.1 ++ (packet.payloadBytes ++ rest))
      ⟨packetReceiveChecked host header.1, n⟩ (packet.payloadBytes ++ rest) [] :=
    (runs_recvAll header (packet.payloadBytes ++ rest)).bind _
  rw [packetReceiveChecked_frameHeader h] at hheader
  obtain ⟨m, hpayload⟩ := runs_packetReceivePayload h hmalloc rest
  refine ⟨m, ?_⟩
  rw [frameBytes, List.append_assoc]
  exact hheader.trans hpayload

variable {t : WireCalls} {s s' : Bytes}

/-- Sending a packet that is not too long reads nothing, and succeeds with its calls of
`send`. -/
theorem fed_packetSend {ok : Bool} (h : packet.payloadLength ≤ maxPacketSize)
    (hx : Exec (packetSend host packet) t (.ret ok)) (hf : Fed t s s') :
    s' = s ∧ (ok = true ↔ AllSent t) := by
  rw [packetSend_eq host packet h] at hx
  obtain ⟨padding, u, rfl, hsend⟩ := exec_call_ret.mp hx
  rw [fed_own] at hf
  rw [allSent_own]
  obtain ⟨ok', v, w, rfl, hv, hw⟩ := exec_bind_ret.mp hsend
  obtain ⟨s'', hfv, hfw⟩ := fed_append.mp hf
  obtain ⟨rfl, hheader⟩ := fed_sendAll hv hfv
  rw [allSent_append]
  cases ok' with
  | false =>
      obtain ⟨rfl, he⟩ := exec_ret.mp hw
      obtain rfl := Prog.ret.inj he
      refine ⟨fed_nil.mp hfw, ?_⟩
      rw [← hheader]
      simp
  | true =>
      obtain ⟨rfl, hpayload⟩ := fed_sendAll hw hfw
      refine ⟨rfl, ?_⟩
      rw [← hheader, ← hpayload]
      simp

/-- No allocation in `t` has failed. -/
def Allocated (t : WireCalls) : Prop := ∀ ok : Bool, ⟨.own .malloc, ok⟩ ∈ t → ok = true

theorem Allocated.mono {u : WireCalls} (h : Allocated t) (hu : u ⊆ t) : Allocated u :=
  fun ok hmem => h ok (hu hmem)

theorem fed_packetReceivePayload {type : PacketType} {version : UInt8} {length : ℕ}
    {r : Option (Packet ByteBuf)} (hversion : version = currentProtocolVersion)
    (hlength : length ≤ maxPacketSize)
    (hx : Exec (packetReceivePayload type version length) t (.ret r)) (hf : Fed t s s') :
    AllSent t ∧ (∀ p, r = some p → p.Valid ∧ p.type = type ∧ p.version = version ∧
        p.payloadLength = length ∧ s = p.payloadBytes ++ s') ∧
      (r = none → Allocated t → s.length < length) := by
  unfold packetReceivePayload at hx
  by_cases hpos : length > 0
  · rw [if_pos hpos, own_bind] at hx
    obtain ⟨ok, u, rfl, hread⟩ := exec_call_ret.mp hx
    rw [fed_own] at hf
    rw [allSent_own]
    cases ok with
    | false =>
        obtain ⟨rfl, he⟩ := exec_ret.mp hread
        obtain rfl := Prog.ret.inj he
        refine ⟨allSent_nil, by simp, fun _ halloc => ?_⟩
        exact absurd (halloc false (by simp)) (by simp)
    | true =>
        obtain ⟨data, v, w, rfl, hv, hw⟩ := exec_bind_ret.mp hread
        obtain ⟨s'', hfv, hfw⟩ := fed_append.mp hf
        obtain ⟨hsent, hsome, hnone⟩ := fed_recvAll hv hfv
        cases data with
        | none =>
            obtain ⟨rfl, he⟩ := exec_ret.mp hw
            obtain rfl := Prog.ret.inj he
            rw [List.append_nil]
            refine ⟨hsent, by simp, fun _ _ => ?_⟩
            simpa [Filled.empty] using hnone rfl
        | some data =>
            obtain ⟨rfl, he⟩ := exec_ret.mp hw
            obtain rfl := Prog.ret.inj he
            rw [List.append_nil]
            refine ⟨hsent, fun p hp => ?_, by simp⟩
            obtain rfl := Option.some.inj hp
            rw [fed_nil.mp hfw]
            refine ⟨⟨hversion, fun payload hpayload => ?_⟩, rfl, rfl, rfl, hsome data rfl⟩
            obtain rfl := Option.some.inj hpayload
            exact ⟨hpos, hlength⟩
  · rw [if_neg hpos] at hx
    obtain ⟨rfl, he⟩ := exec_ret.mp hx
    obtain rfl := Prog.ret.inj he
    have hzero : length = 0 := by omega
    rw [fed_nil.mp hf]
    refine ⟨allSent_nil, fun p hp => ?_, by simp⟩
    obtain rfl := Option.some.inj hp
    exact ⟨⟨hversion, by simp⟩, rfl, rfl, hzero.symm, rfl⟩

theorem fed_packetReceiveChecked {header : ByteBuf sizeofPacketHeader}
    {r : Option (Packet ByteBuf)} (hx : Exec (packetReceiveChecked host header.1) t (.ret r))
    (hf : Fed t s s') :
    AllSent t ∧ (∀ p, r = some p → p.Valid ∧ ∃ padding, header.1 = frameHeader p padding ∧
        s = p.payloadBytes ++ s') ∧
      (r = none → Allocated t → ∀ (p : Packet ByteBuf) padding rest, p.Valid →
        header.1 = frameHeader p padding → s ≠ p.payloadBytes ++ rest) := by
  have hrefused : ∀ {t : WireCalls} {s : Bytes}, Exec (.ret none) t (.ret r) → Fed t s s' →
      (∀ (p : Packet ByteBuf) padding, p.Valid → header.1 ≠ frameHeader p padding) →
      AllSent t ∧ (∀ p, r = some p → p.Valid ∧ ∃ padding, header.1 = frameHeader p padding ∧
          s = p.payloadBytes ++ s') ∧
        (r = none → Allocated t → ∀ (p : Packet ByteBuf) padding rest, p.Valid →
          header.1 = frameHeader p padding → s ≠ p.payloadBytes ++ rest) := by
    intro t s hx hf hno
    obtain ⟨rfl, he⟩ := exec_ret.mp hx
    obtain rfl := Prog.ret.inj he
    exact ⟨allSent_nil, by simp,
      fun _ _ p padding _ hp hheader => absurd hheader (hno p padding hp)⟩
  unfold packetReceiveChecked at hx
  dsimp only at hx
  by_cases hversion : header.1.getD 4 0 ≠ currentProtocolVersion
  · rw [if_pos hversion] at hx
    refine hrefused hx hf fun p padding hp hheader => hversion ?_
    rw [hheader, (getD_frameHeader p padding).1, hp.version]
  rw [if_neg hversion] at hx
  cases htype : PacketType.ofByte (header.1.getD 5 0) with
  | none =>
      rw [htype] at hx
      refine hrefused hx hf fun p padding hp hheader => ?_
      rw [hheader, (getD_frameHeader p padding).2, PacketType.ofByte_eq_some.mpr rfl] at htype
      contradiction
  | some type =>
      rw [htype] at hx
      dsimp only at hx
      by_cases hlen : headerPayloadLength host header.1 > maxPacketSize
      · rw [if_pos hlen] at hx
        refine hrefused hx hf fun p padding hp hheader => ?_
        have hle := hp.payloadLength_le
        rw [hheader, headerPayloadLength_frameHeader host hle _] at hlen
        omega
      rw [if_neg hlen] at hx
      obtain ⟨hsent, hsome, hnone⟩ :=
        fed_packetReceivePayload (not_not.mp hversion) (not_lt.mp hlen) hx hf
      refine ⟨hsent, fun p hp => ?_, fun hr halloc p padding rest hp hheader hs => ?_⟩
      · obtain ⟨hvalid, hptype, hpversion, hplength, hs⟩ := hsome p hp
        have hpadding : (header.1.drop 6).length = 2 := by
          rw [List.length_drop, header.2]
          rfl
        refine ⟨hvalid, ⟨header.1.drop 6, hpadding⟩, ?_, hs⟩
        rw [frameHeader, hptype, hpversion, hplength, ← PacketType.ofByte_eq_some.mp htype]
        exact header_eq host header.2
      · have hshort := hnone hr halloc
        have hle := hp.payloadLength_le
        rw [hs, hheader, headerPayloadLength_frameHeader host hle _, List.length_append,
          Packet.payloadBytes_length] at hshort
        omega

/-- A packet is received exactly when the stream starts with its frame, which is taken off. -/
theorem fed_packetReceive {r : Option (Packet ByteBuf)}
    (hx : Exec (packetReceive host) t (.ret r)) (hf : Fed t s s') :
    AllSent t ∧ (∀ p, r = some p → p.Valid ∧ ∃ padding, s = frameBytes p padding ++ s') ∧
      (r = none → Allocated t → ∀ (p : Packet ByteBuf) padding rest, p.Valid →
        s ≠ frameBytes p padding ++ rest) := by
  obtain ⟨header, u, v, rfl, hu, hv⟩ := exec_bind_ret.mp hx
  obtain ⟨s'', hfu, hfv⟩ := fed_append.mp hf
  obtain ⟨hsent, hsome, hnone⟩ := fed_recvAll hu hfu
  rw [allSent_append]
  cases header with
  | none =>
      obtain ⟨rfl, he⟩ := exec_ret.mp hv
      obtain rfl := Prog.ret.inj he
      refine ⟨⟨hsent, allSent_nil⟩, by simp, fun _ _ p padding rest _ hs => ?_⟩
      have hshort := hnone rfl
      rw [hs, frameBytes] at hshort
      simp [Filled.empty] at hshort
  | some header =>
      have hs : s = header.1 ++ s'' := hsome header rfl
      subst hs
      obtain ⟨hsent', hsome', hnone'⟩ := fed_packetReceiveChecked hv hfv
      refine ⟨⟨hsent, hsent'⟩, fun p hp => ?_, fun hr halloc p padding rest hp hs => ?_⟩
      · obtain ⟨hvalid, padding, hheader, rfl⟩ := hsome' p hp
        refine ⟨hvalid, padding, ?_⟩
        rw [frameBytes, List.append_assoc, hheader]
      · rw [frameBytes, List.append_assoc] at hs
        obtain ⟨hheader, hrest⟩ := List.append_inj hs (by rw [header.2, frameHeader_length])
        exact hnone' hr (halloc.mono (List.subset_append_right u v)) p padding rest hp hheader hrest

end Packet

end Sencd
