import Sencd.StreamAcceptance

/-!
# What `packet_receive` leaves in memory

`packet_receive` fills a `PACKET` field by field. Two of its failure exits return without
`packet_destroy`, after the length has been stored and before there is a payload.
-/
namespace Sencd
open ByteOrder CallProgram StreamNetwork Wire

/-- A `PACKET` in memory, with what `payload` points to. -/
structure PacketMemory where
  payload : Option Bytes
  payloadLength : ℕ
  version : UInt8
  type : UInt8
  deriving DecidableEq

def packetInit : PacketMemory := ⟨none, 0, 0, 0⟩

def packetDestroy (_packet : PacketMemory) : PacketMemory := packetInit

/-- `PACKET_ERROR`, the last of the header types. -/
abbrev packetError : UInt8 := 12

/-- The payload of a packet whose length has been accepted. The code is 0 for success. -/
def packetReceivePayloadInto (packet : PacketMemory) : Wire (ℕ × PacketMemory) := do
  if packet.payloadLength > 0 then
    if ← own .malloc then
      let some data ← recvAll packet.payloadLength (.empty _) | return (1, packetDestroy packet)
      return (0, { packet with payload := some data.1 })
    else return (1, packet)
  else return (0, packet)

/-- `packet_receive`, on the packet it is given. -/
def packetReceiveInto (host : Endian) (packet : PacketMemory) : Wire (ℕ × PacketMemory) := do
  let packet := packetDestroy packet
  let some header ← recvAll sizeofPacketHeader (.empty _) | return (1, packet)
  let packet := { packet with
    payloadLength := headerPayloadLength host header.1
    version := header.1.getD 4 0
    type := header.1.getD 5 0 }
  if packet.version ≠ currentProtocolVersion then return (1, packetDestroy packet) else
  if packet.type > packetError then return (1, packetDestroy packet) else
  if packet.payloadLength > maxPacketSize then return (1, packet) else
  packetReceivePayloadInto packet

/-- The length and the payload belong together. -/
def PacketMemory.WellFormed (packet : PacketMemory) : Prop :=
  packet.payloadLength = 0 ∧ packet.payload = none ∨
    0 < packet.payloadLength ∧
      ∃ data, packet.payload = some data ∧ data.length = packet.payloadLength

/-- What a caller may rely on: a well-formed packet, empty after a failure. -/
structure CleanOutcome (code : ℕ) (packet : PacketMemory) : Prop where
  wellFormed : packet.WellFormed
  failed : code ≠ 0 → packet = packetInit

/-- The stream brings a header that passes the checks of version and type, and then either
declares too long a payload or there is no memory for it. -/
structure LeavesHeader (host : Endian) (stream : Bytes) (calls : WireCalls) : Prop where
  header : sizeofPacketHeader ≤ stream.length
  version : stream.getD 4 0 = currentProtocolVersion
  type : stream.getD 5 0 ≤ packetError
  payload : headerPayloadLength host stream > maxPacketSize ∨
    0 < headerPayloadLength host stream ∧ ⟨.own .malloc, false⟩ ∈ calls

section Refinement

/-- The packet a caller reads out of the memory. -/
def PacketMemory.packet (m : PacketMemory) : Option (Packet ByteBuf) :=
  (PacketType.ofByte m.type).map fun type =>
    ⟨type, m.version, m.payload.map fun data => ⟨data.length, ⟨data, rfl⟩⟩⟩

theorem PacketType.ofByte_eq_none {b : UInt8} :
    PacketType.ofByte b = none ↔ b > packetError := by
  have hlt : b > packetError ↔ 12 < b.toNat := UInt8.lt_iff_toNat_lt
  rw [hlt]
  unfold PacketType.ofByte
  generalize b.toNat = n
  by_cases hn : 12 < n
  · obtain ⟨k, rfl⟩ : ∃ k, n = k + 13 := ⟨n - 13, by omega⟩
    simp
  · interval_cases n <;> simp

theorem packetReceivePayloadInto_packet {m : PacketMemory} {type : PacketType}
    (htype : PacketType.ofByte m.type = some type) (hpayload : m.payload = none) :
    (packetReceivePayloadInto m >>= fun r => return (if r.1 = 0 then r.2.packet else none)) =
      packetReceivePayload type m.version m.payloadLength := by
  unfold packetReceivePayloadInto packetReceivePayload
  by_cases hpos : m.payloadLength > 0
  · rw [if_pos hpos, if_pos hpos, Prog.bind_assoc]
    congr 1
    funext ok
    cases ok with
    | false => rfl
    | true =>
        rw [if_pos rfl, if_pos rfl, Prog.bind_assoc]
        congr 1
        funext data
        cases data with
        | none => rfl
        | some data =>
            obtain ⟨data, hdata⟩ := data
            have hsame : ∀ n (h : data.length = n),
                (⟨data.length, ⟨data, rfl⟩⟩ : Payload ByteBuf) = ⟨n, ⟨data, h⟩⟩ := by
              rintro _ rfl
              rfl
            simp [PacketMemory.packet, htype, hsame _ hdata]
  · rw [if_neg hpos, if_neg hpos]
    simp [PacketMemory.packet, htype, hpayload]

/-- Read by the packet it leaves, this is `packet_receive` of the handshake. -/
theorem packetReceiveInto_packet (host : Endian) (m : PacketMemory) :
    (packetReceiveInto host m >>= fun r => return (if r.1 = 0 then r.2.packet else none)) =
      packetReceive host := by
  unfold packetReceiveInto packetReceive
  dsimp only
  rw [Prog.bind_assoc]
  congr 1
  funext header
  cases header with
  | none => rfl
  | some header =>
      dsimp only
      unfold packetReceiveChecked
      dsimp only
      by_cases hversion : header.1.getD 4 0 ≠ currentProtocolVersion
      · rw [if_pos hversion, if_pos hversion]
        rfl
      rw [if_neg hversion, if_neg hversion]
      by_cases htype : header.1.getD 5 0 > packetError
      · rw [if_pos htype, PacketType.ofByte_eq_none.mpr htype]
        rfl
      rw [if_neg htype]
      obtain ⟨type, hsome⟩ := Option.ne_none_iff_exists'.mp (mt PacketType.ofByte_eq_none.mp htype)
      rw [hsome]
      dsimp only
      by_cases hlong : headerPayloadLength host header.1 > maxPacketSize
      · rw [if_pos hlong, if_pos hlong]
        rfl
      rw [if_neg hlong, if_neg hlong]
      exact packetReceivePayloadInto_packet hsome rfl

end Refinement

section Outcome

variable {host : Endian} {m m' : PacketMemory} {code : ℕ} {calls : WireCalls} {s s' : Bytes}

theorem packetInit_clean (code : ℕ) : CleanOutcome code packetInit :=
  ⟨.inl ⟨rfl, rfl⟩, fun _ => rfl⟩

/-- A packet with a length and no payload is not clean. -/
theorem not_clean_of_header (hlength : 0 < m.payloadLength) (hpayload : m.payload = none) :
    ¬ CleanOutcome code m := by
  rintro ⟨⟨hzero, -⟩ | ⟨-, data, hdata, -⟩, -⟩
  · omega
  · rw [hpayload] at hdata
    contradiction

/-- Receiving does not allocate. -/
theorem recvAll_no_malloc {length : ℕ} {received : Filled length} {r : Option (ByteBuf length)}
    (hx : Exec (recvAll length received) calls (.ret r)) (ok : Bool) :
    (⟨.own .malloc, ok⟩ : Event _) ∉ calls := by
  have hholds : Holds (fun _ c => c ≠ .own .malloc) (fun h _ => Unfailing h) []
      (recvAll length received) :=
    recvAll_holds (C := fun c => c ≠ .own .malloc) (fun _ => nofun) (by simp [Unfailing]) length
      received
  intro hmem
  obtain ⟨u, v, -, hne⟩ := hholds.site_of_mem hx hmem
  exact hne rfl

/-- With a length that is accepted, only a failed allocation leaves the header behind. -/
theorem packetReceivePayloadInto_clean (hpayload : m.payload = none)
    (hx : Exec (packetReceivePayloadInto m) calls (.ret (code, m'))) :
    CleanOutcome code m' ↔ ¬ (0 < m.payloadLength ∧ ⟨.own .malloc, false⟩ ∈ calls) := by
  unfold packetReceivePayloadInto at hx
  by_cases hpos : m.payloadLength > 0
  · rw [if_pos hpos, own_bind] at hx
    obtain ⟨ok, u, rfl, hread⟩ := exec_call_ret.mp hx
    cases ok with
    | false =>
        obtain ⟨rfl, he⟩ := exec_ret.mp hread
        cases he
        exact iff_of_false (not_clean_of_header hpos hpayload) fun h => h ⟨hpos, List.mem_cons_self⟩
    | true =>
        obtain ⟨data, v, w, rfl, hv, hw⟩ := exec_bind_ret.mp hread
        have hno := recvAll_no_malloc hv false
        cases data with
        | none =>
            obtain ⟨rfl, he⟩ := exec_ret.mp hw
            cases he
            exact iff_of_true (packetInit_clean 1) (by simp [hno])
        | some data =>
            obtain ⟨rfl, he⟩ := exec_ret.mp hw
            cases he
            refine iff_of_true ⟨.inr ⟨hpos, data.1, rfl, data.2⟩, fun hcode => absurd rfl hcode⟩ ?_
            simp [hno]
  · rw [if_neg hpos] at hx
    obtain ⟨rfl, he⟩ := exec_ret.mp hx
    cases he
    refine iff_of_true ⟨.inl ⟨by omega, hpayload⟩, fun hcode => absurd rfl hcode⟩ ?_
    exact fun h => hpos h.1

theorem packetReceiveInto_mem_calls {header : Bytes} {u v : WireCalls}
    {r : Option (ByteBuf sizeofPacketHeader)}
    (hu : Exec (recvAll sizeofPacketHeader (.empty _)) u (.ret r)) :
    LeavesHeader host (header ++ s) (u ++ v) ↔ LeavesHeader host (header ++ s) v := by
  have hno := recvAll_no_malloc hu false
  have hmem : (⟨.own .malloc, false⟩ : Event _) ∈ u ++ v ↔ ⟨.own .malloc, false⟩ ∈ v := by
    simp [hno]
  exact ⟨fun ⟨hh, hv, ht, hp⟩ => ⟨hh, hv, ht, hp.imp_right (.imp_right hmem.mp)⟩,
    fun ⟨hh, hv, ht, hp⟩ => ⟨hh, hv, ht, hp.imp_right (.imp_right hmem.mpr)⟩⟩

/-- Whether a header is left behind depends on its own eight bytes. -/
theorem leavesHeader_iff (header : ByteBuf sizeofPacketHeader) (rest : Bytes) (t : WireCalls) :
    LeavesHeader host (header.1 ++ rest) t ↔ header.1.getD 4 0 = currentProtocolVersion ∧
      header.1.getD 5 0 ≤ packetError ∧ (headerPayloadLength host header.1 > maxPacketSize ∨
        0 < headerPayloadLength host header.1 ∧ ⟨.own .malloc, false⟩ ∈ t) := by
  have hlength : header.1.length = 8 := header.2
  have hget : ∀ k < 8, (header.1 ++ rest).getD k 0 = header.1.getD k 0 := fun k hk => by
    rw [List.getD_eq_getElem?_getD, List.getD_eq_getElem?_getD,
      List.getElem?_append_left (by omega)]
  have hpayload : headerPayloadLength host (header.1 ++ rest) =
      headerPayloadLength host header.1 := by
    unfold headerPayloadLength
    rw [List.take_append_of_le_length (by omega)]
  rw [← hget 4 (by omega), ← hget 5 (by omega), ← hpayload]
  constructor
  · rintro ⟨-, hversion, htype, hlost⟩
    exact ⟨hversion, htype, hlost⟩
  · rintro ⟨hversion, htype, hlost⟩
    exact ⟨by simp [hlength], hversion, htype, hlost⟩

/-- `packet_receive` leaves a clean packet exactly unless the stream has brought an acceptable
header whose payload is too long or cannot be allocated. -/
theorem packetReceive_clean_iff (hx : Exec (packetReceiveInto host m) calls (.ret (code, m')))
    (hf : Fed calls s s') : CleanOutcome code m' ↔ ¬ LeavesHeader host s calls := by
  obtain ⟨header, u, v, rfl, hu, hv⟩ := exec_bind_ret.mp hx
  obtain ⟨rest, hfu, -⟩ := fed_append.mp hf
  obtain ⟨-, hsome, hnone⟩ := fed_recvAll hu hfu
  cases header with
  | none =>
      obtain ⟨rfl, he⟩ := exec_ret.mp hv
      cases he
      have hshort : s.length < sizeofPacketHeader := by simpa [Filled.empty] using hnone rfl
      exact iff_of_true (packetInit_clean 1) fun h => by
        have := h.header
        omega
  | some header =>
      obtain rfl : s = header.1 ++ rest := by simpa [Filled.empty] using hsome header rfl
      rw [packetReceiveInto_mem_calls hu, leavesHeader_iff]
      dsimp only at hv
      by_cases hversion : header.1.getD 4 0 = currentProtocolVersion
      swap
      · rw [if_pos hversion] at hv
        obtain ⟨rfl, he⟩ := exec_ret.mp hv
        cases he
        exact iff_of_true (packetInit_clean 1) fun h => hversion h.1
      rw [if_neg (not_not.mpr hversion)] at hv
      by_cases htype : header.1.getD 5 0 > packetError
      · rw [if_pos htype] at hv
        obtain ⟨rfl, he⟩ := exec_ret.mp hv
        cases he
        exact iff_of_true (packetInit_clean 1) fun h => UInt8.not_le.mpr htype h.2.1
      rw [if_neg htype] at hv
      rw [and_iff_right hversion, and_iff_right (UInt8.not_lt.mp htype)]
      by_cases hlong : headerPayloadLength host header.1 > maxPacketSize
      · rw [if_pos hlong] at hv
        obtain ⟨rfl, he⟩ := exec_ret.mp hv
        cases he
        refine iff_of_false (not_clean_of_header ?_ rfl) fun h => h (.inl hlong)
        exact lt_of_le_of_lt (Nat.zero_le _) hlong
      · rw [if_neg hlong] at hv
        rw [packetReceivePayloadInto_clean rfl hv]
        simp [hlong]

/-- All of the requested bytes can arrive at once. -/
theorem recvAll_whole {length : ℕ} (x : ByteBuf length) (hpos : 0 < length) :
    Exec (recvAll length (.empty _)) [⟨.recv length, ⟨x.1, x.2.le⟩⟩] (.ret (some x)) := by
  obtain ⟨x, rfl⟩ := x
  have hne : x ≠ [] := List.ne_nil_of_length_pos hpos
  rw [recvAll_lt hpos]
  refine .cons ?_
  dsimp only
  rw [if_neg hne, recvAll_done rfl]
  exact .nil _

/-- The peer can close its end before all of them have arrived. -/
theorem recvAll_closed {length : ℕ} (received : Filled length)
    (h : received.1.length < length) :
    Exec (recvAll length received) [⟨.recv (length - received.1.length), ⟨[], Nat.zero_le _⟩⟩]
      (.ret none) := by
  rw [recvAll_lt h]
  exact .cons (.nil _)

theorem recvAll_cut {length : ℕ} (x : Bytes) (hne : x ≠ []) (hlt : x.length < length) :
    Exec (recvAll length (.empty _)) [⟨.recv length, ⟨x, hlt.le⟩⟩,
      ⟨.recv (length - x.length), ⟨[], Nat.zero_le _⟩⟩] (.ret none) := by
  have hpos : 0 < length := by omega
  have hclosed := recvAll_closed ⟨x, hlt.le⟩ hlt
  rw [recvAll_lt hpos]
  refine .cons ?_
  dsimp only
  rw [if_neg hne]
  exact hclosed

/-- The header of a message with two bytes. -/
def messageHeader : ByteBuf sizeofPacketHeader := ⟨[0, 0, 0, 2, 1, 2, 0, 0], rfl⟩

/-- A packet that still holds another payload. -/
def usedPacket : PacketMemory := ⟨some [1, 2, 3], 3, 1, 4⟩

/-- With memory for the payload, neither exit that leaves a header is taken. -/
theorem not_leavesHeader_message {rest : Bytes} {calls : WireCalls}
    (h : ⟨.own .malloc, false⟩ ∉ calls) :
    ¬ LeavesHeader .little (messageHeader.1 ++ rest) calls := by
  intro hleaves
  obtain hlong | ⟨-, hfailed⟩ := hleaves.payload
  · have htake : (messageHeader.1 ++ rest).take 4 = [0, 0, 0, 2] := by simp [messageHeader]
    rw [headerPayloadLength, htake] at hlong
    exact absurd hlong (by decide)
  · exact h hfailed

/-- The payload arrives, or the stream ends inside it. -/
theorem packetReceive_clean_message :
    CleanOutcome 0 ⟨some [7, 8], 2, 1, 2⟩ ∧ CleanOutcome 1 packetInit := by
  have hheader := recvAll_whole messageHeader (by decide)
  constructor
  · let payload : ByteBuf 2 := ⟨[7, 8], rfl⟩
    let calls : WireCalls := [⟨.recv 8, ⟨messageHeader.1, le_rfl⟩⟩, ⟨.own .malloc, true⟩,
      ⟨.recv 2, ⟨payload.1, le_rfl⟩⟩]
    have hx : Exec (packetReceiveInto .little usedPacket) calls
        (.ret (0, ⟨some [7, 8], 2, 1, 2⟩)) :=
      exec_bind_ret.mpr ⟨some messageHeader, _, _, rfl, hheader, exec_bind_ret.mpr
        ⟨true, [_], _, rfl, .cons (.nil _), exec_bind_ret.mpr
          ⟨some payload, _, [], rfl, recvAll_whole payload (by decide), .nil _⟩⟩⟩
    have hf : Fed calls (messageHeader.1 ++ payload.1) [] :=
      fed_recv.mpr ⟨by simp [messageHeader], _, rfl, fed_own.mpr (fed_recv.mpr
        ⟨by simp [payload], [], rfl, fed_nil.mpr rfl⟩)⟩
    exact (packetReceive_clean_iff hx hf).mpr (not_leavesHeader_message (by simp [calls]))
  · let calls : WireCalls := [⟨.recv 8, ⟨messageHeader.1, le_rfl⟩⟩, ⟨.own .malloc, true⟩,
      ⟨.recv 2, ⟨[7], by simp⟩⟩, ⟨.recv 1, ⟨[], Nat.zero_le _⟩⟩]
    have hx : Exec (packetReceiveInto .little usedPacket) calls (.ret (1, packetInit)) :=
      exec_bind_ret.mpr ⟨some messageHeader, _, _, rfl, hheader, exec_bind_ret.mpr
        ⟨true, [_], _, rfl, .cons (.nil _), exec_bind_ret.mpr
          ⟨none, _, [], rfl, recvAll_cut [7] (by simp) (by decide), .nil _⟩⟩⟩
    have hf : Fed calls (messageHeader.1 ++ [7]) [] :=
      fed_recv.mpr ⟨by simp [messageHeader], _, rfl, fed_own.mpr (fed_recv.mpr
        ⟨by simp, [], rfl, fed_recv.mpr ⟨by simp, [], rfl, fed_nil.mpr rfl⟩⟩)⟩
    exact (packetReceive_clean_iff hx hf).mpr (not_leavesHeader_message (by simp [calls]))

/-- A header that declares 32 MiB leaves its length behind, without a payload. -/
def longHeader : ByteBuf sizeofPacketHeader := ⟨[2, 0, 0, 0, 1, 4, 0, 0], rfl⟩

theorem packetReceive_leaves_header :
    ¬ ∀ (m : PacketMemory) calls s s' code m', m.WellFormed →
      Exec (packetReceiveInto .little m) calls (.ret (code, m')) → Fed calls s s' →
      CleanOutcome code m' := by
  intro hall
  have hx : Exec (packetReceiveInto .little packetInit) [⟨.recv 8, ⟨longHeader.1, le_rfl⟩⟩]
      (.ret (1, ⟨none, 0x2000000, 1, 4⟩)) :=
    exec_bind_ret.mpr ⟨some longHeader, _, [], rfl, recvAll_whole longHeader (by decide), .nil _⟩
  have hf : Fed (ρ := LocalCall.Answer) [⟨.recv 8, ⟨longHeader.1, le_rfl⟩⟩] longHeader.1 [] :=
    fed_recv.mpr ⟨nofun, [], rfl, rfl⟩
  have hclean := hall packetInit _ _ _ _ _ (.inl ⟨rfl, rfl⟩) hx hf
  exact not_clean_of_header (by decide) rfl hclean

end Outcome

end Sencd
