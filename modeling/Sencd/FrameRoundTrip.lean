import Sencd.WireHandshake

/-!
# Frames arrive as they were sent

A list of packets sent over a stream is received as the same list, however the kernel cuts the
transfers and whatever the byte orders of the two hosts; nothing is left on the stream.
-/
namespace Sencd
open ByteOrder CallProgram StreamNetwork

/-- The packets that `packet_construct` returns for the current version and a payload of at most
`MAX_PACKET_SIZE` bytes. -/
def Packet.Constructed (packet : Packet ByteBuf) : Prop :=
  ∃ (type : PacketType) (payload : Option (Payload ByteBuf)) (t : Calls ByteBuf),
    (∀ x, payload = some x → 0 < x.length ∧ x.length ≤ maxPacketSize) ∧
    Exec (packetConstruct type currentProtocolVersion payload) t (.ret packet)

theorem Packet.Constructed.valid {packet : Packet ByteBuf} (h : packet.Constructed) :
    packet.Valid := by
  obtain ⟨type, payload, t, hpayload, hx⟩ := h
  cases payload with
  | none =>
      obtain ⟨-, he⟩ := exec_ret.mp hx
      obtain rfl := Prog.ret.inj he
      exact ⟨rfl, by simp⟩
  | some payload =>
      obtain ⟨ok, u, rfl, hrest⟩ := exec_call_ret.mp hx
      cases ok with
      | false =>
          obtain ⟨-, he⟩ := exec_ret.mp hrest
          obtain rfl := Prog.ret.inj he
          exact ⟨rfl, by simp⟩
      | true =>
          obtain ⟨-, he⟩ := exec_ret.mp hrest
          obtain rfl := Prog.ret.inj he
          exact ⟨rfl, fun x hx => hpayload x hx⟩

/-- Send packets in order, with the result of each call. -/
def sendPackets (host : Endian) : List (Packet ByteBuf) → Wire (List Bool)
  | [] => return []
  | packet :: packets => do
    let sent ← packetSend host packet
    let rest ← sendPackets host packets
    return sent :: rest

/-- Receive a number of packets. -/
def receivePackets (host : Endian) : ℕ → Wire (List (Option (Packet ByteBuf)))
  | 0 => return []
  | count + 1 => do
    let packet ← packetReceive host
    let rest ← receivePackets host count
    return packet :: rest

theorem sendPackets_fragmentable (host : Endian) (packets : List (Packet ByteBuf)) :
    Fragmentable (sendPackets host packets) := by
  induction packets with
  | nil => trivial
  | cons packet packets ih =>
      apply (packetSend_fragmentable host packet).bind
      intro sent
      apply ih.bind
      intro rest
      trivial

theorem receivePackets_fragmentable (host : Endian) (count : ℕ) :
    Fragmentable (receivePackets host count) := by
  induction count with
  | zero => trivial
  | succ count ih =>
      apply (packetReceive_fragmentable host).bind
      intro packet
      apply ih.bind
      intro rest
      trivial

variable {env env' : ℕ → (i : LocalCall) → i.Answer} {packets : List (Packet ByteBuf)}

theorem runs_sendPackets (host : Endian) (env : ℕ → (i : LocalCall) → i.Answer)
    (h : ∀ packet ∈ packets, packet.Valid) (n : ℕ) (inbox : Bytes) :
    ∃ m bytes, FramesOf packets bytes ∧
      Runs env ⟨sendPackets host packets, n⟩ inbox ⟨.ret (packets.map fun _ => true), m⟩ inbox
        bytes := by
  induction packets generalizing n with
  | nil => exact ⟨n, [], .nil, .refl _ _⟩
  | cons packet packets ih =>
      have hlen := (h packet (by simp)).payloadLength_le
      obtain ⟨m, bytes, hbytes, hrest⟩ := ih (fun p hp => h p (by simp [hp])) (n + 1)
      refine ⟨m, _, .cons (env n .headerPadding) hbytes, ?_⟩
      have hfirst := (runs_packetSend host env n hlen inbox).bind
        fun sent => sendPackets host packets >>= fun rest => return sent :: rest
      exact hfirst.trans (hrest.bind fun rest => return true :: rest)

theorem runs_receivePackets (host : Endian) (h : ∀ packet ∈ packets, packet.Valid)
    (hmalloc : ∀ n, env n .malloc = true) (n : ℕ) {bytes : Bytes}
    (hbytes : FramesOf packets bytes) :
    ∃ m, Runs env ⟨receivePackets host packets.length, n⟩ bytes ⟨.ret (packets.map some), m⟩ []
      [] := by
  induction hbytes generalizing n with
  | nil => exact ⟨n, .refl _ _⟩
  | @cons packet packets bytes padding _ ih =>
      obtain ⟨k, hfirst⟩ := runs_packetReceive host n (h packet (by simp)) (fun _ => hmalloc)
        padding bytes
      obtain ⟨m, hrest⟩ := ih (fun p hp => h p (by simp [hp])) k
      refine ⟨m, ?_⟩
      have hbegin := hfirst.bind fun packet =>
        receivePackets host packets.length >>= fun rest => return packet :: rest
      exact hbegin.trans (hrest.bind fun rest => return some packet :: rest)

/-- Every run of a sender and a receiver ends with the packets received as they were sent, and
what a receiver accepts from any stream is one frame, which it takes off. -/
theorem framing_round_trip (host host' : Endian) (env env' : ℕ → (i : LocalCall) → i.Answer)
    (h : ∀ packet ∈ packets, packet.Constructed) (hmalloc : ∀ n, env' n .malloc = true) :
    (∃ m n, Settles env env'
      ⟨⟨sendPackets host packets, 0⟩, ⟨receivePackets host' packets.length, 0⟩, [], []⟩
      ⟨⟨.ret (packets.map fun _ => true), m⟩, ⟨.ret (packets.map some), n⟩, [], []⟩) ∧
    ∀ (host : Endian) (t : WireCalls) (s s' : Bytes) (packet : Packet ByteBuf),
      Exec (packetReceive host) t (.ret (some packet)) → Fed t s s' →
      packet.Valid ∧ ∃ padding, s = frameBytes packet padding ++ s' := by
  have hvalid : ∀ packet ∈ packets, packet.Valid := fun packet hp => (h packet hp).valid
  obtain ⟨m, bytes, hbytes, hsend⟩ := runs_sendPackets host env hvalid 0 []
  obtain ⟨n, hreceive⟩ := runs_receivePackets host' hvalid hmalloc 0 hbytes
  refine ⟨⟨m, n, ?_⟩, fun host t s s' packet hx hf => ?_⟩
  · have hleft := hsend.left env' ⟨receivePackets host' packets.length, 0⟩ []
    have hright := hreceive.right env ⟨.ret (packets.map fun _ => true), m⟩ []
    exact settles_of_run
      ⟨sendPackets_fragmentable host packets, receivePackets_fragmentable host' packets.length⟩
      (hleft.trans hright) fun _ => Step.ends
  · exact (fed_packetReceive hx hf).2.1 packet rfl

/-- A hello and a frame with three bytes. -/
def plainPackets : List (Packet ByteBuf) :=
  [⟨.clientHello, currentProtocolVersion, none⟩,
    ⟨.tunnelData, currentProtocolVersion, some ⟨3, plainBuf 3 9⟩⟩]

theorem plainPackets_constructed : ∀ packet ∈ plainPackets, packet.Constructed := by
  refine List.forall_mem_cons.mpr ⟨?_, List.forall_mem_singleton.mpr ?_⟩
  · exact ⟨.clientHello, none, [], by simp, .nil _⟩
  · refine ⟨.tunnelData, some ⟨3, plainBuf 3 9⟩, [⟨.malloc, true⟩], fun x hx => ?_, .cons (.nil _)⟩
    obtain rfl := Option.some.inj hx
    exact ⟨by decide, by decide⟩

theorem framing_round_trip_plain :
    (∃ m n, Settles ((plainDevice 0).answer plainSodium) ((plainDevice 0).answer plainSodium)
      ⟨⟨sendPackets .little plainPackets, 0⟩, ⟨receivePackets .big plainPackets.length, 0⟩, [], []⟩
      ⟨⟨.ret (plainPackets.map fun _ => true), m⟩, ⟨.ret (plainPackets.map some), n⟩, [], []⟩) ∧
    ∀ (host : Endian) (t : WireCalls) (s s' : Bytes) (packet : Packet ByteBuf),
      Exec (packetReceive host) t (.ret (some packet)) → Fed t s s' →
      packet.Valid ∧ ∃ padding, s = frameBytes packet padding ++ s' :=
  framing_round_trip .little .big _ _ plainPackets_constructed fun _ => rfl

end Sencd
