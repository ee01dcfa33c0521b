import Sencd.ReplyRouting

/-!
# Which client a packet goes to

The TUN sender does not parse the packets it reads. Byte 19, where an IPv4 packet has the last
byte of its destination, chooses the session, whatever the other bytes are.
-/
namespace Sencd
open ByteOrder

variable {Buf : ℕ → Type} (P : Platform Buf)

/-- The session in slot `i` can be sent to, and byte 19 of the packet is its octet. -/
structure AddressedTo (m : SessionManager Buf) (packet : Bytes) (i : Fin maxSessions)
    (s : Session Buf) : Prop where
  slot : m.sessions i = some s
  state : s.state = .established
  peerKnown : s.udp.peerKnown = true
  octet : s.tunnelIpOctet = packet.getD 19 0

/-- An IPv4 packet to the address of the session in the server's subnet. -/
structure SentToAddress (packet : Bytes) (s : Session Buf) : Prop where
  version : (packet.getD 0 0).toNat / 16 = 4
  destination : ipv4Destination packet = serverDefaultVni.take 3 ++ [s.tunnelIpOctet]

/-- A packet goes to one of the sessions it is addressed to, and to none if there is none; of
the table, only the counter of that session changes, by one. -/
structure Dispatches (m : SessionManager Buf) (packet : Bytes) : Prop where
  only {i : Fin maxSessions} : EncodedFor P m packet i → ∃ s, AddressedTo m packet i s
  one : (∃ i s, AddressedTo m packet i s) → ∃! i, EncodedFor P m packet i
  counted {i : Fin maxSessions} : EncodedFor P m packet i → ∃ s, m.sessions i = some s ∧
    (sessionManagerTunSender P m packet).1 =
      { m with sessions := Function.update m.sessions i (some s.counted) }
  idle : (∀ i, ¬ EncodedFor P m packet i) → sessionManagerTunSender P m packet = (m, none)

variable {P} {m : SessionManager Buf} {packet : Bytes} {i j : Fin maxSessions} {s : Session Buf}

/-- The lookup accepts what the packet is addressed to. -/
theorem addressedTo_iff :
    AddressedTo m packet i s ↔
      m.sessions i = some s ∧ tunSenderAccepts (packet.getD 19 0) s = true := by
  simp only [tunSenderAccepts, Bool.and_eq_true, decide_eq_true_eq, and_assoc]
  constructor
  · rintro ⟨h, hstate, hknown, hoctet⟩
    exact ⟨h, hstate, hknown, hoctet⟩
  · rintro ⟨h, hstate, hknown, hoctet⟩
    exact ⟨h, hstate, hknown, hoctet⟩

/-- The lookup finds a session when there is one the packet is addressed to. -/
theorem AddressedTo.find (h : AddressedTo m packet i s) : ∃ j t,
    SlotTable.find m.sessions (tunSenderAccepts (packet.getD 19 0)) = some (j, t) := by
  obtain ⟨hs, haccepts⟩ := addressedTo_iff.mp h
  cases hlookup : SlotTable.find m.sessions (tunSenderAccepts (packet.getD 19 0)) with
  | none =>
      rw [SlotTable.find_eq_none.mp hlookup i s hs] at haccepts
      contradiction
  | some target => exact ⟨target.1, target.2, rfl⟩

/-- At most one session is chosen. -/
theorem EncodedFor.unique (hi : EncodedFor P m packet i) (hj : EncodedFor P m packet j) :
    i = j := by
  obtain ⟨send, hsend, rfl⟩ := hi
  obtain ⟨send', hsend', rfl⟩ := hj
  rw [hsend] at hsend'
  rw [Option.some.inj hsend']

/-- The session that is chosen is counted, and nothing else changes. -/
theorem EncodedFor.counts (h : EncodedFor P m packet i) : ∃ s, m.sessions i = some s ∧
    (sessionManagerTunSender P m packet).1 =
      { m with sessions := Function.update m.sessions i (some s.counted) } := by
  obtain ⟨send, hsend, rfl⟩ := h
  obtain ⟨compressed, i, s, datagram, htarget, -, rfl⟩ :=
    (sessionManagerTunSender_eq_some P).mp hsend
  refine ⟨s, mem_of_tunSenderTarget P htarget, ?_⟩
  rw [sessionManagerTunSender_target P htarget]

/-- Every packet that the sender accepts is dispatched by its byte 19. -/
theorem tun_dispatch (hA : P.aead.Lawful) (hZ : P.zstd.Lawful) (htun : m.tun = true)
    (hsocket : 0 ≤ m.udpSocket) (hheader : 20 ≤ packet.length)
    (hmax : packet.length ≤ packetMaxSize) : Dispatches P m packet where
  only {i} h := by
    obtain ⟨-, s, hlookup⟩ := (encodedFor_iff_find (.of_lawful hA hZ) htun hsocket hheader).mp h
    obtain ⟨hs, haccepts, -⟩ := SlotTable.find_eq_some.mp hlookup
    exact ⟨s, addressedTo_iff.mpr ⟨hs, haccepts⟩⟩
  one h := by
    obtain ⟨j, t, haddressed⟩ := h
    obtain ⟨k, s, hlookup⟩ := haddressed.find
    have hchosen : EncodedFor P m packet k :=
      (encodedFor_iff_find (.of_lawful hA hZ) htun hsocket hheader).mpr ⟨hmax, s, hlookup⟩
    exact ⟨k, hchosen, fun i hi => hi.unique hchosen⟩
  counted h := h.counts
  idle h := by
    apply sessionManagerTunSender_idle
    cases htarget : tunSenderTarget P m packet with
    | none => rfl
    | some target =>
        obtain ⟨compressed, i, s⟩ := target
        obtain ⟨-, -, -, hlookup⟩ := (tunSenderTarget_eq_some P).mp htarget
        have hwhole : packet.take tunnelPacketMaxPlaintext = packet :=
          List.take_of_length_le (hmax.trans (Nat.sub_le _ _))
        rw [hwhole] at hlookup
        have hchosen : EncodedFor P m packet i :=
          (encodedFor_iff_find (.of_lawful hA hZ) htun hsocket hheader).mpr ⟨hmax, s, hlookup⟩
        exact absurd hchosen (h i)

section Runs

theorem heardManager_tun : (heardManager 1 0).tun = true := by
  have heq : heardManager 1 0 = _ := heardManager_eq (show 1 ≤ maxSessions by decide) one_pos
  rw [heq]
  exact guestManager_tun 1

theorem heardManager_socket : 0 ≤ (heardManager 1 0).udpSocket := by
  have heq : heardManager 1 0 = _ := heardManager_eq (show 1 ≤ maxSessions by decide) one_pos
  rw [heq]
  exact guestManager_socket 1

/-- A packet to the address of the one guest. -/
theorem tun_dispatch_reply : Dispatches (copyPlatform MsgBuf) (heardManager 1 0) guestReply :=
  tun_dispatch (copyAead_lawful _) storeZstd_lawful heardManager_tun heardManager_socket (by decide)
    (by decide)

/-- A packet of IP version 6 whose byte 19 is 2. -/
def foreignPacket : Bytes := 96 :: (List.replicate 18 0 ++ [2])

/-- The server of one guest that has sent a packet looks the guest up by the octet 2. -/
theorem heardManager_find (packet : Bytes) (h : packet.getD 19 0 = 2) :
    SlotTable.find (heardManager 1 0).sessions (tunSenderAccepts (packet.getD 19 0)) =
      some (⟨0, by decide⟩, ((guestSession 0).placedAt 0).withPeer ⟨9, 9⟩) := by
  have heq : heardManager 1 0 = _ := heardManager_eq (show 1 ≤ maxSessions by decide) one_pos
  rw [h]
  refine SlotTable.find_eq_some.mpr ⟨?_, rfl, fun j hj => absurd hj (Fin.not_lt_zero j)⟩
  rw [heq]
  simp

/-- The guest is sent a packet that is not an IPv4 packet to its address. -/
theorem not_dispatched_by_address :
    ¬ ∀ steps m packet i,
      ServerRun msgMemory (copyPlatform MsgBuf) (identityOf 0) 5 steps m → m.tun = true →
      0 ≤ m.udpSocket → 20 ≤ packet.length → packet.length ≤ packetMaxSize →
      (EncodedFor (copyPlatform MsgBuf) m packet i ↔ ∃ s, m.sessions i = some s ∧
        s.state = .established ∧ s.udp.peerKnown = true ∧ SentToAddress packet s) := by
  intro hall
  have hencoded : EncodedFor (copyPlatform MsgBuf) (heardManager 1 0) foreignPacket
      ⟨0, by decide⟩ :=
    (encodedFor_iff_find (copyPlatform_seals _) heardManager_tun heardManager_socket
      (by decide)).mpr ⟨by decide, _, heardManager_find foreignPacket (by decide)⟩
  obtain ⟨s, -, -, -, haddress⟩ := (hall _ _ foreignPacket _ (heard_run (by decide) 0)
    heardManager_tun heardManager_socket (by decide) (by decide)).mp hencoded
  exact absurd haddress.version (by decide)

end Runs

end Sencd
