import Sencd.Delivery

/-!
# Replies to a client's packets

Every client's TUN interface has the address 10.8.0.2, while the server gives each session an
octet of its own and finds the session of a reply by the last octet of its destination. The
replies to all clients therefore go to the first session with octet 2 whose peer is known.
-/
namespace Sencd
open ByteOrder LabelledPath

variable {Buf : ℕ → Type} (M : Memory Buf) (P : Platform Buf)

/-- The source address of an IPv4 packet. -/
def ipv4Source (packet : Bytes) : Bytes := (packet.drop 12).take 4

/-- The destination address of an IPv4 packet. -/
def ipv4Destination (packet : Bytes) : Bytes := (packet.drop 16).take 4

/-- The server encodes a packet it reads from the TUN for the session in slot `i`. -/
def EncodedFor (m : SessionManager Buf) (packet : Bytes) (i : Fin maxSessions) : Prop :=
  ∃ send, (sessionManagerTunSender P m packet).2 = some send ∧ send.slot = i

/-- The client `c` is the other end of the session `s`. -/
structure Client.Owns (c : Client Buf) (s : Session Buf) : Prop where
  sessionId : c.session.sessionId = s.sessionId
  txKey : c.session.crypto.txKey = s.crypto.rxKey
  rxKey : c.session.crypto.rxKey = s.crypto.txKey

/-- Among the steps, the listener accepted `p` under the session `s` in slot `i`; the owner of
the session had sent it, from the address of its TUN interface. -/
structure SentUnder (steps : List (SessionManager Buf × ServerOp Buf)) (p : Bytes)
    (i : Fin maxSessions) (s : Session Buf) : Prop where
  source : ipv4Source p = clientDefaultVni
  sent : ∃ c m₀ s₀ sender datagram, (m₀, .udpListener sender datagram) ∈ steps ∧
    c.Owns s₀ ∧ (clientTunSender P c p).2 = some datagram ∧ HandledUnder P m₀ datagram i s₀ ∧
    decodeReceived P datagram s₀ ≠ none ∧ s₀.sessionId = s.sessionId

/-- A packet that arrives on the server's TUN in the state `m`, addressed to where an earlier
packet came from that was accepted under the session `s` in slot `i`. -/
structure Reply (steps : List (SessionManager Buf × ServerOp Buf)) (m : SessionManager Buf)
    (packet : Bytes) (i : Fin maxSessions) (s : Session Buf) : Prop where
  arrives : ∃ before after p, steps = before ++ (m, .tunSender packet) :: after ∧
    SentUnder P before p i s ∧ ipv4Destination packet = ipv4Source p
  header : 20 ≤ packet.length
  tun : m.tun = true
  socket : 0 ≤ m.udpSocket
  slot : m.sessions i = some s
  peerKnown : s.udp.peerKnown = true

/-- Replies are encoded for the session their client owns. -/
def RepliesReturn (steps : List (SessionManager Buf × ServerOp Buf)) : Prop :=
  ∀ m packet i s, Reply P steps m packet i s → EncodedFor P m packet i

/-- The slot has the octet of the clients' address, and no lower slot with that octet has a
known peer. -/
structure FirstForClients (m : SessionManager Buf) (i : Fin maxSessions) : Prop where
  octet : i.val % 256 = 0
  first : ∀ j < i, j.val % 256 = 0 → ∀ t, m.sessions j = some t → t.udp.peerKnown = false

/-- The longest packet a sender can pack. -/
abbrev packetMaxSize : ℕ := tunnelPacketMaxPlaintext - tunnelCompressHeaderSize

/-- Replies are short enough and their client's session is the first with its octet. -/
def RepliesToFirst (steps : List (SessionManager Buf × ServerOp Buf)) : Prop :=
  ∀ m packet i s, Reply P steps m packet i s →
    packet.length ≤ packetMaxSize ∧ FirstForClients m i

variable {M P} {m : SessionManager Buf} {steps : List (SessionManager Buf × ServerOp Buf)}

theorem octet_eq_two (i : ℕ) : UInt8.ofNat (i + 2) = 2 ↔ i % 256 = 0 := by
  rw [← UInt8.toNat_inj, UInt8.toNat_ofNat']
  show (i + 2) % 256 = 2 ↔ i % 256 = 0
  omega

/-- The octet the sender looks up is the last of the destination address. -/
theorem getD_of_ipv4Destination {packet : Bytes} (h : ipv4Destination packet = clientDefaultVni) :
    packet.getD 19 0 = 2 := by
  have hlast := congrArg (fun a => a.getD 3 0) h
  simpa [ipv4Destination, clientDefaultVni] using hlast

/-- An established session in slot `j` is accepted for the clients' octet when its slot has that
octet and its peer is known. -/
theorem tunSenderAccepts_two {j : Fin maxSessions} {t : Session Buf}
    (hstate : t.state = .established)
    (hoctet : t.tunnelIpOctet = UInt8.ofNat (j.val + 2)) :
    tunSenderAccepts 2 t = true ↔ t.udp.peerKnown = true ∧ j.val % 256 = 0 := by
  simp only [tunSenderAccepts, Bool.and_eq_true, decide_eq_true_eq, hstate, hoctet, octet_eq_two,
    true_and]

/-- The lookup stops at slot `i` exactly when it is the first for the clients. -/
theorem find_iff_firstForClients
    (hplaced : ∀ j t, m.sessions j = some t →
      t.state = .established ∧ t.tunnelIpOctet = UInt8.ofNat (j.val + 2))
    {i : Fin maxSessions} {s : Session Buf} (hs : m.sessions i = some s)
    (hknown : s.udp.peerKnown = true) :
    SlotTable.find m.sessions (tunSenderAccepts 2) = some (i, s) ↔ FirstForClients m i := by
  obtain ⟨hstate, hoctet⟩ := hplaced i s hs
  rw [SlotTable.find_eq_some, tunSenderAccepts_two hstate hoctet]
  constructor
  · rintro ⟨-, ⟨-, hi⟩, hbefore⟩
    refine ⟨hi, fun j hj hj2 t ht => ?_⟩
    obtain ⟨hstate', hoctet'⟩ := hplaced j t ht
    by_contra hpeer
    have haccepts := (tunSenderAccepts_two hstate' hoctet').mpr ⟨by simpa using hpeer, hj2⟩
    rw [hbefore j hj t ht] at haccepts
    contradiction
  · intro h
    refine ⟨hs, ⟨hknown, h.octet⟩, fun j hj t ht => ?_⟩
    obtain ⟨hstate', hoctet'⟩ := hplaced j t ht
    by_contra haccepts
    obtain ⟨hpeer, hj2⟩ := (tunSenderAccepts_two hstate' hoctet').mp (by simpa using haccepts)
    rw [h.first j hj hj2 t ht] at hpeer
    contradiction

/-- A packet is encoded for the session that the lookup of its byte 19 finds, provided it can be
packed. -/
theorem encodedFor_iff_find (hP : P.Seals) (htun : m.tun = true) (hsocket : 0 ≤ m.udpSocket)
    {packet : Bytes} (hheader : 20 ≤ packet.length) {i : Fin maxSessions} :
    EncodedFor P m packet i ↔ packet.length ≤ packetMaxSize ∧
      ∃ s, SlotTable.find m.sessions (tunSenderAccepts (packet.getD 19 0)) = some (i, s) := by
  have hoctet : (packet.take tunnelPacketMaxPlaintext).getD 19 0 = packet.getD 19 0 := by
    have htake : (packet.take tunnelPacketMaxPlaintext)[19]? = packet[19]? :=
      List.getElem?_take_of_lt (by decide)
    rw [List.getD_eq_getElem?_getD, htake, ← List.getD_eq_getElem?_getD]
  have hlength : (packet.take tunnelPacketMaxPlaintext).length + tunnelCompressHeaderSize ≤
      tunnelPacketMaxPlaintext ↔ packet.length ≤ packetMaxSize := by
    simp only [List.length_take, packetMaxSize, tunnelPacketMaxPlaintext, tunnelPacketMaxSize,
      tunnelHeaderSize, tunnelAeadTagSize, tunnelCompressHeaderSize]
    omega
  have hpacked := tunnelPipelineCompress_ne_nil P
    (hP.le_compressBound (List.length_take_le _ packet)) tunnelPacketMaxPlaintext
  rw [hlength] at hpacked
  constructor
  · rintro ⟨send, hsend, rfl⟩
    obtain ⟨compressed, i, s, datagram, htarget, -, rfl⟩ :=
      (sessionManagerTunSender_eq_some P).mp hsend
    obtain ⟨-, rfl, hne, hlookup⟩ := (tunSenderTarget_eq_some P).mp htarget
    rw [hoctet] at hlookup
    exact ⟨hpacked.mp hne, s, hlookup⟩
  · rintro ⟨hmax, s, hlookup⟩
    have hraw : 20 ≤ (packet.take tunnelPacketMaxPlaintext).length := by
      simp only [List.length_take, tunnelPacketMaxPlaintext, tunnelPacketMaxSize, tunnelHeaderSize,
        tunnelAeadTagSize]
      omega
    rw [← hoctet] at hlookup
    have htarget := (tunSenderTarget_eq_some P).mpr
      ⟨⟨htun, hsocket, hraw⟩, rfl, hpacked.mpr hmax, hlookup⟩
    obtain ⟨datagram, hencode⟩ := tunnelPacketEncode_packed P hP (hlength.mpr hmax) s.sessionId
      s.crypto.txNonce s.crypto
    exact ⟨_, (sessionManagerTunSender_eq_some P).mpr
      ⟨_, _, _, datagram, htarget, hencode, rfl⟩, rfl⟩

/-- With all sessions placed and established, a packet to the clients' address is encoded for
the first slot with their octet and a known peer, provided it can be packed. -/
theorem encodedFor_iff (hA : P.aead.Lawful) (hZ : P.zstd.Lawful) (htun : m.tun = true)
    (hsocket : 0 ≤ m.udpSocket)
    (hplaced : ∀ j t, m.sessions j = some t →
      t.state = .established ∧ t.tunnelIpOctet = UInt8.ofNat (j.val + 2))
    {packet : Bytes} (hheader : 20 ≤ packet.length)
    (hdest : ipv4Destination packet = clientDefaultVni) {i : Fin maxSessions} {s : Session Buf}
    (hs : m.sessions i = some s) (hknown : s.udp.peerKnown = true) :
    EncodedFor P m packet i ↔ packet.length ≤ packetMaxSize ∧ FirstForClients m i := by
  have hfind := find_iff_firstForClients hplaced hs hknown
  rw [encodedFor_iff_find (.of_lawful hA hZ) htun hsocket hheader,
    getD_of_ipv4Destination hdest, ← hfind]
  refine and_congr_right fun _ => ⟨fun ⟨s', hlookup⟩ => ?_, fun hlookup => ⟨s, hlookup⟩⟩
  obtain rfl := Option.some.inj (hs.symm.trans (SlotTable.find_eq_some.mp hlookup).1)
  exact hlookup

/-- Replies return to their client in exactly the runs in which every reply can be packed and
goes to the first session with octet 2 and a known peer. -/
theorem repliesReturn_iff (hA : P.aead.Lawful) (hZ : P.zstd.Lawful)
    {identity : CryptoContext Buf} {udpSocket : ℤ} (h : ServerRun M P identity udpSocket steps m) :
    RepliesReturn P steps ↔ RepliesToFirst P steps := by
  refine forall_congr' fun m₁ => forall_congr' fun packet => forall_congr' fun i =>
    forall_congr' fun s => forall_congr' fun hr => ?_
  obtain ⟨before, after, p, hsteps, hsent, hdest⟩ := hr.arrives
  have hm : (m₁, .tunSender packet) ∈ steps := by
    rw [hsteps]
    simp
  obtain ⟨before', after', m', -, hbefore, -, -⟩ := h.split hm
  exact encodedFor_iff hA hZ hr.tun hr.socket (ServerRun.placed M P hbefore) hr.header
    (hdest.trans hsent.source) hr.slot hr.peerKnown

section Runs

/-- A packet from the address every client has to 8.8.8.8. -/
def guestPacket : Bytes := 69 :: (List.replicate 11 0 ++ [10, 8, 0, 2, 8, 8, 8, 8])

/-- A packet to the address every client has. -/
def guestReply : Bytes := 69 :: (List.replicate 15 0 ++ [10, 8, 0, 2])

/-- The manager of `n` guests after guest `k` has sent its packet. -/
def heardManager (n k : ℕ) : SessionManager MsgBuf :=
  (sessionManagerUdpListener (copyPlatform MsgBuf) (guestManager n) ⟨9, 9⟩
    (guestDatagram k guestPacket)).1

/-- Guest `k` sends its packet and a reply arrives. -/
def replySteps (n k : ℕ) : List (SessionManager MsgBuf × ServerOp MsgBuf) :=
  guests n ++ [(guestManager n, .udpListener ⟨9, 9⟩ (guestDatagram k guestPacket))] ++
    [(heardManager n k, .tunSender guestReply)]

variable {n k : ℕ}

theorem guestPacket_sent (k : ℕ) :
    (clientTunSender (copyPlatform MsgBuf) (guestTunnel k) guestPacket).2 =
      some (guestDatagram k guestPacket) :=
  guestDatagram_sent k (by simp [guestPacket]) (by decide)

theorem guestPacket_handled (hn : n ≤ maxSessions) (hk : k < n) :
    HandledUnder (copyPlatform MsgBuf) (guestManager n) (guestDatagram k guestPacket)
      ⟨k, hk.trans_le hn⟩ ((guestSession k).placedAt k) :=
  guestDatagram_handled hn hk (by simp [guestPacket]) (by decide)

theorem heard_run (hn : n ≤ maxSessions) (k : ℕ) :
    ServerRun msgMemory (copyPlatform MsgBuf) (identityOf 0) 5
      (guests n ++ [(guestManager n, .udpListener ⟨9, 9⟩ (guestDatagram k guestPacket))])
      (heardManager n k) := .snoc (guests_run hn) (.udpListener _ _ _)

theorem reply_run (hn : n ≤ maxSessions) (k : ℕ) :
    ServerRun msgMemory (copyPlatform MsgBuf) (identityOf 0) 5 (replySteps n k)
      (sessionManagerTunSender (copyPlatform MsgBuf) (heardManager n k) guestReply).1 :=
  .snoc (heard_run hn k) (.tunSender _ _)

theorem heardManager_eq (hn : n ≤ maxSessions) (hk : k < n) :
    heardManager n k = { guestManager n with
      sessions := Function.update (guestManager n).sessions ⟨k, hk.trans_le hn⟩
        (some (((guestSession k).placedAt k).withPeer ⟨9, 9⟩)) } := by
  have hhandled := guestPacket_handled hn hk
  unfold heardManager
  rw [sessionManagerUdpListener_handled _ hhandled.socket hhandled.target]

/-- The reply is one to the packet guest `k` has sent. -/
theorem guest_reply (hn : n ≤ maxSessions) (hk : k < n) :
    Reply (copyPlatform MsgBuf) (replySteps n k) (heardManager n k) guestReply ⟨k, hk.trans_le hn⟩
      (((guestSession k).placedAt k).withPeer ⟨9, 9⟩) := by
  have hhandled := guestPacket_handled hn hk
  have hemitted := clientTunSender_emitted (guestPacket_sent k)
  obtain ⟨plaintext, hdecode, -⟩ := hemitted.opened (copyAead_lawful _) storeZstd_lawful
    (guest_keys k).1
  have hdecoded : decodeReceived (copyPlatform MsgBuf) (guestDatagram k guestPacket)
      ((guestSession k).placedAt k) ≠ none := by
    unfold decodeReceived
    rw [hemitted.take (copyAead_lawful _)]
    have hcongr := tunnelPacketDecode_congr (copyPlatform MsgBuf)
      (show (guestSession k).crypto.rxKey = ((guestSession k).placedAt k).crypto.rxKey from rfl)
      (guestDatagram k guestPacket)
    rw [← hcongr, hdecode]
    simp
  have howns : (guestTunnel k).Owns ((guestSession k).placedAt k) :=
    ⟨guestTunnel_sessionId k, (guest_keys k).1.symm, (guest_keys k).2.symm⟩
  have hsent : SentUnder (copyPlatform MsgBuf)
      (guests n ++ [(guestManager n, .udpListener ⟨9, 9⟩ (guestDatagram k guestPacket))])
      guestPacket ⟨k, hk.trans_le hn⟩ (((guestSession k).placedAt k).withPeer ⟨9, 9⟩) :=
    ⟨by decide, guestTunnel k, guestManager n, (guestSession k).placedAt k, ⟨9, 9⟩, _,
      List.mem_append_right _ (List.mem_singleton_self _), howns, guestPacket_sent k, hhandled,
      hdecoded, rfl⟩
  have heq := heardManager_eq hn hk
  exact {
    arrives := ⟨_, [], guestPacket, rfl, hsent, by decide⟩
    header := by decide
    tun := by
      rw [heq]
      exact guestManager_tun n
    socket := by
      rw [heq]
      exact hhandled.socket
    slot := by
      rw [heq]
      simp
    peerKnown := rfl }

/-- The one packet that arrives on the server's TUN. -/
theorem mem_replySteps {m : SessionManager MsgBuf} {packet : Bytes}
    (h : (m, .tunSender packet) ∈ replySteps n k) : m = heardManager n k ∧ packet = guestReply := by
  obtain h | h := List.mem_append.mp h
  · obtain h | h := List.mem_append.mp h
    · obtain ⟨j, -, he⟩ := List.mem_map.mp h
      cases he
    · simp at h
  · simpa using h

/-- Only guest `k` has sent anything, so the reply goes to the first client that could be meant. -/
theorem repliesToFirst_replySteps (hn : n ≤ maxSessions) (hk : k < n) (hoctet : k % 256 = 0) :
    RepliesToFirst (copyPlatform MsgBuf) (replySteps n k) := by
  intro m packet i s hr
  obtain ⟨before, after, -, hsteps, -, -⟩ := hr.arrives
  have hm : (m, .tunSender packet) ∈ replySteps n k := by
    rw [hsteps]
    simp
  obtain ⟨hm, hpacket⟩ := mem_replySteps hm
  have hunknown : ∀ j : Fin maxSessions, j ≠ ⟨k, hk.trans_le hn⟩ → ∀ t,
      m.sessions j = some t → t.udp.peerKnown = false := by
    intro j hj t ht
    rw [hm, heardManager_eq hn hk] at ht
    simp only [Function.update_of_ne hj] at ht
    by_cases hlt : j.val < n
    · obtain rfl := Option.some.inj ((SessionManager.filled_of_lt hlt).symm.trans ht)
      rfl
    · have hnone : (guestManager n).sessions j = none := if_neg hlt
      exact absurd (hnone.symm.trans ht) (by simp)
  have hi : i = ⟨k, hk.trans_le hn⟩ := by
    by_contra hne
    have hpeer := hunknown i hne s hr.slot
    rw [hr.peerKnown] at hpeer
    contradiction
  rw [hpacket, hi]
  exact ⟨by decide, hoctet, fun j hj _ t ht => hunknown j hj.ne t ht⟩

/-- Replies to client 256 return to it, as the peer of the client in slot 0 is not known. -/
theorem repliesReturn_last : RepliesReturn (copyPlatform MsgBuf) (replySteps 257 256) := by
  have hn : 257 ≤ maxSessions := by decide
  exact (repliesReturn_iff (copyAead_lawful _) storeZstd_lawful (reply_run hn 256)).mpr
    (repliesToFirst_replySteps hn (by decide) rfl)

/-- The reply to the second of two clients is not encoded for it. -/
theorem not_repliesReturn : ¬ ∀ steps m,
    ServerRun msgMemory (copyPlatform MsgBuf) (identityOf 0) 5 steps m →
    RepliesReturn (copyPlatform MsgBuf) steps := by
  intro hall
  have hn : 2 ≤ maxSessions := by decide
  have hreply : Reply (copyPlatform MsgBuf) (replySteps 2 1) (heardManager 2 1) guestReply
      ⟨1, by decide⟩ (((guestSession 1).placedAt 1).withPeer ⟨9, 9⟩) := guest_reply hn one_lt_two
  have hencoded := hall _ _ (reply_run hn 1) _ _ _ _ hreply
  have hplaced := ServerRun.placed msgMemory (copyPlatform MsgBuf) (heard_run hn 1)
  have hfirst := ((encodedFor_iff (copyAead_lawful _) storeZstd_lawful hreply.tun hreply.socket
    hplaced hreply.header (by decide) hreply.slot hreply.peerKnown).mp hencoded).2
  exact absurd hfirst.octet (by decide)

end Runs

end Sencd
