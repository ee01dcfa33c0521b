import Sencd.ReturnPath

/-!
# How often a packet is delivered

The two receiving loops open every datagram their peer has produced and write its packet to
the TUN. Neither looks at `rx_nonce`, so a packet is written as often as its datagram arrives.
-/
namespace Sencd
open ByteOrder LabelledPath

variable {Buf : ℕ → Type} (M : Memory Buf) (P : Platform Buf)

/-- The tunnel sender with context `tx` produces the datagram for the packet `raw`. -/
structure Emitted (tx : CryptoContext Buf) (id : UInt64) (raw datagram : Bytes) : Prop where
  nonempty : raw ≠ []
  bounded : raw.length ≤ tunnelPacketMaxPlaintext
  packed : tunnelPipelineCompress P raw tunnelPacketMaxPlaintext ≠ []
  encoded : ∃ counter, tunnelPacketEncode P ⟨id, counter,
    tunnelPipelineCompress P raw tunnelPacketMaxPlaintext⟩ tx = some datagram

variable {M P} {tx rx : CryptoContext Buf} {id : UInt64} {raw datagram : Bytes}

/-- What `client_tun_sender` sends is produced for the packet it has read. -/
theorem clientTunSender_emitted {c : Client Buf} {packet : Bytes}
    (h : (clientTunSender P c packet).2 = some datagram) :
    Emitted P c.session.crypto c.session.sessionId (packet.take tunnelPacketMaxPlaintext)
      datagram := by
  obtain ⟨-, hraw, hpacked, hencode⟩ := clientTunSender_eq_some.mp h
  exact ⟨hraw, List.length_take_le _ _, hpacked, _, hencode⟩

/-- What `session_manager_tun_sender` sends is produced for the packet it has read. -/
theorem sessionManagerTunSender_emitted {m : SessionManager Buf} {packet : Bytes} {send : TunSend}
    (h : (sessionManagerTunSender P m packet).2 = some send) :
    ∃ s, m.sessions send.slot = some s ∧ Emitted P s.crypto s.sessionId
      (packet.take tunnelPacketMaxPlaintext) send.datagram := by
  obtain ⟨compressed, i, s, datagram, htarget, hencode, rfl⟩ :=
    (sessionManagerTunSender_eq_some P).mp h
  obtain ⟨⟨-, -, hlen⟩, rfl, hpacked, hfind⟩ := (tunSenderTarget_eq_some P).mp htarget
  refine ⟨s, (SlotTable.find_eq_some.mp hfind).1, ?_, List.length_take_le _ _, hpacked, _, hencode⟩
  intro hnil
  simp [hnil] at hlen

/-- A produced datagram starts with the session id and fits the receive buffers. -/
theorem Emitted.shape (hA : P.aead.Lawful) (h : Emitted P tx id raw datagram) :
    ∃ rest, 8 ≤ rest.length ∧ rest.length ≤ tunnelPacketMaxSize - 8 ∧
      datagram = beBytes 8 id.toNat ++ rest := by
  obtain ⟨counter, hencoded⟩ := h.encoded
  obtain ⟨hmax, c, hc, rfl⟩ := tunnelPacketEncode_eq_some P hencoded
  have hlen := hA.encrypt_length hc
  refine ⟨_, by simp, ?_, rfl⟩
  dsimp only at hmax hlen
  simp only [List.length_append, beBytes_length, hlen]
  simp only [tunnelPacketMaxPlaintext, tunnelPacketMaxSize, tunnelHeaderSize,
    tunnelAeadTagSize] at hmax ⊢
  omega

/-- What the headers and the tag add to a packet. -/
abbrev tunnelOverhead : ℕ := tunnelHeaderSize + tunnelAeadTagSize + tunnelCompressHeaderSize

theorem Emitted.length_le (hA : P.aead.Lawful) (h : Emitted P tx id raw datagram) :
    datagram.length ≤ raw.length + tunnelOverhead := by
  obtain ⟨counter, hencoded⟩ := h.encoded
  obtain ⟨-, c, hc, rfl⟩ := tunnelPacketEncode_eq_some P hencoded
  have hsealed := hA.encrypt_length hc
  have hpacked := tunnelPipelineCompress_length_le P raw tunnelPacketMaxPlaintext
  dsimp only at hsealed
  simp only [List.length_append, beBytes_length, hsealed, tunnelOverhead, tunnelHeaderSize]
  omega

theorem Emitted.take (hA : P.aead.Lawful) (h : Emitted P tx id raw datagram) :
    datagram.take tunnelPacketMaxSize = datagram := by
  obtain ⟨rest, -, hlen, rfl⟩ := h.shape hA
  apply List.take_of_length_le
  simp only [tunnelPacketMaxSize] at hlen
  simp only [List.length_append, beBytes_length, tunnelPacketMaxSize]
  omega

theorem Emitted.ne_nil (hA : P.aead.Lawful) (h : Emitted P tx id raw datagram) :
    datagram ≠ [] := by
  obtain ⟨rest, hrest, -, rfl⟩ := h.shape hA
  intro hnil
  have hzero := congrArg List.length hnil
  simp at hzero

/-- The session id a receiver peeks at. -/
theorem Emitted.peek (hA : P.aead.Lawful) (h : Emitted P tx id raw datagram) :
    tunnelPacketPeekSessionId P (datagram.take tunnelPacketMaxSize) = some id := by
  have htake := h.take hA
  obtain ⟨rest, hrest, -, rfl⟩ := h.shape hA
  rw [htake]
  exact tunnelPacketPeekSessionId_append P id hrest

/-- The receiver opens a produced datagram and unpacks its packet. -/
theorem Emitted.opened (hA : P.aead.Lawful) (hZ : P.zstd.Lawful)
    (h : Emitted P tx id raw datagram) (hkey : rx.rxKey = tx.txKey) :
    ∃ plaintext, tunnelPacketDecode P datagram rx = some plaintext ∧
      tunnelPipelineDecompress P plaintext tunnelPacketMaxPlaintext = raw := by
  obtain ⟨counter, hencoded⟩ := h.encoded
  have hbounded := h.bounded
  refine ⟨_, tunnelPacketDecode_encode P P.host hA hkey hencoded, ?_⟩
  apply tunnelPipelineDecompress_compress P P.host hZ h.packed hbounded
  simp only [tunnelPacketMaxPlaintext, tunnelPacketMaxSize] at hbounded
  omega

/-- Under one key a datagram is produced for one packet only. -/
theorem Emitted.raw_unique (hA : P.aead.Lawful) (hZ : P.zstd.Lawful) {tx' : CryptoContext Buf}
    {id' : UInt64} {raw' : Bytes} (h : Emitted P tx id raw datagram)
    (h' : Emitted P tx' id' raw' datagram) (hkey : tx.txKey = tx'.txKey) : raw = raw' := by
  let rx : CryptoContext Buf := { tx with rxKey := tx.txKey }
  have hrx : rx.rxKey = tx.txKey := rfl
  obtain ⟨plaintext, hdecode, hunpack⟩ := h.opened hA hZ hrx
  obtain ⟨plaintext', hdecode', hunpack'⟩ := h'.opened hA hZ (hrx.trans hkey)
  obtain rfl := Option.some.inj (hdecode.symm.trans hdecode')
  rw [← hunpack, hunpack']

/-- A datagram that reached a session whose packets go to an open TUN, with the receive key of
the session and the packet that was written. -/
structure Reception (Buf : ℕ → Type) where
  rxKey : Buf cryptoSessionKeySize
  datagram : Bytes
  written : Option Bytes

variable (P)

/-- The reception in a server's step, if it is one. -/
def serverReception : SessionManager Buf × ServerOp Buf → Option (Reception Buf)
  | (m, .udpListener sender datagram) =>
    if m.tun = false ∨ m.udpSocket < 0 then none else
    (udpListenerTarget P m (datagram.take tunnelPacketMaxSize)).map fun target =>
      ⟨target.2.crypto.rxKey, datagram, (sessionManagerUdpListener P m sender datagram).2⟩
  | _ => none

/-- The reception in a client's step, if it is one. -/
def clientReception : Client Buf × ClientOp → Option (Reception Buf)
  | (c, .udpReceiver datagram) =>
    if c.tun = false ∨ ¬ c.connected then none
    else some ⟨c.session.crypto.rxKey, datagram, clientUdpReceiver P c datagram⟩
  | _ => none

variable (M)

/-- The receptions of the runs of servers and of clients. -/
inductive ReceptionRun : List (Reception Buf) → Prop
  | server {identity : CryptoContext Buf} {udpSocket : ℤ}
      {steps : List (SessionManager Buf × ServerOp Buf)} {m : SessionManager Buf} :
      ServerRun M P identity udpSocket steps m → ReceptionRun (steps.filterMap (serverReception P))
  | client {c₀ c : Client Buf} {steps : List (Client Buf × ClientOp)} :
      ClientRun P M c₀ steps c → ReceptionRun (steps.filterMap (clientReception P))

/-- The packet of a datagram that was produced for a session is written at most once. -/
def AtMostOnce (rs : List (Reception Buf)) : Prop :=
  ∀ tx id raw datagram, Emitted P tx id raw datagram →
    rs.Pairwise fun r r' =>
      ¬ ((r.rxKey = tx.txKey ∧ r.datagram = datagram ∧ r.written = some raw) ∧
        (r'.rxKey = tx.txKey ∧ r'.datagram = datagram ∧ r'.written = some raw))

/-- A datagram that was produced for a session arrives at most once. -/
def ArrivesOnce (rs : List (Reception Buf)) : Prop :=
  ∀ tx id raw datagram, Emitted P tx id raw datagram →
    rs.Pairwise fun r r' =>
      ¬ ((r.rxKey = tx.txKey ∧ r.datagram = datagram) ∧
        (r'.rxKey = tx.txKey ∧ r'.datagram = datagram))

variable {M P}

theorem sessionManagerUdpListener_emitted (hA : P.aead.Lawful) (hZ : P.zstd.Lawful)
    {m : SessionManager Buf} {sender : SockaddrIn} {i : Fin maxSessions} {s : Session Buf}
    (h : Emitted P tx id raw datagram) (hh : HandledUnder P m datagram i s)
    (hkey : s.crypto.rxKey = tx.txKey) (htun : m.tun = true) :
    (sessionManagerUdpListener P m sender datagram).2 = some raw := by
  obtain ⟨plaintext, hdecode, hunpack⟩ := h.opened hA hZ hkey
  have htake := h.take hA
  have hnonempty := h.nonempty
  rw [sessionManagerUdpListener_handled P hh.socket hh.target, htake, hdecode]
  simp only [hunpack, htun, if_neg hnonempty, if_true]

theorem clientUdpReceiver_emitted (hA : P.aead.Lawful) (hZ : P.zstd.Lawful) {c : Client Buf}
    (h : Emitted P tx id raw datagram) (hc : c.connected)
    (hkey : c.session.crypto.rxKey = tx.txKey) (htun : c.tun = true) :
    clientUdpReceiver P c datagram = some raw := by
  obtain ⟨plaintext, hdecode, hunpack⟩ := h.opened hA hZ hkey
  have htake := h.take hA
  have hne := h.ne_nil hA
  have hnonempty := h.nonempty
  have hactive : ¬ (¬ c.connected ∨ datagram = []) := by
    rintro (hidle | hnil)
    · exact hidle hc
    · exact hne hnil
  unfold clientUdpReceiver
  dsimp only
  rw [htake, if_neg hactive, hdecode]
  simp only [hunpack, htun, if_neg hnonempty, if_true]

/-- Nothing a loop writes escapes the receptions. -/
theorem serverReception_of_written {m : SessionManager Buf} {sender : SockaddrIn}
    (h : (sessionManagerUdpListener P m sender datagram).2 ≠ none) :
    (serverReception P (m, .udpListener sender datagram)).isSome := by
  by_cases hsocket : m.udpSocket < 0
  · rw [sessionManagerUdpListener_idle P (.inl hsocket)] at h
    contradiction
  cases htarget : udpListenerTarget P m (datagram.take tunnelPacketMaxSize) with
  | none =>
      rw [sessionManagerUdpListener_idle P (.inr htarget)] at h
      contradiction
  | some target =>
      obtain ⟨i, s⟩ := target
      rw [sessionManagerUdpListener_handled P (by omega) htarget] at h
      cases htun : m.tun with
      | true => simp [serverReception, htun, hsocket, htarget]
      | false =>
          refine absurd ?_ h
          cases tunnelPacketDecode P (datagram.take tunnelPacketMaxSize) s.crypto with
          | none => rfl
          | some plaintext => simp [htun]

theorem clientReception_of_written {c : Client Buf} (h : clientUdpReceiver P c datagram ≠ none) :
    (clientReception P (c, .udpReceiver datagram)).isSome := by
  have hconnected : c.connected := by
    by_contra hidle
    exact h (clientUdpReceiver_idle hidle)
  have htun : c.tun ≠ false := fun hclosed => h (clientUdpReceiver_no_tun hclosed)
  simp [clientReception, hconnected, htun]

theorem serverReception_written (hA : P.aead.Lawful) (hZ : P.zstd.Lawful)
    {e : SessionManager Buf × ServerOp Buf} {r : Reception Buf} (hr : serverReception P e = some r)
    (he : Emitted P tx id raw r.datagram) (hkey : r.rxKey = tx.txKey) : r.written = some raw := by
  obtain ⟨m, op⟩ := e
  cases op with
  | udpListener sender datagram =>
      unfold serverReception at hr
      dsimp only at hr
      by_cases hidle : m.tun = false ∨ m.udpSocket < 0
      · rw [if_pos hidle] at hr
        contradiction
      rw [if_neg hidle] at hr
      simp only [not_or, not_lt, Bool.not_eq_false] at hidle
      obtain ⟨⟨i, s⟩, htarget, rfl⟩ := Option.map_eq_some_iff.mp hr
      exact sessionManagerUdpListener_emitted hA hZ he ⟨hidle.2, htarget⟩ hkey hidle.1
  | _ => contradiction

/-- A datagram of the peer is received as the packet it was produced for. -/
theorem serverReception_emitted (hA : P.aead.Lawful) (hZ : P.zstd.Lawful)
    {m : SessionManager Buf} (sender : SockaddrIn) {i : Fin maxSessions} {s : Session Buf}
    (he : Emitted P tx id raw datagram) (hh : HandledUnder P m datagram i s)
    (hkey : s.crypto.rxKey = tx.txKey) (htun : m.tun = true) :
    serverReception P (m, .udpListener sender datagram) =
      some ⟨s.crypto.rxKey, datagram, some raw⟩ := by
  have hwritten : (sessionManagerUdpListener P m sender datagram).2 = some raw :=
    sessionManagerUdpListener_emitted hA hZ he hh hkey htun
  have hactive : ¬ (m.tun = false ∨ m.udpSocket < 0) := by
    have hsocket := hh.socket
    simp only [htun, Bool.true_eq_false, false_or]
    omega
  unfold serverReception
  dsimp only
  rw [if_neg hactive, hh.target, hwritten]
  rfl

theorem clientReception_written (hA : P.aead.Lawful) (hZ : P.zstd.Lawful)
    {e : Client Buf × ClientOp} {r : Reception Buf} (hr : clientReception P e = some r)
    (he : Emitted P tx id raw r.datagram) (hkey : r.rxKey = tx.txKey) : r.written = some raw := by
  obtain ⟨c, op⟩ := e
  cases op with
  | udpReceiver datagram =>
      unfold clientReception at hr
      dsimp only at hr
      by_cases hidle : c.tun = false ∨ ¬ c.connected
      · rw [if_pos hidle] at hr
        contradiction
      rw [if_neg hidle] at hr
      simp only [not_or, not_not, Bool.not_eq_false] at hidle
      obtain rfl := Option.some.inj hr
      exact clientUdpReceiver_emitted hA hZ he hidle.2 hkey hidle.1
  | _ => contradiction

/-- Every reception of a run writes the packet of a datagram produced for its session. -/
theorem ReceptionRun.written (hA : P.aead.Lawful) (hZ : P.zstd.Lawful)
    {rs : List (Reception Buf)} (h : ReceptionRun M P rs) {r : Reception Buf} (hr : r ∈ rs)
    (he : Emitted P tx id raw r.datagram) (hkey : r.rxKey = tx.txKey) : r.written = some raw := by
  cases h with
  | server _ =>
      obtain ⟨e, -, hreception⟩ := List.mem_filterMap.mp hr
      exact serverReception_written hA hZ hreception he hkey
  | client _ =>
      obtain ⟨e, -, hreception⟩ := List.mem_filterMap.mp hr
      exact clientReception_written hA hZ hreception he hkey

/-- Packets are written at most once in exactly the runs in which no datagram of the peer
arrives twice. -/
theorem atMostOnce_iff (hA : P.aead.Lawful) (hZ : P.zstd.Lawful) {rs : List (Reception Buf)}
    (h : ReceptionRun M P rs) : AtMostOnce P rs ↔ ArrivesOnce P rs := by
  have hiff : ∀ tx id raw datagram, Emitted P tx id raw datagram → ∀ r ∈ rs,
      (r.rxKey = tx.txKey ∧ r.datagram = datagram ∧ r.written = some raw) ↔
        (r.rxKey = tx.txKey ∧ r.datagram = datagram) := by
    intro tx id raw datagram he r hr
    constructor
    · rintro ⟨hkey, hdatagram, -⟩
      exact ⟨hkey, hdatagram⟩
    · rintro ⟨hkey, rfl⟩
      exact ⟨hkey, rfl, h.written hA hZ hr he hkey⟩
  refine forall_congr' fun tx => forall_congr' fun id => forall_congr' fun raw =>
    forall_congr' fun datagram => forall_congr' fun he => ?_
  refine List.Pairwise.iff_of_mem fun {r r'} hr hr' => ?_
  rw [hiff tx id raw datagram he r hr, hiff tx id raw datagram he r' hr']

section Runs

/-- A datagram the first guest sends, on a host whose ciphers copy. -/
def guestDatagram (k : ℕ) (packet : Bytes) : Bytes :=
  (clientTunSender (copyPlatform MsgBuf) (guestTunnel k) packet).2.getD []

theorem guestDatagram_sent (k : ℕ) {packet : Bytes} (hne : packet ≠ [])
    (hlen : packet.length + tunnelCompressHeaderSize ≤ tunnelPacketMaxPlaintext) :
    (clientTunSender (copyPlatform MsgBuf) (guestTunnel k) packet).2 =
      some (guestDatagram k packet) := by
  obtain ⟨datagram, hsent⟩ :=
    clientTunSender_sends (copyPlatform_seals MsgBuf) (guestTunnel_connected k) hne hlen
  simp [guestDatagram, hsent]

/-- A guest's datagram is handled under its session. -/
theorem guestDatagram_handled {n k : ℕ} (hn : n ≤ maxSessions) (hk : k < n) {packet : Bytes}
    (hne : packet ≠ [])
    (hlen : packet.length + tunnelCompressHeaderSize ≤ tunnelPacketMaxPlaintext) :
    HandledUnder (copyPlatform MsgBuf) (guestManager n) (guestDatagram k packet) ⟨k, hk.trans_le hn⟩
      ((guestSession k).placedAt k) := by
  have hemitted := clientTunSender_emitted (guestDatagram_sent k hne hlen)
  obtain ⟨rest, hrest, hmax, hshape⟩ := hemitted.shape (copyAead_lawful _)
  rw [guestTunnel_sessionId] at hshape
  refine ⟨guestManager_socket n, ?_⟩
  rw [hshape]
  exact guest_target _ hn hk hrest hmax

/-- What the first guest's session receives when its one-byte packet arrives. -/
abbrev firstReception : Reception MsgBuf :=
  ⟨(guestSession 0).crypto.rxKey, guestDatagram 0 [69], some [69]⟩

abbrev firstArrival : ServerOp MsgBuf := .udpListener ⟨9, 9⟩ (guestDatagram 0 [69])

/-- The manager after it has arrived. -/
abbrev arrivedManager : SessionManager MsgBuf :=
  (sessionManagerUdpListener (copyPlatform MsgBuf) (guestManager 1) ⟨9, 9⟩
    (guestDatagram 0 [69])).1

theorem firstGuest_emitted : Emitted (copyPlatform MsgBuf) (guestTunnel 0).session.crypto
    (guestTunnel 0).session.sessionId [69] (guestDatagram 0 [69]) := by
  have hsent : (clientTunSender (copyPlatform MsgBuf) (guestTunnel 0) [69]).2 =
      some (guestDatagram 0 [69]) := guestDatagram_sent 0 (by simp) (by decide)
  have hemitted := clientTunSender_emitted hsent
  rwa [List.take_of_length_le (by decide)] at hemitted

theorem firstGuest_arrived : HandledUnder (copyPlatform MsgBuf) (guestManager 1)
    (guestDatagram 0 [69]) 0 ((guestSession 0).placedAt 0) :=
  guestDatagram_handled (by simp [maxSessions]) one_pos (by simp) (by decide)

/-- Connections receive nothing on the UDP socket. -/
theorem guests_receptions (n : ℕ) :
    (guests n).filterMap (serverReception (copyPlatform MsgBuf)) = [] := by
  refine List.filterMap_eq_nil_iff.mpr fun e he => ?_
  obtain ⟨k, -, rfl⟩ := List.mem_map.mp he
  rfl

theorem serverReception_first :
    serverReception (copyPlatform MsgBuf) (guestManager 1, firstArrival) = some firstReception := by
  have hreceived := serverReception_emitted (copyAead_lawful _) storeZstd_lawful
    ⟨9, 9⟩ firstGuest_emitted firstGuest_arrived (guest_keys 0).1 (guestManager_tun 1)
  exact hreceived

theorem arrivedManager_tun : arrivedManager.tun = true := by
  unfold arrivedManager
  rw [sessionManagerUdpListener_handled _ firstGuest_arrived.socket firstGuest_arrived.target]
  exact guestManager_tun 1

/-- The same datagram arrives once more. -/
theorem firstReception_again :
    ReceptionRun msgMemory (copyPlatform MsgBuf) [firstReception, firstReception] := by
  have hrun := ReceptionRun.server (.snoc (firstGuest_run ⟨9, 9⟩ (guestDatagram 0 [69]))
    (.udpListener _ ⟨9, 9⟩ (guestDatagram 0 [69])))
  have harrived : HandledUnder (copyPlatform MsgBuf) arrivedManager (guestDatagram 0 [69]) 0
      (((guestSession 0).placedAt 0).withPeer ⟨9, 9⟩) := firstGuest_arrived.again
  have hagain := serverReception_emitted (copyAead_lawful _) storeZstd_lawful ⟨9, 9⟩
    firstGuest_emitted harrived (guest_keys 0).1 arrivedManager_tun
  rw [List.filterMap_append, List.filterMap_append, guests_receptions,
    List.filterMap_cons_some serverReception_first, List.filterMap_cons_some hagain] at hrun
  exact hrun

/-- The first guest after it has sent its first packet. -/
abbrev sentGuest : Client MsgBuf := (clientTunSender (copyPlatform MsgBuf) (guestTunnel 0) [69]).1

/-- The datagram of its second packet, under the counter 1. -/
def secondDatagram : Bytes := (clientTunSender (copyPlatform MsgBuf) sentGuest [70]).2.getD []

abbrev secondReception : Reception MsgBuf :=
  ⟨(guestSession 0).crypto.rxKey, secondDatagram, some [70]⟩

theorem sentGuest_eq :
    sentGuest = { guestTunnel 0 with session := (guestTunnel 0).session.counted } := rfl

theorem secondGuest_emitted : Emitted (copyPlatform MsgBuf) sentGuest.session.crypto
    sentGuest.session.sessionId [70] secondDatagram := by
  have hconnected : sentGuest.connected := by
    rw [sentGuest_eq]
    exact guestTunnel_connected 0
  obtain ⟨datagram, hsent⟩ := clientTunSender_sends (copyPlatform_seals MsgBuf) hconnected
    (List.cons_ne_nil 70 []) (by decide)
  have hsecond : secondDatagram = datagram := by
    rw [secondDatagram, hsent, Option.getD_some]
  have hemitted := clientTunSender_emitted hsent
  rwa [List.take_of_length_le (by decide), ← hsecond] at hemitted

/-- The two datagrams differ, as they hold different packets. -/
theorem secondDatagram_ne : secondDatagram ≠ guestDatagram 0 [69] := by
  intro he
  have hsecond := secondGuest_emitted
  rw [he] at hsecond
  have hraw : ([70] : Bytes) = [69] := hsecond.raw_unique (copyAead_lawful _) storeZstd_lawful
    firstGuest_emitted (by rw [sentGuest_eq]; rfl)
  exact absurd hraw (by decide)

/-- The manager after the second datagram, which has overtaken the first one. -/
abbrev overtakenManager : SessionManager MsgBuf :=
  (sessionManagerUdpListener (copyPlatform MsgBuf) (guestManager 1) ⟨9, 9⟩ secondDatagram).1

theorem reordered_run :
    ReceptionRun msgMemory (copyPlatform MsgBuf) [secondReception, firstReception] := by
  have hrun := ReceptionRun.server (.snoc (firstGuest_run ⟨9, 9⟩ secondDatagram)
    (.udpListener _ ⟨9, 9⟩ (guestDatagram 0 [69])))
  have hpeek : tunnelPacketPeekSessionId (copyPlatform MsgBuf)
      (secondDatagram.take tunnelPacketMaxSize) =
        tunnelPacketPeekSessionId (copyPlatform MsgBuf)
          ((guestDatagram 0 [69]).take tunnelPacketMaxSize) := by
    rw [secondGuest_emitted.peek (copyAead_lawful _), firstGuest_emitted.peek (copyAead_lawful _),
      sentGuest_eq]
    rfl
  have hsecond : HandledUnder (copyPlatform MsgBuf) (guestManager 1) secondDatagram 0
      ((guestSession 0).placedAt 0) := firstGuest_arrived.of_peek hpeek
  have hfirst : HandledUnder (copyPlatform MsgBuf) overtakenManager (guestDatagram 0 [69]) 0
      (((guestSession 0).placedAt 0).withPeer ⟨9, 9⟩) := hsecond.again.of_peek hpeek.symm
  have htun : overtakenManager.tun = true := by
    unfold overtakenManager
    rw [sessionManagerUdpListener_handled _ hsecond.socket hsecond.target]
    exact guestManager_tun 1
  have hkey : (guestSession 0).crypto.rxKey = sentGuest.session.crypto.txKey := by
    rw [sentGuest_eq]
    exact (guest_keys 0).1
  have hreceived := serverReception_emitted (copyAead_lawful _) storeZstd_lawful ⟨9, 9⟩
    secondGuest_emitted hsecond hkey (guestManager_tun 1)
  have hreceived' := serverReception_emitted (copyAead_lawful _) storeZstd_lawful ⟨9, 9⟩
    firstGuest_emitted hfirst (guest_keys 0).1 htun
  rw [List.filterMap_append, List.filterMap_append, guests_receptions,
    List.filterMap_cons_some hreceived, List.filterMap_cons_some hreceived'] at hrun
  exact hrun

/-- Two packets whose datagrams arrive in the other order are each written once. -/
theorem atMostOnce_first :
    AtMostOnce (copyPlatform MsgBuf) [secondReception, firstReception] := by
  apply (atMostOnce_iff (copyAead_lawful _) storeZstd_lawful reordered_run).mpr
  intro tx id raw datagram _
  refine List.pairwise_pair.mpr ?_
  rintro ⟨⟨-, hsecond⟩, -, hfirst⟩
  exact secondDatagram_ne (hsecond.trans hfirst.symm)

/-- A replayed datagram is written again. -/
theorem not_atMostOnce : ¬ ∀ rs, ReceptionRun msgMemory (copyPlatform MsgBuf) rs →
    AtMostOnce (copyPlatform MsgBuf) rs := by
  intro hall
  have hpair := hall _ firstReception_again _ _ _ _ firstGuest_emitted
  rw [List.pairwise_pair] at hpair
  have hkey := (guest_keys 0).1
  exact hpair ⟨⟨hkey, rfl, rfl⟩, hkey, rfl, rfl⟩

end Runs

end Sencd
