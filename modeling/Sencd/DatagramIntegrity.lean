import Sencd.TunnelAuthenticity

/-!
# What a client accepts

A datagram is sealed from the counter on: the counter gives the nonce, and the rest is the
ciphertext. The session id in front is bound to neither, and a client does not look at it.
-/
namespace Sencd
open ByteOrder CallProgram LabelledPath

variable {Buf : ℕ → Type} {ι : Type}

section Statement

variable (P : Platform Buf) (hosts : ι → Endian)

/-- The server has sent the datagram for the session whose other end is `c`. -/
def ProducedFor (c : Client Buf) (before : List (TunnelState Buf ι × TunnelOp Buf ι))
    (datagram : Bytes) : Prop :=
  ∃ v s read sent, (v, .server (.tunSender read)) ∈ before ∧
    (sessionManagerTunSender P v.manager read).2 = some sent ∧
    v.manager.sessions sent.slot = some s ∧ OtherEnd c s ∧ sent.datagram = datagram

/-- From the counter on, what has been received is such a datagram. -/
def SealedFor (c : Client Buf) (before : List (TunnelState Buf ι × TunnelOp Buf ι))
    (received : Bytes) : Prop :=
  ∃ datagram, ProducedFor P c before datagram ∧
    (received.take tunnelPacketMaxSize).drop 8 = datagram.drop 8

/-- With a secret key, a client writes nothing on a datagram that is not, from the counter on,
one of the server's for its session. What comes before the counter has no effect. -/
structure ClientIntegrity (secret : Set (Buf cryptoSessionKeySize))
    (steps : List (TunnelState Buf ι × TunnelOp Buf ι)) : Prop where
  rejects : ∀ before u k received after,
    steps = before ++ (u, .client k (.udpReceiver received)) :: after →
    (u.clients k).session.crypto.rxKey ∈ secret → ¬ SealedFor P (u.clients k) before received →
    clientUdpReceiver (P.on (hosts k)) (u.clients k) received = none
  ignores : ∀ k (c : Client Buf) received received', received.length = received'.length →
    received.drop 8 = received'.drop 8 →
    clientUdpReceiver (P.on (hosts k)) c received = clientUdpReceiver (P.on (hosts k)) c received'

end Statement

variable {M : Memory Buf} {P : Platform Buf} {hosts : ι → Endian}

/-- Decoding does not look at the first eight bytes. -/
theorem tunnelPacketDecode_behind_id {buffer buffer' : Bytes}
    (hlen : buffer.length = buffer'.length) (h : buffer.drop 8 = buffer'.drop 8)
    (ctx : CryptoContext Buf) :
    tunnelPacketDecode P buffer ctx = tunnelPacketDecode P buffer' ctx := by
  have hrest : ∀ x : Bytes, x.drop tunnelHeaderSize = (x.drop 8).drop 8 := fun x => by
    rw [List.drop_drop]
  unfold tunnelPacketDecode
  rw [hlen, h, hrest, hrest, h]

/-- Neither does the client. -/
theorem clientUdpReceiver_behind_id {received received' : Bytes}
    (hlen : received.length = received'.length) (h : received.drop 8 = received'.drop 8)
    (c : Client Buf) : clientUdpReceiver P c received = clientUdpReceiver P c received' := by
  have hlen' : (received.take tunnelPacketMaxSize).length =
      (received'.take tunnelPacketMaxSize).length := by
    rw [List.length_take, List.length_take, hlen]
  have hdrop : (received.take tunnelPacketMaxSize).drop 8 =
      (received'.take tunnelPacketMaxSize).drop 8 := by
    rw [List.drop_take, List.drop_take, h]
  have hnil : received.take tunnelPacketMaxSize = [] ↔ received'.take tunnelPacketMaxSize = [] := by
    rw [← List.length_eq_zero_iff, hlen', List.length_eq_zero_iff]
  unfold clientUdpReceiver
  simp only [hnil, tunnelPacketDecode_behind_id hlen' hdrop]

variable {clients : ι → Client Buf} {identity : CryptoContext Buf} {udpSocket : ℤ}
  {steps : List (TunnelState Buf ι × TunnelOp Buf ι)} {t : TunnelState Buf ι}
  {σ : Type} {up down : σ → Buf cryptoSessionKeySize}

/-- Under an ideal cipher a client rejects what was not sealed for it. -/
theorem client_integrity [DecidableEq ι] [DecidableEq (Buf cryptoSessionKeySize)]
    {secret : Set (Buf cryptoSessionKeySize)} (hA : P.aead.Lawful) (hZ : P.zstd.Lawful)
    (hrun : TunnelRun M P hosts identity udpSocket clients steps t)
    (hopened : ∀ k, (clients k).Opened M) (hkeys : DistinctTxKeys steps clients)
    (hsends : ∀ key, (attempts P hosts steps).countP (fun a => a.ctx.txKey = key) < 2 ^ 64)
    (hindependent : IndependentKeys up down steps clients)
    (hideal : IdealCipher P hosts secret steps) : ClientIntegrity P hosts secret steps where
  rejects before u k received after hsteps hsecret hnot := by
    by_contra hwritten
    obtain ⟨packet, hpacket⟩ := Option.ne_none_iff_exists'.mp hwritten
    obtain ⟨v, s, read, sent, hv, hsent, hs, hend, hbytes, -⟩ := receiver_source hA hZ hrun hopened
      hkeys hsends hindependent hideal hsteps hsecret hpacket
    exact hnot ⟨sent.datagram, ⟨v, s, read, sent, hv, hsent, hs, hend, rfl⟩, hbytes⟩
  ignores _ c _ _ hlen h := clientUdpReceiver_behind_id hlen h c

theorem stepSealing_tunSender {m : SessionManager Buf} {packet compressed : Bytes}
    {i : Fin maxSessions} {s : Session Buf} (cs : ι → Client Buf)
    (h : tunSenderTarget P m packet = some (compressed, i, s))
    (hmax : compressed.length ≤ tunnelPacketMaxPlaintext) :
    stepSealing P hosts (⟨m, cs⟩, .server (.tunSender packet)) =
      some ⟨s.crypto.txKey, cryptoBuildNonce P.host s.crypto.txNonce, compressed⟩ := by
  have hsealing : stepSealing P hosts (⟨m, cs⟩, .server (.tunSender packet)) =
      (stepAttempt P hosts (⟨m, cs⟩, .server (.tunSender packet))).bind
        (Attempt.sealing P.host) := rfl
  rw [hsealing, stepAttempt_tunSender cs h, Option.bind_some, Attempt.sealing, if_neg hmax.not_gt]

theorem stepOpening_receiver {m : SessionManager Buf} {cs : ι → Client Buf} {k : ι}
    {received : Bytes} (hc : (cs k).connected) :
    stepOpening P hosts (⟨m, cs⟩, .client k (.udpReceiver received)) =
      tunnelPacketOpening (P.on (hosts k)) (received.take tunnelPacketMaxSize)
        (cs k).session.crypto := if_neg (not_not.mpr hc)

theorem tunnelPacketDecode_bind (buffer : Bytes) (ctx : CryptoContext Buf) :
    tunnelPacketDecode P buffer ctx = (tunnelPacketOpening P buffer ctx).bind fun o =>
      P.aead.decrypt o.key o.nonce o.ciphertext := by
  rw [tunnelPacketDecode_opening]
  unfold tunnelPacketOpening
  split_ifs <;> rfl

/-- A datagram without room for header and tag opens to nothing. -/
theorem stepOpening_short {m : SessionManager Buf} {cs : ι → Client Buf} {sender : SockaddrIn}
    {received : Bytes} (h : received.length < tunnelHeaderSize + tunnelAeadTagSize) :
    stepOpening P hosts (⟨m, cs⟩, .server (.udpListener sender received)) = none := by
  have hshort : (received.take tunnelPacketMaxSize).length <
      tunnelHeaderSize + tunnelAeadTagSize := by
    rw [List.length_take]
    omega
  change (if m.udpSocket < 0 then none else (udpListenerTarget P m
    (received.take tunnelPacketMaxSize)).bind fun target => tunnelPacketOpening P
      (received.take tunnelPacketMaxSize) target.2.crypto) = none
  split_ifs with hsocket
  · rfl
  · cases udpListenerTarget P m (received.take tunnelPacketMaxSize) with
    | none => rfl
    | some target => exact if_pos (.inl hshort)

/-- A datagram opens under its counter, behind any session id. -/
theorem tunnelPacketOpening_datagram (sessionId counter : UInt64) {c : Bytes}
    (hmin : tunnelAeadTagSize ≤ c.length) (hmax : tunnelHeaderSize + c.length ≤ tunnelPacketMaxSize)
    (ctx : CryptoContext Buf) :
    tunnelPacketOpening P (beBytes 8 sessionId.toNat ++ (beBytes 8 counter.toNat ++ c)) ctx =
      some ⟨ctx.rxKey, cryptoBuildNonce P.host counter, c⟩ := by
  have hlength : (beBytes 8 sessionId.toNat ++ (beBytes 8 counter.toNat ++ c)).length =
      tunnelHeaderSize + c.length := by
    simp only [List.length_append, beBytes_length, tunnelHeaderSize]
    omega
  have hcounter : (beBytes 8 sessionId.toNat ++ (beBytes 8 counter.toNat ++ c)).drop 8 =
      beBytes 8 counter.toNat ++ c := List.drop_left' (beBytes_length 8 _)
  have hrest : (beBytes 8 sessionId.toNat ++ (beBytes 8 counter.toNat ++ c)).drop
      tunnelHeaderSize = c := by
    rw [← List.append_assoc]
    exact List.drop_left' (by simp)
  unfold tunnelPacketOpening openingNonce
  rw [hlength, if_neg (by omega), hrest, hcounter, List.take_left' (beBytes_length 8 _),
    be64toh_ofObjectBytes _ (beBytes_length 8 _), ofBeBytes_beBytes_uint64]

section Runs

/-- A datagram that carries the guest's session id and nothing else. -/
def knock : Bytes := beBytes 8 (guestId 0).toNat ++ List.replicate 8 0

/-- The server of one guest once the knock has arrived from the guest's address. -/
def knockedManager : SessionManager MsgBuf :=
  (sessionManagerUdpListener guestPlatform (guestManager 1) ⟨9, 9⟩ knock).1

/-- A packet to the guest. -/
def downRead : Bytes := 69 :: (List.replicate 18 0 ++ [2])

def downPacked : Bytes := tunnelCompressFlagNone :: (List.replicate 4 0 ++ downRead)

/-- What the server makes of it, behind a session id. -/
def downSent (sessionId : UInt64) : Bytes :=
  beBytes 8 sessionId.toNat ++
    (beBytes 8 0 ++ (downPacked ++ List.replicate tunnelAeadTagSize 0))

def sentManager : SessionManager MsgBuf :=
  (sessionManagerTunSender guestPlatform knockedManager downRead).1

/-- The guest connects, a knock arrives, the server sends a packet, and the guest receives it
behind the given session id. -/
def downTraffic (sessionId : UInt64) : List (TunnelState MsgBuf ℕ × TunnelOp MsgBuf ℕ) :=
  [(⟨guestManager 0, guestTunnel⟩, .server (.connect .server (guestSocket 0) [] (guestCalls 0))),
    (⟨guestManager 1, guestTunnel⟩, .server (.udpListener ⟨9, 9⟩ knock)),
    (⟨knockedManager, guestTunnel⟩, .server (.tunSender downRead)),
    (⟨sentManager, guestTunnel⟩, .client 0 (.udpReceiver (downSent sessionId)))]

theorem downTraffic_run (sessionId : UInt64) : TunnelRun msgMemory guestPlatform guestHosts
    (identityOf 0) 5 guestTunnel (downTraffic sessionId) ⟨sentManager, guestTunnel⟩ := by
  have hconnect : TunnelRun msgMemory guestPlatform guestHosts (identityOf 0) 5 guestTunnel _ _ :=
    TunnelRun.of_server guestTunnel (guests_run (show 1 ≤ maxSessions by decide))
  have hknock := hconnect.snoc (.server guestTunnel (.udpListener (guestManager 1) ⟨9, 9⟩ knock))
  have hsend := hknock.snoc (.server guestTunnel (.tunSender knockedManager downRead))
  have hreceive := hsend.snoc (.client sentManager guestTunnel 0
    (.udpReceiver (downSent sessionId)))
  have hsame : Function.update guestTunnel 0 (clientStep (guestPlatform.on .big) msgMemory
      (guestTunnel 0) (.udpReceiver (downSent sessionId))) = guestTunnel :=
    Function.update_eq_self 0 guestTunnel
  rw [hsame] at hreceive
  exact hreceive

theorem knockedManager_eq : knockedManager = { guestManager 1 with
    sessions := Function.update (guestManager 1).sessions ⟨0, by decide⟩
      (some (((guestSession 0).placedAt 0).withPeer ⟨9, 9⟩)) } := by
  have htarget : udpListenerTarget guestPlatform (guestManager 1)
      (knock.take tunnelPacketMaxSize) = some (⟨0, by decide⟩, (guestSession 0).placedAt 0) :=
    guest_target guestPlatform (by decide) one_pos (by simp) (by simp [tunnelPacketMaxSize])
  unfold knockedManager
  rw [sessionManagerUdpListener_handled guestPlatform (guestManager_socket 1) htarget]

theorem downRead_target : tunSenderTarget guestPlatform knockedManager downRead =
    some (downPacked, ⟨0, by decide⟩, ((guestSession 0).placedAt 0).withPeer ⟨9, 9⟩) := by
  refine (tunSenderTarget_eq_some guestPlatform).mpr ⟨⟨?_, ?_, by decide⟩, by decide, by decide, ?_⟩
  · rw [knockedManager_eq]
    exact guestManager_tun 1
  · rw [knockedManager_eq]
    exact guestManager_socket 1
  · refine SlotTable.find_eq_some.mpr ⟨?_, by decide, fun j hj => absurd hj (Fin.not_lt_zero j)⟩
    rw [knockedManager_eq]
    simp

theorem downTraffic_serverKeys (sessionId : UInt64) :
    serverKeys (downTraffic sessionId) = [(guestUp 0, guestDown 0)] := by
  obtain ⟨hrx, htx⟩ := guest_keys 0
  have hderived : serverKeys (downTraffic sessionId) =
      [((guestSession 0).crypto.rxKey, (guestSession 0).crypto.txKey)] := rfl
  rw [hderived, hrx, htx]
  rfl

/-- The one call of `tunnel_packet_encode`. -/
theorem downTraffic_attempts (sessionId : UInt64) :
    attempts guestPlatform guestHosts (downTraffic sessionId) =
      [⟨(guestSession 0).crypto, guestId 0, 0, downPacked⟩] := by
  have hsend : stepAttempt guestPlatform guestHosts
      (⟨knockedManager, guestTunnel⟩, .server (.tunSender downRead)) = _ :=
    stepAttempt_tunSender guestTunnel downRead_target
  rw [attempts, downTraffic, List.filterMap_cons_none rfl, List.filterMap_cons_none rfl,
    List.filterMap_cons_some hsend, List.filterMap_cons_none rfl, List.filterMap_nil]
  rfl

theorem downTraffic_sends (sessionId : UInt64) (key : MsgBuf cryptoSessionKeySize) :
    (attempts guestPlatform guestHosts (downTraffic sessionId)).countP
      (fun a => a.ctx.txKey = key) < 2 ^ 64 := by
  rw [downTraffic_attempts]
  exact List.countP_le_length.trans_lt (by simp)

theorem downTraffic_sealings (sessionId : UInt64) :
    sealings guestPlatform guestHosts ((downTraffic sessionId).take 3) =
      [⟨(guestSession 0).crypto.txKey, cryptoBuildNonce .little 0, downPacked⟩] := by
  have hsend : stepSealing guestPlatform guestHosts
      (⟨knockedManager, guestTunnel⟩, .server (.tunSender downRead)) = _ :=
    stepSealing_tunSender guestTunnel downRead_target (by decide)
  rw [sealings, downTraffic, List.take_succ_cons, List.take_succ_cons, List.take_succ_cons,
    List.take_zero, List.filterMap_cons_none rfl, List.filterMap_cons_none rfl,
    List.filterMap_cons_some hsend, List.filterMap_nil]
  rfl

theorem downSent_take (sessionId : UInt64) :
    (downSent sessionId).take tunnelPacketMaxSize = downSent sessionId :=
  List.take_of_length_le (by
    simp [downSent, downPacked, downRead, tunnelAeadTagSize, tunnelPacketMaxSize])

theorem downSent_opening (P : Platform MsgBuf) (sessionId : UInt64) (ctx : CryptoContext MsgBuf) :
    tunnelPacketOpening P (downSent sessionId) ctx = some ⟨ctx.rxKey, cryptoBuildNonce P.host 0,
      downPacked ++ List.replicate tunnelAeadTagSize 0⟩ :=
  tunnelPacketOpening_datagram sessionId 0 (by simp) (by decide) ctx

theorem downTraffic_opening (sessionId : UInt64) : stepOpening guestPlatform guestHosts
    (⟨sentManager, guestTunnel⟩, .client 0 (.udpReceiver (downSent sessionId))) =
      some ⟨guestDown 0, cryptoBuildNonce .big 0,
        downPacked ++ List.replicate tunnelAeadTagSize 0⟩ := by
  rw [stepOpening_receiver (guestTunnel_connected 0), downSent_take, downSent_opening]
  rfl

theorem downTraffic_ideal (sessionId : UInt64) :
    IdealCipher guestPlatform guestHosts Set.univ (downTraffic sessionId) := by
  intro before step after hsteps _ o ho _ _
  obtain _ | ⟨first, _ | ⟨second, _ | ⟨third, _ | ⟨fourth, before⟩⟩⟩⟩ := before
  · obtain ⟨rfl, -⟩ := List.cons.inj hsteps
    exact absurd ho.symm (Option.some_ne_none o)
  · obtain ⟨rfl, hrest⟩ := List.cons.inj hsteps
    obtain ⟨rfl, -⟩ := List.cons.inj hrest
    rw [stepOpening_short (by simp [knock, tunnelHeaderSize, tunnelAeadTagSize])] at ho
    contradiction
  · obtain ⟨rfl, hrest⟩ := List.cons.inj hsteps
    obtain ⟨rfl, hlast⟩ := List.cons.inj hrest
    obtain ⟨rfl, -⟩ := List.cons.inj hlast
    exact absurd ho.symm (Option.some_ne_none o)
  · obtain ⟨rfl, hrest⟩ := List.cons.inj hsteps
    obtain ⟨rfl, hrest'⟩ := List.cons.inj hrest
    obtain ⟨rfl, hlast⟩ := List.cons.inj hrest'
    obtain ⟨rfl, -⟩ := List.cons.inj hlast
    rw [downTraffic_opening] at ho
    obtain rfl := Option.some.inj ho
    refine ⟨⟨(guestSession 0).crypto.txKey, cryptoBuildNonce .little 0, downPacked⟩, ?_, ?_⟩
    · rw [show [_, _, _] = (downTraffic sessionId).take 3 from rfl, downTraffic_sealings]
      exact List.mem_singleton_self _
    · refine ⟨(guest_keys 0).2, ?_, rfl⟩
      rw [cryptoBuildNonce_eq, cryptoBuildNonce_eq]
  · have hlen := congrArg List.length hsteps
    simp [downTraffic] at hlen

/-- A run in which the guest receives a datagram behind another session id. -/
theorem client_integrity_guest :
    ClientIntegrity guestPlatform guestHosts Set.univ (downTraffic 99) :=
  client_integrity (copyAead_lawful _) storeZstd_lawful (downTraffic_run 99) guestTunnel_opened
    (distinctTxKeys_of_first (downTraffic_serverKeys 99)) (downTraffic_sends 99)
    (independentKeys_of_first (downTraffic_serverKeys 99)) (downTraffic_ideal 99)

/-- What the guest makes of the datagram behind any session id. -/
theorem downSent_written (sessionId : UInt64) :
    clientUdpReceiver (guestPlatform.on .big) (guestTunnel 0) (downSent sessionId) =
      some downRead := by
  have hne : downSent sessionId ≠ [] := List.ne_nil_of_length_pos (by simp [downSent])
  have hdecode : tunnelPacketDecode (guestPlatform.on .big) (downSent sessionId)
      (guestTunnel 0).session.crypto = some downPacked := by
    rw [tunnelPacketDecode_bind, downSent_opening]
    exact (copyAead_lawful _).decrypt_encrypt rfl
  unfold clientUdpReceiver
  dsimp only
  rw [downSent_take, if_neg (by simp [guestTunnel_connected 0, hne]), hdecode]
  rfl

/-- The server has sent the datagram, behind the guest's session id only. -/
theorem downTraffic_produced {c : Client MsgBuf} {sessionId : UInt64} {datagram : Bytes}
    (h : ProducedFor guestPlatform c ((downTraffic sessionId).take 3) datagram) :
    datagram = downSent (guestId 0) := by
  obtain ⟨v, s, read, sent, hv, hsent, -, -, rfl⟩ := h
  simp only [downTraffic, List.take_succ_cons, List.take_zero, List.mem_cons, Prod.mk.injEq,
    TunnelOp.server.injEq, reduceCtorEq, and_false, false_or, or_false, List.not_mem_nil,
    ServerOp.tunSender.injEq] at hv
  obtain ⟨rfl, rfl⟩ := hv
  dsimp only at hsent
  obtain ⟨_, _, _, datagram, htarget, hencode, rfl⟩ :=
    (sessionManagerTunSender_eq_some guestPlatform).mp hsent
  rw [downRead_target] at htarget
  obtain ⟨rfl, he⟩ := Prod.mk.inj (Option.some.inj htarget)
  obtain ⟨rfl, rfl⟩ := Prod.mk.inj he
  obtain ⟨-, c, hc, rfl⟩ := tunnelPacketEncode_eq_some guestPlatform hencode
  obtain rfl := Option.some.inj hc
  rfl

/-- The guest accepts a datagram with another session id than the server has sent, although all
assumptions hold. -/
theorem client_accepts_other_session_id :
    ¬ ∀ steps t, TunnelRun msgMemory guestPlatform guestHosts (identityOf 0) 5 guestTunnel steps t →
      (∀ k, (guestTunnel k).Opened msgMemory) → DistinctTxKeys steps guestTunnel →
      (∀ key, (attempts guestPlatform guestHosts steps).countP (fun a => a.ctx.txKey = key) <
        2 ^ 64) →
      IndependentKeys guestUp guestDown steps guestTunnel →
      IdealCipher guestPlatform guestHosts Set.univ steps →
      ∀ before u k received after,
        steps = before ++ (u, .client k (.udpReceiver received)) :: after →
        ¬ ProducedFor guestPlatform (u.clients k) before received →
        clientUdpReceiver (guestPlatform.on (guestHosts k)) (u.clients k) received = none := by
  intro hall
  have hrejected := hall (downTraffic 99) _ (downTraffic_run 99) guestTunnel_opened
    (distinctTxKeys_of_first (downTraffic_serverKeys 99)) (downTraffic_sends 99)
    (independentKeys_of_first (downTraffic_serverKeys 99)) (downTraffic_ideal 99)
    ((downTraffic 99).take 3) _ 0 (downSent 99) [] rfl fun hproduced => ?_
  · have hwritten := downSent_written 99
    exact absurd (hwritten.symm.trans hrejected) (by simp)
  · have he := congrArg (List.take 8) (downTraffic_produced hproduced)
    exact absurd he (by decide)

end Runs

end Sencd
