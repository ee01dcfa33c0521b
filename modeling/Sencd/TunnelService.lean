import Sencd.SenderCapacity
import Sencd.SessionHistory
import Sencd.SessionIdAgreement

/-!
# What the tunnel does for a client

A client and the session it owns stay the two ends of one tunnel, whatever the other clients,
the other sessions and the network do, until the client disconnects or the server shuts down.
While they do, a packet that either end sends comes out of the other end's TUN as it went in.
-/
namespace Sencd
open ByteOrder CallProgram LabelledPath StreamNetwork

variable {Buf : ℕ → Type}

section Hosts

variable (P : Platform Buf) (host : Endian)

theorem tunnelPipelineCompress_on (raw : Bytes) (cap : ℕ) :
    tunnelPipelineCompress (P.on host) raw cap = tunnelPipelineCompress P raw cap := by
  have hattempt : tunnelZstdAttempt (P.on host) raw = tunnelZstdAttempt P raw := rfl
  simp only [tunnelPipelineCompress, hattempt, objectBytes_htobe32]

theorem tunnelPacketEncode_on (input : TunnelPacketEncode) (ctx : CryptoContext Buf) :
    tunnelPacketEncode (P.on host) input ctx = tunnelPacketEncode P input ctx := by
  simp only [tunnelPacketEncode, cryptoEncryptPacket, cryptoBuildNonce_eq, Platform.on,
    objectBytes_htobe64]

theorem tunnelPacketDecode_on (buffer : Bytes) (ctx : CryptoContext Buf) :
    tunnelPacketDecode (P.on host) buffer ctx = tunnelPacketDecode P buffer ctx := by
  unfold tunnelPacketDecode
  by_cases hlen : buffer.length < tunnelHeaderSize + tunnelAeadTagSize ∨
      buffer.length > tunnelPacketMaxSize
  · rw [if_pos hlen, if_pos hlen]
  have hcounter : ((buffer.drop 8).take 8).length = 8 := by
    simp only [tunnelHeaderSize] at hlen
    rw [List.length_take, List.length_drop]
    omega
  rw [if_neg hlen, if_neg hlen]
  simp only [cryptoDecryptPacket, cryptoBuildNonce_eq, Platform.on,
    be64toh_ofObjectBytes _ hcounter]

theorem tunnelPipelineDecompress_on (input : Bytes) (cap : ℕ) :
    tunnelPipelineDecompress (P.on host) input cap = tunnelPipelineDecompress P input cap := by
  unfold tunnelPipelineDecompress
  by_cases hlen : input.length < tunnelCompressHeaderSize
  · rw [if_pos hlen, if_pos hlen]
  have hlength : ((input.drop 1).take 4).length = 4 := by
    simp only [tunnelCompressHeaderSize] at hlen
    rw [List.length_take, List.length_drop]
    omega
  rw [if_neg hlen, if_neg hlen]
  simp only [Platform.on, be32toh_ofObjectBytes _ hlength]

/-- The byte order of a client's host makes no difference to what it sends and writes. -/
theorem clientTunSender_on (c : Client Buf) (packet : Bytes) :
    clientTunSender (P.on host) c packet = clientTunSender P c packet := by
  simp only [clientTunSender, tunnelPipelineCompress_on, tunnelPacketEncode_on]

theorem clientUdpReceiver_on (c : Client Buf) (datagram : Bytes) :
    clientUdpReceiver (P.on host) c datagram = clientUdpReceiver P c datagram := by
  simp only [clientUdpReceiver, tunnelPacketDecode_on, tunnelPipelineDecompress_on]

end Hosts

section Paired

variable {m m' : SessionManager Buf} {c : Client Buf} {i : Fin maxSessions}

/-- What the two ends of a tunnel have in common: the session id and a key for each way. -/
structure TunnelEnds (Buf : ℕ → Type) where
  sessionId : UInt64
  up : Buf cryptoSessionKeySize
  down : Buf cryptoSessionKeySize

/-- The client and the session in slot `i` are the two ends of a tunnel: both are open, and
datagrams with the id of the session are handled under that slot. -/
structure Paired (e : TunnelEnds Buf) (m : SessionManager Buf) (c : Client Buf)
    (i : Fin maxSessions) : Prop where
  connected : c.connected
  clientTun : c.tun = true
  clientId : c.session.sessionId = e.sessionId
  clientUp : c.session.crypto.txKey = e.up
  clientDown : c.session.crypto.rxKey = e.down
  socket : 0 ≤ m.udpSocket
  serverTun : m.tun = true
  session : ∃ s, m.sessions i = some s ∧ s.sessionId = e.sessionId ∧
    s.crypto.rxKey = e.up ∧ s.crypto.txKey = e.down
  first : ∀ j < i, ∃ s, m.sessions j = some s ∧ s.sessionId ≠ e.sessionId

variable {M : Memory Buf} {P : Platform Buf} {op : ServerOp Buf} {e : TunnelEnds Buf}

/-- A session that is not removed keeps its slot, its id and its keys. -/
theorem ServerStep.stays (h : ServerStep M P m op m') (hkeep : ∀ id, ¬ op.Removes id)
    {s : Session Buf} (hs : m.sessions i = some s) :
    ∃ s', m'.sessions i = some s' ∧ s'.sessionId = s.sessionId ∧
      s'.crypto.rxKey = s.crypto.rxKey ∧ s'.crypto.txKey = s.crypto.txKey := by
  have hslot := h.slot M P i
  generalize m'.sessions i = e at hslot
  cases hslot with
  | keep => exact ⟨s, hs, rfl, rfl, rfl⟩
  | free hremoves => exact absurd (hremoves s hs) (hkeep _)
  | add hfree _ =>
      have hnone := (SlotTable.free_eq_some.mp hfree).1
      simp [hnone] at hs
  | peer _ htarget =>
      obtain rfl := Option.some.inj (hs.symm.trans (mem_of_udpListenerTarget P htarget))
      exact ⟨_, rfl, rfl, rfl, rfl⟩
  | count htarget =>
      obtain rfl := Option.some.inj (hs.symm.trans (mem_of_tunSenderTarget P htarget))
      exact ⟨_, rfl, rfl, rfl, rfl⟩

/-- The server does its part while its UDP socket stays open and it removes no session. -/
theorem Paired.server (h : Paired e m c i) (hstep : ServerStep M P m op m') (hopen : op ≠ .closeUdp)
    (hkeep : ∀ id, ¬ op.Removes id) : Paired e m' c i := by
  obtain ⟨-, hsocket, htun⟩ := hstep.frame
  have hall : op ≠ .disconnectAll := fun he => hkeep 0 (.inr he)
  obtain ⟨s, hs, hsid, hsrx, hstx⟩ := h.session
  obtain ⟨s', hs', hid, hrx, htx⟩ := hstep.stays hkeep hs
  exact { h with
    socket := (hsocket hopen).symm ▸ h.socket
    serverTun := (htun hall).symm ▸ h.serverTun
    session := ⟨s', hs', hid.trans hsid, hrx.trans hsrx, htx.trans hstx⟩
    first := by
      intro j hj
      obtain ⟨u, hu, hne⟩ := h.first j hj
      obtain ⟨u', hu', hid', -⟩ := hstep.stays hkeep hu
      exact ⟨u', hu', hid' ▸ hne⟩ }

/-- A client that does not disconnect changes nothing of its session but the counter. -/
theorem clientStep_kept {op : ClientOp} (h : op ≠ .disconnect) :
    ∃ n, clientStep P M c op = { c with session := { c.session with
      crypto := { c.session.crypto with txNonce := n } } } := by
  cases op with
  | udpReceiver datagram => exact ⟨_, rfl⟩
  | tunSender packet =>
      by_cases hidle : ¬ c.connected ∨ packet.take tunnelPacketMaxPlaintext = [] ∨
          tunnelPipelineCompress P (packet.take tunnelPacketMaxPlaintext)
            tunnelPacketMaxPlaintext = []
      · exact ⟨_, congrArg Prod.fst (clientTunSender_idle hidle)⟩
      · simp only [not_or, not_not] at hidle
        exact ⟨_, congrArg Prod.fst (clientTunSender_packed hidle.1 hidle.2.1 hidle.2.2)⟩
  | disconnect => exact absurd rfl h

theorem Paired.client (h : Paired e m c i) {op : ClientOp} (hop : op ≠ .disconnect) :
    Paired e m (clientStep P M c op) i := by
  obtain ⟨n, hn⟩ := clientStep_kept (M := M) (P := P) (c := c) hop
  rw [hn]
  exact { h with }

variable {ι : Type} [DecidableEq ι] {hosts : ι → Endian} {t t' : TunnelState Buf ι} {k : ι}

/-- The step neither takes sessions out of the table nor closes an end of client `k`'s tunnel. -/
def KeepsTunnel (k : ι) : TunnelOp Buf ι → Prop
  | .server op => op ≠ .closeUdp ∧ ∀ id, ¬ op.Removes id
  | .client k' op => k' = k → op ≠ .disconnect

theorem Paired.step {op : TunnelOp Buf ι} (h : Paired e t.manager (t.clients k) i)
    (hstep : TunnelStep M P hosts t op t') (hq : KeepsTunnel k op) :
    Paired e t'.manager (t'.clients k) i := by
  cases hstep with
  | server clients hstep => exact h.server hstep hq.1 hq.2
  | client m clients k' op =>
      dsimp only at h ⊢
      by_cases hk : k = k'
      · subst hk
        rw [Function.update_self]
        exact h.client (hq rfl)
      · rwa [Function.update_of_ne hk]

/-- An undisturbed tunnel stays one, whatever the interleaving. -/
theorem Paired.run {steps : List (TunnelState Buf ι × TunnelOp Buf ι)}
    (h : Path (TunnelStep M P hosts) t steps t') (hp : Paired e t.manager (t.clients k) i)
    (hq : ∀ p ∈ steps, KeepsTunnel k p.2) :
    Paired e t'.manager (t'.clients k) i ∧ ∀ p ∈ steps, Paired e p.1.manager (p.1.clients k) i := by
  induction h with
  | nil => exact ⟨hp, by simp⟩
  | @snoc steps u v op hpath hstep ih =>
      obtain ⟨hu, hall⟩ := ih fun p hp => hq p (List.mem_append_left _ hp)
      refine ⟨hu.step hstep (hq (u, op) (by simp)), fun p hmem => ?_⟩
      obtain hmem | hmem := List.mem_append.mp hmem
      · exact hall p hmem
      · rw [List.mem_singleton.mp hmem]
        exact hu

/-- What was produced for the client's end is handled under slot `i`. -/
theorem Paired.handled (hA : P.aead.Lawful) (h : Paired e m c i) {tx : CryptoContext Buf}
    {raw datagram : Bytes} (hsent : Emitted P tx e.sessionId raw datagram) :
    ∃ s, HandledUnder P m datagram i s ∧ s.crypto.rxKey = e.up := by
  obtain ⟨s, hs, hid, hrx, -⟩ := h.session
  have htake := hsent.take hA
  obtain ⟨rest, hrest, -, rfl⟩ := hsent.shape hA
  refine ⟨s, ⟨h.socket, ?_⟩, hrx⟩
  rw [htake, udpListenerTarget, tunnelPacketPeekSessionId_append P e.sessionId hrest]
  refine SlotTable.find_eq_some.mpr ⟨hs, decide_eq_true hid, fun j hj u hu => ?_⟩
  obtain ⟨u', hu', hne⟩ := h.first j hj
  obtain rfl := Option.some.inj (hu'.symm.trans hu)
  exact decide_eq_false hne

/-- Up: what was produced with the client's key comes out of the server's TUN. -/
theorem Paired.up (hA : P.aead.Lawful) (hZ : P.zstd.Lawful) (h : Paired e m c i)
    {tx : CryptoContext Buf} {raw datagram : Bytes}
    (hsent : Emitted P tx e.sessionId raw datagram) (hkey : tx.txKey = e.up) (sender : SockaddrIn) :
    (sessionManagerUdpListener P m sender datagram).2 = some raw := by
  obtain ⟨s, hhandled, hrx⟩ := h.handled hA hsent
  exact sessionManagerUdpListener_emitted hA hZ hsent hhandled (hrx.trans hkey.symm) h.serverTun

/-- Down: what was produced with the session's key comes out of the client's TUN. -/
theorem Paired.down (hA : P.aead.Lawful) (hZ : P.zstd.Lawful) (h : Paired e m c i)
    {tx : CryptoContext Buf} {id : UInt64} {raw datagram : Bytes}
    (hsent : Emitted P tx id raw datagram) (hkey : tx.txKey = e.down) :
    clientUdpReceiver P c datagram = some raw :=
  clientUdpReceiver_emitted hA hZ hsent h.connected (h.clientDown.trans hkey.symm) h.clientTun

variable (P hosts)

/-- Every packet that fits and that client `k` or, for slot `i`, the server has read in the
steps was handed to the socket in a datagram at most `tunnelOverhead` longer, and comes out of
the other end's TUN when this datagram arrives at the end. -/
structure Delivers (k : ι) (i : Fin maxSessions)
    (steps : List (TunnelState Buf ι × TunnelOp Buf ι)) (t : TunnelState Buf ι) : Prop where
  up : ∀ u raw, (u, .client k (.tunSender raw)) ∈ steps → raw ≠ [] → raw.length ≤ packetMaxSize →
    ∃ datagram, (clientTunSender (P.on (hosts k)) (u.clients k) raw).2 = some datagram ∧
      datagram.length ≤ raw.length + tunnelOverhead ∧
      ∀ sender, (sessionManagerUdpListener P t.manager sender datagram).2 = some raw
  down : ∀ u raw send, (u, .server (.tunSender raw)) ∈ steps → raw.length ≤ packetMaxSize →
    (sessionManagerTunSender P u.manager raw).2 = some send → send.slot = i →
    send.datagram.length ≤ raw.length + tunnelOverhead ∧
    clientUdpReceiver (P.on (hosts k)) (t.clients k) send.datagram = some raw

variable {P hosts}

/-- An undisturbed tunnel delivers. -/
theorem Paired.delivers (hA : P.aead.Lawful) (hZ : P.zstd.Lawful)
    {steps : List (TunnelState Buf ι × TunnelOp Buf ι)}
    (h : Path (TunnelStep M P hosts) t steps t') (hp : Paired e t.manager (t.clients k) i)
    (hq : ∀ p ∈ steps, KeepsTunnel k p.2) : Delivers P hosts k i steps t' := by
  obtain ⟨hend, hall⟩ := Paired.run h hp hq
  have hwhole : ∀ {raw : Bytes}, raw.length ≤ packetMaxSize →
      raw.take tunnelPacketMaxPlaintext = raw := fun hfit =>
    List.take_of_length_le (hfit.trans (Nat.sub_le _ _))
  constructor
  · intro u raw hmem hne hfit
    have hu := hall _ hmem
    obtain ⟨datagram, hsent⟩ := clientTunSender_sends (.of_lawful hA hZ) hu.connected hne
      (Nat.add_le_of_le_sub (by decide) hfit)
    have hemitted := clientTunSender_emitted hsent
    rw [hwhole hfit, hu.clientId] at hemitted
    refine ⟨datagram, ?_, hemitted.length_le hA, hend.up hA hZ hemitted hu.clientUp⟩
    rw [clientTunSender_on]
    exact hsent
  · intro u raw send hmem hfit hsent hslot
    obtain ⟨s, hs, hid, -, htx⟩ := (hall _ hmem).session
    obtain ⟨s', hs', hemitted⟩ := sessionManagerTunSender_emitted hsent
    rw [hslot] at hs'
    obtain rfl := Option.some.inj (hs.symm.trans hs')
    rw [hwhole hfit] at hemitted
    rw [clientUdpReceiver_on]
    exact ⟨hemitted.length_le hA, hend.down hA hZ hemitted htx⟩

end Paired

section Honest

/-- A connection whose handshake has returned a session comes down to the table. -/
theorem ServerStep.of_handshake {M : Memory Buf} {P : Platform Buf} {m : SessionManager Buf}
    {i : Fin maxSessions} {role : SessionRole} {socket : ℤ} {ip : List Char} {id : UInt64}
    {calls : Calls Buf} {s : Session Buf}
    (hx : Exec (sessionServerConnect M (sessionCreated M role socket ip m.identity id)) calls
      (.ret (0, s))) (hfree : SlotTable.free m.sessions = some i) :
    ServerStep M P m
      (.connect role socket ip ([⟨.malloc, true⟩, ⟨.generateSessionId, id⟩] ++ calls))
      (m.stored i (s.placedAt i)) := by
  have hadd : sessionManagerAdd m s = some _ :=
    sessionManagerAdd_eq_some.mpr ⟨i, hfree, rfl, rfl⟩
  have hstore : Exec (sessionManagerStore M m s) []
      (.ret (m.stored i (s.placedAt i), some (s.placedAt i))) := by
    unfold sessionManagerStore
    rw [hadd]
    exact .nil _
  have hconnect : Exec (sessionManagerConnect M m role socket ip)
      ([⟨.malloc, true⟩, ⟨.generateSessionId, id⟩] ++ calls)
      (.ret (m.stored i (s.placedAt i), some (s.placedAt i))) := by
    refine .cons (.cons ?_)
    change Exec (sessionServerConnect M (sessionCreated M role socket ip m.identity id) >>=
      fun r => if r.1 ≠ 0 then (do
        closeAll (sessionDestroy M r.2).2
        return (m, none)) else sessionManagerStore M m r.2) _ _
    refine exec_bind_ret.mpr ⟨_, calls, [], (List.append_nil calls).symm, hx, ?_⟩
    rw [if_neg (by simp)]
    exact hstore
  exact .connect hconnect

/-- A session stored under a new id is the other end of the client that has its id and keys. -/
theorem Paired.of_stored {m : SessionManager Buf} {i : Fin maxSessions} {c : Client Buf}
    {s : Session Buf} (hfree : SlotTable.free m.sessions = some i)
    (hfresh : ∀ j u, m.sessions j = some u → u.sessionId ≠ s.sessionId)
    (hsocket : 0 ≤ m.udpSocket) (htun : m.tun = true) (howns : c.Owns s) (hc : c.connected)
    (hctun : c.tun = true) :
    Paired ⟨s.sessionId, s.crypto.rxKey, s.crypto.txKey⟩ (m.stored i (s.placedAt i)) c i where
  connected := hc
  clientTun := hctun
  clientId := howns.sessionId
  clientUp := howns.txKey
  clientDown := howns.rxKey
  socket := hsocket
  serverTun := htun
  session := ⟨s.placedAt i, by simp, rfl, rfl, rfl⟩
  first := by
    intro j hj
    obtain ⟨u, hu⟩ := Option.ne_none_iff_exists'.mp ((SlotTable.free_eq_some.mp hfree).2 j hj)
    refine ⟨u, ?_, hfresh j u hu⟩
    rw [SessionManager.stored_sessions, Function.update_of_ne (ne_of_lt hj), hu]

variable {host host' : Endian} {S : Sodium} {C D : Device} {c : Session ByteBuf}
  {idC : CryptoContext ByteBuf} {trusted : Option (ByteBuf cryptoPublicKeySize)}
  {P : Platform ByteBuf} {m : SessionManager ByteBuf} {i : Fin maxSessions} {id : UInt64}

/-- The client with session `c` on device `C` of `host` is served by the server with the manager
`m` on device `D` of `host'`: all runs of their handshakes end with success on both sides, the
server's session takes slot `i`, and from then on the tunnel delivers, in every interleaving with
whatever other clients, connections and datagrams there are. -/
def ClientServed (host host' : Endian) (S : Sodium) (C D : Device) (P : Platform ByteBuf)
    (m : SessionManager ByteBuf) (i : Fin maxSessions) (c : Session ByteBuf) (socket : ℤ)
    (ip : List Char) (id : UInt64) : Prop :=
  ∃ a b c' s' calls,
    Settles (C.answer S) (D.answer S)
      (honestStart host host' c
        (sessionCreated (byteMemory host') .server socket ip m.identity id))
      (honestEnd a b (0, c') (0, s')) ∧
    ServerStep (byteMemory host') P m (.connect .server socket ip calls)
      (m.stored i (s'.placedAt i)) ∧
    ∀ (ι : Type) (_ : DecidableEq ι) (hosts : ι → Endian) (clients : ι → Client ByteBuf) (k : ι)
      (tunnel : UdpTunnel) (steps : List (TunnelState ByteBuf ι × TunnelOp ByteBuf ι))
      (t : TunnelState ByteBuf ι), clients k = ⟨{ c' with udp := tunnel }, true⟩ →
      0 ≤ tunnel.socket →
      Path (TunnelStep (byteMemory host') P hosts) ⟨m.stored i (s'.placedAt i), clients⟩ steps t →
      (∀ p ∈ steps, KeepsTunnel k p.2) → Delivers P hosts k i steps t

/-- An honest client is served when a slot is free and its session id is new to the table and
reads the same on both hosts. -/
theorem honest_client_served (hA : P.aead.Lawful) (hZ : P.zstd.Lawful) (hS : S.Lawful)
    (hc : Created (byteMemory host) .client idC trusted c)
    (htrusted : ∀ key, trusted = some key → key = m.identity.publicKey)
    (hidC : S.signPair idC.publicKey idC.privateKey)
    (hidS : S.signPair m.identity.publicKey m.identity.privateKey)
    (hephC : S.kxPair C.ephPublicKey C.ephPrivateKey)
    (hephD : S.kxPair D.ephPublicKey D.ephPrivateKey)
    (hfree : SlotTable.free m.sessions = some i)
    (hfresh : ∀ j u, m.sessions j = some u → u.sessionId ≠ id)
    (hread : host = host' ∨ leBytes 8 id.toNat = beBytes 8 id.toNat)
    (hsocket : 0 ≤ m.udpSocket) (htun : m.tun = true) (socket : ℤ) (ip : List Char) :
    ClientServed host host' S C D P m i c socket ip id := by
  obtain ⟨rx, tx, hclient, hserver⟩ := hS.agree hephC hephD
  have hs : Created (byteMemory host') .server m.identity none
      (sessionCreated (byteMemory host') .server socket ip m.identity id) :=
    sessionCreated_created _ _ _ _ _ _
  obtain ⟨a, b, hsettles⟩ := honest_settles host host' hS hc.fresh hs.fresh
    htrusted hidC hidS hclient hserver
  refine ⟨a, b, _, _, _, hsettles, .of_handshake (sessionServerConnect_exec _ _ _) hfree, ?_⟩
  intro ι _ hosts clients k tunnel steps t hk hopen hpath hq
  refine Paired.delivers hA hZ hpath (Paired.of_stored hfree hfresh hsocket htun ?_ ?_ ?_) hq
  · dsimp only
    rw [hk]
    exact ⟨(honest_sessionIds (c := c) rx tx).mpr hread, rfl, rfl⟩
  · dsimp only
    rw [hk]
    exact ⟨rfl, hopen⟩
  · dsimp only
    rw [hk]

/-- The first client of a server, on a host of the other byte order. -/
theorem honest_client_served_first :
    ClientServed .little .big plainSodium (plainDevice 3) (plainDevice 4)
    (copyPlatform ByteBuf) (startedManager (byteMemory .big) (plainIdentity .big 2) 5)
    ⟨0, by decide⟩ (plainClient .little) 6 [] 0x0707070707070707 := by
  refine honest_client_served (copyAead_lawful _) storeZstd_lawful plainSodium_lawful
    (sessionCreated_created _ _ _ _ _ _) (fun _ h => absurd h.symm (Option.some_ne_none _))
    (plainIdentity_pair .little 1) ?_ ?_ ?_ ?_ ?_ (.inr (by decide)) ?_ ?_ 6 []
  · rw [startedManager_identity]
    exact plainIdentity_pair .big 2
  · rfl
  · rfl
  · rw [startedManager_sessions]
    exact SlotTable.free_eq_some.mpr ⟨rfl, fun j hj => absurd hj (Fin.not_lt_zero j)⟩
  · rw [startedManager_sessions]
    intro j u hu
    contradiction
  · rw [startedManager_udpSocket]
    omega
  · rw [startedManager_tun]

end Honest

end Sencd
