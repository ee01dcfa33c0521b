import Sencd.NonceUniqueness

/-!
# Written packets are authentic

Whatever datagrams arrive, a packet written under a session whose keys only its two ends know
is one that the other end has read from its TUN and sent. The cipher is assumed ideal: unless
a nonce was used twice, what opens under a secret key was sealed under it before.
-/
namespace Sencd
open ByteOrder CallProgram LabelledPath

variable {Buf : ℕ → Type} {ι : Type}

section Opening

variable (P : Platform Buf)

/-- The arguments of a call of the decryption, which receives the nonce already built. -/
structure Opening (Buf : ℕ → Type) where
  key : Buf cryptoSessionKeySize
  nonce : Bytes
  ciphertext : Bytes

/-- The decryption a received buffer leads to, unless its length is wrong. -/
def tunnelPacketOpening (buffer : Bytes) (ctx : CryptoContext Buf) : Option (Opening Buf) :=
  if buffer.length < tunnelHeaderSize + tunnelAeadTagSize ∨ buffer.length > tunnelPacketMaxSize then
    none
  else some ⟨ctx.rxKey, openingNonce P.host buffer, buffer.drop tunnelHeaderSize⟩

/-- The decryption of a step, if there is one. -/
def stepOpening (hosts : ι → Endian) : TunnelState Buf ι × TunnelOp Buf ι → Option (Opening Buf)
  | (t, .server (.udpListener _ datagram)) =>
    if t.manager.udpSocket < 0 then none else
    (udpListenerTarget P t.manager (datagram.take tunnelPacketMaxSize)).bind fun target =>
      tunnelPacketOpening P (datagram.take tunnelPacketMaxSize) target.2.crypto
  | (t, .client k (.udpReceiver datagram)) =>
    if ¬ (t.clients k).connected then none else
    tunnelPacketOpening (P.on (hosts k)) (datagram.take tunnelPacketMaxSize)
      (t.clients k).session.crypto
  | _ => none

variable {P}

/-- A buffer that decodes has been opened. -/
theorem tunnelPacketOpening_of_decode {buffer plaintext : Bytes} {ctx : CryptoContext Buf}
    (h : tunnelPacketDecode P buffer ctx = some plaintext) :
    ∃ o, tunnelPacketOpening P buffer ctx = some o ∧ o.key = ctx.rxKey ∧
      P.aead.decrypt o.key o.nonce o.ciphertext = some plaintext := by
  rw [tunnelPacketDecode_opening] at h
  unfold tunnelPacketOpening
  by_cases hlen : buffer.length < tunnelHeaderSize + tunnelAeadTagSize ∨
      buffer.length > tunnelPacketMaxSize
  · rw [if_pos hlen] at h
    contradiction
  · rw [if_neg hlen] at h ⊢
    exact ⟨_, rfl, rfl, h⟩

/-- Behind the session id, a buffer is the end of the nonce and the ciphertext. -/
theorem tunnelPacketOpening_bytes {buffer : Bytes} {ctx : CryptoContext Buf} {o : Opening Buf}
    (h : tunnelPacketOpening P buffer ctx = some o) :
    buffer.drop 8 = o.nonce.drop 4 ++ o.ciphertext := by
  unfold tunnelPacketOpening at h
  split_ifs at h with hlen
  obtain rfl := Option.some.inj h
  have hcounter : ((buffer.drop 8).take 8).length = 8 := by
    simp only [tunnelHeaderSize] at hlen
    rw [List.length_take, List.length_drop]
    omega
  have hnonce : (openingNonce P.host buffer).drop 4 = (buffer.drop 8).take 8 := by
    have hlt : ofBeBytes ((buffer.drop 8).take 8) < 2 ^ 64 := by
      have hbytes := ofBeBytes_lt ((buffer.drop 8).take 8)
      rw [hcounter] at hbytes
      omega
    have hread := beBytes_ofBeBytes ((buffer.drop 8).take 8)
    rw [hcounter] at hread
    rw [openingNonce, cryptoBuildNonce_eq, List.drop_left' List.length_replicate,
      be64toh_ofObjectBytes _ hcounter, UInt64.toNat_ofNat_of_lt' hlt, hread]
  rw [hnonce]
  have hrest : buffer.drop tunnelHeaderSize = (buffer.drop 8).drop 8 := by
    rw [List.drop_drop]
  rw [hrest, List.take_append_drop]

end Opening

variable {M : Memory Buf} {P : Platform Buf} {hosts : ι → Endian}
  {clients : ι → Client Buf} {identity : CryptoContext Buf} {udpSocket : ℤ}
  {steps : List (TunnelState Buf ι × TunnelOp Buf ι)} {t : TunnelState Buf ι}

section Statement

variable (P hosts)

/-- The promise of an ideal cipher for the keys in `secret`: while no nonce has been used
twice, a ciphertext that opens was sealed under the same key and nonce before. -/
def IdealCipher (secret : Set (Buf cryptoSessionKeySize))
    (steps : List (TunnelState Buf ι × TunnelOp Buf ι)) : Prop :=
  ∀ before step after, steps = before ++ step :: after →
    ((sealings P hosts before).map fun c => (c.key, c.nonce)).Nodup →
    ∀ o, stepOpening P hosts step = some o → o.key ∈ secret →
      P.aead.decrypt o.key o.nonce o.ciphertext ≠ none →
      ∃ c ∈ sealings P hosts before, c.key = o.key ∧ c.nonce = o.nonce ∧
        P.aead.encrypt c.key c.nonce c.plaintext = some o.ciphertext

/-- The client's keys are those of the session, the other way round. -/
def OtherEnd (c : Client Buf) (s : Session Buf) : Prop :=
  c.session.crypto.txKey = s.crypto.rxKey ∧ c.session.crypto.rxKey = s.crypto.txKey

/-- The packet a step writes under a session with a secret key was read from its TUN and sent
by the other end of the session. -/
structure WritesAuthentic (secret : Set (Buf cryptoSessionKeySize))
    (before : List (TunnelState Buf ι × TunnelOp Buf ι))
    (step : TunnelState Buf ι × TunnelOp Buf ι) : Prop where
  server : ∀ t sender datagram i s packet, step = (t, .server (.udpListener sender datagram)) →
    udpListenerTarget P t.manager (datagram.take tunnelPacketMaxSize) = some (i, s) →
    s.crypto.rxKey ∈ secret →
    (sessionManagerUdpListener P t.manager sender datagram).2 = some packet →
    ∃ t' k read sent, (t', .client k (.tunSender read)) ∈ before ∧ OtherEnd (t'.clients k) s ∧
      (clientTunSender (P.on (hosts k)) (t'.clients k) read).2 = some sent ∧
      packet = read.take tunnelPacketMaxPlaintext
  client : ∀ t k datagram packet, step = (t, .client k (.udpReceiver datagram)) →
    (t.clients k).session.crypto.rxKey ∈ secret →
    clientUdpReceiver (P.on (hosts k)) (t.clients k) datagram = some packet →
    ∃ t' s read sent, (t', .server (.tunSender read)) ∈ before ∧
      (sessionManagerTunSender P t'.manager read).2 = some sent ∧
      t'.manager.sessions sent.slot = some s ∧ OtherEnd (t.clients k) s ∧
      packet = read.take tunnelPacketMaxPlaintext

/-- Every handshake belongs to a session of `σ`, whose two keys are its own. -/
structure IndependentKeys {σ : Type} (up down : σ → Buf cryptoSessionKeySize)
    (steps : List (TunnelState Buf ι × TunnelOp Buf ι)) (clients : ι → Client Buf) : Prop where
  injective : Function.Injective (Sum.elim up down)
  server : ∀ keys ∈ serverKeys steps, ∃ x, keys = (up x, down x)
  client : ∀ k, ∃ x, (clients k).session.crypto.txKey = up x ∧
    (clients k).session.crypto.rxKey = down x

end Statement

section Keys

/-- The sessions of the server have derived keys, and connected clients those they started
with. -/
structure KeysHeld (clients : ι → Client Buf)
    (keys : List (Buf cryptoSessionKeySize × Buf cryptoSessionKeySize))
    (t : TunnelState Buf ι) : Prop where
  server : ∀ i s, t.manager.sessions i = some s → (s.crypto.rxKey, s.crypto.txKey) ∈ keys
  client : ∀ k, (t.clients k).connected →
    (t.clients k).session.crypto.txKey = (clients k).session.crypto.txKey ∧
    (t.clients k).session.crypto.rxKey = (clients k).session.crypto.rxKey

/-- A client that is connected after a step was so before it, with the same keys. -/
theorem clientStep_connected {c : Client Buf} {op : ClientOp}
    (h : (clientStep P M c op).connected) : c.connected ∧
      (clientStep P M c op).session.crypto.txKey = c.session.crypto.txKey ∧
      (clientStep P M c op).session.crypto.rxKey = c.session.crypto.rxKey := by
  cases op with
  | udpReceiver datagram => exact ⟨h, rfl, rfl⟩
  | tunSender packet =>
      change (clientTunSender P c packet).1.connected at h
      change _ ∧ (clientTunSender P c packet).1.session.crypto.txKey = _ ∧
        (clientTunSender P c packet).1.session.crypto.rxKey = _
      cases hattempt : clientAttempt P c (.tunSender packet) with
      | none =>
          rw [clientTunSender_idle (clientAttempt_eq_none.mp hattempt)] at h ⊢
          exact ⟨h, rfl, rfl⟩
      | some a =>
          rw [clientTunSender_counted hattempt] at h ⊢
          exact ⟨h, rfl, rfl⟩
  | disconnect =>
      by_cases hstate : c.session.state = .established
      · have hclosed : ¬ (clientStep P M c .disconnect).connected := by
          simp [clientStep, hstate, Client.connected, sessionDestroy]
        exact absurd h hclosed
      · have hsame : clientStep P M c .disconnect = c := by
          simp only [clientStep, if_neg hstate]
        rw [hsame] at h ⊢
        exact ⟨h, rfl, rfl⟩

theorem TunnelRun.keysHeld [DecidableEq ι]
    (hrun : TunnelRun M P hosts identity udpSocket clients steps t) :
    KeysHeld clients (serverKeys steps) t := by
  induction hrun with
  | nil => exact ⟨fun i s hs => by simp at hs, fun k _ => ⟨rfl, rfl⟩⟩
  | @snoc steps u v op _ hstep ih =>
      have hkeys : serverKeys (steps ++ [(u, op)]) = serverKeys steps ++ opKeys op := by
        simp [serverKeys]
      rw [hkeys]
      cases hstep with
      | @server m m' op cs hstep =>
          refine ⟨fun i s hs => ?_, ih.client⟩
          by_cases hop : ∃ role socket ip calls, op = .connect role socket ip calls
          · obtain ⟨role, socket, ip, calls, rfl⟩ := hop
            obtain rfl | ⟨j, s', -, rfl, -, hderived⟩ := hstep.connect_cases
            · exact List.mem_append_left _ (ih.server i s hs)
            · obtain ⟨-, rfl⟩ | ⟨-, hs⟩ := SlotTable.update_some_eq_some.mp hs
              · exact List.mem_append_right _ hderived
              · exact List.mem_append_left _ (ih.server i s hs)
          · have hother : ∀ role socket ip calls, op ≠ .connect role socket ip calls :=
              fun role socket ip calls he => hop ⟨role, socket, ip, calls, he⟩
            obtain ⟨s', hs', hrx, htx⟩ := hstep.kept hother hs
            rw [hrx, htx]
            exact List.mem_append_left _ (ih.server i s' hs')
      | client m cs k op =>
          refine ⟨fun i s hs => List.mem_append_left _ (ih.server i s hs), fun l hl => ?_⟩
          dsimp only at hl ⊢
          by_cases hlk : l = k
          · subst hlk
            rw [Function.update_self] at hl ⊢
            obtain ⟨hc, htx, hrx⟩ := clientStep_connected hl
            rw [htx, hrx]
            exact ih.client l hc
          · rw [Function.update_of_ne hlk] at hl ⊢
            exact ih.client l hl

/-- The keys of every state a run passes through are held in it. -/
theorem TunnelRun.keysHeld_of_mem [DecidableEq ι]
    (hrun : TunnelRun M P hosts identity udpSocket clients steps t)
    {u : TunnelState Buf ι} {op : TunnelOp Buf ι} (hmem : (u, op) ∈ steps) :
    KeysHeld clients (serverKeys steps) u := by
  obtain ⟨before, after, v, rfl, hbefore, -, -⟩ := hrun.split hmem
  have hheld := TunnelRun.keysHeld hbefore
  refine ⟨fun i s hs => ?_, hheld.client⟩
  have hold := hheld.server i s hs
  simp only [serverKeys, List.flatMap_append]
  exact List.mem_append_left _ hold

end Keys

section Authenticity

variable {σ : Type} {up down : σ → Buf cryptoSessionKeySize}

theorem IndependentKeys.up_injective (h : IndependentKeys up down steps clients) :
    Function.Injective up :=
  h.injective.comp Sum.inl_injective

theorem IndependentKeys.down_injective (h : IndependentKeys up down steps clients) :
    Function.Injective down :=
  h.injective.comp Sum.inr_injective

theorem IndependentKeys.up_ne_down (h : IndependentKeys up down steps clients) (x y : σ) :
    up x ≠ down y := by
  intro he
  have hsame : Sum.elim up down (.inl x) = Sum.elim up down (.inr y) := he
  exact Sum.inl_ne_inr (h.injective hsame)

/-- The keys of a client that seals under the `rx` key of a server's session. -/
theorem IndependentKeys.otherEnd (h : IndependentKeys up down steps clients)
    {u u' : TunnelState Buf ι} (hu : KeysHeld clients (serverKeys steps) u)
    (hu' : KeysHeld clients (serverKeys steps) u') {i : Fin maxSessions} {s : Session Buf}
    (hs : u.manager.sessions i = some s) {k : ι} (hk : (u'.clients k).connected) :
    ((u'.clients k).session.crypto.txKey = s.crypto.rxKey ↔ OtherEnd (u'.clients k) s) ∧
      ((u'.clients k).session.crypto.rxKey = s.crypto.txKey ↔ OtherEnd (u'.clients k) s) := by
  obtain ⟨x, hx⟩ := h.server _ (hu.server i s hs)
  obtain ⟨hrx, htx⟩ := Prod.mk.inj hx
  obtain ⟨y, hy, hy'⟩ := h.client k
  obtain ⟨hk, hk'⟩ := hu'.client k hk
  unfold OtherEnd
  rw [hk, hk', hrx, htx, hy, hy']
  refine ⟨⟨fun he => ?_, And.left⟩, fun he => ?_, And.right⟩
  · obtain rfl := h.up_injective he
    exact ⟨rfl, rfl⟩
  · obtain rfl := h.down_injective he
    exact ⟨rfl, rfl⟩

/-- No session of the server sends under a key under which one receives. -/
theorem IndependentKeys.server_ne (h : IndependentKeys up down steps clients)
    {u u' : TunnelState Buf ι} (hu : KeysHeld clients (serverKeys steps) u)
    (hu' : KeysHeld clients (serverKeys steps) u') {i j : Fin maxSessions} {s s' : Session Buf}
    (hs : u.manager.sessions i = some s) (hs' : u'.manager.sessions j = some s') :
    s'.crypto.txKey ≠ s.crypto.rxKey := by
  obtain ⟨x, hx⟩ := h.server _ (hu.server i s hs)
  obtain ⟨y, hy⟩ := h.server _ (hu'.server j s' hs')
  obtain ⟨hrx, -⟩ := Prod.mk.inj hx
  obtain ⟨-, htx⟩ := Prod.mk.inj hy
  rw [hrx, htx]
  exact (h.up_ne_down x y).symm

/-- Nor does a client. -/
theorem IndependentKeys.client_ne (h : IndependentKeys up down steps clients)
    {u u' : TunnelState Buf ι} (hu : KeysHeld clients (serverKeys steps) u)
    (hu' : KeysHeld clients (serverKeys steps) u') {k l : ι} (hk : (u.clients k).connected)
    (hl : (u'.clients l).connected) :
    (u'.clients l).session.crypto.txKey ≠ (u.clients k).session.crypto.rxKey := by
  obtain ⟨x, -, hx⟩ := h.client k
  obtain ⟨y, hy, -⟩ := h.client l
  rw [(hu.client k hk).2, (hu'.client l hl).1, hx, hy]
  exact h.up_ne_down y x

/-- What was sealed before by a client is what it has packed, and it was sent. -/
theorem clientSealing {c : Client Buf} {op : ClientOp} {a : Attempt Buf} {x : Sealing Buf}
    {ciphertext : Bytes} (ha : clientAttempt P c op = some a) (hx : a.sealing P.host = some x)
    (hseal : P.aead.encrypt x.key x.nonce x.plaintext = some ciphertext) :
    ∃ read sent, op = .tunSender read ∧ c.connected ∧ x.key = c.session.crypto.txKey ∧
      (clientTunSender P c read).2 = some sent ∧
      tunnelPipelineCompress P (read.take tunnelPacketMaxPlaintext) tunnelPacketMaxPlaintext ≠ [] ∧
      x.plaintext = tunnelPipelineCompress P (read.take tunnelPacketMaxPlaintext)
        tunnelPacketMaxPlaintext := by
  cases op with
  | tunSender read =>
      have hencode := clientAttempt_encode (P := P) (c := c) read
      rw [ha, Option.bind_some, tunnelPacketEncode_sealing, hx, Option.bind_some, hseal] at hencode
      obtain ⟨hc, -, hpacked, rfl⟩ := clientAttempt_eq_some.mp ha
      unfold Attempt.sealing at hx
      split_ifs at hx
      obtain rfl := Option.some.inj hx
      exact ⟨read, _, rfl, hc, rfl, hencode, hpacked, rfl⟩
  | udpReceiver datagram => simp [clientAttempt] at ha
  | disconnect => simp [clientAttempt] at ha

/-- What was sealed before by the server is what it has packed, and it was sent. -/
theorem serverSealing {m : SessionManager Buf} {op : ServerOp Buf} {a : Attempt Buf}
    {x : Sealing Buf} {ciphertext : Bytes} (ha : serverAttempt P m op = some a)
    (hx : a.sealing P.host = some x)
    (hseal : P.aead.encrypt x.key x.nonce x.plaintext = some ciphertext) :
    ∃ read sent s, op = .tunSender read ∧ (sessionManagerTunSender P m read).2 = some sent ∧
      m.sessions sent.slot = some s ∧ x.key = s.crypto.txKey ∧
      sent.datagram.drop 8 = x.nonce.drop 4 ++ ciphertext ∧
      tunnelPipelineCompress P (read.take tunnelPacketMaxPlaintext) tunnelPacketMaxPlaintext ≠ [] ∧
      x.plaintext = tunnelPipelineCompress P (read.take tunnelPacketMaxPlaintext)
        tunnelPacketMaxPlaintext := by
  cases op with
  | tunSender read =>
      obtain ⟨⟨compressed, i, s⟩, htarget, rfl⟩ := Option.map_eq_some_iff.mp
        (show (tunSenderTarget P m read).map _ = some a from ha)
      obtain ⟨-, rfl, hpacked, hfind⟩ := (tunSenderTarget_eq_some P).mp htarget
      have hencode := tunnelPacketEncode_sealing (P := P)
        ⟨s.crypto, s.sessionId, s.crypto.txNonce, tunnelPipelineCompress P
          (read.take tunnelPacketMaxPlaintext) tunnelPacketMaxPlaintext⟩
      rw [hx, Option.bind_some, hseal] at hencode
      have hsent := (sessionManagerTunSender_eq_some P).mpr
        ⟨_, i, s, _, htarget, hencode, rfl⟩
      unfold Attempt.sealing at hx
      split_ifs at hx
      obtain rfl := Option.some.inj hx
      refine ⟨read, _, s, rfl, hsent, (SlotTable.find_eq_some.mp hfind).1, rfl, ?_, hpacked, rfl⟩
      dsimp only
      rw [List.append_assoc, List.drop_left' (objectBytes_length _ 8 _), cryptoBuildNonce,
        List.drop_left' List.length_replicate]
  | connect role socket ip calls => simp [serverAttempt] at ha
  | remove sessionId => simp [serverAttempt] at ha
  | udpListener sender datagram => simp [serverAttempt] at ha
  | closeUdp => simp [serverAttempt] at ha
  | disconnectAll => simp [serverAttempt] at ha

/-- A sealed packet unpacks to what was read, on any host. -/
theorem unpacked_sealing (hZ : P.zstd.Lawful) (host : Endian) {read : Bytes}
    (hpacked : tunnelPipelineCompress P (read.take tunnelPacketMaxPlaintext)
      tunnelPacketMaxPlaintext ≠ []) :
    tunnelPipelineDecompress (P.on host) (tunnelPipelineCompress P
      (read.take tunnelPacketMaxPlaintext) tunnelPacketMaxPlaintext) tunnelPacketMaxPlaintext =
      read.take tunnelPacketMaxPlaintext := by
  have hlen : (read.take tunnelPacketMaxPlaintext).length ≤ tunnelPacketMaxPlaintext :=
    List.length_take_le _ _
  apply tunnelPipelineDecompress_compress P host hZ hpacked hlen
  simp only [tunnelPacketMaxPlaintext, tunnelPacketMaxSize] at hlen ⊢
  omega

/-- Every sealing of a run packs what a client or the server has read, and was sent. -/
theorem sealing_source (hZ : P.zstd.Lawful) {before : List (TunnelState Buf ι × TunnelOp Buf ι)}
    {x : Sealing Buf} {ciphertext : Bytes} (hx : x ∈ sealings P hosts before)
    (hseal : P.aead.encrypt x.key x.nonce x.plaintext = some ciphertext) :
    (∃ v k read sent, (v, .client k (.tunSender read)) ∈ before ∧ (v.clients k).connected ∧
      x.key = (v.clients k).session.crypto.txKey ∧
      (clientTunSender (P.on (hosts k)) (v.clients k) read).2 = some sent ∧
      ∀ host, tunnelPipelineDecompress (P.on host) x.plaintext tunnelPacketMaxPlaintext =
        read.take tunnelPacketMaxPlaintext) ∨
    ∃ v read sent s, (v, .server (.tunSender read)) ∈ before ∧
      (sessionManagerTunSender P v.manager read).2 = some sent ∧
      v.manager.sessions sent.slot = some s ∧ x.key = s.crypto.txKey ∧
      sent.datagram.drop 8 = x.nonce.drop 4 ++ ciphertext ∧
      ∀ host, tunnelPipelineDecompress (P.on host) x.plaintext tunnelPacketMaxPlaintext =
        read.take tunnelPacketMaxPlaintext := by
  obtain ⟨⟨v, op⟩, hv, hstep⟩ := List.mem_filterMap.mp hx
  cases op with
  | server op =>
      obtain ⟨a, ha, hax⟩ := Option.bind_eq_some_iff.mp hstep
      obtain ⟨read, sent, s, rfl, hsent, hs, hkey, hbytes, hpacked, hplain⟩ :=
        serverSealing ha hax hseal
      refine .inr ⟨v, read, sent, s, hv, hsent, hs, hkey, hbytes, fun host => ?_⟩
      rw [hplain]
      exact unpacked_sealing hZ host hpacked
  | client k op =>
      obtain ⟨a, ha, hax⟩ := Option.bind_eq_some_iff.mp hstep
      obtain ⟨read, sent, rfl, hc, hkey, hsent, hpacked, hplain⟩ :=
        clientSealing (P := P.on (hosts k)) ha hax hseal
      refine .inl ⟨v, k, read, sent, hv, hc, hkey, hsent, fun host => ?_⟩
      rw [hplain]
      exact unpacked_sealing (P := P.on (hosts k)) hZ host hpacked

/-- What the listener writes has been opened. -/
theorem listener_opening {m : SessionManager Buf} {sender : SockaddrIn} {datagram packet : Bytes}
    {i : Fin maxSessions} {s : Session Buf}
    (htarget : udpListenerTarget P m (datagram.take tunnelPacketMaxSize) = some (i, s))
    (hwritten : (sessionManagerUdpListener P m sender datagram).2 = some packet)
    (cs : ι → Client Buf) (hosts : ι → Endian) :
    ∃ o plaintext, stepOpening P hosts (⟨m, cs⟩, .server (.udpListener sender datagram)) = some o ∧
      o.key = s.crypto.rxKey ∧ P.aead.decrypt o.key o.nonce o.ciphertext = some plaintext ∧
      packet = tunnelPipelineDecompress P plaintext tunnelPacketMaxPlaintext := by
  have hsocket : ¬ m.udpSocket < 0 := by
    intro hsocket
    rw [sessionManagerUdpListener_idle P (.inl hsocket)] at hwritten
    contradiction
  rw [sessionManagerUdpListener_handled P (by omega) htarget] at hwritten
  cases hdecode : tunnelPacketDecode P (datagram.take tunnelPacketMaxSize) s.crypto with
  | none =>
      rw [hdecode] at hwritten
      contradiction
  | some plaintext =>
      rw [hdecode] at hwritten
      dsimp only at hwritten
      split_ifs at hwritten
      obtain ⟨o, ho, hkey, hopen⟩ := tunnelPacketOpening_of_decode hdecode
      refine ⟨o, plaintext, ?_, hkey, hopen, (Option.some.inj hwritten).symm⟩
      change (if m.udpSocket < 0 then none else (udpListenerTarget P m
        (datagram.take tunnelPacketMaxSize)).bind fun target => tunnelPacketOpening P
          (datagram.take tunnelPacketMaxSize) target.2.crypto) = some o
      rw [if_neg hsocket, htarget]
      exact ho

/-- So has what a client writes. -/
theorem receiver_opening {cs : ι → Client Buf} {k : ι} {datagram packet : Bytes}
    (hwritten : clientUdpReceiver (P.on (hosts k)) (cs k) datagram = some packet)
    (m : SessionManager Buf) : (cs k).connected ∧
    ∃ o plaintext, stepOpening P hosts (⟨m, cs⟩, .client k (.udpReceiver datagram)) = some o ∧
      o.key = (cs k).session.crypto.rxKey ∧
      P.aead.decrypt o.key o.nonce o.ciphertext = some plaintext ∧
      (datagram.take tunnelPacketMaxSize).drop 8 = o.nonce.drop 4 ++ o.ciphertext ∧
      packet = tunnelPipelineDecompress (P.on (hosts k)) plaintext tunnelPacketMaxPlaintext := by
  have hconnected : (cs k).connected := by
    by_contra hidle
    rw [clientUdpReceiver_idle hidle] at hwritten
    contradiction
  refine ⟨hconnected, ?_⟩
  unfold clientUdpReceiver at hwritten
  dsimp only at hwritten
  by_cases hidle : ¬ (cs k).connected ∨ datagram.take tunnelPacketMaxSize = []
  · rw [if_pos hidle] at hwritten
    contradiction
  rw [if_neg hidle] at hwritten
  cases hdecode : tunnelPacketDecode (P.on (hosts k)) (datagram.take tunnelPacketMaxSize)
      (cs k).session.crypto with
  | none =>
      rw [hdecode] at hwritten
      contradiction
  | some plaintext =>
      rw [hdecode] at hwritten
      dsimp only at hwritten
      split_ifs at hwritten
      obtain ⟨o, ho, hkey, hopen⟩ := tunnelPacketOpening_of_decode hdecode
      refine ⟨o, plaintext, ?_, hkey, hopen, tunnelPacketOpening_bytes ho,
        (Option.some.inj hwritten).symm⟩
      change (if ¬ (cs k).connected then none else tunnelPacketOpening (P.on (hosts k))
        (datagram.take tunnelPacketMaxSize) (cs k).session.crypto) = some o
      rw [if_neg (not_not.mpr hconnected)]
      exact ho

variable [DecidableEq ι] [DecidableEq (Buf cryptoSessionKeySize)]

/-- What opens under a secret key was sealed before. -/
theorem opening_sealed {secret : Set (Buf cryptoSessionKeySize)} (hA : P.aead.Lawful)
    (hrun : TunnelRun M P hosts identity udpSocket clients steps t)
    (hopened : ∀ k, (clients k).Opened M) (hkeys : DistinctTxKeys steps clients)
    (hsends : ∀ key, (attempts P hosts steps).countP (fun a => a.ctx.txKey = key) < 2 ^ 64)
    (hideal : IdealCipher P hosts secret steps)
    {before after : List (TunnelState Buf ι × TunnelOp Buf ι)}
    {step : TunnelState Buf ι × TunnelOp Buf ι} (hsteps : steps = before ++ step :: after)
    {o : Opening Buf} {plaintext : Bytes} (ho : stepOpening P hosts step = some o)
    (hsecret : o.key ∈ secret)
    (hopen : P.aead.decrypt o.key o.nonce o.ciphertext = some plaintext) :
    ∃ x ∈ sealings P hosts before, x.key = o.key ∧ x.nonce = o.nonce ∧ x.plaintext = plaintext ∧
      P.aead.encrypt x.key x.nonce x.plaintext = some o.ciphertext := by
  have hnodup : ((sealings P hosts before).map fun c => (c.key, c.nonce)).Nodup := by
    have hall := hrun.nonces_nodup hopened hkeys fun key => (hsends key).le
    rw [hsteps, sealings, List.filterMap_append, List.map_append] at hall
    exact hall.of_append_left
  obtain ⟨x, hx, hkey, hnonce, hseal⟩ :=
    hideal before step after hsteps hnodup o ho hsecret (by simp [hopen])
  have hplain := hA.decrypt_encrypt hseal
  rw [hkey, hnonce, hopen] at hplain
  exact ⟨x, hx, hkey, hnonce, (Option.some.inj hplain).symm, hseal⟩

/-- What a client writes was sent by the server under the client's session: the bytes behind the
session id are those of the datagram. -/
theorem receiver_source {secret : Set (Buf cryptoSessionKeySize)} (hA : P.aead.Lawful)
    (hZ : P.zstd.Lawful) (hrun : TunnelRun M P hosts identity udpSocket clients steps t)
    (hopened : ∀ k, (clients k).Opened M) (hkeys : DistinctTxKeys steps clients)
    (hsends : ∀ key, (attempts P hosts steps).countP (fun a => a.ctx.txKey = key) < 2 ^ 64)
    (hindependent : IndependentKeys up down steps clients)
    (hideal : IdealCipher P hosts secret steps)
    {before after : List (TunnelState Buf ι × TunnelOp Buf ι)} {u : TunnelState Buf ι} {k : ι}
    {datagram packet : Bytes}
    (hsteps : steps = before ++ (u, .client k (.udpReceiver datagram)) :: after)
    (hsecret : (u.clients k).session.crypto.rxKey ∈ secret)
    (hwritten : clientUdpReceiver (P.on (hosts k)) (u.clients k) datagram = some packet) :
    ∃ v s read sent, (v, .server (.tunSender read)) ∈ before ∧
      (sessionManagerTunSender P v.manager read).2 = some sent ∧
      v.manager.sessions sent.slot = some s ∧ OtherEnd (u.clients k) s ∧
      (datagram.take tunnelPacketMaxSize).drop 8 = sent.datagram.drop 8 ∧
      packet = read.take tunnelPacketMaxPlaintext := by
  have hmem : ∀ x ∈ before, x ∈ steps := fun x hx => by
    rw [hsteps]
    exact List.mem_append_left _ hx
  have hheld : KeysHeld clients (serverKeys steps) u :=
    hrun.keysHeld_of_mem (hsteps ▸ List.mem_append_right _ List.mem_cons_self)
  obtain ⟨hc, o, plaintext, ho, hkey, hopen, hbytes, rfl⟩ := receiver_opening hwritten u.manager
  obtain ⟨x, hx, hxkey, hxnonce, rfl, hseal⟩ := opening_sealed hA hrun hopened hkeys hsends hideal
    hsteps ho (hkey ▸ hsecret) hopen
  obtain ⟨v, l, read, sent, hv, hl, hclient, -, -⟩ | ⟨v, read, sent, s, hv, hsent, hs, hserver,
    hsealed, hunpack⟩ := sealing_source hZ hx hseal
  · have hheld' := hrun.keysHeld_of_mem (hmem _ hv)
    exact absurd (hclient.symm.trans (hxkey.trans hkey))
      (hindependent.client_ne hheld hheld' hc hl)
  · have hheld' := hrun.keysHeld_of_mem (hmem _ hv)
    have hend := (hindependent.otherEnd hheld' hheld hs hc).2.mp
      (hkey.symm.trans (hxkey.symm.trans hserver))
    refine ⟨v, s, read, sent, hv, hsent, hs, hend, ?_, hunpack (hosts k)⟩
    rw [hbytes, hsealed, hxnonce]

/-- Under an ideal cipher every packet written under a session with a secret key is one that
the other end of the session has read and sent. -/
theorem tunnel_writes_authentic {secret : Set (Buf cryptoSessionKeySize)} (hA : P.aead.Lawful)
    (hZ : P.zstd.Lawful) (hrun : TunnelRun M P hosts identity udpSocket clients steps t)
    (hopened : ∀ k, (clients k).Opened M) (hkeys : DistinctTxKeys steps clients)
    (hsends : ∀ key, (attempts P hosts steps).countP (fun a => a.ctx.txKey = key) < 2 ^ 64)
    (hindependent : IndependentKeys up down steps clients)
    (hideal : IdealCipher P hosts secret steps) :
    ∀ before step after, steps = before ++ step :: after →
      WritesAuthentic P hosts secret before step := by
  intro before step after hsteps
  have hmem : ∀ x ∈ before, x ∈ steps := fun x hx => by
    rw [hsteps]
    exact List.mem_append_left _ hx
  have hstep : step ∈ steps := by simp [hsteps]
  refine ⟨fun u sender datagram i s packet he htarget hsecret hwritten => ?_,
    fun u k datagram packet he hsecret hwritten => ?_⟩
  · subst he
    have hheld := hrun.keysHeld_of_mem hstep
    have hs := mem_of_udpListenerTarget P htarget
    obtain ⟨o, plaintext, ho, hkey, hopen, rfl⟩ :=
      listener_opening htarget hwritten u.clients hosts
    obtain ⟨x, hx, hxkey, -, rfl, hseal⟩ := opening_sealed hA hrun hopened hkeys hsends hideal
      hsteps ho (hkey ▸ hsecret) hopen
    obtain ⟨v, k, read, sent, hv, hc, hclient, hsent, hunpack⟩ | ⟨v, read, sent, s', hv, -, hs',
      hserver, -⟩ := sealing_source hZ hx hseal
    · have hheld' := hrun.keysHeld_of_mem (hmem _ hv)
      have hend := (hindependent.otherEnd hheld hheld' hs hc).1.mp
        (hclient.symm.trans (hxkey.trans hkey))
      exact ⟨v, k, read, sent, hv, hend, hsent, hunpack P.host⟩
    · have hheld' := hrun.keysHeld_of_mem (hmem _ hv)
      exact absurd (hserver.symm.trans (hxkey.trans hkey))
        (hindependent.server_ne hheld hheld' hs hs')
  · subst he
    obtain ⟨v, s, read, sent, hv, hsent, hs, hend, -, hpacket⟩ := receiver_source hA hZ hrun
      hopened hkeys hsends hindependent hideal hsteps hsecret hwritten
    exact ⟨v, s, read, sent, hv, hsent, hs, hend, hpacket⟩

end Authenticity

/-- The last step opens what the second one has sealed. -/
theorem guestTraffic_opening : stepOpening guestPlatform guestHosts
    (⟨guestManager 1, sentClients⟩, .server (.udpListener ⟨9, 9⟩ firstSent)) =
      some ⟨(guestSession 0).crypto.rxKey, cryptoBuildNonce .big 0,
        firstPacked ++ List.replicate tunnelAeadTagSize 0⟩ := by
  have hopening : ∀ m : SessionManager MsgBuf, 0 ≤ m.udpSocket → ∀ cs : ℕ → Client MsgBuf,
      stepOpening guestPlatform guestHosts (⟨m, cs⟩, .server (.udpListener ⟨9, 9⟩ firstSent)) =
        (udpListenerTarget guestPlatform m (firstSent.take tunnelPacketMaxSize)).bind fun target =>
          tunnelPacketOpening guestPlatform (firstSent.take tunnelPacketMaxSize)
            target.2.crypto := fun m hm cs => if_neg hm.not_gt
  rw [hopening _ (guestManager_socket 1), firstSent_target]
  rfl

theorem guestTraffic_ideal : IdealCipher guestPlatform guestHosts Set.univ guestTraffic := by
  intro before step after hsteps _ o ho _ _
  obtain _ | ⟨first, _ | ⟨second, _ | ⟨third, before⟩⟩⟩ := before
  · obtain ⟨rfl, -⟩ := List.cons.inj hsteps
    exact absurd ho.symm (Option.some_ne_none o)
  · obtain ⟨rfl, hrest⟩ := List.cons.inj hsteps
    obtain ⟨rfl, -⟩ := List.cons.inj hrest
    exact absurd ho.symm (Option.some_ne_none o)
  · obtain ⟨rfl, hrest⟩ := List.cons.inj hsteps
    obtain ⟨rfl, hlast⟩ := List.cons.inj hrest
    obtain ⟨rfl, -⟩ := List.cons.inj hlast
    rw [guestTraffic_opening] at ho
    obtain rfl := Option.some.inj ho
    refine ⟨⟨(guestTunnel 0).session.crypto.txKey, cryptoBuildNonce .big 0, firstPacked⟩, ?_, ?_⟩
    · exact List.mem_singleton_self _
    · exact ⟨(guest_keys 0).1.symm, rfl, rfl⟩
  · have hlen := congrArg List.length hsteps
    simp [guestTraffic] at hlen

theorem independentKeys_of_first {steps : List (TunnelState MsgBuf ℕ × TunnelOp MsgBuf ℕ)}
    (hfirst : serverKeys steps = [(guestUp 0, guestDown 0)]) :
    IndependentKeys guestUp guestDown steps guestTunnel where
  injective := guestKeys_injective
  server keys hkeys := by
    rw [hfirst] at hkeys
    exact ⟨0, List.mem_singleton.mp hkeys⟩
  client k := ⟨k, rfl, rfl⟩

/-- What the server writes when the guest's datagram arrives is what the guest has sent. -/
theorem tunnel_writes_authentic_guest :
    WritesAuthentic guestPlatform guestHosts Set.univ (guestTraffic.take 2)
      (⟨guestManager 1, sentClients⟩, .server (.udpListener ⟨9, 9⟩ firstSent)) :=
  tunnel_writes_authentic (copyAead_lawful _) storeZstd_lawful guestTraffic_run guestTunnel_opened
    guestTraffic_keys
    (fun key => (guestTraffic_sends key).trans_lt (Nat.one_lt_two_pow (by decide)))
    (independentKeys_of_first guestTraffic_serverKeys) guestTraffic_ideal (guestTraffic.take 2) _
    [] rfl

end Sencd
