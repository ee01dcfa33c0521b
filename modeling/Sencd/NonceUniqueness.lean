import Sencd.Guests
import Sencd.TunnelNetwork

/-!
# No nonce is used twice

The counters a key is used with are followed through the runs of a server and its clients.
The big-endian nonce layout is injective, so distinct counters give distinct nonces.

The runs looked at have clients with their handshakes behind them, of which the first one sends
packets that the server writes to its TUN. The server stores integers with the low byte first,
the clients with the high byte first.
-/
namespace Sencd
open ByteOrder CallProgram LabelledPath CounterLog SlotTable

variable {Buf : ℕ → Type}

section Nonce

variable {P : Platform Buf}

theorem cryptoBuildNonce_injective (host : Endian) :
    Function.Injective (cryptoBuildNonce host) := by
  intro x y h
  rw [cryptoBuildNonce_eq, cryptoBuildNonce_eq] at h
  have hbytes := List.append_cancel_left h
  rw [← ofBeBytes_beBytes_uint64 x, hbytes, ofBeBytes_beBytes_uint64]

/-- The arguments of a call of `crypto_encrypt_packet`, with the nonce it builds. -/
structure Sealing (Buf : ℕ → Type) where
  key : Buf cryptoSessionKeySize
  nonce : Bytes
  plaintext : Bytes

/-- The call a call of `tunnel_packet_encode` makes, unless its packet is too long. -/
def Attempt.sealing (host : Endian) (a : Attempt Buf) : Option (Sealing Buf) :=
  if a.input.plaintext.length > tunnelPacketMaxPlaintext then none
  else some ⟨a.ctx.txKey, cryptoBuildNonce host a.input.counter, a.input.plaintext⟩

/-- A datagram is the header in front of what the cipher makes of the sealing. -/
theorem tunnelPacketEncode_sealing (a : Attempt Buf) :
    tunnelPacketEncode P a.input a.ctx = (a.sealing P.host).bind fun c =>
      (P.aead.encrypt c.key c.nonce c.plaintext).map fun ciphertext =>
        objectBytes P.host 8 (htobe64 P.host a.input.sessionId).toNat ++
          objectBytes P.host 8 (htobe64 P.host a.input.counter).toNat ++ ciphertext := by
  unfold tunnelPacketEncode Attempt.sealing
  by_cases hlen : a.input.plaintext.length > tunnelPacketMaxPlaintext
  · rw [if_pos hlen, if_pos hlen]
    rfl
  · rw [if_neg hlen, if_neg hlen]
    simp only [Option.bind_some, cryptoEncryptPacket]
    cases P.aead.encrypt a.ctx.txKey (cryptoBuildNonce P.host a.input.counter)
      a.input.plaintext with
    | none => rfl
    | some ciphertext => rfl

/-- The sealing does not depend on the byte order of the sender. -/
theorem Attempt.sealing_host (host host' : Endian) (a : Attempt Buf) :
    a.sealing host = a.sealing host' := by
  simp only [Attempt.sealing, cryptoBuildNonce_eq]

/-- The nonce `crypto_decrypt_packet` builds from the counter in a datagram's header. -/
def openingNonce (host : Endian) (buffer : Bytes) : Bytes :=
  cryptoBuildNonce host (be64toh host (.ofNat (ofObjectBytes host ((buffer.drop 8).take 8))))

theorem tunnelPacketDecode_opening (buffer : Bytes) (ctx : CryptoContext Buf) :
    tunnelPacketDecode P buffer ctx =
      if buffer.length < tunnelHeaderSize + tunnelAeadTagSize ∨
        buffer.length > tunnelPacketMaxSize then none
      else P.aead.decrypt ctx.rxKey (openingNonce P.host buffer) (buffer.drop tunnelHeaderSize) :=
  rfl

end Nonce

section Run

variable {ι : Type} [DecidableEq (Buf cryptoSessionKeySize)] {M : Memory Buf} {P : Platform Buf}
  {hosts : ι → Endian} {clients : ι → Client Buf}

/-- The call of `crypto_encrypt_packet` in a step, if there is one. -/
def stepSealing (P : Platform Buf) (hosts : ι → Endian) :
    TunnelState Buf ι × TunnelOp Buf ι → Option (Sealing Buf)
  | (t, .server op) => (serverAttempt P t.manager op).bind (Attempt.sealing P.host)
  | (t, .client k op) =>
    (clientAttempt (P.on (hosts k)) (t.clients k) op).bind (Attempt.sealing (hosts k))

/-- The calls of `crypto_encrypt_packet` in a run, in order. -/
def sealings (P : Platform Buf) (hosts : ι → Endian)
    (steps : List (TunnelState Buf ι × TunnelOp Buf ι)) : List (Sealing Buf) :=
  steps.filterMap (stepSealing P hosts)

/-- Different handshakes have given different sending keys. -/
structure DistinctTxKeys (steps : List (TunnelState Buf ι × TunnelOp Buf ι))
    (clients : ι → Client Buf) : Prop where
  server : (serverTxKeys steps).Nodup
  client : Function.Injective fun k => (clients k).session.crypto.txKey
  disjoint : ∀ k, (clients k).session.crypto.txKey ∉ serverTxKeys steps

/-- The counters of all sessions agree with the log of the keys used so far. -/
structure Tracked (clients : ι → Client Buf) (keys : List (Buf cryptoSessionKeySize))
    (log : List (Buf cryptoSessionKeySize × UInt64)) (t : TunnelState Buf ι) : Prop where
  derived : ∀ i s, t.manager.sessions i = some s → s.crypto.txKey ∈ keys
  slots : ∀ i j s s', t.manager.sessions i = some s → t.manager.sessions j = some s' →
    s.crypto.txKey = s'.crypto.txKey → i = j
  server : ∀ i s, t.manager.sessions i = some s →
    s.crypto.txNonce = UInt64.ofNat (uses log s.crypto.txKey)
  client : ∀ k, (t.clients k).connected →
    (t.clients k).session.crypto.txKey = (clients k).session.crypto.txKey ∧
    (t.clients k).session.crypto.txNonce =
      UInt64.ofNat (uses log (clients k).session.crypto.txKey)
  known : ∀ e ∈ log, e.1 ∈ keys ∨ ∃ k, e.1 = (clients k).session.crypto.txKey
  sequential : Sequential log

variable {keys : List (Buf cryptoSessionKeySize)} {log : List (Buf cryptoSessionKeySize × UInt64)}
  {m m' : SessionManager Buf} {cs : ι → Client Buf} {s : Session Buf} {i : Fin maxSessions}

/-- A session with a new key and a counter at zero may enter a free slot. -/
theorem Tracked.stored (h : Tracked clients keys log ⟨m, cs⟩)
    {new : List (Buf cryptoSessionKeySize)} (hfree : SlotTable.free m.sessions = some i)
    (hzero : s.crypto.txNonce = 0) (hnew : s.crypto.txKey ∈ new) (hnodup : (keys ++ new).Nodup)
    (hdisjoint : ∀ k, (clients k).session.crypto.txKey ∉ keys ++ new) :
    Tracked clients (keys ++ new) log ⟨m.stored i s, cs⟩ := by
  have hfresh : s.crypto.txKey ∉ keys := fun hold =>
    List.disjoint_of_nodup_append hnodup hold hnew
  have hunused : uses log s.crypto.txKey = 0 := by
    refine uses_eq_zero fun e he hkey => ?_
    obtain hold | ⟨k, hk⟩ := h.known e he
    · exact hfresh (hkey ▸ hold)
    · exact hdisjoint k (by rw [← hk, hkey]; exact List.mem_append_right _ hnew)
  refine ⟨fun j t ht => ?_, fun j l t t' ht ht' he => ?_, fun j t ht => ?_, h.client,
    fun e he => (h.known e he).imp_left (List.mem_append_left _), h.sequential⟩
  · obtain ⟨-, rfl⟩ | ⟨-, ht⟩ := update_some_eq_some.mp ht
    · exact List.mem_append_right _ hnew
    · exact List.mem_append_left _ (h.derived j t ht)
  · obtain ⟨rfl, rfl⟩ | ⟨-, hold⟩ := update_some_eq_some.mp ht
    · obtain ⟨rfl, -⟩ | ⟨-, hold'⟩ := update_some_eq_some.mp ht'
      · rfl
      · exact absurd (he ▸ h.derived l t' hold') hfresh
    · obtain ⟨-, rfl⟩ | ⟨-, hold'⟩ := update_some_eq_some.mp ht'
      · exact absurd (he ▸ h.derived j t hold) hfresh
      · exact h.slots j l t t' hold hold' he
  · obtain ⟨-, rfl⟩ | ⟨-, ht⟩ := update_some_eq_some.mp ht
    · rw [hzero, hunused]
      rfl
    · exact h.server j t ht

/-- The session in slot `i` may use its key with its counter. -/
theorem Tracked.serverUse (h : Tracked clients keys log ⟨m, cs⟩) (hs : m.sessions i = some s)
    (hdisjoint : ∀ k, (clients k).session.crypto.txKey ∉ keys) :
    Tracked clients keys (log ++ [(s.crypto.txKey, s.crypto.txNonce)])
      ⟨{ m with sessions := Function.update m.sessions i (some s.counted) }, cs⟩ := by
  have hold : ∀ j t, Function.update m.sessions i (some s.counted) j = some t →
      ∃ t', m.sessions j = some t' ∧ t.crypto.txKey = t'.crypto.txKey := by
    intro j t ht
    obtain ⟨rfl, rfl⟩ | ⟨-, ht⟩ := update_some_eq_some.mp ht
    · exact ⟨s, hs, rfl⟩
    · exact ⟨t, ht, rfl⟩
  have hmem := h.derived i s hs
  refine ⟨fun j t ht => ?_, fun j l t t' ht ht' he => ?_, fun j t ht => ?_, fun k hk => ?_,
    fun e he => ?_, h.sequential.snoc (h.server i s hs)⟩
  · obtain ⟨t', ht', hkey⟩ := hold j t ht
    rw [hkey]
    exact h.derived j t' ht'
  · obtain ⟨u, hu, hkey⟩ := hold j t ht
    obtain ⟨u', hu', hkey'⟩ := hold l t' ht'
    exact h.slots j l u u' hu hu' (by rw [← hkey, ← hkey', he])
  · rw [uses_snoc]
    obtain ⟨rfl, rfl⟩ | ⟨hji, ht⟩ := update_some_eq_some.mp ht
    · have hnonce := h.server j s hs
      simp only [Session.counted, hnonce, if_true]
      simp
    · have hne : ¬ s.crypto.txKey = t.crypto.txKey := fun he => hji (h.slots j i t s ht hs he.symm)
      rw [if_neg hne, Nat.add_zero]
      exact h.server j t ht
  · have hne : ¬ s.crypto.txKey = (clients k).session.crypto.txKey := fun he =>
      hdisjoint k (he ▸ hmem)
    rw [uses_snoc, if_neg hne, Nat.add_zero]
    exact h.client k hk
  · obtain he | he := List.mem_append.mp he
    · exact h.known e he
    · obtain rfl := List.mem_singleton.mp he
      exact .inl hmem

/-- Client `k` may use its key with its counter. -/
theorem Tracked.clientUse [DecidableEq ι] (h : Tracked clients keys log ⟨m, cs⟩) {k : ι}
    (hk : (cs k).connected)
    (hinjective : Function.Injective fun k => (clients k).session.crypto.txKey)
    (hdisjoint : ∀ k, (clients k).session.crypto.txKey ∉ keys) :
    Tracked clients keys (log ++ [((cs k).session.crypto.txKey, (cs k).session.crypto.txNonce)])
      ⟨m, Function.update cs k { cs k with session := (cs k).session.counted }⟩ := by
  obtain ⟨hkey, hnonce⟩ := h.client k hk
  dsimp only at hkey hnonce
  have hsequential := h.sequential.snoc
    (e := ((cs k).session.crypto.txKey, (cs k).session.crypto.txNonce)) (by rw [hnonce, hkey])
  refine ⟨h.derived, h.slots, fun j t ht => ?_, fun l hl => ?_, fun e he => ?_, hsequential⟩
  · have hne : ¬ (cs k).session.crypto.txKey = t.crypto.txKey := by
      intro he
      have hmem := h.derived j t ht
      rw [← he, hkey] at hmem
      exact hdisjoint k hmem
    rw [uses_snoc, if_neg hne, Nat.add_zero]
    exact h.server j t ht
  · rw [uses_snoc]
    by_cases hlk : l = k
    · subst hlk
      dsimp only
      rw [Function.update_self, if_pos hkey]
      refine ⟨hkey, ?_⟩
      simp only [Session.counted, hnonce]
      simp
    · have hne : ¬ (cs k).session.crypto.txKey = (clients l).session.crypto.txKey := by
        rw [hkey]
        exact fun he => hlk (hinjective he).symm
      dsimp only at hl ⊢
      rw [Function.update_of_ne hlk] at hl ⊢
      rw [if_neg hne, Nat.add_zero]
      exact h.client l hl
  · obtain he | he := List.mem_append.mp he
    · exact h.known e he
    · obtain rfl := List.mem_singleton.mp he
      exact .inr ⟨k, hkey⟩

/-- A step that leaves the contexts in use as they are leaves the counters tracked. -/
theorem Tracked.kept (h : Tracked clients keys log ⟨m, cs⟩) {cs' : ι → Client Buf}
    (hm : ∀ i s, m'.sessions i = some s → ∃ t, m.sessions i = some t ∧ s.crypto = t.crypto)
    (hcs : ∀ k, (cs' k).connected → cs' k = cs k) : Tracked clients keys log ⟨m', cs'⟩ := by
  refine ⟨fun i s hs => ?_, fun i j s s' hs hs' he => ?_, fun i s hs => ?_, fun k hk => ?_,
    h.known, h.sequential⟩
  · obtain ⟨t, ht, hcrypto⟩ := hm i s hs
    rw [hcrypto]
    exact h.derived i t ht
  · obtain ⟨t, ht, hcrypto⟩ := hm i s hs
    obtain ⟨t', ht', hcrypto'⟩ := hm j s' hs'
    rw [hcrypto, hcrypto'] at he
    exact h.slots i j t t' ht ht' he
  · obtain ⟨t, ht, hcrypto⟩ := hm i s hs
    rw [hcrypto]
    exact h.server i t ht
  · have he := hcs k hk
    dsimp only at hk ⊢
    rw [he] at hk ⊢
    exact h.client k hk

/-- Keys that nobody uses may be added. -/
theorem Tracked.moreKeys {t : TunnelState Buf ι} (h : Tracked clients keys log t)
    (new : List (Buf cryptoSessionKeySize)) : Tracked clients (keys ++ new) log t :=
  ⟨fun i s hs => List.mem_append_left _ (h.derived i s hs), h.slots, h.server, h.client,
    fun e he => (h.known e he).imp_left (List.mem_append_left _), h.sequential⟩

theorem Tracked.serverStep {op : ServerOp Buf} (h : Tracked clients keys log ⟨m, cs⟩)
    (hstep : ServerStep M P m op m')
    (hnodup : (keys ++ (opKeys (.server op : TunnelOp Buf ι)).map Prod.snd).Nodup)
    (hdisjoint : ∀ k, (clients k).session.crypto.txKey ∉
      keys ++ (opKeys (.server op : TunnelOp Buf ι)).map Prod.snd) :
    Tracked clients (keys ++ (opKeys (.server op : TunnelOp Buf ι)).map Prod.snd)
      (log ++ ((serverAttempt P m op).map Attempt.use).toList) ⟨m', cs⟩ := by
  have hquiet : (∀ role socket ip calls, op ≠ .connect role socket ip calls) →
      (∀ packet, op ≠ .tunSender packet) → Tracked clients keys log ⟨m', cs⟩ :=
    fun hconnect hsend => h.kept (fun i s hs => hstep.kept_crypto hconnect hsend hs) fun _ _ => rfl
  cases op with
  | connect role socket ip calls =>
      have hlog : log ++ ((serverAttempt P m (.connect role socket ip calls)).map
          Attempt.use).toList = log := List.append_nil log
      rw [hlog]
      obtain rfl | ⟨i, s, hfree, rfl, hzero, hderived⟩ := hstep.connect_cases
      · exact h.moreKeys _
      · exact h.stored hfree hzero (List.mem_map_of_mem hderived) hnodup hdisjoint
  | tunSender packet =>
      have hkeys : keys ++ (opKeys (.server (.tunSender packet) : TunnelOp Buf ι)).map Prod.snd =
          keys := List.append_nil keys
      rw [hkeys] at hdisjoint ⊢
      have hattempt : serverAttempt P m (.tunSender packet) =
          (tunSenderTarget P m packet).map fun target =>
            ⟨target.2.2.crypto, target.2.2.sessionId, target.2.2.crypto.txNonce, target.1⟩ := rfl
      rw [hattempt]
      cases hstep with
      | tunSender =>
          cases htarget : tunSenderTarget P m packet with
          | none =>
              rw [sessionManagerTunSender_idle P htarget]
              simpa using h
          | some target =>
              obtain ⟨compressed, i, s⟩ := target
              rw [sessionManagerTunSender_target P htarget]
              exact h.serverUse (mem_of_tunSenderTarget P htarget) hdisjoint
  | remove sessionId => simpa [opKeys, serverAttempt] using hquiet (by simp) (by simp)
  | udpListener sender datagram => simpa [opKeys, serverAttempt] using hquiet (by simp) (by simp)
  | closeUdp => simpa [opKeys, serverAttempt] using hquiet (by simp) (by simp)
  | disconnectAll => simpa [opKeys, serverAttempt] using hquiet (by simp) (by simp)

theorem Tracked.clientStep [DecidableEq ι] {op : ClientOp} {k : ι} {host : Endian}
    (h : Tracked clients keys log ⟨m, cs⟩)
    (hinjective : Function.Injective fun k => (clients k).session.crypto.txKey)
    (hdisjoint : ∀ k, (clients k).session.crypto.txKey ∉ keys) :
    Tracked clients keys (log ++ ((clientAttempt (P.on host) (cs k) op).map Attempt.use).toList)
      ⟨m, Function.update cs k (clientStep (P.on host) M (cs k) op)⟩ := by
  have hsame : ∀ i s, m.sessions i = some s → ∃ t, m.sessions i = some t ∧ s.crypto = t.crypto :=
    fun i s hs => ⟨s, hs, rfl⟩
  cases op with
  | udpReceiver datagram =>
      have hidle : Function.update cs k (Sencd.clientStep (P.on host) M (cs k)
          (.udpReceiver datagram)) = cs := Function.update_eq_self k cs
      rw [hidle]
      simpa [clientAttempt] using h
  | tunSender packet =>
      change Tracked clients keys _ ⟨m, Function.update cs k (clientTunSender (P.on host) (cs k)
        packet).1⟩
      cases hattempt : clientAttempt (P.on host) (cs k) (.tunSender packet) with
      | none =>
          rw [clientTunSender_idle (clientAttempt_eq_none.mp hattempt), Function.update_eq_self]
          simpa using h
      | some a =>
          rw [clientTunSender_counted hattempt]
          obtain ⟨hconnected, -, -, rfl⟩ := clientAttempt_eq_some.mp hattempt
          exact h.clientUse hconnected hinjective hdisjoint
  | disconnect =>
      have hlog : log ++ ((clientAttempt (P.on host) (cs k) .disconnect).map Attempt.use).toList =
          log := List.append_nil log
      rw [hlog]
      refine h.kept hsame fun l hl => ?_
      by_cases hlk : l = k
      · subst hlk
        rw [Function.update_self] at hl ⊢
        by_cases hstate : (cs l).session.state = .established
        · have hclosed : ¬ (Sencd.clientStep (P.on host) M (cs l) .disconnect).connected := by
            simp [Sencd.clientStep, hstate, Client.connected, sessionDestroy]
          exact absurd hl hclosed
        · simp only [Sencd.clientStep, if_neg hstate]
      · exact Function.update_of_ne hlk _ _

variable {identity : CryptoContext Buf} {udpSocket : ℤ}
  {steps : List (TunnelState Buf ι × TunnelOp Buf ι)} {t : TunnelState Buf ι}

/-- An opened client has not sent anything yet. -/
theorem Client.Opened.counter {c : Client Buf} (h : c.Opened M) : c.session.crypto.txNonce = 0 := by
  obtain ⟨socket, ip, identity, trusted, calls, s, hx, hs⟩ := h
  have hzero : s.crypto.txNonce = 0 := (clientHandshake_counter M socket ip).post hx
  rw [hs]
  exact hzero

/-- With distinct keys the counters are tracked throughout a run. -/
theorem TunnelRun.tracked [DecidableEq ι]
    (hrun : TunnelRun M P hosts identity udpSocket clients steps t)
    (hopened : ∀ k, (clients k).Opened M) (hkeys : DistinctTxKeys steps clients) :
    Tracked clients (serverTxKeys steps) ((attempts P hosts steps).map Attempt.use) t := by
  induction hrun with
  | nil =>
      refine ⟨fun i s hs => ?_, fun i j s s' hs => ?_, fun i s hs => ?_, fun k _ => ?_,
        fun e he => ?_, .nil⟩
      · simp at hs
      · simp at hs
      · simp at hs
      · exact ⟨rfl, (hopened k).counter⟩
      · simp [attempts] at he
  | @snoc steps u v op _ hstep ih =>
      have hserver : serverTxKeys (steps ++ [(u, op)]) =
          serverTxKeys steps ++ (opKeys op).map Prod.snd := by
        simp [serverTxKeys, serverKeys]
      have hattempts : (attempts P hosts (steps ++ [(u, op)])).map Attempt.use =
          (attempts P hosts steps).map Attempt.use ++
            ((stepAttempt P hosts (u, op)).map Attempt.use).toList := by
        unfold attempts
        rw [List.filterMap_append, List.map_append]
        cases h : stepAttempt P hosts (u, op) with
        | none => simp [h]
        | some a => simp [h]
      have hnodup := hkeys.server
      have hdisjoint := hkeys.disjoint
      rw [hserver] at hnodup hdisjoint
      have hbefore := ih ⟨hnodup.of_append_left, hkeys.client, fun k hk =>
        hdisjoint k (List.mem_append_left _ hk)⟩
      rw [hserver, hattempts]
      cases hstep with
      | server cs hstep => exact hbefore.serverStep hstep hnodup hdisjoint
      | client m cs k op =>
          have hnone : serverTxKeys steps ++ (opKeys (.client k op : TunnelOp Buf ι)).map Prod.snd =
              serverTxKeys steps := List.append_nil _
          rw [hnone] at hdisjoint ⊢
          exact hbefore.clientStep hkeys.client hdisjoint

omit [DecidableEq (Buf cryptoSessionKeySize)] in
/-- The sealing of a step is that of its call of `tunnel_packet_encode`. -/
theorem stepSealing_eq (step : TunnelState Buf ι × TunnelOp Buf ι) :
    stepSealing P hosts step = (stepAttempt P hosts step).bind (Attempt.sealing P.host) := by
  obtain ⟨t, op⟩ := step
  cases op with
  | server op => rfl
  | client k op =>
      have hhost : @Attempt.sealing Buf (hosts k) = Attempt.sealing P.host :=
        funext fun a => a.sealing_host (hosts k) P.host
      unfold stepSealing stepAttempt
      dsimp only
      rw [hhost]

omit [DecidableEq (Buf cryptoSessionKeySize)] in
/-- The keys and nonces of the sealings, in terms of the uses. -/
theorem sealings_sublist (steps : List (TunnelState Buf ι × TunnelOp Buf ι)) :
    ((sealings P hosts steps).map fun c => (c.key, c.nonce)).Sublist
      (((attempts P hosts steps).map Attempt.use).map
        (Prod.map id (cryptoBuildNonce P.host))) := by
  induction steps with
  | nil => exact List.Sublist.slnil
  | cons step steps ih =>
      unfold sealings attempts at ih ⊢
      rw [List.filterMap_cons, List.filterMap_cons, stepSealing_eq]
      cases stepAttempt P hosts step with
      | none => exact ih
      | some a =>
          dsimp only [Option.bind_some]
          unfold Attempt.sealing
          by_cases hlen : a.input.plaintext.length > tunnelPacketMaxPlaintext
          · rw [if_pos hlen]
            exact ih.cons _
          · rw [if_neg hlen]
            exact ih.cons_cons _

/-- With distinct keys and no more than 2^64 sends for each of them, no key meets a nonce
twice. -/
theorem TunnelRun.nonces_nodup [DecidableEq ι]
    (hrun : TunnelRun M P hosts identity udpSocket clients steps t)
    (hopened : ∀ k, (clients k).Opened M) (hkeys : DistinctTxKeys steps clients)
    (hsends : ∀ key, (attempts P hosts steps).countP (fun a => a.ctx.txKey = key) ≤ 2 ^ 64) :
    ((sealings P hosts steps).map fun c => (c.key, c.nonce)).Nodup := by
  have htracked := hrun.tracked hopened hkeys
  have huses : ∀ key, uses ((attempts P hosts steps).map Attempt.use) key ≤ 2 ^ 64 := by
    intro key
    unfold uses
    rw [List.countP_map]
    exact hsends key
  have hnodup := htracked.sequential.nodup huses
  have hinjective : Function.Injective
      (Prod.map id (cryptoBuildNonce P.host) : Buf cryptoSessionKeySize × UInt64 → _) :=
    Function.injective_id.prodMap (cryptoBuildNonce_injective P.host)
  exact (hnodup.map hinjective).sublist (sealings_sublist steps)

end Run

section Traffic

open Intruder

abbrev guestPlatform : Platform MsgBuf := copyPlatform MsgBuf

abbrev guestHosts : ℕ → Endian := fun _ => .big

theorem guestTunnel_opened (k : ℕ) : (guestTunnel k).Opened msgMemory :=
  ⟨4, [], identityOf (k + 1), some (keyPublic 0), guestClientCalls k, guestClient k,
    guestClient_exec k, rfl⟩

/-- The keys of a guest's session, towards the server and back. -/
def guestUp (k : ℕ) : MsgBuf cryptoSessionKeySize := (guestTunnel k).session.crypto.txKey

def guestDown (k : ℕ) : MsgBuf cryptoSessionKeySize := (guestTunnel k).session.crypto.rxKey

/-- The keys of all guests differ. -/
theorem guestKeys_injective : Function.Injective (Sum.elim guestUp guestDown) := by
  have hkx : ∀ {half half' : ℕ} {x y x' y' : Msg} {j k : ℕ},
      kxKey half x (ephPublic (2 * j + 1)) y = kxKey half' x' (ephPublic (2 * k + 1)) y' →
      half = half' ∧ j = k := by
    intro half half' x y x' y' j k h
    simp only [kxKey, ephPublic, Term.hash.injEq, Term.pair.injEq, Term.point.injEq,
      Multiset.singleton_inj, Name.scalar.injEq] at h
    omega
  rintro (j | j) (k | k) h
  · rw [(hkx h).2]
  · exact absurd (hkx h).1 (by simp)
  · exact absurd (hkx h).1 (by simp)
  · rw [(hkx h).2]

/-- The packet the first guest reads, packs and sends. -/
def firstRead : Bytes := List.replicate 20 69

def firstPacked : Bytes := tunnelCompressFlagNone :: (List.replicate 4 0 ++ firstRead)

def firstSent : Bytes :=
  beBytes 8 (guestId 0).toNat ++
    (beBytes 8 0 ++ (firstPacked ++ List.replicate tunnelAeadTagSize 0))

/-- The clients after the first guest has sent. -/
def sentClients : ℕ → Client MsgBuf :=
  Function.update guestTunnel 0
    (clientStep (guestPlatform.on .big) msgMemory (guestTunnel 0) (.tunSender firstRead))

/-- The guest connects, sends, and its datagram arrives. -/
def guestTraffic : List (TunnelState MsgBuf ℕ × TunnelOp MsgBuf ℕ) :=
  [(⟨guestManager 0, guestTunnel⟩, .server (.connect .server (guestSocket 0) [] (guestCalls 0))),
    (⟨guestManager 1, guestTunnel⟩, .client 0 (.tunSender firstRead)),
    (⟨guestManager 1, sentClients⟩, .server (.udpListener ⟨9, 9⟩ firstSent))]

def guestTrafficEnd : TunnelState MsgBuf ℕ :=
  ⟨(sessionManagerUdpListener guestPlatform (guestManager 1) ⟨9, 9⟩ firstSent).1, sentClients⟩

theorem guestTraffic_run : TunnelRun msgMemory guestPlatform guestHosts (identityOf 0) 5 guestTunnel
    guestTraffic guestTrafficEnd := by
  have hconnect : TunnelRun msgMemory guestPlatform guestHosts (identityOf 0) 5 guestTunnel _ _ :=
    TunnelRun.of_server guestTunnel (guests_run (show 1 ≤ maxSessions by decide))
  have hsend := hconnect.snoc (TunnelStep.client (guestManager 1) guestTunnel 0
    (.tunSender firstRead))
  exact hsend.snoc (.server sentClients (.udpListener (guestManager 1) ⟨9, 9⟩ firstSent))

theorem guestTraffic_serverKeys : serverKeys guestTraffic = [(guestUp 0, guestDown 0)] := by
  obtain ⟨hrx, htx⟩ := guest_keys 0
  have hderived : serverKeys guestTraffic =
      [((guestSession 0).crypto.rxKey, (guestSession 0).crypto.txKey)] := rfl
  rw [hderived, hrx, htx]
  rfl

theorem guestTraffic_attempts : attempts guestPlatform guestHosts guestTraffic =
    [⟨(guestTunnel 0).session.crypto, guestId 0, 0, firstPacked⟩] := rfl

/-- The datagram is handled under the guest's session. -/
theorem firstSent_target : udpListenerTarget guestPlatform (guestManager 1)
    (firstSent.take tunnelPacketMaxSize) =
      some (⟨0, Nat.zero_lt_succ 1023⟩, (guestSession 0).placedAt 0) :=
  guest_target guestPlatform (by simp [maxSessions]) one_pos (by simp)
    (by simp [firstPacked, firstRead, tunnelAeadTagSize, tunnelPacketMaxSize])

/-- Runs in which only the first guest has connected. -/
theorem distinctTxKeys_of_first {steps : List (TunnelState MsgBuf ℕ × TunnelOp MsgBuf ℕ)}
    (hkeys : serverKeys steps = [(guestUp 0, guestDown 0)]) :
    DistinctTxKeys steps guestTunnel where
  server := by
    rw [serverTxKeys, hkeys]
    exact List.nodup_singleton _
  client j k h := Sum.inl.inj (guestKeys_injective (show Sum.elim guestUp guestDown (.inl j) =
    Sum.elim guestUp guestDown (.inl k) from h))
  disjoint k hk := by
    rw [serverTxKeys, hkeys] at hk
    have he : guestUp k = guestDown 0 := List.mem_singleton.mp hk
    have hsame : Sum.elim guestUp guestDown (.inl k) = Sum.elim guestUp guestDown (.inr 0) := he
    exact Sum.inl_ne_inr (guestKeys_injective hsame)

theorem guestTraffic_keys : DistinctTxKeys guestTraffic guestTunnel :=
  distinctTxKeys_of_first guestTraffic_serverKeys

theorem guestTraffic_sends (key : MsgBuf cryptoSessionKeySize) :
    (attempts guestPlatform guestHosts guestTraffic).countP (fun a => a.ctx.txKey = key) ≤ 1 := by
  rw [guestTraffic_attempts]
  exact List.countP_le_length

/-- A packet from the server's TUN for the first guest. -/
def firstReply : Bytes := List.replicate 19 69 ++ [2]

end Traffic

end Sencd
