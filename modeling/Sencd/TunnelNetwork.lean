import Sencd.ClientEnv
import Sencd.ClientSpec
import Sencd.EventLogs
import Sencd.ServerRun

/-!
# A server and its clients

One server and any number of clients take steps in any order; the network delivers whatever
datagrams it likes. Every call of `tunnel_packet_encode` takes the send counter of its session
and steps it, whether or not the call succeeds, so the counters under one key are 0, 1, 2, …
-/
namespace Sencd
open ByteOrder CallProgram LabelledPath CounterLog

variable {Buf : ℕ → Type} {ι : Type}

structure TunnelState (Buf : ℕ → Type) (ι : Type) where
  manager : SessionManager Buf
  clients : ι → Client Buf

inductive TunnelOp (Buf : ℕ → Type) (ι : Type)
  | server (op : ServerOp Buf)
  | client (k : ι) (op : ClientOp)

/-- A client whose handshake has succeeded and whose UDP tunnel has been set up. -/
def Client.Opened [DecidableEq (Buf cryptoPublicKeySize)] (M : Memory Buf)
    (c : Client Buf) : Prop :=
  ∃ socket ip identity trusted calls s,
    Exec (clientHandshake M socket ip identity trusted) calls (.ret (0, s)) ∧
    c.session = { s with udp := c.session.udp }

variable [DecidableEq ι] (M : Memory Buf) (P : Platform Buf) (hosts : ι → Endian)

/-- The hosts of the server and of its clients may differ in byte order. -/
inductive TunnelStep : TunnelState Buf ι → TunnelOp Buf ι → TunnelState Buf ι → Prop
  | server {m m' : SessionManager Buf} {op : ServerOp Buf} (clients : ι → Client Buf) :
      ServerStep M P m op m' → TunnelStep ⟨m, clients⟩ (.server op) ⟨m', clients⟩
  | client (m : SessionManager Buf) (clients : ι → Client Buf) (k : ι) (op : ClientOp) :
      TunnelStep ⟨m, clients⟩ (.client k op)
        ⟨m, Function.update clients k (clientStep (P.on (hosts k)) M (clients k) op)⟩

/-- The runs of a server that starts with no session and of clients that start tunnelling. -/
abbrev TunnelRun (identity : CryptoContext Buf) (udpSocket : ℤ) (clients : ι → Client Buf) :
    List (TunnelState Buf ι × TunnelOp Buf ι) → TunnelState Buf ι → Prop :=
  Path (TunnelStep M P hosts) ⟨startedManager M identity udpSocket, clients⟩

/-- A run of the server alone is a run beside idle clients. -/
theorem TunnelRun.of_server {M : Memory Buf} {P : Platform Buf} {hosts : ι → Endian}
    {identity : CryptoContext Buf} {udpSocket : ℤ} (clients : ι → Client Buf)
    {steps : List (SessionManager Buf × ServerOp Buf)} {m : SessionManager Buf}
    (h : ServerRun M P identity udpSocket steps m) :
    TunnelRun M P hosts identity udpSocket clients
      (steps.map fun step => (⟨step.1, clients⟩, .server step.2)) ⟨m, clients⟩ := by
  induction h with
  | nil => exact .nil
  | snoc _ hstep ih =>
      rw [List.map_append]
      exact .snoc ih (.server clients hstep)

theorem TunnelStep.unique {M : Memory Buf} {P : Platform Buf} {hosts : ι → Endian}
    {t t₁ t₂ : TunnelState Buf ι} {op : TunnelOp Buf ι} (h : TunnelStep M P hosts t op t₁)
    (h' : TunnelStep M P hosts t op t₂) : t₁ = t₂ := by
  cases h with
  | server clients hstep =>
      cases h' with
      | server _ hstep' => rw [hstep.unique hstep']
  | client m clients k op =>
      cases h'
      rfl

section Attempt

/-- The arguments of a call of `tunnel_packet_encode`. -/
structure Attempt (Buf : ℕ → Type) where
  ctx : CryptoContext Buf
  input : TunnelPacketEncode

/-- The call a server step makes, if it makes one. -/
def serverAttempt (m : SessionManager Buf) : ServerOp Buf → Option (Attempt Buf)
  | .tunSender packet => (tunSenderTarget P m packet).map fun target =>
      ⟨target.2.2.crypto, target.2.2.sessionId, target.2.2.crypto.txNonce, target.1⟩
  | _ => none

/-- The call a client step makes, if it makes one. -/
def clientAttempt (c : Client Buf) : ClientOp → Option (Attempt Buf)
  | .tunSender packet =>
    let raw := packet.take tunnelPacketMaxPlaintext
    let compressed := tunnelPipelineCompress P raw tunnelPacketMaxPlaintext
    if ¬ c.connected ∨ raw = [] ∨ compressed = [] then none
    else some ⟨c.session.crypto, c.session.sessionId, c.session.crypto.txNonce, compressed⟩
  | _ => none

def stepAttempt : TunnelState Buf ι × TunnelOp Buf ι → Option (Attempt Buf)
  | (t, .server op) => serverAttempt P t.manager op
  | (t, .client k op) => clientAttempt (P.on (hosts k)) (t.clients k) op

/-- The calls of `tunnel_packet_encode` in a run, in order. -/
def attempts (steps : List (TunnelState Buf ι × TunnelOp Buf ι)) : List (Attempt Buf) :=
  steps.filterMap (stepAttempt P hosts)

/-- The key and the counter a call uses. -/
def Attempt.use (a : Attempt Buf) : Buf cryptoSessionKeySize × UInt64 :=
  (a.ctx.txKey, a.input.counter)

variable {P} {m m' : SessionManager Buf} {c : Client Buf}

omit [DecidableEq ι] in
/-- The call of `tunnel_packet_encode` in a turn of the server's sender. -/
theorem stepAttempt_tunSender {hosts : ι → Endian} {packet compressed : Bytes}
    {i : Fin maxSessions} {s : Session Buf} (cs : ι → Client Buf)
    (h : tunSenderTarget P m packet = some (compressed, i, s)) :
    stepAttempt P hosts (⟨m, cs⟩, .server (.tunSender packet)) =
      some ⟨s.crypto, s.sessionId, s.crypto.txNonce, compressed⟩ := by
  have hattempt : stepAttempt P hosts (⟨m, cs⟩, .server (.tunSender packet)) =
      (tunSenderTarget P m packet).map fun target =>
        ⟨target.2.2.crypto, target.2.2.sessionId, target.2.2.crypto.txNonce, target.1⟩ := rfl
  rw [hattempt, h]
  rfl

/-- A client makes no call when its turn is idle. -/
theorem clientAttempt_eq_none {packet : Bytes} :
    clientAttempt P c (.tunSender packet) = none ↔
      ¬ c.connected ∨ packet.take tunnelPacketMaxPlaintext = [] ∨
      tunnelPipelineCompress P (packet.take tunnelPacketMaxPlaintext)
        tunnelPacketMaxPlaintext = [] := by
  unfold clientAttempt
  dsimp only
  by_cases hidle : ¬ c.connected ∨ packet.take tunnelPacketMaxPlaintext = [] ∨
      tunnelPipelineCompress P (packet.take tunnelPacketMaxPlaintext)
        tunnelPacketMaxPlaintext = []
  · exact iff_of_true (if_pos hidle) hidle
  · rw [if_neg hidle]
    exact iff_of_false (Option.some_ne_none _) hidle

theorem clientAttempt_eq_some {packet : Bytes} {a : Attempt Buf} :
    clientAttempt P c (.tunSender packet) = some a ↔ c.connected ∧
      packet.take tunnelPacketMaxPlaintext ≠ [] ∧
      tunnelPipelineCompress P (packet.take tunnelPacketMaxPlaintext)
        tunnelPacketMaxPlaintext ≠ [] ∧
      a = ⟨c.session.crypto, c.session.sessionId, c.session.crypto.txNonce,
        tunnelPipelineCompress P (packet.take tunnelPacketMaxPlaintext)
          tunnelPacketMaxPlaintext⟩ := by
  unfold clientAttempt
  dsimp only
  by_cases hidle : ¬ c.connected ∨ packet.take tunnelPacketMaxPlaintext = [] ∨
      tunnelPipelineCompress P (packet.take tunnelPacketMaxPlaintext)
        tunnelPacketMaxPlaintext = []
  · rw [if_pos hidle]
    apply iff_of_false (by simp)
    rintro ⟨hc, hraw, hpacked, -⟩
    obtain h | h | h := hidle
    · exact h hc
    · exact hraw h
    · exact hpacked h
  · rw [if_neg hidle]
    simp only [not_or, not_not] at hidle
    refine ⟨fun h => ⟨hidle.1, hidle.2.1, hidle.2.2, (Option.some.inj h).symm⟩, fun h => ?_⟩
    rw [h.2.2.2]

/-- What a client sends is what its call of `tunnel_packet_encode` returns. -/
theorem clientAttempt_encode (packet : Bytes) :
    (clientTunSender P c packet).2 =
      (clientAttempt P c (.tunSender packet)).bind fun a => tunnelPacketEncode P a.input a.ctx := by
  cases hattempt : clientAttempt P c (.tunSender packet) with
  | none =>
      rw [clientTunSender_idle (clientAttempt_eq_none.mp hattempt)]
      rfl
  | some a =>
      obtain ⟨hc, hraw, hpacked, rfl⟩ := clientAttempt_eq_some.mp hattempt
      rw [clientTunSender_packed hc hraw hpacked]
      rfl

/-- The counter of a client steps with each of its calls. -/
theorem clientTunSender_counted {packet : Bytes} {a : Attempt Buf}
    (h : clientAttempt P c (.tunSender packet) = some a) :
    (clientTunSender P c packet).1 = { c with session := c.session.counted } := by
  obtain ⟨hc, hraw, hpacked, -⟩ := clientAttempt_eq_some.mp h
  rw [clientTunSender_packed hc hraw hpacked]
  rfl

end Attempt

section Keys

/-- The session keys derived in the calls of a handshake. -/
def derivedKeys (calls : Calls Buf) : List (Buf cryptoSessionKeySize × Buf cryptoSessionKeySize) :=
  calls.filterMap fun
    | ⟨.cryptoKxServerSessionKeys _ _ _, answer⟩ => answer
    | _ => none

def opKeys : TunnelOp Buf ι → List (Buf cryptoSessionKeySize × Buf cryptoSessionKeySize)
  | .server (.connect _ _ _ calls) => derivedKeys calls
  | _ => []

/-- The session keys, `rx` and `tx`, the server has derived in the handshakes of a run. -/
def serverKeys (steps : List (TunnelState Buf ι × TunnelOp Buf ι)) :
    List (Buf cryptoSessionKeySize × Buf cryptoSessionKeySize) :=
  steps.flatMap fun step => opKeys step.2

/-- The keys under which the server sends. -/
def serverTxKeys (steps : List (TunnelState Buf ι × TunnelOp Buf ι)) :
    List (Buf cryptoSessionKeySize) :=
  (serverKeys steps).map Prod.snd

variable {M P} {m m' : SessionManager Buf}

/-- A connection adds at most one session, with derived keys and its counter at zero. -/
theorem ServerStep.connect_cases {role : SessionRole} {socket : ℤ} {ip : List Char}
    {calls : Calls Buf} (h : ServerStep M P m (.connect role socket ip calls) m') :
    m' = m ∨ ∃ i s, SlotTable.free m.sessions = some i ∧ m' = m.stored i s ∧
      s.crypto.txNonce = 0 ∧ (s.crypto.rxKey, s.crypto.txKey) ∈ derivedKeys calls := by
  obtain he | ⟨i, s, hfree, he, hs⟩ := h.connect_establishes
  · exact .inl he
  · obtain ⟨r, hverified⟩ := hs.established.response
    exact .inr ⟨i, _, hfree, he, hs.counter, List.mem_filterMap.mpr ⟨_, hverified.derived, rfl⟩⟩

/-- A step that is no connection leaves the keys of the sessions that stay. -/
theorem ServerStep.kept {op : ServerOp Buf} (h : ServerStep M P m op m')
    (hop : ∀ role socket ip calls, op ≠ .connect role socket ip calls)
    {i : Fin maxSessions} {s : Session Buf} (hs : m'.sessions i = some s) :
    ∃ t, m.sessions i = some t ∧ s.crypto.rxKey = t.crypto.rxKey ∧
      s.crypto.txKey = t.crypto.txKey := by
  have hslot := h.slot M P i
  rw [hs] at hslot
  generalize he : some s = e at hslot
  cases hslot with
  | keep => exact ⟨s, he.symm, rfl, rfl⟩
  | free _ => contradiction
  | add _ _ => exact absurd rfl (hop _ _ _ _)
  | peer _ htarget =>
      obtain rfl := Option.some.inj he
      exact ⟨_, mem_of_udpListenerTarget P htarget, rfl, rfl⟩
  | count htarget =>
      obtain rfl := Option.some.inj he
      exact ⟨_, mem_of_tunSenderTarget P htarget, rfl, rfl⟩

/-- A step that neither connects nor sends leaves the crypto contexts as they are. -/
theorem ServerStep.kept_crypto {op : ServerOp Buf} (h : ServerStep M P m op m')
    (hconnect : ∀ role socket ip calls, op ≠ .connect role socket ip calls)
    (hsend : ∀ packet, op ≠ .tunSender packet)
    {i : Fin maxSessions} {s : Session Buf} (hs : m'.sessions i = some s) :
    ∃ t, m.sessions i = some t ∧ s.crypto = t.crypto := by
  have hslot := h.slot M P i
  rw [hs] at hslot
  generalize he : some s = e at hslot
  cases hslot with
  | keep => exact ⟨s, he.symm, rfl⟩
  | free _ => contradiction
  | add _ _ => exact absurd rfl (hconnect _ _ _ _)
  | peer _ htarget =>
      obtain rfl := Option.some.inj he
      exact ⟨_, mem_of_udpListenerTarget P htarget, rfl⟩
  | count _ => exact absurd rfl (hsend _)

end Keys

end Sencd
