import Sencd.ClientSpec
import Sencd.Interleaving
import Sencd.Intruder

/-!
# The handshake on a network an intruder controls

Any number of servers and clients run the programs of `session.c` over symbolic messages. The
intruder sees every frame that is sent, chooses every frame that is received, and has keys of
its own. Signatures, key exchange and key derivation are ideal. A nonce or ephemeral secret
is named by its position in the log, which makes it fresh.
-/
namespace Sencd
open CallProgram Interleaving Intruder

/-- Atomic names: identity keys, the intruder's secrets, nonces and ephemeral secrets. -/
inductive Name
  | key (i : ℕ)
  | intruder (i : ℕ)
  | nonce (i : ℕ)
  | scalar (i : ℕ)
  deriving DecidableEq

abbrev Msg := Term Name

/-- Arrays of every size hold symbolic messages. -/
abbrev MsgBuf : ℕ → Type := fun _ => Msg

def msgMemory : Memory MsgBuf where
  zero _ := .num 0
  append := .pair
  left _ _ := Term.fst
  right _ _ := Term.snd
  ofUInt64 x := .num x.toNat
  toUInt64
    | .num n => .ofNat n
    | _ => 0
  left_append _ _ := rfl
  right_append _ _ := rfl
  toUInt64_ofUInt64 x := by simp

/-- The public half of an identity key. -/
def keyPublic (i : ℕ) : Msg := .verifyKey (.name (.key i))

/-- The public half of an ephemeral secret; 9 is the base point. -/
def ephPublic (i : ℕ) : Msg := .point (.num 9) {.scalar i}

/-- Both ends of a key exchange arrive at one point. -/
theorem ephPublic_scale_comm (i j : ℕ) :
    (ephPublic i).scale (.scalar j) = (ephPublic j).scale (.scalar i) := by
  simp only [ephPublic, Term.scale_point, Term.point.injEq, true_and]
  exact Multiset.pair_comm _ _

theorem ephPublic_injective {i j : ℕ} (h : ephPublic i = ephPublic j) : i = j := by
  simpa [ephPublic] using h

def identityOf (i : ℕ) : CryptoContext MsgBuf :=
  { cryptoContextInit msgMemory with publicKey := keyPublic i, privateKey := .name (.key i) }

/-- One half of the hash of the shared point and both ephemeral keys. -/
def kxKey (half : ℕ) (shared clientPk serverPk : Msg) : Msg :=
  .hash half (.pair shared (.pair clientPk serverPk))

/-- One run of a handshake by an honest party. -/
structure Agent where
  role : SessionRole
  key : ℕ
  trusted : Option Msg
  socket : ℤ
  ip : List Char

def Agent.program (a : Agent) : Handshake MsgBuf (ℕ × Session MsgBuf) :=
  match a.role with
  | .server => serverHandshake msgMemory a.socket a.ip (identityOf a.key)
  | .client => clientHandshake msgMemory a.socket a.ip (identityOf a.key) a.trusted

/-- What the intruder has: its own secrets, all public keys, and every payload sent so far. -/
inductive Known (log : Log (@Call.Answer MsgBuf)) : Msg → Prop
  | secret (i : ℕ) : Known log (.name (.intruder i))
  | publicKey (i : ℕ) : Known log (keyPublic i)
  | sent {t : ℕ} {socket : ℤ} {packet : Packet MsgBuf} {ok : Bool} {payload : Payload MsgBuf} :
      (t, ⟨.packetSend socket packet, ok⟩) ∈ log → packet.payload = some payload →
      Known log payload.data

/-- How the environment may answer after `log`. -/
def Admissible (log : Log (@Call.Answer MsgBuf)) : Event (@Call.Answer MsgBuf) → Prop
  | ⟨.packetReceive _, answer⟩ => ∀ packet payload, answer = some packet →
      packet.payload = some payload → Derives {m | Known log m} payload.data
  | ⟨.randombytesBuf _, answer⟩ => answer = Term.name (.nonce log.length)
  | ⟨.cryptoKxKeypair, answer⟩ =>
      answer = none ∨ answer = some (ephPublic log.length, .name (.scalar log.length))
  | ⟨.cryptoSignDetached message privateKey, answer⟩ =>
      answer = none ∨ answer = some (.sign privateKey message)
  | ⟨.cryptoSignVerifyDetached signature message publicKey, answer⟩ =>
      answer = true ↔ Term.Verifies publicKey message signature
  | ⟨.cryptoKxServerSessionKeys serverPk serverSk clientPk, answer⟩ => answer = none ∨
      ∃ a, serverSk = .name a ∧ answer = some (kxKey 1 (clientPk.scale a) clientPk serverPk,
        kxKey 0 (clientPk.scale a) clientPk serverPk)
  | ⟨.cryptoKxClientSessionKeys clientPk clientSk serverPk, answer⟩ => answer = none ∨
      ∃ a, clientSk = .name a ∧ answer = some (kxKey 0 (serverPk.scale a) clientPk serverPk,
        kxKey 1 (serverPk.scale a) clientPk serverPk)
  | _ => True

/-- Runs of the parties `S` against the intruder. -/
abbrev NetworkRun (S : ℕ → Agent) (log : Log (@Call.Answer MsgBuf)) : Prop :=
  Run (fun t => (S t).program) Admissible log

namespace NetworkRun

variable {S : ℕ → Agent} {log : Log (@Call.Answer MsgBuf)} {t t' : ℕ}

theorem nonce (h : NetworkRun S log) {n : ℕ} {x : Msg}
    (hm : (t, ⟨.randombytesBuf n, x⟩) ∈ log) : ∃ i, x = .name (.nonce i) := by
  obtain ⟨before, after, -, -, -, ha⟩ := h.step hm
  exact ⟨before.length, ha⟩

theorem ephemeral (h : NetworkRun S log) {pk sk : Msg}
    (hm : (t, ⟨.cryptoKxKeypair, some (pk, sk)⟩) ∈ log) :
    ∃ i, pk = ephPublic i ∧ sk = .name (.scalar i) := by
  obtain ⟨before, after, -, -, -, ha⟩ := h.step hm
  simp only [Admissible, reduceCtorEq, Option.some.injEq, Prod.mk.injEq, false_or] at ha
  exact ⟨before.length, ha⟩

theorem signature (h : NetworkRun S log) {m sk σ : Msg}
    (hm : (t, ⟨.cryptoSignDetached m sk, some σ⟩) ∈ log) : σ = .sign sk m := by
  obtain ⟨before, after, -, -, -, ha⟩ := h.step hm
  simpa [Admissible] using ha

theorem verifies (h : NetworkRun S log) {m pk σ : Msg}
    (hm : (t, ⟨.cryptoSignVerifyDetached σ m pk, true⟩) ∈ log) : Term.Verifies pk m σ := by
  obtain ⟨before, after, -, -, -, ha⟩ := h.step hm
  simpa [Admissible] using ha

theorem serverKeys (h : NetworkRun S log) {pk clientPk rx tx : Msg} {a : Name}
    (hm : (t, ⟨.cryptoKxServerSessionKeys pk (.name a) clientPk, some (rx, tx)⟩) ∈ log) :
    rx = kxKey 1 (clientPk.scale a) clientPk pk ∧ tx = kxKey 0 (clientPk.scale a) clientPk pk := by
  obtain ⟨before, after, -, -, -, ha⟩ := h.step hm
  simpa [Admissible] using ha

theorem clientKeys (h : NetworkRun S log) {pk serverPk rx tx : Msg} {a : Name}
    (hm : (t, ⟨.cryptoKxClientSessionKeys pk (.name a) serverPk, some (rx, tx)⟩) ∈ log) :
    rx = kxKey 0 (serverPk.scale a) pk serverPk ∧ tx = kxKey 1 (serverPk.scale a) pk serverPk := by
  obtain ⟨before, after, -, -, -, ha⟩ := h.step hm
  simpa [Admissible] using ha

/-- A nonce was drawn by one party only. -/
theorem nonce_owner (h : NetworkRun S log) {n n' : ℕ} {x : Msg}
    (hm : (t, ⟨.randombytesBuf n, x⟩) ∈ log) (hm' : (t', ⟨.randombytesBuf n', x⟩) ∈ log) :
    t = t' := by
  refine (h.position_unique hm hm' fun before before' ha ha' => ?_).1
  have hx : x = .name (.nonce before.length) := ha
  have hx' : x = .name (.nonce before'.length) := ha'
  simpa using hx.symm.trans hx'

/-- An ephemeral key was generated by one party only. -/
theorem ephemeral_owner (h : NetworkRun S log) {pk sk sk' : Msg}
    (hm : (t, ⟨.cryptoKxKeypair, some (pk, sk)⟩) ∈ log)
    (hm' : (t', ⟨.cryptoKxKeypair, some (pk, sk')⟩) ∈ log) : t = t' := by
  refine (h.position_unique hm hm' fun before before' ha ha' => ?_).1
  simp only [Admissible, reduceCtorEq, Option.some.injEq, Prod.mk.injEq, false_or] at ha ha'
  have hpk := ha.1.symm.trans ha'.1
  simpa [ephPublic] using hpk

/-- What the parties have done when they make a call, read off the whole log. -/
theorem serverSite (h : NetworkRun S log) (hrole : (S t).role = .server)
    {e : Event (@Call.Answer MsgBuf)} (hm : (t, e) ∈ log) :
    ServerSite msgMemory (identityOf (S t).key) (view log t) e.1 := by
  have hp : (S t).program =
      serverHandshake msgMemory (S t).socket (S t).ip (identityOf (S t).key) := by
    rw [Agent.program, hrole]
  obtain ⟨before, hsub, hsite⟩ := h.site (hp ▸ serverHandshake_holds msgMemory _ _) hm
  exact hsite.mono msgMemory (view_mono hsub)

theorem clientSite (h : NetworkRun S log) (hrole : (S t).role = .client)
    {e : Event (@Call.Answer MsgBuf)} (hm : (t, e) ∈ log) :
    ClientSite msgMemory (identityOf (S t).key) (S t).trusted (view log t) e.1 := by
  have hp : (S t).program =
      clientHandshake msgMemory (S t).socket (S t).ip (identityOf (S t).key) (S t).trusted := by
    rw [Agent.program, hrole]
  obtain ⟨before, hsub, hsite⟩ := h.site (hp ▸ clientHandshake_holds msgMemory _ _) hm
  exact hsite.mono msgMemory (view_mono hsub)

/-- Every party signs at most once. -/
theorem signed_once (h : NetworkRun S log) {m m' sk sk' : Msg} {σ σ' : Option Msg}
    (hm : (t, ⟨.cryptoSignDetached m sk, σ⟩) ∈ log)
    (hm' : (t, ⟨.cryptoSignDetached m' sk', σ'⟩) ∈ log) : m = m' := by
  have hp : AtMost signWeight 1 (S t).program := by
    unfold Agent.program
    cases (S t).role with
    | server => exact serverHandshake_atMost msgMemory _ _
    | client => exact clientHandshake_atMost msgMemory _ _
  have he := h.unique hp hm hm' Nat.one_pos Nat.one_pos
  exact (Call.cryptoSignDetached.inj (congrArg Sigma.fst he)).1

end NetworkRun

end Sencd
