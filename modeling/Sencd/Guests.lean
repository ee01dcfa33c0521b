import Sencd.ClientEnv
import Sencd.HandshakeCompletion
import Sencd.HandshakeNetwork

/-!
# Honest clients in a row

A server with key 0 to which clients with keys 1, 2, … connect one after the other, each with
nonces and ephemeral keys of its own. No datagram has arrived yet.
-/
namespace Sencd
open ByteOrder CallProgram LabelledPath

/-- The honest server's part in the handshake with the client that has key `k + 1`. -/
def guestServerAnswers (k : ℕ) : ServerAnswers MsgBuf where
  nonce := .name (.nonce (2 * k))
  ephPublicKey := ephPublic (2 * k)
  ephPrivateKey := .name (.scalar (2 * k))
  signature := .sign (.name (.key 0))
    (signBuf msgMemory (.name (.nonce (2 * k))) (ephPublic (2 * k)))
  response := AuthResponse.toBuf msgMemory ⟨.sign (.name (.key (k + 1)))
    (signBuf msgMemory (.name (.nonce (2 * k))) (ephPublic (2 * k + 1))), keyPublic (k + 1),
    ephPublic (2 * k + 1)⟩
  rxKey := kxKey 1 ((ephPublic (2 * k + 1)).scale (.scalar (2 * k))) (ephPublic (2 * k + 1))
    (ephPublic (2 * k))
  txKey := kxKey 0 ((ephPublic (2 * k + 1)).scale (.scalar (2 * k))) (ephPublic (2 * k + 1))
    (ephPublic (2 * k))
  sessionNonce := .name (.nonce (2 * k + 1))

/-- The client's part. -/
def guestClientAnswers (k : ℕ) (id : UInt64) : ClientAnswers MsgBuf where
  challenge := AuthChallenge.toBuf msgMemory ⟨.sign (.name (.key 0))
    (signBuf msgMemory (.name (.nonce (2 * k))) (ephPublic (2 * k))), keyPublic 0,
    ephPublic (2 * k), .name (.nonce (2 * k))⟩
  ephPublicKey := ephPublic (2 * k + 1)
  ephPrivateKey := .name (.scalar (2 * k + 1))
  rxKey := kxKey 0 ((ephPublic (2 * k)).scale (.scalar (2 * k + 1))) (ephPublic (2 * k + 1))
    (ephPublic (2 * k))
  txKey := kxKey 1 ((ephPublic (2 * k)).scale (.scalar (2 * k + 1))) (ephPublic (2 * k + 1))
    (ephPublic (2 * k))
  signature := .sign (.name (.key (k + 1)))
    (signBuf msgMemory (.name (.nonce (2 * k))) (ephPublic (2 * k + 1)))
  success := AuthSuccess.toBuf msgMemory ⟨.name (.nonce (2 * k + 1)), id⟩

/-- The client before its handshake, with the server's key pinned. -/
def guestStart (k : ℕ) : Session MsgBuf :=
  { sessionCreated msgMemory .client 4 [] (identityOf (k + 1)) 0 with
    trustedPeerKey := keyPublic 0
    hasTrustedPeerKey := true }

def guestSocket (k : ℕ) : ℤ := k + 6

def guestId (k : ℕ) : UInt64 := UInt64.ofNat (k + 1)

/-- The server's calls until the table is looked at. -/
def guestCalls (k : ℕ) : Calls MsgBuf :=
  connectCalls msgMemory (identityOf 0) (guestSocket k) (guestId k) (guestServerAnswers k)

/-- The server's session. -/
def guestSession (k : ℕ) : Session MsgBuf :=
  connectedSession msgMemory (identityOf 0) (guestSocket k) (guestId k) (guestServerAnswers k)

/-- The client's session. -/
def guestClient (k : ℕ) : Session MsgBuf :=
  clientFinal msgMemory (guestStart k) (guestClientAnswers k (guestId k))

/-- The client's calls. -/
def guestClientCalls (k : ℕ) : Calls MsgBuf :=
  ⟨.generateSessionId, 0⟩ ::
    (clientOpening msgMemory (guestStart k) (guestClientAnswers k (guestId k)) ++
      clientClosing (guestStart k) (guestClientAnswers k (guestId k)))

theorem guestClient_exec (k : ℕ) :
    Exec (clientHandshake msgMemory 4 [] (identityOf (k + 1)) (some (keyPublic 0)))
      (guestClientCalls k) (.ret (0, guestClient k)) :=
  .cons (sessionClientConnect_exec msgMemory (guestStart k) (guestClientAnswers k (guestId k))
    rfl rfl)

abbrev guestManager (k : ℕ) : SessionManager MsgBuf :=
  (startedManager msgMemory (identityOf 0) 5).filled guestSession k

theorem guestManager_identity (k : ℕ) : (guestManager k).identity = identityOf 0 :=
  startedManager_identity msgMemory (identityOf 0) 5

theorem guestManager_socket (k : ℕ) : 0 ≤ (guestManager k).udpSocket := by
  have hsocket : (guestManager k).udpSocket = 5 :=
    startedManager_udpSocket msgMemory (identityOf 0) 5
  omega

theorem guestManager_tun (k : ℕ) : (guestManager k).tun = true :=
  startedManager_tun msgMemory (identityOf 0) 5

/-- The first `n` connections, all of which complete. -/
def guests (n : ℕ) : List (SessionManager MsgBuf × ServerOp MsgBuf) :=
  (List.range n).map fun k => (guestManager k, .connect .server (guestSocket k) [] (guestCalls k))

theorem guests_run {n : ℕ} (h : n ≤ maxSessions) :
    ServerRun msgMemory (copyPlatform MsgBuf) (identityOf 0) 5 (guests n) (guestManager n) := by
  refine Path.of_chain (s := guestManager) fun k hk => ?_
  have hlt : k < maxSessions := by omega
  have hfree : SlotTable.free (guestManager k).sessions = some ⟨k, hlt⟩ :=
    SessionManager.free_filled hlt
  have hstored : (guestManager k).stored ⟨k, hlt⟩ ((guestSession k).placedAt k) =
      guestManager (k + 1) := SessionManager.stored_filled guestSession hlt
  have hstep := connect_step msgMemory (copyPlatform MsgBuf) (guestSocket k) (guestId k)
    (guestServerAnswers k) hfree
  rw [guestManager_identity] at hstep
  rw [← hstored]
  exact hstep

/-- Ids of different guests differ. -/
theorem guestId_injective {j k : ℕ} (hj : j ≤ maxSessions) (hk : k ≤ maxSessions)
    (h : guestId j = guestId k) : j = k := by
  have hnat := congrArg UInt64.toNat h
  simp only [maxSessions] at hj hk
  simp only [guestId, UInt64.toNat_ofNat'] at hnat
  omega

/-- Datagrams that carry a guest's session id are handled under its session. -/
theorem guest_target (P : Platform MsgBuf) {n k : ℕ} (hn : n ≤ maxSessions) (hk : k < n)
    {rest : Bytes} (hrest : 8 ≤ rest.length) (hlen : rest.length ≤ tunnelPacketMaxSize - 8) :
    udpListenerTarget P (guestManager n)
      ((beBytes 8 (guestId k).toNat ++ rest).take tunnelPacketMaxSize) =
      some (⟨k, hk.trans_le hn⟩, (guestSession k).placedAt k) := by
  have htake : (beBytes 8 (guestId k).toNat ++ rest).take tunnelPacketMaxSize =
      beBytes 8 (guestId k).toNat ++ rest := by
    apply List.take_of_length_le
    simp only [tunnelPacketMaxSize] at hlen
    simp only [List.length_append, beBytes_length, tunnelPacketMaxSize]
    omega
  rw [htake, udpListenerTarget, tunnelPacketPeekSessionId_append P (guestId k) hrest]
  refine SlotTable.find_eq_some.mpr ⟨SessionManager.filled_of_lt hk, ?_, fun j hj s hs => ?_⟩
  · exact decide_eq_true rfl
  · have hjk : j.val < k := hj
    rw [SessionManager.filled_of_lt (by omega)] at hs
    obtain rfl := Option.some.inj hs
    refine decide_eq_false fun hid => ?_
    have hsame := guestId_injective (by omega) (by omega) (show guestId j = guestId k from hid)
    omega

/-- A guest once its UDP tunnel is open. -/
def guestTunnel (k : ℕ) : Client MsgBuf where
  session := { guestClient k with
    udp := { (guestClient k).udp with socket := 7, peerKnown := true } }
  tun := true

theorem guestTunnel_sessionId (k : ℕ) : (guestTunnel k).session.sessionId = guestId k := by
  simp [guestTunnel, guestClient, clientFinal, guestClientAnswers]

theorem guestTunnel_connected (k : ℕ) : (guestTunnel k).connected :=
  ⟨rfl, show (0 : ℤ) ≤ 7 by omega⟩

/-- The two ends of a guest's tunnel have each other's keys. -/
theorem guest_keys (k : ℕ) : (guestSession k).crypto.rxKey = (guestTunnel k).session.crypto.txKey ∧
    (guestSession k).crypto.txKey = (guestTunnel k).session.crypto.rxKey := by
  have hcomm := ephPublic_scale_comm (2 * k + 1) (2 * k)
  constructor
  · exact congrArg (fun shared => kxKey 1 shared (ephPublic (2 * k + 1)) (ephPublic (2 * k))) hcomm
  · exact congrArg (fun shared => kxKey 0 shared (ephPublic (2 * k + 1)) (ephPublic (2 * k))) hcomm

end Sencd
