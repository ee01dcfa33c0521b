import Sencd.HandshakeCompletion
import Sencd.WireHandshake

/-!
# Two honest ends

A client and a server whose sockets are joined run their handshakes to the end, whatever the
order of their steps and the cuts of their transfers. The client's part is followed through its
hello, the challenge it answers and the announcement; the server's through its two halves.
-/
namespace Sencd
open ByteOrder CallProgram StreamNetwork

variable {host host' : Endian} {S : Sodium} {C D : Device} {c s : Session ByteBuf}
  {idC idS : CryptoContext ByteBuf} {trusted : Option (ByteBuf cryptoPublicKeySize)}

/-- The challenge of a server on device `D`. -/
def honestChallenge (S : Sodium) (D : Device) (idS : CryptoContext ByteBuf) :
    AuthChallenge ByteBuf :=
  ⟨S.sign (signBuf (byteMemory .big) (D.random _) D.ephPublicKey) idS.privateKey, idS.publicKey,
    D.ephPublicKey, D.random _⟩

/-- The response of a client on device `C` to it. -/
def honestResponse (S : Sodium) (C D : Device) (idC : CryptoContext ByteBuf) :
    AuthResponse ByteBuf :=
  ⟨S.sign (signBuf (byteMemory .big) (D.random _) C.ephPublicKey) idC.privateKey, idC.publicKey,
    C.ephPublicKey⟩

/-- The server's part, when it derives `rx` and `tx`. -/
def honestServer (S : Sodium) (C D : Device) (idC idS : CryptoContext ByteBuf)
    (rx tx : ByteBuf cryptoSessionKeySize) : ServerAnswers ByteBuf where
  nonce := D.random _
  ephPublicKey := D.ephPublicKey
  ephPrivateKey := D.ephPrivateKey
  signature := (honestChallenge S D idS).signature
  response := (honestResponse S C D idC).toBuf (byteMemory .big)
  rxKey := rx
  txKey := tx
  sessionNonce := D.random _

/-- The client's part, when it derives `rx` and `tx` and is told the session id by `host`. -/
def honestClient (host : Endian) (S : Sodium) (C D : Device) (idC idS : CryptoContext ByteBuf)
    (id : UInt64) (rx tx : ByteBuf cryptoSessionKeySize) : ClientAnswers ByteBuf where
  challenge := (honestChallenge S D idS).toBuf (byteMemory .big)
  ephPublicKey := C.ephPublicKey
  ephPrivateKey := C.ephPrivateKey
  rxKey := rx
  txKey := tx
  signature := (honestResponse S C D idC).signature
  success := AuthSuccess.toBuf (byteMemory host) ⟨D.random _, id⟩

theorem honestChallenge_ofBuf (host : Endian) :
    AuthChallenge.ofBuf (byteMemory host) ((honestChallenge S D idS).toBuf (byteMemory .big)) =
      honestChallenge S D idS :=
  AuthChallenge.ofBuf_toBuf (byteMemory .big) _

theorem honestResponse_ofBuf (host : Endian) :
    AuthResponse.ofBuf (byteMemory host) ((honestResponse S C D idC).toBuf (byteMemory .big)) =
      honestResponse S C D idC :=
  AuthResponse.ofBuf_toBuf (byteMemory .big) _

/-- `AUTH_SUCCESS_T` holds the session id as it is stored in memory. -/
theorem success_ofBuf (host host' : Endian) (a : AuthSuccess ByteBuf) :
    AuthSuccess.ofBuf (byteMemory host) (a.toBuf (byteMemory host')) =
      ⟨a.sessionNonce, (byteMemory host).toUInt64 ((byteMemory host').ofUInt64 a.sessionId)⟩ := by
  have hleft := (byteMemory host').left_append a.sessionNonce
    ((byteMemory host').ofUInt64 a.sessionId)
  have hright := (byteMemory host').right_append a.sessionNonce
    ((byteMemory host').ofUInt64 a.sessionId)
  calc AuthSuccess.ofBuf (byteMemory host) (a.toBuf (byteMemory host'))
      = ⟨(byteMemory host').left _ _ (a.toBuf (byteMemory host')),
          (byteMemory host).toUInt64
            ((byteMemory host').right sessionNonceSize 8 (a.toBuf (byteMemory host')))⟩ := rfl
    _ = _ := by rw [AuthSuccess.toBuf, hleft, hright]

theorem serverOpening_granted (hs : Fresh idS none s) (rx tx : ByteBuf cryptoSessionKeySize) :
    ∀ e ∈ serverOpening (byteMemory host) s (honestServer S C D idC idS rx tx), Granted S D e := by
  simp only [serverOpening, List.forall_mem_cons, List.not_mem_nil, false_imp_iff, imp_true_iff,
    and_true]
  refine ⟨⟨_, rfl, valid_hello⟩, ⟨rfl, Nat.zero_le _⟩, rfl, rfl, ?_, rfl, rfl, ?_⟩
  · rw [hs.privateKey]
    rfl
  · show sizeofAuthChallenge ≤ maxPacketSize
    decide

theorem serverClosing_granted (hS : S.Lawful)
    (hidC : S.signPair idC.publicKey idC.privateKey) {rx tx : ByteBuf cryptoSessionKeySize}
    (hkeys : S.serverKeys D.ephPublicKey D.ephPrivateKey C.ephPublicKey = some (rx, tx)) :
    ∀ e ∈ serverClosing (byteMemory host) s (honestServer S C D idC idS rx tx), Granted S D e := by
  have hresponse : AuthResponse.ofBuf (byteMemory host)
      (honestServer S C D idC idS rx tx).response = honestResponse S C D idC :=
    honestResponse_ofBuf host
  simp only [serverClosing, List.forall_mem_cons, List.not_mem_nil, false_imp_iff, imp_true_iff,
    and_true]
  rw [hresponse]
  refine ⟨⟨_, rfl, valid_message _ (by decide) (by decide)⟩, ?_, hkeys.symm, rfl, rfl, rfl, ?_⟩
  · exact (hS.verify_sign hidC _).symm
  · show sizeofAuthSuccess ≤ maxPacketSize
    decide

theorem clientReading_granted (id : UInt64) (rx tx : ByteBuf cryptoSessionKeySize) :
    ∀ e ∈ clientReading (byteMemory host) c (honestClient host' S C D idC idS id rx tx)
      C.configPath C.opened, Granted S C e := by
  simp only [clientReading, List.forall_mem_cons]
  refine ⟨⟨_, rfl, valid_hello⟩, ⟨_, rfl, valid_message _ (by decide) (by decide)⟩, ?_⟩
  unfold clientTrust
  cases c.hasTrustedPeerKey with
  | true => simp
  | false =>
      cases hpath : C.configPath with
      | true => simp [Granted, hpath]
      | false => simp [Granted, hpath]

theorem clientResponding_granted (hS : S.Lawful) (hc : Fresh idC trusted c)
    (hidS : S.signPair idS.publicKey idS.privateKey) (id : UInt64)
    {rx tx : ByteBuf cryptoSessionKeySize}
    (hkeys : S.clientKeys C.ephPublicKey C.ephPrivateKey D.ephPublicKey = some (rx, tx)) :
    ∀ e ∈ clientResponding (byteMemory host) c (honestClient host' S C D idC idS id rx tx),
      Granted S C e := by
  have hchallenge : AuthChallenge.ofBuf (byteMemory host)
      (honestClient host' S C D idC idS id rx tx).challenge = honestChallenge S D idS :=
    honestChallenge_ofBuf host
  simp only [clientResponding, List.forall_mem_cons, List.not_mem_nil, false_imp_iff, imp_true_iff,
    and_true]
  rw [hchallenge]
  refine ⟨(hS.verify_sign hidS _).symm, rfl, hkeys.symm, ?_, rfl, rfl, ?_⟩
  · rw [hc.privateKey]
    rfl
  · show sizeofAuthResponse ≤ maxPacketSize
    decide

/-- The frames that the segments send are those that the other end's segments receive. -/
theorem honest_challenge_frames (host : Endian) (c : Session ByteBuf) (hs : Fresh idS none s)
    (id : UInt64) (rx tx : ByteBuf cryptoSessionKeySize) :
    receivedFrames (clientReading (byteMemory host) c
        (honestClient host' S C D idC idS id rx tx) C.configPath C.opened ++
      clientResponding (byteMemory host) c (honestClient host' S C D idC idS id rx tx)) =
      sentFrames (serverOpening (byteMemory host') s (honestServer S C D idC idS tx rx)) := by
  have htrust : ∀ key path saved, receivedFrames (clientTrust c key path saved) = [] := by
    intro key path saved
    unfold clientTrust
    cases c.hasTrustedPeerKey with
    | true => rfl
    | false => cases path <;> rfl
  have hreading : receivedFrames (clientReading (byteMemory host) c
      (honestClient host' S C D idC idS id rx tx) C.configPath C.opened) =
      [⟨.serverHello, currentProtocolVersion, none⟩, ⟨.authRequest, currentProtocolVersion,
        some ⟨_, (honestChallenge S D idS).toBuf (byteMemory .big)⟩⟩] ++
        receivedFrames (clientTrust c (AuthChallenge.ofBuf (byteMemory host)
          (honestClient host' S C D idC idS id rx tx).challenge).publicKey C.configPath
            C.opened) := rfl
  have hsent : sentFrames (serverOpening (byteMemory host') s
      (honestServer S C D idC idS tx rx)) =
      [⟨.serverHello, s.protocolVersion, none⟩, ⟨.authRequest, s.protocolVersion,
        some ⟨_, AuthChallenge.toBuf (byteMemory .big)
          ⟨(honestChallenge S D idS).signature, s.crypto.publicKey, D.ephPublicKey,
            D.random _⟩⟩⟩] := rfl
  rw [receivedFrames_append, hreading, htrust, hsent, hs.protocolVersion, hs.publicKey]
  rfl

theorem honest_response_frames (host' : Endian) (s : Session ByteBuf) (hc : Fresh idC trusted c)
    (id : UInt64) (rx tx : ByteBuf cryptoSessionKeySize) :
    receivedFrames (serverClosing (byteMemory host') s (honestServer S C D idC idS tx rx)) =
      sentFrames (clientReading (byteMemory host) c
          (honestClient host' S C D idC idS id rx tx) C.configPath C.opened ++
        clientResponding (byteMemory host) c (honestClient host' S C D idC idS id rx tx)) := by
  have htrust : ∀ key path saved, sentFrames (clientTrust c key path saved) = [] := by
    intro key path saved
    unfold clientTrust
    cases c.hasTrustedPeerKey with
    | true => rfl
    | false => cases path <;> rfl
  have hreading : sentFrames (clientReading (byteMemory host) c
      (honestClient host' S C D idC idS id rx tx) C.configPath C.opened) = [] := htrust _ _ _
  have hsent : sentFrames (clientResponding (byteMemory host) c
      (honestClient host' S C D idC idS id rx tx)) =
      [⟨.authResponse, c.protocolVersion, some ⟨_, AuthResponse.toBuf (byteMemory .big)
        ⟨(honestResponse S C D idC).signature, c.crypto.publicKey, C.ephPublicKey⟩⟩⟩] := rfl
  rw [sentFrames_append, hreading, hsent, hc.protocolVersion, hc.publicKey]
  rfl

theorem honest_success_frames (c : Session ByteBuf) (hs : Fresh idS none s)
    (rx tx : ByteBuf cryptoSessionKeySize) :
    receivedFrames (clientClosing c (honestClient host' S C D idC idS s.sessionId rx tx)) =
      sentFrames (serverClosing (byteMemory host') s (honestServer S C D idC idS tx rx)) := by
  have hsent : sentFrames (serverClosing (byteMemory host') s
      (honestServer S C D idC idS tx rx)) =
      [⟨.authSuccess, s.protocolVersion, some ⟨_, AuthSuccess.toBuf (byteMemory host')
        ⟨D.random _, s.sessionId⟩⟩⟩] := rfl
  rw [hsent, hs.protocolVersion]
  rfl

/-- The network of a client and a server before their first step. -/
def honestStart (host host' : Endian) (c s : Session ByteBuf) :
    Network UInt8 LocalCall.Answer LocalCall.Answer (ℕ × Session ByteBuf) (ℕ × Session ByteBuf) :=
  ⟨⟨onWire host (sessionClientConnect (byteMemory host) c), 0⟩,
    ⟨onWire host' (sessionServerConnect (byteMemory host') s), 0⟩, [], []⟩

/-- The network after both have returned, with nothing left on the streams. -/
def honestEnd (m n : ℕ) (r r' : ℕ × Session ByteBuf) :
    Network UInt8 LocalCall.Answer LocalCall.Answer (ℕ × Session ByteBuf) (ℕ × Session ByteBuf) :=
  ⟨⟨.ret r, m⟩, ⟨.ret r', n⟩, [], []⟩

/-- All runs of a client and a server with honest devices end with the sessions established. -/
theorem honest_settles (host host' : Endian) (hS : S.Lawful) (hc : Fresh idC trusted c)
    (hs : Fresh idS none s)
    (htrusted : ∀ key, trusted = some key → key = idS.publicKey)
    (hidC : S.signPair idC.publicKey idC.privateKey)
    (hidS : S.signPair idS.publicKey idS.privateKey) {rx tx : ByteBuf cryptoSessionKeySize}
    (hclient : S.clientKeys C.ephPublicKey C.ephPrivateKey D.ephPublicKey = some (rx, tx))
    (hserver : S.serverKeys D.ephPublicKey D.ephPrivateKey C.ephPublicKey = some (tx, rx)) :
    ∃ m n, Settles (C.answer S) (D.answer S) (honestStart host host' c s) (honestEnd m n
      (0, clientFinal (byteMemory host) (c.trusting idS.publicKey)
        (honestClient host' S C D idC idS s.sessionId rx tx))
      (0, serverFinal (byteMemory host') s (honestServer S C D idC idS tx rx))) := by
  let v := honestClient host' S C D idC idS s.sessionId rx tx
  let w := honestServer S C D idC idS tx rx
  have hread : AuthChallenge.ofBuf (byteMemory host) v.challenge = honestChallenge S D idS :=
    honestChallenge_ofBuf host
  have hkey : c.hasTrustedPeerKey = true →
      (AuthChallenge.ofBuf (byteMemory host) v.challenge).publicKey = c.trustedPeerKey := by
    intro hhas
    rw [hc.hasTrusted] at hhas
    obtain ⟨key, hsome⟩ := Option.isSome_iff_exists.mp hhas
    rw [hread, hc.trustedKey key hsome, htrusted key hsome]
    rfl
  have hC := sessionClientConnect_exec_trusting (byteMemory host) c v C.configPath C.opened hkey
  rw [hread] at hC
  have hD := sessionServerConnect_exec (byteMemory host') s w
  obtain ⟨server, hopening, hclosing⟩ := exec_append.mp hD
  obtain ⟨client', hanswer, hfinish⟩ := exec_append.mp hC
  obtain ⟨client, hhello, hrespond⟩ := exec_append.mp
    (show Exec _ ([⟨.packetSend c.socket ⟨.clientHello, currentProtocolVersion, none⟩, true⟩] ++
      (clientReading (byteMemory host) c v C.configPath C.opened ++
        clientResponding (byteMemory host) c v)) _ from hanswer)
  -- the five turns of the canonical run
  obtain ⟨m₁, out₁, hout₁, hrun₁⟩ := runs_onWire (S := S) (D := C) host hhello
    (by simp [Granted, Packet.payloadLength]) .nil 0 []
  obtain ⟨n₁, out₂, hout₂, hrun₂⟩ := runs_onWire host' hopening
    (serverOpening_granted hs tx rx) hout₁ 0 []
  rw [← honest_challenge_frames host c hs s.sessionId] at hout₂
  obtain ⟨m₂, out₃, hout₃, hrun₃⟩ := runs_onWire host hrespond
    (List.forall_mem_append.mpr ⟨clientReading_granted s.sessionId rx tx,
      clientResponding_granted hS hc hidS s.sessionId hclient⟩) hout₂ m₁ []
  rw [← honest_response_frames host' s hc] at hout₃
  obtain ⟨n₂, out₄, hout₄, hrun₄⟩ := runs_onWire host' hclosing
    (serverClosing_granted hS hidC hserver) hout₃ n₁ []
  rw [← honest_success_frames c hs] at hout₄
  obtain ⟨m₃, out₅, hout₅, hrun₅⟩ := runs_onWire (S := S) (D := C) host hfinish
    (List.forall_mem_singleton.mpr ⟨_, rfl, valid_message _ (by decide) (by decide)⟩) hout₄ m₂ []
  cases hout₅
  rw [List.append_nil] at hrun₁ hrun₂ hrun₃ hrun₄ hrun₅
  have hleft₁ := hrun₁.left (D.answer S)
    ⟨onWire host' (sessionServerConnect (byteMemory host') s), 0⟩ []
  have hright₂ := hrun₂.right (C.answer S) ⟨onWire host client, m₁⟩ []
  have hleft₃ := hrun₃.left (D.answer S) ⟨onWire host' server, n₁⟩ []
  have hright₄ := hrun₄.right (C.answer S) ⟨onWire host client', m₂⟩ []
  have hleft₅ := hrun₅.left (D.answer S)
    ⟨onWire host' (.ret (0, serverFinal (byteMemory host') s w)), n₂⟩ []
  exact ⟨m₃, n₂, settles_of_run ⟨onWire_fragmentable host _, onWire_fragmentable host' _⟩
    (hleft₁.trans (hright₂.trans (hleft₃.trans (hright₄.trans hleft₅)))) fun _ => Step.ends⟩

/-- The two ends of an established session agree. -/
structure SessionsAgree (idC idS : CryptoContext ByteBuf) (c s : Session ByteBuf) : Prop where
  client : c.state = .established
  server : s.state = .established
  sessionId : c.sessionId = s.sessionId
  sessionNonce : c.sessionNonce = s.sessionNonce
  clientPeer : c.crypto.peerPublicKey = idS.publicKey
  serverPeer : s.crypto.peerPublicKey = idC.publicKey
  up : c.crypto.txKey = s.crypto.rxKey
  down : c.crypto.rxKey = s.crypto.txKey

/-- On hosts of one byte order an honest client and an honest server always finish, both with
success, and with sessions that agree. -/
theorem honest_handshake_completes (hS : S.Lawful)
    (hc : Created (byteMemory host) .client idC trusted c)
    (hs : Created (byteMemory host) .server idS none s)
    (htrusted : ∀ key, trusted = some key → key = idS.publicKey)
    (hidC : S.signPair idC.publicKey idC.privateKey)
    (hidS : S.signPair idS.publicKey idS.privateKey)
    (hephC : S.kxPair C.ephPublicKey C.ephPrivateKey)
    (hephD : S.kxPair D.ephPublicKey D.ephPrivateKey) :
    ∃ m n c' s', Settles (C.answer S) (D.answer S) (honestStart host host c s)
        (honestEnd m n (0, c') (0, s')) ∧ SessionsAgree idC idS c' s' := by
  obtain ⟨rx, tx, hclient, hserver⟩ := hS.agree hephC hephD
  obtain ⟨m, n, hsettles⟩ := honest_settles host host hS hc.fresh hs.fresh
    htrusted hidC hidS hclient hserver
  have hsuccess := success_ofBuf host host ⟨D.random sessionNonceSize, s.sessionId⟩
  rw [(byteMemory host).toUInt64_ofUInt64] at hsuccess
  refine ⟨m, n, _, _, hsettles, ?_⟩
  exact {
    client := rfl
    server := rfl
    sessionId := congrArg AuthSuccess.sessionId hsuccess
    sessionNonce := congrArg AuthSuccess.sessionNonce hsuccess
    clientPeer := congrArg AuthChallenge.publicKey (honestChallenge_ofBuf host)
    serverPeer := congrArg AuthResponse.publicKey (honestResponse_ofBuf host)
    up := rfl
    down := rfl }

/-- A client without a trusted key, on a host that stores the low byte first. -/
theorem honest_handshake_completes_plain :
    ∃ m n c' s', Settles ((plainDevice 3).answer plainSodium) ((plainDevice 4).answer plainSodium)
        (honestStart .little .little (plainClient .little) (plainServer .little 7))
        (honestEnd m n (0, c') (0, s')) ∧
      SessionsAgree (plainIdentity .little 1) (plainIdentity .little 2) c' s' :=
  honest_handshake_completes plainSodium_lawful (sessionCreated_created _ _ _ _ _ _)
    (sessionCreated_created _ _ _ _ _ _) (fun _ h => absurd h.symm (Option.some_ne_none _))
    (plainIdentity_pair .little 1) (plainIdentity_pair .little 2) rfl rfl

end Sencd
