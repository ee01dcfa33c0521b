import Sencd.HonestHandshake
import Sencd.ServerRun

/-!
# Session ids across hosts

`AUTH_SUCCESS_T` carries the session id as the server's host stores it, the tunnel header carries
it in network order. After a handshake the client's datagrams therefore name the session of the
server when the hosts share a byte order, and otherwise only when the id reads the same in both.
-/
namespace Sencd
open ByteOrder CallProgram StreamNetwork

/-- An id stored by one host and read by another is the same id exactly when the hosts agree, or
its bytes do not tell. -/
theorem toUInt64_ofUInt64_iff (host host' : Endian) (id : UInt64) :
    (byteMemory host).toUInt64 ((byteMemory host').ofUInt64 id) = id ↔
      host = host' ∨ leBytes 8 id.toNat = beBytes 8 id.toNat := by
  have hswap : UInt64.ofNat (ofLeBytes (beBytes 8 id.toNat)) = id ↔
      leBytes 8 id.toNat = beBytes 8 id.toNat := by
    have hread := leBytes_ofLeBytes (beBytes 8 id.toNat)
    rw [beBytes_length] at hread
    have hlt : ofLeBytes (beBytes 8 id.toNat) < 2 ^ 64 := by
      simpa [ofBeBytes] using ofBeBytes_lt (beBytes 8 id.toNat).reverse
    constructor
    · intro h
      have hnat := congrArg UInt64.toNat h
      rw [UInt64.toNat_ofNat_of_lt' hlt] at hnat
      rwa [hnat] at hread
    · intro h
      have hid : id.toNat < 256 ^ 8 := id.toNat_lt
      rw [← h, ofLeBytes_leBytes, Nat.mod_eq_of_lt hid, UInt64.ofNat_toNat]
  by_cases hhost : host = host'
  · subst hhost
    exact iff_of_true ((byteMemory host).toUInt64_ofUInt64 id) (.inl rfl)
  · simp only [hhost, false_or]
    rw [← hswap]
    cases host with
    | little =>
        cases host' with
        | little => exact absurd rfl hhost
        | big => rfl
    | big =>
        cases host' with
        | little => rfl
        | big => exact absurd rfl hhost

/-- The server reads, in every datagram the client encodes, the id under which it has stored the
session in its table. -/
def SessionIdsAgree (host host' : Endian) (c s : Session ByteBuf) : Prop :=
  ∀ (P P' : Platform ByteBuf) (counter : UInt64) (plaintext datagram : Bytes)
    (m m' : SessionManager ByteBuf) (stored : Session ByteBuf), P.host = host → P'.host = host' →
    sessionManagerAdd m s = some (m', stored) →
    tunnelPacketEncode P ⟨c.sessionId, counter, plaintext⟩ c.crypto = some datagram →
    tunnelPacketPeekSessionId P' datagram = some stored.sessionId

/-- The tunnel header itself keeps the id. -/
theorem sessionIdsAgree_iff {host host' : Endian} {c s : Session ByteBuf} :
    SessionIdsAgree host host' c s ↔ c.sessionId = s.sessionId := by
  have hstored : ∀ {m m' : SessionManager ByteBuf} {stored : Session ByteBuf},
      sessionManagerAdd m s = some (m', stored) → stored.sessionId = s.sessionId := by
    intro m m' stored hadd
    obtain ⟨i, -, rfl, -⟩ := sessionManagerAdd_eq_some.mp hadd
    rfl
  constructor
  · intro h
    let m := startedManager (byteMemory host') (plainIdentity host' 0) 0
    have hfree : SlotTable.free m.sessions = some ⟨0, Nat.zero_lt_succ 1023⟩ :=
      SlotTable.free_eq_some.mpr ⟨by simp [m], fun j hj => absurd hj (Nat.not_lt_zero _)⟩
    obtain ⟨m', stored, hadd⟩ : ∃ m' stored, sessionManagerAdd m s = some (m', stored) :=
      ⟨_, _, sessionManagerAdd_eq_some.mpr ⟨_, hfree, rfl, rfl⟩⟩
    let input : TunnelPacketEncode := ⟨c.sessionId, 0, []⟩
    have hlen : input.plaintext.length ≤ tunnelPacketMaxPlaintext := Nat.zero_le _
    obtain ⟨datagram, hencode⟩ := tunnelPacketEncode_isSome ((copyPlatform ByteBuf).on host)
      (.of_lawful (copyAead_lawful _) storeZstd_lawful) c.crypto hlen
    have hread := h ((copyPlatform ByteBuf).on host) ((copyPlatform ByteBuf).on host') 0 [] datagram
      m m' stored rfl rfl hadd hencode
    rw [tunnelPacketPeekSessionId_encode _ _ hencode, hstored hadd] at hread
    exact Option.some.inj hread
  · intro h P P' counter plaintext datagram m m' stored _ _ hadd hencode
    rw [tunnelPacketPeekSessionId_encode P P' hencode, hstored hadd, ← h]

section Handshake

variable {host host' : Endian} {S : Sodium} {C D : Device} {c s : Session ByteBuf}
  {idC idS : CryptoContext ByteBuf} {trusted : Option (ByteBuf cryptoPublicKeySize)}

/-- What a client holds after an untampered handshake. -/
theorem honest_sessionIds (rx tx : ByteBuf cryptoSessionKeySize) :
    (clientFinal (byteMemory host) (c.trusting idS.publicKey)
      (honestClient host' S C D idC idS s.sessionId rx tx)).sessionId =
        (serverFinal (byteMemory host') s (honestServer S C D idC idS tx rx)).sessionId ↔
      host = host' ∨ leBytes 8 s.sessionId.toNat = beBytes 8 s.sessionId.toNat := by
  have hsuccess := success_ofBuf host host' ⟨D.random sessionNonceSize, s.sessionId⟩
  have hclient : (clientFinal (byteMemory host) (c.trusting idS.publicKey)
      (honestClient host' S C D idC idS s.sessionId rx tx)).sessionId =
        (byteMemory host).toUInt64 ((byteMemory host').ofUInt64 s.sessionId) :=
    congrArg AuthSuccess.sessionId hsuccess
  rw [hclient]
  exact toUInt64_ofUInt64_iff host host' s.sessionId

/-- After an untampered handshake the ids agree exactly when the hosts have one byte order or
the bytes of the id read the same both ways. -/
theorem session_id_agreement_iff (hS : S.Lawful)
    (hc : Created (byteMemory host) .client idC trusted c)
    (hs : Created (byteMemory host') .server idS none s)
    (htrusted : ∀ key, trusted = some key → key = idS.publicKey)
    (hidC : S.signPair idC.publicKey idC.privateKey)
    (hidS : S.signPair idS.publicKey idS.privateKey)
    (hephC : S.kxPair C.ephPublicKey C.ephPrivateKey)
    (hephD : S.kxPair D.ephPublicKey D.ephPrivateKey) :
    ∃ m n c' s', Settles (C.answer S) (D.answer S) (honestStart host host' c s)
        (honestEnd m n (0, c') (0, s')) ∧
      (SessionIdsAgree host host' c' s' ↔
        host = host' ∨ leBytes 8 s.sessionId.toNat = beBytes 8 s.sessionId.toNat) := by
  obtain ⟨rx, tx, hclient, hserver⟩ := hS.agree hephC hephD
  obtain ⟨m, n, hsettles⟩ := honest_settles host host' hS hc.fresh hs.fresh
    htrusted hidC hidS hclient hserver
  exact ⟨m, n, _, _, hsettles, sessionIdsAgree_iff.trans (honest_sessionIds rx tx)⟩

end Handshake

theorem session_id_agreement_iff_plain :
    ∃ m n c' s', Settles ((plainDevice 3).answer plainSodium) ((plainDevice 4).answer plainSodium)
        (honestStart .little .big (plainClient .little) (plainServer .big 7))
        (honestEnd m n (0, c') (0, s')) ∧
      (SessionIdsAgree .little .big c' s' ↔
        Endian.little = .big ∨ leBytes 8 (plainServer .big 7).sessionId.toNat =
          beBytes 8 (plainServer .big 7).sessionId.toNat) :=
  session_id_agreement_iff plainSodium_lawful (sessionCreated_created _ _ _ _ _ _)
    (sessionCreated_created _ _ _ _ _ _) (fun _ h => absurd h.symm (Option.some_ne_none _))
    (plainIdentity_pair .little 1) (plainIdentity_pair .big 2) rfl rfl

/-- A client that stores the low byte first, told the id 1 by a server that does not. -/
theorem not_sessionIdsAgree :
    ∃ m n c' s', Settles ((plainDevice 3).answer plainSodium) ((plainDevice 4).answer plainSodium)
        (honestStart .little .big (plainClient .little) (plainServer .big 1))
        (honestEnd m n (0, c') (0, s')) ∧ ¬ SessionIdsAgree .little .big c' s' := by
  obtain ⟨m, n, hsettles⟩ := honest_settles (S := plainSodium) (C := plainDevice 3)
    (D := plainDevice 4) (c := plainClient .little) (s := plainServer .big 1) .little .big
    plainSodium_lawful (sessionCreated_created _ _ _ _ _ _).fresh
    (sessionCreated_created _ _ _ _ _ _).fresh (fun _ h => absurd h.symm (Option.some_ne_none _))
    (plainIdentity_pair .little 1) (plainIdentity_pair .big 2) rfl rfl
  refine ⟨m, n, _, _, hsettles, ?_⟩
  rw [sessionIdsAgree_iff, honest_sessionIds]
  decide

end Sencd
