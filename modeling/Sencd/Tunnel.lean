import Sencd.Crypto

/-!
# Tunnel datagrams

`tunnel_compress.c` and `tunnel_packet.c`. A function that fills an output buffer returns the
bytes it wrote: the empty list where the C function returns length 0, `none` where it returns
a nonzero code. A datagram is the session id, the counter and the sealed, packed packet.
-/
namespace Sencd
open ByteOrder

abbrev tunnelCompressFlagNone : UInt8 := 0x00
abbrev tunnelCompressFlagZstd : UInt8 := 0x01
abbrev tunnelCompressHeaderSize : ℕ := 5
abbrev tunnelHeaderSize : ℕ := 8 + 8
abbrev tunnelPacketMaxSize : ℕ := 65536
abbrev tunnelPacketMaxPlaintext : ℕ :=
  tunnelPacketMaxSize - tunnelHeaderSize - tunnelAeadTagSize

variable {Buf : ℕ → Type} (P : Platform Buf)

/-- What the senders rely on: sealing never fails on a plaintext that fits a datagram, and the
bound zstd gives for such an input is no less than the input. -/
structure Platform.Seals : Prop where
  encrypt_isSome (k : Buf cryptoSessionKeySize) (n : Bytes) {p : Bytes} :
    p.length ≤ tunnelPacketMaxPlaintext → (P.aead.encrypt k n p).isSome
  le_compressBound {n : ℕ} : n ≤ tunnelPacketMaxPlaintext → n ≤ P.zstd.compressBound n

theorem Platform.Seals.of_lawful {P : Platform Buf} (hA : P.aead.Lawful) (hZ : P.zstd.Lawful) :
    P.Seals where
  encrypt_isSome k n p h := by
    apply hA.encrypt_isSome
    simp only [tunnelPacketMaxPlaintext, tunnelPacketMaxSize] at h
    omega
  le_compressBound _ := hZ.le_compressBound _

theorem copyPlatform_seals (Buf : ℕ → Type) : (copyPlatform Buf).Seals :=
  .of_lawful (copyAead_lawful _) storeZstd_lawful

section Compress

/-- The bytes zstd produces for `raw`, or none when their bound does not fit or zstd fails. -/
def tunnelZstdAttempt (raw : Bytes) (maxPayload : ℕ) : Bytes :=
  if P.zstd.compressBound raw.length ≤ maxPayload then
    (P.zstd.compress maxPayload raw).getD []
  else []

def tunnelPipelineCompress (raw : Bytes) (outCapacity : ℕ) : Bytes :=
  if outCapacity < tunnelCompressHeaderSize then [] else
  let maxPayload := outCapacity - tunnelCompressHeaderSize
  let compressed := tunnelZstdAttempt P raw maxPayload
  if 0 < compressed.length ∧ compressed.length < raw.length then
    tunnelCompressFlagZstd ::
      (objectBytes P.host 4 (htobe32 P.host (.ofNat raw.length)).toNat ++ compressed)
  else if raw.length > maxPayload then []
  else tunnelCompressFlagNone :: (List.replicate 4 0 ++ raw)

def tunnelPipelineDecompress (input : Bytes) (outCapacity : ℕ) : Bytes :=
  if input.length < tunnelCompressHeaderSize then [] else
  let flag := input.headD 0
  let payload := input.drop tunnelCompressHeaderSize
  if flag = tunnelCompressFlagNone then
    if payload.length > outCapacity then [] else payload
  else if flag = tunnelCompressFlagZstd then
    let originalLen := be32toh P.host (.ofNat (ofObjectBytes P.host ((input.drop 1).take 4)))
    if originalLen.toNat > outCapacity then [] else
    match P.zstd.decompress outCapacity payload with
    | none => []
    | some result => if result.length ≠ originalLen.toNat then [] else result
  else []

/-- What compression can return: nothing, the stored form, or the zstd form. -/
theorem tunnelPipelineCompress_cases (raw : Bytes) (cap : ℕ) :
    tunnelPipelineCompress P raw cap = [] ∨
    (raw.length + tunnelCompressHeaderSize ≤ cap ∧
      tunnelPipelineCompress P raw cap =
        tunnelCompressFlagNone :: (List.replicate 4 0 ++ raw)) ∨
    ∃ z, P.zstd.compress (cap - tunnelCompressHeaderSize) raw = some z ∧
      P.zstd.compressBound raw.length ≤ cap - tunnelCompressHeaderSize ∧ z.length < raw.length ∧
      tunnelPipelineCompress P raw cap = tunnelCompressFlagZstd ::
        (objectBytes P.host 4 (htobe32 P.host (.ofNat raw.length)).toNat ++ z) := by
  unfold tunnelPipelineCompress
  by_cases hcap : cap < tunnelCompressHeaderSize
  · exact .inl (if_pos hcap)
  rw [if_neg hcap]
  dsimp only
  by_cases hz : 0 < (tunnelZstdAttempt P raw (cap - tunnelCompressHeaderSize)).length ∧
      (tunnelZstdAttempt P raw (cap - tunnelCompressHeaderSize)).length < raw.length
  · right; right
    rw [if_pos hz]
    unfold tunnelZstdAttempt at hz ⊢
    by_cases hb : P.zstd.compressBound raw.length ≤ cap - tunnelCompressHeaderSize
    · rw [if_pos hb] at hz ⊢
      cases hc : P.zstd.compress (cap - tunnelCompressHeaderSize) raw with
      | none => simp [hc] at hz
      | some z =>
          rw [hc] at hz
          exact ⟨z, rfl, hb, hz.2, rfl⟩
    · simp [if_neg hb] at hz
  · rw [if_neg hz]
    by_cases hraw : raw.length > cap - tunnelCompressHeaderSize
    · exact .inl (if_pos hraw)
    · rw [if_neg hraw]
      exact .inr (.inl ⟨by omega, rfl⟩)

/-- Compression succeeds exactly when the stored form fits. -/
theorem tunnelPipelineCompress_ne_nil {raw : Bytes}
    (hbound : raw.length ≤ P.zstd.compressBound raw.length) (cap : ℕ) :
    tunnelPipelineCompress P raw cap ≠ [] ↔ raw.length + tunnelCompressHeaderSize ≤ cap := by
  constructor
  · intro h
    rcases tunnelPipelineCompress_cases P raw cap with hn | ⟨hfit, -⟩ | ⟨z, -, hb, hz, -⟩
    · exact absurd hn h
    · exact hfit
    · omega
  · intro h
    have hcap : ¬ cap < tunnelCompressHeaderSize := by omega
    have hraw : ¬ raw.length > cap - tunnelCompressHeaderSize := by omega
    unfold tunnelPipelineCompress
    rw [if_neg hcap]
    dsimp only
    rw [if_neg hraw]
    split_ifs <;> simp

/-- The result never exceeds the stored form, header included. -/
theorem tunnelPipelineCompress_length_le (raw : Bytes) (cap : ℕ) :
    (tunnelPipelineCompress P raw cap).length ≤ raw.length + tunnelCompressHeaderSize := by
  rcases tunnelPipelineCompress_cases P raw cap with h | ⟨-, h⟩ | ⟨z, -, -, hz, h⟩
  · simp [h]
  · rw [h]
    simp only [List.length_cons, List.length_append, List.length_replicate,
      tunnelCompressHeaderSize]
    omega
  · rw [h]
    have h4 : (objectBytes P.host 4 (htobe32 P.host (.ofNat raw.length)).toNat).length = 4 :=
      objectBytes_length _ _ _
    simp only [List.length_cons, List.length_append, h4, tunnelCompressHeaderSize]
    omega

/-- Reading back the length field of the zstd form, on any host. -/
theorem be32toh_htobe32_bytes (host host' : Endian) (x : UInt32) :
    be32toh host' (.ofNat (ofObjectBytes host' (objectBytes host 4 (htobe32 host x).toNat))) =
      x := by
  have hx : x.toNat < 256 ^ 4 := x.toNat_lt
  rw [objectBytes_htobe32, be32toh_ofObjectBytes host' (beBytes_length 4 _), ofBeBytes_beBytes,
    Nat.mod_eq_of_lt hx, UInt32.ofNat_toNat]

/-- A packed packet unpacks to itself on any host, in any buffer that holds it. -/
theorem tunnelPipelineDecompress_compress (host : Endian) (hZ : P.zstd.Lawful) {raw : Bytes}
    {cap cap' : ℕ} (h : tunnelPipelineCompress P raw cap ≠ []) (hcap : raw.length ≤ cap')
    (h32 : raw.length < 2 ^ 32) :
    tunnelPipelineDecompress (P.on host) (tunnelPipelineCompress P raw cap) cap' = raw := by
  rcases tunnelPipelineCompress_cases P raw cap with hn | ⟨-, he⟩ | ⟨z, hz, -, -, he⟩
  · exact absurd hn h
  · have hlen : ¬ raw.length > cap' := by omega
    have hhdr : ¬ raw.length + 1 + 1 + 1 + 1 + 1 < tunnelCompressHeaderSize := by
      simp only [tunnelCompressHeaderSize]
      omega
    simp [he, tunnelPipelineDecompress, hlen, hhdr]
  · have h4 : (objectBytes P.host 4 (htobe32 P.host (.ofNat raw.length)).toNat).length = 4 :=
      objectBytes_length _ _ _
    have hnat : (UInt32.ofNat raw.length).toNat = raw.length := UInt32.toNat_ofNat_of_lt' h32
    have hlen : ¬ raw.length > cap' := by omega
    have hdec := hZ.decompress_compress hz hcap
    have hhdr : ¬ 4 + z.length + 1 < tunnelCompressHeaderSize := by
      simp only [tunnelCompressHeaderSize]
      omega
    have hflag : tunnelCompressFlagZstd ≠ tunnelCompressFlagNone := by decide
    rw [he, tunnelPipelineDecompress]
    simp only [Platform.on, List.length_cons, List.length_append, h4, List.headD_cons,
      List.drop_succ_cons,
      List.drop_zero, List.take_left' h4, List.drop_left' h4, be32toh_htobe32_bytes, hnat,
      if_neg hhdr, if_neg hflag, if_true, if_neg hlen, hdec]
    simp

end Compress

section Datagram

/-- `TUNNEL_PACKET_ENCODE_T`. -/
structure TunnelPacketEncode where
  sessionId : UInt64
  counter : UInt64
  plaintext : Bytes

def tunnelPacketEncode (input : TunnelPacketEncode) (ctx : CryptoContext Buf) : Option Bytes :=
  if input.plaintext.length > tunnelPacketMaxPlaintext then none else
  match cryptoEncryptPacket P ctx input.counter input.plaintext with
  | none => none
  | some ciphertext =>
    some (objectBytes P.host 8 (htobe64 P.host input.sessionId).toNat ++
      objectBytes P.host 8 (htobe64 P.host input.counter).toNat ++ ciphertext)

def tunnelPacketPeekSessionId (buffer : Bytes) : Option UInt64 :=
  if buffer.length < tunnelHeaderSize then none
  else some (be64toh P.host (.ofNat (ofObjectBytes P.host (buffer.take 8))))

def tunnelPacketDecode (buffer : Bytes) (ctx : CryptoContext Buf) : Option Bytes :=
  if buffer.length < tunnelHeaderSize + tunnelAeadTagSize ∨ buffer.length > tunnelPacketMaxSize then
    none
  else
    let counter := be64toh P.host (.ofNat (ofObjectBytes P.host ((buffer.drop 8).take 8)))
    cryptoDecryptPacket P ctx counter (buffer.drop tunnelHeaderSize)

/-- Decoding looks at the receive key only. -/
theorem tunnelPacketDecode_congr {ctx ctx' : CryptoContext Buf} (h : ctx.rxKey = ctx'.rxKey)
    (buffer : Bytes) : tunnelPacketDecode P buffer ctx = tunnelPacketDecode P buffer ctx' := by
  simp only [tunnelPacketDecode, cryptoDecryptPacket, h]

/-- A datagram too short for header and tag is rejected under every key. -/
theorem tunnelPacketDecode_short {buffer : Bytes}
    (h : buffer.length < tunnelHeaderSize + tunnelAeadTagSize) (ctx : CryptoContext Buf) :
    tunnelPacketDecode P buffer ctx = none := if_pos (.inl h)

/-- The wire form of an encoded packet, the same from every host. -/
theorem tunnelPacketEncode_eq_some {input : TunnelPacketEncode} {ctx : CryptoContext Buf}
    {datagram : Bytes} (h : tunnelPacketEncode P input ctx = some datagram) :
    input.plaintext.length ≤ tunnelPacketMaxPlaintext ∧
      ∃ c, cryptoEncryptPacket P ctx input.counter input.plaintext = some c ∧
        datagram = beBytes 8 input.sessionId.toNat ++ (beBytes 8 input.counter.toNat ++ c) := by
  unfold tunnelPacketEncode at h
  by_cases hlen : input.plaintext.length > tunnelPacketMaxPlaintext
  · simp [if_pos hlen] at h
  · rw [if_neg hlen] at h
    cases hc : cryptoEncryptPacket P ctx input.counter input.plaintext with
    | none => simp [hc] at h
    | some c =>
        rw [hc] at h
        refine ⟨by omega, c, rfl, ?_⟩
        simpa [objectBytes_htobe64, List.append_assoc] using h.symm

/-- Encoding fails on nothing but length. -/
theorem tunnelPacketEncode_isSome (hP : P.Seals) (ctx : CryptoContext Buf)
    {input : TunnelPacketEncode} (h : input.plaintext.length ≤ tunnelPacketMaxPlaintext) :
    ∃ datagram, tunnelPacketEncode P input ctx = some datagram := by
  have hsome := hP.encrypt_isSome ctx.txKey (cryptoBuildNonce P.host input.counter) h
  obtain ⟨c, hc⟩ := Option.isSome_iff_exists.mp hsome
  have hencrypt : cryptoEncryptPacket P ctx input.counter input.plaintext = some c := hc
  unfold tunnelPacketEncode
  rw [if_neg (by omega), hencrypt]
  exact ⟨_, rfl⟩

/-- What compression packs into the capacity of a datagram can be encoded. -/
theorem tunnelPacketEncode_packed (hP : P.Seals) {raw : Bytes}
    (hfit : raw.length + tunnelCompressHeaderSize ≤ tunnelPacketMaxPlaintext)
    (sessionId counter : UInt64) (ctx : CryptoContext Buf) : ∃ datagram,
      tunnelPacketEncode P ⟨sessionId, counter,
        tunnelPipelineCompress P raw tunnelPacketMaxPlaintext⟩ ctx = some datagram := by
  have hlength := tunnelPipelineCompress_length_le P raw tunnelPacketMaxPlaintext
  exact tunnelPacketEncode_isSome P hP ctx (hlength.trans hfit)

/-- The session id is read off the first eight bytes, whoever wrote the rest. -/
theorem tunnelPacketPeekSessionId_append (id : UInt64) {rest : Bytes} (h : 8 ≤ rest.length) :
    tunnelPacketPeekSessionId P (beBytes 8 id.toNat ++ rest) = some id := by
  have hlen : ¬ (beBytes 8 id.toNat ++ rest).length < tunnelHeaderSize := by
    simp only [List.length_append, beBytes_length, tunnelHeaderSize]
    omega
  rw [tunnelPacketPeekSessionId, if_neg hlen, List.take_left' (beBytes_length 8 _),
    be64toh_ofObjectBytes _ (beBytes_length 8 _), ofBeBytes_beBytes_uint64]

/-- The receiver finds the session id the sender put in front, whatever its host. -/
theorem tunnelPacketPeekSessionId_encode (P' : Platform Buf) {input : TunnelPacketEncode}
    {ctx : CryptoContext Buf} {datagram : Bytes}
    (h : tunnelPacketEncode P input ctx = some datagram) :
    tunnelPacketPeekSessionId P' datagram = some input.sessionId := by
  obtain ⟨-, c, -, rfl⟩ := tunnelPacketEncode_eq_some P h
  exact tunnelPacketPeekSessionId_append P' input.sessionId (by simp)

/-- The receiver whose `rx_key` is the sender's `tx_key` opens an encoded packet, whatever
its host. -/
theorem tunnelPacketDecode_encode (host : Endian) (hA : P.aead.Lawful) {input : TunnelPacketEncode}
    {tx rx : CryptoContext Buf} {datagram : Bytes} (hkey : rx.rxKey = tx.txKey)
    (h : tunnelPacketEncode P input tx = some datagram) :
    tunnelPacketDecode (P.on host) datagram rx = some input.plaintext := by
  obtain ⟨hmax, c, hc, rfl⟩ := tunnelPacketEncode_eq_some P h
  have hclen := hA.encrypt_length hc
  have hlen : ¬ ((beBytes 8 input.sessionId.toNat ++ (beBytes 8 input.counter.toNat ++ c)).length <
        tunnelHeaderSize + tunnelAeadTagSize ∨
      (beBytes 8 input.sessionId.toNat ++ (beBytes 8 input.counter.toNat ++ c)).length >
        tunnelPacketMaxSize) := by
    simp only [tunnelPacketMaxPlaintext, tunnelPacketMaxSize, tunnelHeaderSize,
      tunnelAeadTagSize] at hmax
    simp only [List.length_append, beBytes_length, hclen, tunnelPacketMaxSize, tunnelHeaderSize,
      tunnelAeadTagSize]
    omega
  have hdrop : (beBytes 8 input.sessionId.toNat ++ (beBytes 8 input.counter.toNat ++ c)).drop
      tunnelHeaderSize = c := by
    rw [← List.append_assoc]
    exact List.drop_left' (by simp)
  have hcounter : be64toh host (.ofNat (ofObjectBytes host (beBytes 8 input.counter.toNat))) =
      input.counter := by
    rw [be64toh_ofObjectBytes _ (beBytes_length 8 _), ofBeBytes_beBytes_uint64]
  have hnonce : cryptoBuildNonce host input.counter = cryptoBuildNonce P.host input.counter := by
    rw [cryptoBuildNonce_eq, cryptoBuildNonce_eq]
  rw [tunnelPacketDecode, if_neg hlen]
  dsimp only
  rw [hdrop, List.drop_left' (beBytes_length 8 _), List.take_left' (beBytes_length 8 _),
    Platform.on,
    hcounter, cryptoDecryptPacket, hkey, hnonce]
  exact hA.decrypt_encrypt hc

end Datagram

section RoundTrip

/-- A packet that compression accepts comes out of the tunnel as it went in, on any host that
holds the key: the datagram is produced, names its session, and opens and unpacks again. -/
theorem tunnel_round_trip (host : Endian) (hA : P.aead.Lawful) (hZ : P.zstd.Lawful) {raw : Bytes}
    (sessionId counter : UInt64) {tx rx : CryptoContext Buf} (hkey : rx.rxKey = tx.txKey)
    (hpacked : tunnelPipelineCompress P raw tunnelPacketMaxPlaintext ≠ []) :
    ∃ datagram,
      tunnelPacketEncode P ⟨sessionId, counter,
        tunnelPipelineCompress P raw tunnelPacketMaxPlaintext⟩ tx = some datagram ∧
      tunnelPacketPeekSessionId (P.on host) datagram = some sessionId ∧
      tunnelPacketDecode (P.on host) datagram rx =
        some (tunnelPipelineCompress P raw tunnelPacketMaxPlaintext) ∧
      tunnelPipelineDecompress (P.on host)
        (tunnelPipelineCompress P raw tunnelPacketMaxPlaintext) tunnelPacketMaxPlaintext = raw := by
  have hfit := (tunnelPipelineCompress_ne_nil P (hZ.le_compressBound _)
    tunnelPacketMaxPlaintext).mp hpacked
  obtain ⟨datagram, hencode⟩ :=
    tunnelPacketEncode_packed P (.of_lawful hA hZ) hfit sessionId counter tx
  have hpeek := tunnelPacketPeekSessionId_encode P (P.on host) hencode
  have hdecode := tunnelPacketDecode_encode P host hA hkey hencode
  have hcap : raw.length ≤ tunnelPacketMaxPlaintext := by omega
  have h32 : raw.length < 2 ^ 32 := by
    simp only [tunnelPacketMaxPlaintext, tunnelPacketMaxSize] at hcap
    omega
  have hunpack := tunnelPipelineDecompress_compress P host hZ hpacked hcap h32
  exact ⟨datagram, hencode, hpeek, hdecode, hunpack⟩

theorem tunnel_round_trip_between_hosts : ∃ datagram,
    tunnelPacketEncode (copyPlatform ByteBuf) ⟨7, 18446744073709551615,
      tunnelPipelineCompress (copyPlatform ByteBuf) [69, 0, 0, 20] tunnelPacketMaxPlaintext⟩
      (cryptoContextInit (byteMemory .little)) = some datagram ∧
    tunnelPacketPeekSessionId ((copyPlatform ByteBuf).on .big) datagram = some 7 ∧
    tunnelPacketDecode ((copyPlatform ByteBuf).on .big) datagram
      (cryptoContextInit (byteMemory .big)) =
        some (tunnelPipelineCompress (copyPlatform ByteBuf) [69, 0, 0, 20]
          tunnelPacketMaxPlaintext) ∧
    tunnelPipelineDecompress ((copyPlatform ByteBuf).on .big)
      (tunnelPipelineCompress (copyPlatform ByteBuf) [69, 0, 0, 20] tunnelPacketMaxPlaintext)
      tunnelPacketMaxPlaintext = [69, 0, 0, 20] :=
  tunnel_round_trip (copyPlatform ByteBuf) .big (copyAead_lawful _) storeZstd_lawful 7
    18446744073709551615 rfl (by decide)

end RoundTrip

end Sencd
