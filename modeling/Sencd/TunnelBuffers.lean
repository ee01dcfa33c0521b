import Sencd.CheckedMemory
import Sencd.ClientEnv
import Sencd.SessionManager

/-!
# The buffers of the tunnel loops

`tunnel_compress.c`, `tunnel_packet.c` and the four loops over them, on the buffers that the
loops allocate. Every load, every store and every subtraction of sizes is checked. The loops
never fault, and what they read out of their buffers are the datagrams and packets of the loop
bodies on byte strings.
-/
namespace Sencd
open ByteOrder CheckedMemory

variable {Buf : ℕ → Type} (P : Platform Buf)

section Pipeline

variable {n : ℕ}

/-- A function of zstd that is given `cap` bytes of a buffer to fill, and returns the length of
its result or an error. -/
def zstdInto (result : Option Bytes) (out : Buffer UInt8 n) (offset cap : ℕ) :
    Option (Option ℕ × Buffer UInt8 n) :=
  if offset + cap ≤ n then
    match result with
    | none => some (none, out)
    | some z => (store out offset (z.take cap)).map fun out => (some z.length, out)
  else none

/-- `compressed_len` after the attempt to compress. -/
def tunnelZstdAttemptInto (raw : Bytes) (out : Buffer UInt8 n) (maxPayload : ℕ) :
    Option (ℕ × Buffer UInt8 n) :=
  if P.zstd.compressBound raw.length ≤ maxPayload then do
    let (len, out) ← zstdInto (P.zstd.compress maxPayload raw) out tunnelCompressHeaderSize
      maxPayload
    return (len.getD 0, out)
  else return (0, out)

/-- `tunnel_pipeline_compress`. -/
def tunnelPipelineCompressInto (raw : Bytes) (out : Buffer UInt8 n) (outCapacity : ℕ) :
    Option (ℕ × Buffer UInt8 n) :=
  if outCapacity < tunnelCompressHeaderSize then return (0, out) else do
  let maxPayload ← sizeSub outCapacity tunnelCompressHeaderSize
  let (compressedLen, out) ← tunnelZstdAttemptInto P raw out maxPayload
  if 0 < compressedLen ∧ compressedLen < raw.length then
    let out ← store out 0 [tunnelCompressFlagZstd]
    let out ← store out 1 (objectBytes P.host 4 (htobe32 P.host (.ofNat raw.length)).toNat)
    return (tunnelCompressHeaderSize + compressedLen, out)
  else if raw.length > maxPayload then return (0, out)
  else
    let out ← store out 0 [tunnelCompressFlagNone]
    let out ← store out 1 (List.replicate 4 0)
    let out ← store out tunnelCompressHeaderSize raw
    return (tunnelCompressHeaderSize + raw.length, out)

/-- `original_len`, as the zstd form declares it. -/
def declaredLength (input : Bytes) : ℕ :=
  (be32toh P.host (.ofNat (ofObjectBytes P.host ((input.drop 1).take 4)))).toNat

/-- `tunnel_pipeline_decompress`. -/
def tunnelPipelineDecompressInto (input : Bytes) (out : Buffer UInt8 n) (outCapacity : ℕ) :
    Option (ℕ × Buffer UInt8 n) :=
  if input.length < tunnelCompressHeaderSize then return (0, out) else do
  let payloadLen ← sizeSub input.length tunnelCompressHeaderSize
  let payload := input.drop tunnelCompressHeaderSize
  if input.headD 0 = tunnelCompressFlagNone then
    if payloadLen > outCapacity then return (0, out) else
    let out ← store out 0 payload
    return (payloadLen, out)
  else if input.headD 0 = tunnelCompressFlagZstd then
    if declaredLength P input > outCapacity then return (0, out) else
    let (result, out) ← zstdInto (P.zstd.decompress outCapacity payload) out 0 outCapacity
    match result with
    | none => return (0, out)
    | some len => return (if len ≠ declaredLength P input then 0 else len, out)
  else return (0, out)

/-- `tunnel_packet_encode`. -/
def tunnelPacketEncodeInto (input : TunnelPacketEncode) (ctx : CryptoContext Buf)
    (out : Buffer UInt8 n) : Option (Option ℕ × Buffer UInt8 n) :=
  if input.plaintext.length > tunnelPacketMaxPlaintext then return (none, out) else do
  let out ← store out 0 (objectBytes P.host 8 (htobe64 P.host input.sessionId).toNat)
  let out ← store out 8 (objectBytes P.host 8 (htobe64 P.host input.counter).toNat)
  match cryptoEncryptPacket P ctx input.counter input.plaintext with
  | none => return (none, out)
  | some ciphertext =>
    let out ← store out tunnelHeaderSize ciphertext
    return (some (tunnelHeaderSize + ciphertext.length), out)

/-- `tunnel_packet_decode`. -/
def tunnelPacketDecodeInto (buffer : Bytes) (ctx : CryptoContext Buf) (out : Buffer UInt8 n) :
    Option (Option ℕ × Buffer UInt8 n) :=
  if buffer.length < tunnelHeaderSize + tunnelAeadTagSize ∨ buffer.length > tunnelPacketMaxSize then
    return (none, out)
  else do
  let counter := be64toh P.host (.ofNat (ofObjectBytes P.host ((buffer.drop 8).take 8)))
  let _ciphertextLen ← sizeSub buffer.length tunnelHeaderSize
  match cryptoDecryptPacket P ctx counter (buffer.drop tunnelHeaderSize) with
  | none => return (none, out)
  | some plaintext =>
    let out ← store out 0 plaintext
    return (some plaintext.length, out)

/-- `read`, `recv` and `recvfrom` fill at most the size they are given. -/
def receiveInto (data : Bytes) (out : Buffer UInt8 n) (size : ℕ) :
    Option (ℕ × Buffer UInt8 n) := do
  let out ← store out 0 (data.take size)
  return ((data.take size).length, out)

end Pipeline

section Loops

/-- The buffers of a sender loop. -/
structure SenderBuffers where
  raw : Buffer UInt8 tunnelPacketMaxPlaintext
  compressed : Buffer UInt8 (tunnelPacketMaxPlaintext + tunnelCompressHeaderSize)
  encoded : Buffer UInt8 tunnelPacketMaxSize

/-- The buffers of a receiver loop. -/
structure ReceiverBuffers where
  buffer : Buffer UInt8 tunnelPacketMaxSize
  plaintext : Buffer UInt8 tunnelPacketMaxSize
  decompressed : Buffer UInt8 tunnelPacketMaxPlaintext

/-- The start of a sender's turn: the packet read from the TUN and its packed form. There is no
packed form when the packet is shorter than the loop accepts or does not compress. -/
def packInto (shortest : ℕ) (packet : Bytes) (b : SenderBuffers) :
    Option (Option (Bytes × Bytes) × SenderBuffers) := do
  let (received, raw) ← receiveInto packet b.raw tunnelPacketMaxPlaintext
  let b := { b with raw }
  if received < shortest then return (none, b) else
  let raw ← load b.raw 0 received
  let (compressedLen, compressed) ←
    tunnelPipelineCompressInto P raw b.compressed tunnelPacketMaxPlaintext
  let b := { b with compressed }
  if compressedLen = 0 then return (none, b) else
  let plaintext ← load b.compressed 0 compressedLen
  return (some (raw, plaintext), b)

/-- The end of a sender's turn: the datagram handed to `send` or `sendto`. -/
def sealInto (input : TunnelPacketEncode) (ctx : CryptoContext Buf) (b : SenderBuffers) :
    Option (Option Bytes × SenderBuffers) := do
  let (encodedLen, encoded) ← tunnelPacketEncodeInto P input ctx b.encoded
  let b := { b with encoded }
  match encodedLen with
  | none => return (none, b)
  | some len =>
    let datagram ← load b.encoded 0 len
    return (some datagram, b)

/-- The end of a receiver's turn: the packet handed to `tun_write`. -/
def openInto (datagram : Bytes) (ctx : CryptoContext Buf) (b : ReceiverBuffers) :
    Option (Option Bytes × ReceiverBuffers) := do
  let (plaintextLen, plaintext) ← tunnelPacketDecodeInto P datagram ctx b.plaintext
  let b := { b with plaintext }
  match plaintextLen with
  | none => return (none, b)
  | some len =>
    let plaintext ← load b.plaintext 0 len
    let (finalLen, decompressed) ←
      tunnelPipelineDecompressInto P plaintext b.decompressed tunnelPacketMaxPlaintext
    let b := { b with decompressed }
    if finalLen = 0 then return (none, b) else
    let packet ← load b.decompressed 0 finalLen
    return (some packet, b)

/-- One turn of `client_tun_sender`. -/
def clientTunSenderInto (turn : Client Buf × Bytes) (b : SenderBuffers) :
    Option ((Client Buf × Option Bytes) × SenderBuffers) :=
  let c := turn.1
  if ¬ c.connected then return ((c, none), b) else do
  let (packed, b) ← packInto P 1 turn.2 b
  match packed with
  | none => return ((c, none), b)
  | some (_, plaintext) =>
    let s := c.session
    let counted := { s with crypto := { s.crypto with txNonce := s.crypto.txNonce + 1 } }
    let (datagram, b) ← sealInto P ⟨s.sessionId, s.crypto.txNonce, plaintext⟩ s.crypto b
    return (({ c with session := counted }, datagram), b)

/-- One turn of `session_manager_tun_sender`. -/
def sessionManagerTunSenderInto (turn : SessionManager Buf × Bytes) (b : SenderBuffers) :
    Option ((SessionManager Buf × Option TunSend) × SenderBuffers) :=
  let m := turn.1
  if m.tun = false ∨ m.udpSocket < 0 then return ((m, none), b) else do
  let (packed, b) ← packInto P 20 turn.2 b
  match packed with
  | none => return ((m, none), b)
  | some (raw, plaintext) =>
    let destOctet ← raw[19]?
    match SlotTable.find m.sessions (tunSenderAccepts destOctet) with
    | none => return ((m, none), b)
    | some (i, s) =>
      let sent := { s with crypto := { s.crypto with txNonce := s.crypto.txNonce + 1 } }
      let m := { m with sessions := Function.update m.sessions i (some sent) }
      let (datagram, b) ← sealInto P ⟨s.sessionId, s.crypto.txNonce, plaintext⟩ s.crypto b
      return ((m, datagram.map fun datagram => ⟨i, s.udp.peerAddr, datagram⟩), b)

/-- One turn of `client_udp_receiver`. -/
def clientUdpReceiverInto (turn : Client Buf × Bytes) (b : ReceiverBuffers) :
    Option (Option Bytes × ReceiverBuffers) :=
  let c := turn.1
  if ¬ c.connected then return (none, b) else do
  let (received, buffer) ← receiveInto turn.2 b.buffer tunnelPacketMaxSize
  let b := { b with buffer }
  if received = 0 then return (none, b) else
  let datagram ← load b.buffer 0 received
  let (packet, b) ← openInto P datagram c.session.crypto b
  return (if c.tun then packet else none, b)

/-- One turn of `session_manager_udp_listener`. -/
def sessionManagerUdpListenerInto (turn : SessionManager Buf × SockaddrIn × Bytes)
    (b : ReceiverBuffers) :
    Option ((SessionManager Buf × Option Bytes) × ReceiverBuffers) :=
  let m := turn.1
  if m.udpSocket < 0 then return ((m, none), b) else do
  let (received, buffer) ← receiveInto turn.2.2 b.buffer tunnelPacketMaxSize
  let b := { b with buffer }
  if received = 0 then return ((m, none), b) else
  let datagram ← load b.buffer 0 received
  match udpListenerTarget P m datagram with
  | none => return ((m, none), b)
  | some (i, s) =>
    let s := { s with udp := { s.udp with peerAddr := turn.2.1, peerKnown := true } }
    let m := { m with sessions := Function.update m.sessions i (some s) }
    let (packet, b) ← openInto P datagram s.crypto b
    return ((m, if m.tun then packet else none), b)

end Loops

/-- What is assumed of the libraries: the bound of a compression is not below the input, a
compression within its bound stays below it, and sealing adds the tag. -/
structure Platform.Sized (P : Platform Buf) : Prop where
  le_compressBound (n : ℕ) : n ≤ P.zstd.compressBound n
  compress_length {cap : ℕ} {raw z : Bytes} : P.zstd.compressBound raw.length ≤ cap →
    P.zstd.compress cap raw = some z → z.length ≤ P.zstd.compressBound raw.length
  encrypt_length {k : Buf cryptoSessionKeySize} {nonce p c : Bytes} :
    P.aead.encrypt k nonce p = some c → c.length = p.length + tunnelAeadTagSize
  decrypt_length {k : Buf cryptoSessionKeySize} {nonce p c : Bytes} :
    P.aead.decrypt k nonce c = some p → c.length = p.length + tunnelAeadTagSize

variable {P}

section PipelineSpec

variable {n cap : ℕ} {out : Buffer UInt8 n}

theorem zstdInto_ensures (result : Option Bytes) {offset : ℕ} (h : offset + cap ≤ n) :
    Ensures (zstdInto result out offset cap) fun r => r.1 = result.map List.length ∧
      ∀ z, result = some z → z.length ≤ cap → StandsAt r.2 offset z := by
  unfold zstdInto
  rw [if_pos h]
  cases result with
  | none => exact ⟨_, rfl, rfl, nofun⟩
  | some z =>
      have hfits : offset + (z.take cap).length ≤ n := by
        rw [List.length_take]
        omega
      obtain ⟨out', hout', hstored⟩ := ensures_store out hfits
      refine ⟨(some z.length, out'), ?_, rfl, fun z' hz' hlen => ?_⟩
      · dsimp only
        rw [hout']
        rfl
      · obtain rfl := Option.some.inj hz'
        rw [← List.take_of_length_le hlen]
        exact hstored.here

theorem tunnelZstdAttemptInto_ensures (hP : P.Sized) (raw : Bytes) {maxPayload : ℕ}
    (h : tunnelCompressHeaderSize + maxPayload ≤ n) :
    Ensures (tunnelZstdAttemptInto P raw out maxPayload) fun r =>
      r.1 = (tunnelZstdAttempt P raw maxPayload).length ∧
      StandsAt r.2 tunnelCompressHeaderSize (tunnelZstdAttempt P raw maxPayload) := by
  unfold tunnelZstdAttemptInto tunnelZstdAttempt
  by_cases hbound : P.zstd.compressBound raw.length ≤ maxPayload
  · rw [if_pos hbound, if_pos hbound]
    refine (zstdInto_ensures _ h).bind fun r hr => ensures_pure ?_
    obtain ⟨hlen, hstands⟩ := hr
    rw [hlen]
    cases hz : P.zstd.compress maxPayload raw with
    | none => exact ⟨rfl, .nil (by omega)⟩
    | some z => exact ⟨rfl, hstands z hz ((hP.compress_length hbound hz).trans hbound)⟩
  · rw [if_neg hbound, if_neg hbound]
    exact ensures_pure ⟨rfl, .nil (by omega)⟩

/-- A flag, a length field and data, one behind the other. -/
theorem standsAt_packed {b : Buffer UInt8 n} {flag : UInt8} {field data : Bytes}
    (hfield : field.length = 4) (h : StandsAt b 0 [flag]) (h' : StandsAt b 1 field)
    (hdata : StandsAt b tunnelCompressHeaderSize data) :
    StandsAt b 0 (flag :: (field ++ data)) := by
  have hbehind : StandsAt b (1 + field.length) data := by
    rw [hfield]
    exact hdata
  exact h.append (h'.append hbehind)

/-- Compression does not fault, and fills the buffer with the packed form. -/
theorem tunnelPipelineCompressInto_ensures (hP : P.Sized) (raw : Bytes) (h : cap ≤ n) :
    Ensures (tunnelPipelineCompressInto P raw out cap) fun r =>
      r.1 = (tunnelPipelineCompress P raw cap).length ∧
      StandsAt r.2 0 (tunnelPipelineCompress P raw cap) := by
  unfold tunnelPipelineCompressInto tunnelPipelineCompress
  by_cases hcap : cap < tunnelCompressHeaderSize
  · rw [if_pos hcap, if_pos hcap]
    exact ensures_pure ⟨rfl, .nil (Nat.zero_le n)⟩
  rw [if_neg hcap, if_neg hcap]
  refine (ensures_sizeSub (by omega)).bind fun maxPayload hmax => ?_
  subst hmax
  refine (tunnelZstdAttemptInto_ensures hP raw (by omega)).bind fun r hr => ?_
  obtain ⟨compressedLen, out'⟩ := r
  obtain ⟨rfl, hstands⟩ := hr
  have hheader : tunnelCompressHeaderSize = 5 := rfl
  have hfield : (objectBytes P.host 4 (htobe32 P.host (.ofNat raw.length)).toNat).length = 4 :=
    objectBytes_length _ _ _
  have hzeros : (List.replicate 4 (0 : UInt8)).length = 4 := List.length_replicate
  have hfits := hstands.fits
  dsimp only at hstands hfits ⊢
  refine ensures_ite (fun hz => ?_) fun hz => ?_
  · rw [if_pos hz]
    refine (ensures_store out' (by simp; omega)).bind fun b hb => ?_
    refine (ensures_store b (by omega)).bind fun b' hb' => ensures_pure ⟨?_, ?_⟩
    · simp only [List.length_cons, List.length_append, hfield]
      omega
    · have hdata := hb.standsAt hstands (.inr (by simp))
      exact standsAt_packed hfield (hb'.standsAt hb.here (.inl (by simp))) hb'.here
        (hb'.standsAt hdata (.inr (by omega)))
  rw [if_neg hz]
  refine ensures_ite (fun hraw => ?_) fun hraw => ?_
  · rw [if_pos hraw]
    exact ensures_pure ⟨rfl, .nil (Nat.zero_le n)⟩
  · rw [if_neg hraw]
    refine (ensures_store out' (by simp; omega)).bind fun b hb => ?_
    refine (ensures_store b (by omega)).bind fun b' hb' => ?_
    refine (ensures_store b' (by omega)).bind fun b'' hb'' => ensures_pure ⟨?_, ?_⟩
    · simp only [List.length_cons, List.length_append, hzeros]
      omega
    · have hflag := hb'.standsAt hb.here (.inl (by simp))
      exact standsAt_packed hzeros (hb''.standsAt hflag (.inl (by simp)))
        (hb''.standsAt hb'.here (.inl (by omega))) hb''.here

/-- Decompression does not fault on any input, and fills the buffer with the packet. -/
theorem tunnelPipelineDecompressInto_ensures (input : Bytes) (h : cap ≤ n) :
    Ensures (tunnelPipelineDecompressInto P input out cap) fun r =>
      r.1 = (tunnelPipelineDecompress P input cap).length ∧
      StandsAt r.2 0 (tunnelPipelineDecompress P input cap) := by
  have hempty : Ensures (pure (0, out) : Option (ℕ × Buffer UInt8 n)) fun r =>
      r.1 = ([] : Bytes).length ∧ StandsAt r.2 0 [] := ensures_pure ⟨rfl, .nil (Nat.zero_le n)⟩
  unfold tunnelPipelineDecompressInto tunnelPipelineDecompress
  by_cases hshort : input.length < tunnelCompressHeaderSize
  · rw [if_pos hshort, if_pos hshort]
    exact hempty
  rw [if_neg hshort, if_neg hshort]
  refine (ensures_sizeSub (by omega)).bind fun payloadLen hlen => ?_
  obtain rfl : payloadLen = (input.drop tunnelCompressHeaderSize).length := by
    rw [hlen, List.length_drop]
  dsimp only
  refine ensures_ite (fun hflag => ?_) fun hflag => ?_
  · rw [if_pos hflag]
    refine ensures_ite (fun hlong => ?_) fun hlong => ?_
    · rw [if_pos hlong]
      exact hempty
    · rw [if_neg hlong]
      exact (ensures_store out (by omega)).bind fun out' hout' => ensures_pure ⟨rfl, hout'.here⟩
  rw [if_neg hflag]
  refine ensures_ite (fun hflag' => ?_) fun hflag' => ?_
  · rw [if_pos hflag', ← declaredLength]
    refine ensures_ite (fun hlong => ?_) fun hlong => ?_
    · rw [if_pos hlong]
      exact hempty
    rw [if_neg hlong]
    refine (zstdInto_ensures _ (by omega)).bind fun r hr => ?_
    obtain ⟨result, out'⟩ := r
    obtain ⟨rfl, hstands⟩ := hr
    cases hz : P.zstd.decompress cap (input.drop tunnelCompressHeaderSize) with
    | none => exact ensures_pure ⟨rfl, .nil (Nat.zero_le n)⟩
    | some z =>
        refine ensures_pure ?_
        dsimp only
        by_cases hlength : z.length ≠ declaredLength P input
        · rw [if_pos hlength, if_pos hlength]
          exact ⟨rfl, .nil (Nat.zero_le n)⟩
        · rw [if_neg hlength, if_neg hlength]
          exact ⟨rfl, hstands z hz (by omega)⟩
  · rw [if_neg hflag']
    exact hempty

/-- What a function that fills a buffer makes of an optional result. -/
def Fills (r : Option ℕ × Buffer UInt8 n) (result : Option Bytes) : Prop :=
  r.1 = result.map List.length ∧ ∀ data, result = some data → StandsAt r.2 0 data

theorem tunnelPacketEncodeInto_ensures (hP : P.Sized) (input : TunnelPacketEncode)
    (ctx : CryptoContext Buf) (out : Buffer UInt8 tunnelPacketMaxSize) :
    Ensures (tunnelPacketEncodeInto P input ctx out) fun r =>
      Fills r (tunnelPacketEncode P input ctx) := by
  unfold tunnelPacketEncodeInto tunnelPacketEncode
  by_cases hlong : input.plaintext.length > tunnelPacketMaxPlaintext
  · rw [if_pos hlong, if_pos hlong]
    exact ensures_pure ⟨rfl, nofun⟩
  rw [if_neg hlong, if_neg hlong]
  have hid : (objectBytes P.host 8 (htobe64 P.host input.sessionId).toNat).length = 8 :=
    objectBytes_length _ _ _
  have hcounter : (objectBytes P.host 8 (htobe64 P.host input.counter).toNat).length = 8 :=
    objectBytes_length _ _ _
  have hmax : tunnelPacketMaxSize = 65536 := rfl
  refine (ensures_store out (by omega)).bind fun b hb => ?_
  refine (ensures_store b (by omega)).bind fun b' hb' => ?_
  cases hc : cryptoEncryptPacket P ctx input.counter input.plaintext with
  | none => exact ensures_pure ⟨rfl, nofun⟩
  | some ciphertext =>
      have hlength : ciphertext.length = input.plaintext.length + tunnelAeadTagSize :=
        hP.encrypt_length hc
      have hfits : tunnelHeaderSize + ciphertext.length ≤ tunnelPacketMaxSize := by
        simp only [tunnelPacketMaxPlaintext, tunnelPacketMaxSize, tunnelHeaderSize,
          tunnelAeadTagSize] at hlong hlength ⊢
        omega
      refine (ensures_store b' hfits).bind fun b'' hb'' => ensures_pure ⟨?_, fun data hdata => ?_⟩
      · simp only [Option.map_some, List.length_append, hid, hcounter]
      · obtain rfl := Option.some.inj hdata
        have hid' := hb''.standsAt (hb'.standsAt hb.here (.inl (by omega))) (.inl (by
          simp only [tunnelHeaderSize]
          omega))
        have hcounter' := hb''.standsAt hb'.here (.inl (by
          simp only [tunnelHeaderSize]
          omega))
        rw [List.append_assoc]
        refine hid'.append ?_
        rw [hid]
        refine hcounter'.append ?_
        rw [hcounter]
        exact hb''.here

/-- A decoded plaintext fits where the largest datagram does. -/
theorem tunnelPacketDecode_length (hP : P.Sized) {buffer plaintext : Bytes}
    {ctx : CryptoContext Buf} (h : tunnelPacketDecode P buffer ctx = some plaintext) :
    plaintext.length ≤ tunnelPacketMaxPlaintext := by
  unfold tunnelPacketDecode at h
  split_ifs at h with hsize
  have hlength := hP.decrypt_length h
  simp only [not_or, not_lt, List.length_drop, tunnelPacketMaxPlaintext, tunnelPacketMaxSize,
    tunnelHeaderSize, tunnelAeadTagSize] at hsize hlength ⊢
  omega

theorem tunnelPacketDecodeInto_ensures (hP : P.Sized) (buffer : Bytes) (ctx : CryptoContext Buf)
    (out : Buffer UInt8 tunnelPacketMaxSize) :
    Ensures (tunnelPacketDecodeInto P buffer ctx out) fun r =>
      Fills r (tunnelPacketDecode P buffer ctx) := by
  have hdecoded : ∀ plaintext, tunnelPacketDecode P buffer ctx = some plaintext →
      plaintext.length ≤ tunnelPacketMaxPlaintext := fun _ => tunnelPacketDecode_length hP
  unfold tunnelPacketDecodeInto
  unfold tunnelPacketDecode at hdecoded ⊢
  by_cases hsize : buffer.length < tunnelHeaderSize + tunnelAeadTagSize ∨
      buffer.length > tunnelPacketMaxSize
  · rw [if_pos hsize, if_pos hsize]
    exact ensures_pure ⟨rfl, nofun⟩
  rw [if_neg hsize] at hdecoded ⊢
  rw [if_neg hsize]
  refine (ensures_sizeSub (by omega)).bind fun _ _ => ?_
  dsimp only at hdecoded ⊢
  cases hd : cryptoDecryptPacket P ctx (be64toh P.host
      (.ofNat (ofObjectBytes P.host ((buffer.drop 8).take 8)))) (buffer.drop tunnelHeaderSize) with
  | none => exact ensures_pure ⟨rfl, nofun⟩
  | some plaintext =>
      have hfits : 0 + plaintext.length ≤ tunnelPacketMaxSize := by
        have := hdecoded plaintext hd
        simp only [tunnelPacketMaxPlaintext, tunnelPacketMaxSize] at this ⊢
        omega
      refine (ensures_store out hfits).bind fun out' hout' => ensures_pure ⟨rfl, ?_⟩
      intro data hdata
      obtain rfl := Option.some.inj hdata
      exact hout'.here

theorem receiveInto_ensures (data : Bytes) (h : cap ≤ n) :
    Ensures (receiveInto data out cap) fun r =>
      r.1 = (data.take cap).length ∧ StandsAt r.2 0 (data.take cap) := by
  have hfits : 0 + (data.take cap).length ≤ n := by
    rw [List.length_take]
    omega
  exact (ensures_store out hfits).bind fun out' hout' => ensures_pure ⟨rfl, hout'.here⟩

end PipelineSpec

section LoopSpec

variable (P) in
/-- A packet as it has been read, with its packed form. -/
def packedPacket (shortest : ℕ) (packet : Bytes) : Option (Bytes × Bytes) :=
  let raw := packet.take tunnelPacketMaxPlaintext
  if raw.length < shortest then none else
  let compressed := tunnelPipelineCompress P raw tunnelPacketMaxPlaintext
  if compressed = [] then none else some (raw, compressed)

theorem packInto_ensures (hP : P.Sized) (shortest : ℕ) (packet : Bytes) (b : SenderBuffers) :
    Ensures (packInto P shortest packet b) (·.1 = packedPacket P shortest packet) := by
  unfold packedPacket
  refine (receiveInto_ensures packet le_rfl).bind fun r hr => ?_
  obtain ⟨received, raw⟩ := r
  obtain ⟨rfl, hraw⟩ := hr
  refine ensures_ite (fun hshort => ?_) fun hshort => ?_
  · rw [if_pos hshort]
    exact ensures_pure rfl
  rw [if_neg hshort]
  refine (hraw.ensures_load rfl).bind fun packet' hpacket => ?_
  subst hpacket
  refine (tunnelPipelineCompressInto_ensures hP _ (by omega)).bind fun r hr => ?_
  obtain ⟨compressedLen, compressed⟩ := r
  obtain ⟨rfl, hcompressed⟩ := hr
  refine ensures_ite (fun hnone => ?_) fun hnone => ?_
  · rw [if_pos (List.length_eq_zero_iff.mp hnone)]
    exact ensures_pure rfl
  rw [if_neg (mt List.length_eq_zero_iff.mpr hnone)]
  refine (hcompressed.ensures_load rfl).bind fun plaintext hplaintext => ?_
  subst hplaintext
  exact ensures_pure rfl

theorem sealInto_ensures (hP : P.Sized) (input : TunnelPacketEncode) (ctx : CryptoContext Buf)
    (b : SenderBuffers) :
    Ensures (sealInto P input ctx b) (·.1 = tunnelPacketEncode P input ctx) := by
  refine (tunnelPacketEncodeInto_ensures hP input ctx b.encoded).bind fun r hr => ?_
  obtain ⟨encodedLen, encoded⟩ := r
  obtain ⟨rfl, hencoded⟩ := hr
  cases hd : tunnelPacketEncode P input ctx with
  | none => exact ensures_pure rfl
  | some datagram =>
      refine ((hencoded datagram hd).ensures_load rfl).bind fun _ h => ?_
      subst h
      exact ensures_pure rfl

variable (P) in
/-- The packet that a datagram opens to. -/
def openedPacket (datagram : Bytes) (ctx : CryptoContext Buf) : Option Bytes :=
  match tunnelPacketDecode P datagram ctx with
  | none => none
  | some plaintext =>
    let packet := tunnelPipelineDecompress P plaintext tunnelPacketMaxPlaintext
    if packet = [] then none else some packet

theorem openInto_ensures (hP : P.Sized) (datagram : Bytes) (ctx : CryptoContext Buf)
    (b : ReceiverBuffers) :
    Ensures (openInto P datagram ctx b) (·.1 = openedPacket P datagram ctx) := by
  unfold openedPacket
  refine (tunnelPacketDecodeInto_ensures hP datagram ctx b.plaintext).bind fun r hr => ?_
  obtain ⟨plaintextLen, plaintext⟩ := r
  obtain ⟨rfl, hplaintext⟩ := hr
  cases hd : tunnelPacketDecode P datagram ctx with
  | none => exact ensures_pure rfl
  | some data =>
      refine ((hplaintext data hd).ensures_load rfl).bind fun _ h => ?_
      subst h
      refine (tunnelPipelineDecompressInto_ensures _ le_rfl).bind fun r hr => ?_
      obtain ⟨finalLen, decompressed⟩ := r
      obtain ⟨rfl, hdecompressed⟩ := hr
      dsimp only
      refine ensures_ite (fun hnone => ?_) fun hnone => ?_
      · rw [if_pos (List.length_eq_zero_iff.mp hnone)]
        exact ensures_pure rfl
      rw [if_neg (mt List.length_eq_zero_iff.mpr hnone)]
      refine (hdecompressed.ensures_load rfl).bind fun packet hpacket => ?_
      subst hpacket
      exact ensures_pure rfl

/-- A turn of the client's sender is that of `clientTunSender`. -/
theorem clientTunSenderInto_ensures (hP : P.Sized) (turn : Client Buf × Bytes)
    (b : SenderBuffers) :
    Ensures (clientTunSenderInto P turn b) (·.1 = clientTunSender P turn.1 turn.2) := by
  obtain ⟨c, packet⟩ := turn
  unfold clientTunSenderInto clientTunSender
  dsimp only
  refine ensures_ite (fun hidle => ?_) fun hidle => ?_
  · rw [if_pos (.inl hidle)]
    exact ensures_pure rfl
  refine (packInto_ensures hP 1 packet b).bind fun r hr => ?_
  obtain ⟨packed, b⟩ := r
  obtain rfl : packed = packedPacket P 1 packet := hr
  unfold packedPacket
  dsimp only
  by_cases hshort : (packet.take tunnelPacketMaxPlaintext).length < 1
  · rw [if_pos hshort, if_pos (.inr (List.length_eq_zero_iff.mp (by omega)))]
    exact ensures_pure rfl
  have hrun : ¬ (¬ c.connected ∨ packet.take tunnelPacketMaxPlaintext = []) := by
    rintro (h | h)
    · exact hidle h
    · exact hshort (by simp [h])
  rw [if_neg hshort, if_neg hrun]
  split_ifs with hnone
  · exact ensures_pure rfl
  · exact (sealInto_ensures hP _ _ b).bind fun r hr => ensures_pure (by rw [hr])

/-- A receiver up to the datagram that has arrived in its buffer. -/
theorem received_ensures {β : Type} {idle : Prop} [Decidable idle] {x y : β}
    {k : Bytes → ReceiverBuffers → Option (β × ReceiverBuffers)} (datagram : Bytes)
    (b : ReceiverBuffers)
    (hk : ∀ b, Ensures (k (datagram.take tunnelPacketMaxSize) b) (·.1 = y)) :
    Ensures (if idle then return (x, b) else do
      let (received, buffer) ← receiveInto datagram b.buffer tunnelPacketMaxSize
      if received = 0 then return (x, { b with buffer }) else
      let arrived ← load buffer 0 received
      k arrived { b with buffer })
      (·.1 = if idle ∨ datagram.take tunnelPacketMaxSize = [] then x else y) := by
  refine ensures_ite (fun hidle => ?_) fun hidle => ?_
  · rw [if_pos (.inl hidle)]
    exact ensures_pure rfl
  refine (receiveInto_ensures datagram le_rfl).bind fun r hr => ?_
  obtain ⟨received, buffer⟩ := r
  obtain ⟨rfl, hbuffer⟩ := hr
  refine ensures_ite (fun hnone => ?_) fun hnone => ?_
  · rw [if_pos (.inr (List.length_eq_zero_iff.mp hnone))]
    exact ensures_pure rfl
  have hrun : ¬ (idle ∨ datagram.take tunnelPacketMaxSize = []) := by
    rintro (h | h)
    · exact hidle h
    · exact hnone (List.length_eq_zero_iff.mpr h)
  rw [if_neg hrun]
  refine (hbuffer.ensures_load rfl).bind fun _ h => ?_
  subst h
  exact hk _

theorem clientUdpReceiverInto_ensures (hP : P.Sized) (turn : Client Buf × Bytes)
    (b : ReceiverBuffers) :
    Ensures (clientUdpReceiverInto P turn b) (·.1 = clientUdpReceiver P turn.1 turn.2) := by
  obtain ⟨c, datagram⟩ := turn
  unfold clientUdpReceiver
  refine received_ensures (k := fun arrived b => do
    let (packet, b) ← openInto P arrived c.session.crypto b
    return (if c.tun then packet else none, b)) datagram b fun b => ?_
  refine (openInto_ensures hP _ _ _).bind fun r hr => ensures_pure ?_
  rw [hr]
  unfold openedPacket
  cases tunnelPacketDecode P (datagram.take tunnelPacketMaxSize) c.session.crypto with
  | none => simp
  | some plaintext =>
      dsimp only
      split_ifs <;> rfl

theorem sessionManagerTunSenderInto_ensures (hP : P.Sized) (turn : SessionManager Buf × Bytes)
    (b : SenderBuffers) :
    Ensures (sessionManagerTunSenderInto P turn b)
      (·.1 = sessionManagerTunSender P turn.1 turn.2) := by
  obtain ⟨m, packet⟩ := turn
  unfold sessionManagerTunSenderInto sessionManagerTunSender tunSenderTarget
  dsimp only
  refine ensures_ite (fun hidle => ?_) fun hidle => ?_
  · rw [if_pos (hidle.imp_right .inl)]
    exact ensures_pure rfl
  refine (packInto_ensures hP 20 packet b).bind fun r hr => ?_
  obtain ⟨packed, b⟩ := r
  obtain rfl : packed = packedPacket P 20 packet := hr
  unfold packedPacket
  dsimp only
  generalize packet.take tunnelPacketMaxPlaintext = raw
  by_cases hshort : raw.length < 20
  · rw [if_pos hshort, if_pos (.inr (.inr hshort))]
    exact ensures_pure rfl
  have hrun : ¬ (m.tun = false ∨ m.udpSocket < 0 ∨ raw.length < 20) := by
    rintro (h | h | h)
    · exact hidle (.inl h)
    · exact hidle (.inr h)
    · exact hshort h
  rw [if_neg hshort, if_neg hrun]
  by_cases hnone : tunnelPipelineCompress P raw tunnelPacketMaxPlaintext = []
  · rw [if_pos hnone, if_pos hnone]
    exact ensures_pure rfl
  rw [if_neg hnone, if_neg hnone]
  have hoctet : raw[19]? = some (raw.getD 19 0) := by
    rw [List.getD_eq_getElem?_getD, List.getElem?_eq_getElem (by omega)]
    rfl
  dsimp only
  rw [hoctet]
  refine (ensures_pure (Q := (· = raw.getD 19 0)) rfl).bind fun _ h => ?_
  subst h
  cases SlotTable.find m.sessions (tunSenderAccepts (raw.getD 19 0)) with
  | none => exact ensures_pure rfl
  | some target =>
      obtain ⟨i, s⟩ := target
      refine (sealInto_ensures hP _ _ b).bind fun r hr => ensures_pure ?_
      dsimp only [Option.map_some]
      rw [hr]
      split <;> simp_all

theorem sessionManagerUdpListenerInto_ensures (hP : P.Sized)
    (turn : SessionManager Buf × SockaddrIn × Bytes) (b : ReceiverBuffers) :
    Ensures (sessionManagerUdpListenerInto P turn b)
      (·.1 = sessionManagerUdpListener P turn.1 turn.2.1 turn.2.2) := by
  obtain ⟨m, sender, datagram⟩ := turn
  unfold sessionManagerUdpListener
  refine received_ensures (k := fun arrived b =>
    match udpListenerTarget P m arrived with
    | none => return ((m, none), b)
    | some (i, s) => do
      let s := { s with udp := { s.udp with peerAddr := sender, peerKnown := true } }
      let m := { m with sessions := Function.update m.sessions i (some s) }
      let (packet, b) ← openInto P arrived s.crypto b
      return ((m, if m.tun then packet else none), b)) datagram b fun b => ?_
  dsimp only
  cases udpListenerTarget P m (datagram.take tunnelPacketMaxSize) with
  | none => exact ensures_pure rfl
  | some target =>
      obtain ⟨i, s⟩ := target
      refine (openInto_ensures hP _ _ _).bind fun r hr => ensures_pure ?_
      rw [hr]
      unfold openedPacket
      dsimp only
      cases tunnelPacketDecode P (datagram.take tunnelPacketMaxSize) s.crypto with
      | none => simp
      | some plaintext =>
          dsimp only
          split_ifs <;> rfl

end LoopSpec

section Discipline

variable (P) in
/-- What the two ends of a buffer may rely on, for every input and every buffer that is as large
as it is said to be: compression succeeds exactly when the stored form fits and stays below it,
and decompression stays below the capacity and, for the zstd form, returns the declared
length. -/
structure PipelineDiscipline : Prop where
  compress (raw : Bytes) (cap : ℕ) {n : ℕ} (out : Buffer UInt8 n) : cap ≤ n →
    Ensures (tunnelPipelineCompressInto P raw out cap) fun r =>
      (r.1 ≠ 0 ↔ raw.length + tunnelCompressHeaderSize ≤ cap) ∧
      r.1 ≤ min cap (raw.length + tunnelCompressHeaderSize) ∧
      load r.2 0 r.1 = some (tunnelPipelineCompress P raw cap)
  decompress (input : Bytes) (cap : ℕ) {n : ℕ} (out : Buffer UInt8 n) : cap ≤ n →
    Ensures (tunnelPipelineDecompressInto P input out cap) fun r =>
      r.1 ≤ cap ∧
      (input.headD 0 = tunnelCompressFlagZstd → r.1 = 0 ∨ r.1 = declaredLength P input) ∧
      load r.2 0 r.1 = some (tunnelPipelineDecompress P input cap)

variable (P) in
/-- What passes between the stages: a packed packet passes the length check of the encoder, the
datagram and the decoded plaintext fit their buffers. -/
structure StageDiscipline : Prop where
  encoded (packet : Bytes) (sessionId counter : UInt64) (ctx : CryptoContext Buf) :
    (tunnelPipelineCompress P (packet.take tunnelPacketMaxPlaintext)
      tunnelPacketMaxPlaintext).length ≤ tunnelPacketMaxPlaintext ∧
    ∀ datagram, tunnelPacketEncode P ⟨sessionId, counter, tunnelPipelineCompress P
      (packet.take tunnelPacketMaxPlaintext) tunnelPacketMaxPlaintext⟩ ctx = some datagram →
      datagram.length ≤ tunnelPacketMaxSize
  decoded (datagram : Bytes) (ctx : CryptoContext Buf) (plaintext : Bytes) :
    tunnelPacketDecode P (datagram.take tunnelPacketMaxSize) ctx = some plaintext →
      plaintext.length ≤ tunnelPacketMaxSize

variable (P) in
/-- The loops on their buffers: no turn faults, whatever earlier turns left behind, and each does
what the loop body does. -/
structure LoopDiscipline : Prop where
  clientSender (turns : List (Client Buf × Bytes)) (b : SenderBuffers) :
    Ensures (runTurns (clientTunSenderInto P) turns b)
      (·.1 = turns.map fun t => clientTunSender P t.1 t.2)
  serverSender (turns : List (SessionManager Buf × Bytes)) (b : SenderBuffers) :
    Ensures (runTurns (sessionManagerTunSenderInto P) turns b)
      (·.1 = turns.map fun t => sessionManagerTunSender P t.1 t.2)
  clientReceiver (turns : List (Client Buf × Bytes)) (b : ReceiverBuffers) :
    Ensures (runTurns (clientUdpReceiverInto P) turns b)
      (·.1 = turns.map fun t => clientUdpReceiver P t.1 t.2)
  serverListener (turns : List (SessionManager Buf × SockaddrIn × Bytes)) (b : ReceiverBuffers) :
    Ensures (runTurns (sessionManagerUdpListenerInto P) turns b)
      (·.1 = turns.map fun t => sessionManagerUdpListener P t.1 t.2.1 t.2.2)

/-- A compressed packet is no longer than the capacity. -/
theorem tunnelPipelineCompress_length_le_cap (hP : P.Sized) (raw : Bytes) (cap : ℕ) :
    (tunnelPipelineCompress P raw cap).length ≤ cap := by
  have hlength := tunnelPipelineCompress_length_le P raw cap
  by_cases hnil : tunnelPipelineCompress P raw cap = []
  · simp [hnil]
  · have hfits := (tunnelPipelineCompress_ne_nil P (hP.le_compressBound _) cap).mp hnil
    omega

/-- So is a decompressed one, and the zstd form has the length it declares. -/
theorem tunnelPipelineDecompress_length (input : Bytes) (cap : ℕ) :
    (tunnelPipelineDecompress P input cap).length ≤ cap ∧
      (input.headD 0 = tunnelCompressFlagZstd →
        (tunnelPipelineDecompress P input cap).length = 0 ∨
        (tunnelPipelineDecompress P input cap).length = declaredLength P input) := by
  have hempty : ([] : Bytes).length ≤ cap ∧ (input.headD 0 = tunnelCompressFlagZstd →
      ([] : Bytes).length = 0 ∨ ([] : Bytes).length = declaredLength P input) :=
    ⟨Nat.zero_le cap, fun _ => .inl rfl⟩
  unfold tunnelPipelineDecompress
  by_cases hshort : input.length < tunnelCompressHeaderSize
  · rw [if_pos hshort]
    exact hempty
  rw [if_neg hshort]
  dsimp only
  by_cases hstored : input.headD 0 = tunnelCompressFlagNone
  · rw [if_pos hstored]
    by_cases hlong : (input.drop tunnelCompressHeaderSize).length > cap
    · rw [if_pos hlong]
      exact hempty
    · rw [if_neg hlong]
      refine ⟨by omega, fun hzstd => ?_⟩
      rw [hstored] at hzstd
      contradiction
  rw [if_neg hstored]
  by_cases hzstd : input.headD 0 = tunnelCompressFlagZstd
  swap
  · rw [if_neg hzstd]
    exact hempty
  rw [if_pos hzstd, ← declaredLength]
  by_cases hlong : declaredLength P input > cap
  · rw [if_pos hlong]
    exact hempty
  rw [if_neg hlong]
  cases P.zstd.decompress cap (input.drop tunnelCompressHeaderSize) with
  | none => exact hempty
  | some z =>
      dsimp only
      by_cases hlength : z.length ≠ declaredLength P input
      · rw [if_pos hlength]
        exact hempty
      · rw [if_neg hlength]
        exact ⟨by omega, fun _ => .inr (by omega)⟩

theorem pipelineDiscipline (hP : P.Sized) : PipelineDiscipline P where
  compress raw cap _ out h := by
    refine (tunnelPipelineCompressInto_ensures hP raw h).mono fun r hr => ?_
    obtain ⟨hlen, hstands⟩ := hr
    have hle := tunnelPipelineCompress_length_le P raw cap
    have hcap := tunnelPipelineCompress_length_le_cap hP raw cap
    rw [hlen]
    refine ⟨?_, by omega, hstands.load⟩
    rw [ne_eq, List.length_eq_zero_iff]
    exact tunnelPipelineCompress_ne_nil P (hP.le_compressBound _) cap
  decompress input cap _ out h := by
    refine (tunnelPipelineDecompressInto_ensures input h).mono fun r hr => ?_
    obtain ⟨hlen, hstands⟩ := hr
    rw [hlen]
    obtain ⟨hle, hdeclared⟩ := tunnelPipelineDecompress_length (P := P) input cap
    exact ⟨hle, hdeclared, hstands.load⟩

theorem stageDiscipline (hP : P.Sized) : StageDiscipline P where
  encoded packet sessionId counter ctx := by
    refine ⟨tunnelPipelineCompress_length_le_cap hP _ _, fun datagram h => ?_⟩
    obtain ⟨hmax, c, hc, rfl⟩ := tunnelPacketEncode_eq_some P h
    have hlength := hP.encrypt_length hc
    simp only [List.length_append, beBytes_length, hlength, tunnelPacketMaxPlaintext,
      tunnelPacketMaxSize, tunnelHeaderSize, tunnelAeadTagSize] at hmax ⊢
    omega
  decoded datagram ctx plaintext h := by
    have hlength := tunnelPacketDecode_length hP h
    simp only [tunnelPacketMaxPlaintext, tunnelPacketMaxSize] at hlength ⊢
    omega

/-- The buffers of the tunnel loops hold what is put into them, whatever is sent and received. -/
theorem tunnel_buffers_hold (hP : P.Sized) :
    PipelineDiscipline P ∧ StageDiscipline P ∧ LoopDiscipline P :=
  ⟨pipelineDiscipline hP, stageDiscipline hP, {
    clientSender := ensures_runTurns (clientTunSenderInto_ensures hP)
    serverSender := ensures_runTurns (sessionManagerTunSenderInto_ensures hP)
    clientReceiver := ensures_runTurns (clientUdpReceiverInto_ensures hP)
    serverListener := ensures_runTurns (sessionManagerUdpListenerInto_ensures hP) }⟩

/-- A compression that shrinks: a run of one byte becomes that byte and its length. -/
def runZstd : Zstd where
  compressBound n := n + 2
  compress cap raw :=
    if 2 ≤ cap ∧ raw.length < 256 ∧ raw = List.replicate raw.length (raw.headD 0) then
      some [raw.headD 0, .ofNat raw.length]
    else none
  decompress cap
    | [b, n] => if n.toNat ≤ cap then some (List.replicate n.toNat b) else none
    | _ => none

def runPlatform (Buf : ℕ → Type) : Platform Buf := ⟨.little, copyAead _, runZstd⟩

theorem runPlatform_sized (Buf : ℕ → Type) : (runPlatform Buf).Sized where
  le_compressBound n := Nat.le_add_right n 2
  compress_length {cap raw z} _ h := by
    obtain rfl := Option.some.inj (Option.ite_none_right_eq_some.mp h).2
    exact Nat.le_add_left 2 raw.length
  encrypt_length h := (copyAead_lawful _).encrypt_length h
  decrypt_length {_ _ p c} h := by
    change (if c.drop (c.length - tunnelAeadTagSize) = List.replicate tunnelAeadTagSize 0 then
      some (c.take (c.length - tunnelAeadTagSize)) else none) = some p at h
    split_ifs at h with htag
    obtain rfl := Option.some.inj h
    have hlength := congrArg List.length htag
    simp only [List.length_drop, List.length_replicate, List.length_take] at hlength ⊢
    omega

/-- Twenty equal bytes are packed into seven. -/
example : tunnelPipelineCompress (runPlatform ByteBuf) (List.replicate 20 9) 64 =
    tunnelCompressFlagZstd :: [0, 0, 0, 20, 9, 20] := by decide

theorem tunnel_buffers_hold_run : PipelineDiscipline (runPlatform ByteBuf) ∧
    StageDiscipline (runPlatform ByteBuf) ∧ LoopDiscipline (runPlatform ByteBuf) :=
  tunnel_buffers_hold (runPlatform_sized ByteBuf)

end Discipline

end Sencd
