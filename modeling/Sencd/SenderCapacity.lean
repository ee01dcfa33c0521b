import Sencd.TunDispatch

/-!
# Packets the senders drop for their length

Both tunnel senders read up to `TUNNEL_PACKET_MAX_PLAINTEXT` bytes from the TUN and pack what
they have read into a capacity of the same size. The packed form has a header of its own, so
the longest packets that can be read cannot be packed, and the loops pass over them.
-/
namespace Sencd
open ByteOrder

variable {Buf : ℕ → Type} (P : Platform Buf)

/-- A turn of one of the two senders: the state its loop works on and what `tun_read` has put
into the raw buffer. -/
inductive SenderTurn (Buf : ℕ → Type)
  | server (m : SessionManager Buf) (raw : Bytes)
  | client (c : Client Buf) (raw : Bytes)

namespace SenderTurn

def raw : SenderTurn Buf → Bytes
  | .server _ raw => raw
  | .client _ raw => raw

/-- The fewest bytes the loop does not pass over. -/
def shortest : SenderTurn Buf → ℕ
  | .server _ _ => 20
  | .client _ _ => 1

/-- The loop is running and there is a session to send the packet under. -/
def Available : SenderTurn Buf → Prop
  | .server m raw => m.tun = true ∧ 0 ≤ m.udpSocket ∧ ∃ i s, AddressedTo m raw i s
  | .client c _ => c.connected

/-- One `tun_read` can return the packet, and the loop does not pass over it. -/
structure Readable (t : SenderTurn Buf) : Prop where
  read : t.raw.length ≤ tunnelPacketMaxPlaintext
  taken : t.shortest ≤ t.raw.length

/-- What the turn hands to `sendto` or `send`. -/
def datagram : SenderTurn Buf → Option Bytes
  | .server m raw => (sessionManagerTunSender P m raw).2.map TunSend.datagram
  | .client c raw => (clientTunSender P c raw).2

/-- The turn with the state it leaves behind. -/
def after : SenderTurn Buf → SenderTurn Buf
  | .server m raw => .server (sessionManagerTunSender P m raw).1 raw
  | .client c raw => .client (clientTunSender P c raw).1 raw

/-- A packet that could be read and had a session is not sent, and nothing shows that it was
there. -/
structure Dropped (t : SenderTurn Buf) : Prop where
  available : t.Available
  readable : t.Readable
  unsent : t.datagram P = none
  unchanged : t.after P = t

end SenderTurn

variable {P} {m : SessionManager Buf} {c : Client Buf} {raw : Bytes} {t : SenderTurn Buf}

/-- The header leaves no room for the packets over `packetMaxSize`. -/
theorem tunnelPipelineCompress_of_long (hP : P.Seals)
    (hread : raw.length ≤ tunnelPacketMaxPlaintext)
    (hlong : packetMaxSize < raw.length) :
    tunnelPipelineCompress P raw tunnelPacketMaxPlaintext = [] := by
  by_contra hpacked
  have hfit := (tunnelPipelineCompress_ne_nil P (hP.le_compressBound hread) _).mp hpacked
  simp only [packetMaxSize] at hlong
  omega

/-- The server looks for no session before the packet is packed. -/
theorem tunSenderTarget_unpacked
    (h : tunnelPipelineCompress P (raw.take tunnelPacketMaxPlaintext)
      tunnelPacketMaxPlaintext = []) : tunSenderTarget P m raw = none := by
  by_contra hsome
  obtain ⟨⟨compressed, i, s⟩, htarget⟩ := Option.ne_none_iff_exists'.mp hsome
  obtain ⟨-, rfl, hne, -⟩ := (tunSenderTarget_eq_some P).mp htarget
  exact hne h

/-- A packet over `packetMaxSize` goes no further than the compression, whatever it contains. -/
theorem SenderTurn.unsent_of_long (hP : P.Seals) (hread : t.raw.length ≤ tunnelPacketMaxPlaintext)
    (hlong : packetMaxSize < t.raw.length) : t.datagram P = none ∧ t.after P = t := by
  have hpacked := tunnelPipelineCompress_of_long hP hread hlong
  rw [← List.take_of_length_le hread] at hpacked
  cases t with
  | server m raw =>
      have hsender : sessionManagerTunSender P m raw = (m, none) :=
        sessionManagerTunSender_idle P (tunSenderTarget_unpacked hpacked)
      simp only [datagram, after, hsender, Option.map_none, and_self]
  | client c raw =>
      have hsender : clientTunSender P c raw = (c, none) :=
        clientTunSender_idle (.inr (.inr hpacked))
      simp only [datagram, after, hsender, and_self]

/-- A packet that leaves room for the header is sent under the session that is there. -/
theorem SenderTurn.sent_of_short (hP : P.Seals) (havailable : t.Available)
    (htaken : t.shortest ≤ t.raw.length) (hshort : t.raw.length ≤ packetMaxSize) :
    ∃ datagram, t.datagram P = some datagram := by
  cases t with
  | server m raw =>
      obtain ⟨htun, hsocket, i, s, haddressed⟩ := havailable
      obtain ⟨j, s', hlookup⟩ := haddressed.find
      obtain ⟨send, hsend, -⟩ :=
        (encodedFor_iff_find hP htun hsocket htaken).mpr ⟨hshort, s', hlookup⟩
      exact ⟨send.datagram, Option.map_eq_some_iff.mpr ⟨send, hsend, rfl⟩⟩
  | client c raw =>
      have hlen : raw.length + tunnelCompressHeaderSize ≤ tunnelPacketMaxPlaintext :=
        Nat.add_le_of_le_sub (by decide) hshort
      exact clientTunSender_sends hP havailable (List.ne_nil_of_length_pos htaken) hlen

/-- With a session to send it under, a packet becomes a datagram exactly when it leaves room for
the header of its packed form. -/
theorem sender_sends_iff (hP : P.Seals) (t : SenderTurn Buf) (havailable : t.Available)
    (hreadable : t.Readable) :
    (∃ datagram, t.datagram P = some datagram) ↔ t.raw.length ≤ packetMaxSize := by
  constructor
  · rintro ⟨datagram, hsent⟩
    by_contra hlong
    have hunsent := (SenderTurn.unsent_of_long hP hreadable.read (by omega)).1
    rw [hsent] at hunsent
    contradiction
  · intro hshort
    exact SenderTurn.sent_of_short hP havailable hreadable.taken hshort

-- Of the lengths one read can return, the last five are dropped.
example : packetMaxSize = 65499 ∧ tunnelPacketMaxPlaintext = 65504 := by decide

section Runs

/-- A session of the one guest is there for every packet with the octet 2. -/
theorem heardManager_available (h : raw.getD 19 0 = 2) :
    (SenderTurn.server (heardManager 1 0) raw).Available := by
  obtain ⟨hslot, haccepts, -⟩ := SlotTable.find_eq_some.mp (heardManager_find raw h)
  exact ⟨heardManager_tun, heardManager_socket, _, _, addressedTo_iff.mpr ⟨hslot, haccepts⟩⟩

/-- A reply of 20 bytes is sent. -/
theorem sender_sends_reply :
    (∃ datagram, (SenderTurn.server (heardManager 1 0) guestReply).datagram
      (copyPlatform MsgBuf) = some datagram) ↔ guestReply.length ≤ packetMaxSize :=
  sender_sends_iff (copyPlatform_seals _) _ (heardManager_available (by decide))
    ⟨by decide, by decide⟩

/-- An IPv4 packet of 65500 bytes between two addresses of the tunnel: the header, with a
checksum that is the same both ways, and zeros. -/
def longPacket (source destination : UInt8) : Bytes :=
  [69, 0, 255, 220, 0, 0, 0, 0, 64, 253, 102, 18, 10, 8, 0, source, 10, 8, 0, destination] ++
    List.replicate 65480 0

theorem longPacket_length (source destination : UInt8) :
    (longPacket source destination).length = 65500 := by
  simp only [longPacket, List.length_append, List.length_replicate, List.length_cons,
    List.length_nil]

/-- Whoever has a session drops the long packet it reads. -/
theorem dropped_of_longPacket {t : SenderTurn MsgBuf} {source destination : UInt8}
    (hraw : t.raw = longPacket source destination) (havailable : t.Available) :
    t.Dropped (copyPlatform MsgBuf) := by
  have hlength : t.raw.length = 65500 := by rw [hraw, longPacket_length]
  have hread : t.raw.length ≤ tunnelPacketMaxPlaintext := by
    rw [hlength]
    decide
  have htaken : t.shortest ≤ t.raw.length := by
    rw [hlength]
    cases t with
    | server m raw => simp only [SenderTurn.shortest, Nat.reduceLeDiff]
    | client c raw => simp only [SenderTurn.shortest, Nat.reduceLeDiff]
  have hlong : packetMaxSize < t.raw.length := by
    rw [hlength]
    decide
  obtain ⟨hunsent, hunchanged⟩ :=
    SenderTurn.unsent_of_long (copyPlatform_seals MsgBuf) hread hlong
  exact ⟨havailable, ⟨hread, htaken⟩, hunsent, hunchanged⟩

/-- The server drops the long packet to its guest, and the guest the one to the server. -/
theorem longPacket_dropped : (copyPlatform MsgBuf).Seals ∧
    (SenderTurn.server (heardManager 1 0) (longPacket 1 2)).Dropped (copyPlatform MsgBuf) ∧
    (SenderTurn.client (guestTunnel 0) (longPacket 2 1)).Dropped (copyPlatform MsgBuf) :=
  ⟨copyPlatform_seals MsgBuf,
    dropped_of_longPacket rfl (heardManager_available rfl),
    dropped_of_longPacket rfl (guestTunnel_connected 0)⟩

end Runs

end Sencd
