import Mathlib.Tactic

/-!
# The packet header (`rel4u_packet.h`, `rel4u_packet.c`)

A datagram is a fixed 24-byte header in network byte order followed by the payload. The encoder
converts each multi-byte field with `htons`/`htonl` and copies its bytes as they lie in memory,
so both functions take the byte order of the host, `Endian`, as a parameter.

* `Header`, `encodeHeader`, `decodeHeader`;
* `PktType` and `DeliveryMode`, the named values of the two header bytes. The bytes themselves
  stay raw in `Header`: a peer can send any value.
* `Packet`, a header with its payload, `mkPacket`, which both endpoints build their packets with,
  and `Packet.datagram`, its bytes.
-/

namespace Rel4u

/-- `REL4U_MAGIC`. -/
def magic : UInt16 := 0x3455

/-- `REL4U_VERSION`. -/
def version : UInt8 := 1

/-- `REL4U_HEADER_LEN`, also `REL4U_HEADER_SIZE`. -/
def headerLen : ℕ := 24

/-- `REL4U_MAX_PAYLOAD_SIZE` and `REL4U_MAX_MSG_SIZE`. -/
def maxPayloadSize : ℕ := 9216

/-- `rel4u_pkt_type_t`. -/
inductive PktType
  | connectReq
  | connectResp
  | connectAck
  | data
  | ack
  | heartbeat
  | heartbeatAck
  | disconnect
  | reject
  | reset
  deriving DecidableEq, Repr

/-- The header byte of a packet type. -/
def PktType.code : PktType → UInt8
  | connectReq => 0x01
  | connectResp => 0x02
  | connectAck => 0x03
  | data => 0x04
  | ack => 0x05
  | heartbeat => 0x06
  | heartbeatAck => 0x07
  | disconnect => 0x08
  | reject => 0x09
  | reset => 0x0A

theorem PktType.code_injective : Function.Injective PktType.code := by
  intro a b h
  cases a <;> cases b <;> first | rfl | exact absurd h (by decide)

/-- `rel4u_delivery_mode_t`. -/
inductive DeliveryMode
  | unreliableUnordered
  | unreliableOrdered
  | reliableUnordered
  | reliableOrdered
  deriving DecidableEq, Repr

/-- The header byte of a delivery mode. -/
def DeliveryMode.code : DeliveryMode → UInt8
  | unreliableUnordered => 0
  | unreliableOrdered => 1
  | reliableUnordered => 2
  | reliableOrdered => 3

/-- A mode byte of one of the two reliable modes. -/
def Reliable (mode : UInt8) : Prop :=
  mode = DeliveryMode.reliableOrdered.code ∨ mode = DeliveryMode.reliableUnordered.code

instance (mode : UInt8) : Decidable (Reliable mode) := inferInstanceAs (Decidable (_ ∨ _))

/-- `rel4u_header_t`. -/
structure Header where
  magic : UInt16
  version : UInt8
  packetType : UInt8
  deliveryMode : UInt8
  flags : UInt8
  payloadLen : UInt16
  sessionId : UInt32
  seqNum : UInt32
  ackNum : UInt32
  sackMask : UInt32
  deriving DecidableEq, Repr

/-! ### Byte order -/

/-- The byte order of the host. -/
inductive Endian
  | little
  | big
  deriving DecidableEq, Repr

/-- The two bytes of a 16-bit word as they lie in memory. -/
def Endian.store16 : Endian → UInt16 → List UInt8
  | little, x => [x.toUInt8, (x >>> 8).toUInt8]
  | big, x => [(x >>> 8).toUInt8, x.toUInt8]

/-- The four bytes of a 32-bit word as they lie in memory. -/
def Endian.store32 : Endian → UInt32 → List UInt8
  | little, x => [x.toUInt8, (x >>> 8).toUInt8, (x >>> 16).toUInt8, (x >>> 24).toUInt8]
  | big, x => [(x >>> 24).toUInt8, (x >>> 16).toUInt8, (x >>> 8).toUInt8, x.toUInt8]

/-- The byte at an offset of a buffer. -/
def byteAt (buf : List UInt8) (i : ℕ) : UInt8 := buf.getD i 0

/-- Read a 16-bit word from memory. -/
def Endian.load16 : Endian → List UInt8 → ℕ → UInt16
  | little, b, i => (byteAt b (i + 1)).toUInt16 <<< 8 ||| (byteAt b i).toUInt16
  | big, b, i => (byteAt b i).toUInt16 <<< 8 ||| (byteAt b (i + 1)).toUInt16

/-- Read a 32-bit word from memory. -/
def Endian.load32 : Endian → List UInt8 → ℕ → UInt32
  | little, b, i => (byteAt b (i + 3)).toUInt32 <<< 24 ||| (byteAt b (i + 2)).toUInt32 <<< 16 |||
      (byteAt b (i + 1)).toUInt32 <<< 8 ||| (byteAt b i).toUInt32
  | big, b, i => (byteAt b i).toUInt32 <<< 24 ||| (byteAt b (i + 1)).toUInt32 <<< 16 |||
      (byteAt b (i + 2)).toUInt32 <<< 8 ||| (byteAt b (i + 3)).toUInt32

/-- `htons`, and `ntohs`: swap the bytes on a little-endian host. -/
def Endian.htons : Endian → UInt16 → UInt16
  | little, x => x <<< 8 ||| x >>> 8
  | big, x => x

/-- `htonl`, and `ntohl`: reverse the bytes on a little-endian host. -/
def Endian.htonl : Endian → UInt32 → UInt32
  | little, x =>
      x <<< 24 ||| (x &&& (0xFF00 : UInt32)) <<< 8 ||| (x >>> 8 &&& (0xFF00 : UInt32)) ||| x >>> 24
  | big, x => x

/-! ### Encoding and decoding -/

/-- `rel4u_packet_encode_header`: the bytes written to the buffer, by increasing offset. -/
def encodeHeader (host : Endian) (hdr : Header) : List UInt8 :=
  host.store16 (host.htons hdr.magic) ++
  [hdr.version, hdr.packetType, hdr.deliveryMode, hdr.flags] ++
  host.store16 (host.htons hdr.payloadLen) ++
  host.store32 (host.htonl hdr.sessionId) ++
  host.store32 (host.htonl hdr.seqNum) ++
  host.store32 (host.htonl hdr.ackNum) ++
  host.store32 (host.htonl hdr.sackMask)

/-- `rel4u_packet_decode_header`, with its negative return codes as errors. -/
def decodeHeader (host : Endian) (inBuf : List UInt8) : Except ℤ Header :=
  if inBuf.length < headerLen then .error (-1)
  else
    let hdr : Header :=
      { magic := host.htons (host.load16 inBuf 0)
        version := byteAt inBuf 2
        packetType := byteAt inBuf 3
        deliveryMode := byteAt inBuf 4
        flags := byteAt inBuf 5
        payloadLen := host.htons (host.load16 inBuf 6)
        sessionId := host.htonl (host.load32 inBuf 8)
        seqNum := host.htonl (host.load32 inBuf 12)
        ackNum := host.htonl (host.load32 inBuf 16)
        sackMask := host.htonl (host.load32 inBuf 20) }
    if hdr.magic ≠ magic then .error (-2)
    else if hdr.version ≠ version then .error (-3)
    else if inBuf.length < headerLen + hdr.payloadLen.toNat then .error (-4)
    else .ok hdr

/-- A packet as the workers see it: its header and the bytes after the header. -/
structure Packet where
  hdr : Header
  payload : List UInt8
  deriving DecidableEq, Repr

/-- What a message is to the application: its mode, its length and its bytes. -/
structure Message where
  mode : UInt8
  len : UInt16
  payload : List UInt8
  deriving DecidableEq, Repr, Inhabited

/-- The message a DATA packet carries. -/
def Packet.message (p : Packet) : Message :=
  { mode := p.hdr.deliveryMode, len := p.hdr.payloadLen,
    payload := p.payload.take p.hdr.payloadLen.toNat }

/-- The packet that `client_send_packet` and `server_send_packet` build; `ackInfo` is what
`rel4u_recv_window_get_ack_info` returns there. -/
def mkPacket (type : PktType) (mode : UInt8) (sessionId seq : UInt32) (ackInfo : UInt32 × UInt32)
    (payload : List UInt8) (payloadLen : ℕ) : Packet :=
  { hdr :=
      { magic := magic
        version := version
        packetType := type.code
        deliveryMode := mode
        flags := 0
        payloadLen := UInt16.ofNat payloadLen
        sessionId := sessionId
        seqNum := seq
        ackNum := ackInfo.1
        sackMask := ackInfo.2 }
    payload := payload.take payloadLen }

/-- The bytes handed to `sendto` for a packet. -/
def Packet.datagram (host : Endian) (p : Packet) : List UInt8 :=
  encodeHeader host p.hdr ++ p.payload

end Rel4u
