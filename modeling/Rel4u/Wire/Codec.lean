import Rel4u.Lib.BigEndian
import Rel4u.Wire.Packet

/-!
# The header codec is a bijection on its format

The encoder stores `htons`/`htonl` of each field and the decoder applies `ntohs`/`ntohl` to what it
loads. On either host this comes to writing and reading big-endian bytes (`store16_htons`,
`htons_load16` and the two for 32 bits), so the host disappears from the codec: `encodeHeader` is
`headerBytes`, and `decodeHeader` accepts exactly the buffers whose `headerAt` passes its checks.
-/

open BigEndian

namespace Rel4u

/-! ### Byte order -/

theorem Endian.store16_htons (host : Endian) (x : UInt16) :
    host.store16 (host.htons x) = [(x >>> 8).toUInt8, x.toUInt8] := by
  cases host with
  | big => rfl
  | little =>
    have hswap : Endian.little.htons x = word16 x.toUInt8 (x >>> 8).toUInt8 := by
      rw [← swap_word16, word16_bytes]
      rfl
    rw [hswap]
    simp only [Endian.store16, toUInt8_word16, toUInt8_word16_shiftRight]

theorem Endian.htons_load16 (host : Endian) (b : List UInt8) (i : ℕ) :
    host.htons (host.load16 b i) = word16 (byteAt b i) (byteAt b (i + 1)) := by
  cases host with
  | big => rfl
  | little => exact swap_word16 _ _

theorem Endian.store32_htonl (host : Endian) (x : UInt32) :
    host.store32 (host.htonl x) =
      [(x >>> 24).toUInt8, (x >>> 16).toUInt8, (x >>> 8).toUInt8, x.toUInt8] := by
  cases host with
  | big => rfl
  | little =>
    have hswap : Endian.little.htonl x =
        word32 x.toUInt8 (x >>> 8).toUInt8 (x >>> 16).toUInt8 (x >>> 24).toUInt8 :=
      swap_word32 _ _ _ _ x (word32_bytes x).symm
    obtain ⟨h₃, h₂, h₁, h₀⟩ :=
      bytes_word32 x.toUInt8 (x >>> 8).toUInt8 (x >>> 16).toUInt8 (x >>> 24).toUInt8
    rw [hswap]
    simp only [Endian.store32, h₃, h₂, h₁, h₀]

theorem Endian.htonl_load32 (host : Endian) (b : List UInt8) (i : ℕ) :
    host.htonl (host.load32 b i) =
      word32 (byteAt b i) (byteAt b (i + 1)) (byteAt b (i + 2)) (byteAt b (i + 3)) := by
  cases host with
  | big => rfl
  | little => exact swap_word32 _ _ _ _ _ rfl

/-! ### The format -/

/-- The 24 bytes of a header on the wire. -/
def headerBytes (hdr : Header) : List UInt8 :=
  [(hdr.magic >>> 8).toUInt8, hdr.magic.toUInt8, hdr.version, hdr.packetType, hdr.deliveryMode,
    hdr.flags, (hdr.payloadLen >>> 8).toUInt8, hdr.payloadLen.toUInt8,
    (hdr.sessionId >>> 24).toUInt8, (hdr.sessionId >>> 16).toUInt8,
    (hdr.sessionId >>> 8).toUInt8, hdr.sessionId.toUInt8,
    (hdr.seqNum >>> 24).toUInt8, (hdr.seqNum >>> 16).toUInt8,
    (hdr.seqNum >>> 8).toUInt8, hdr.seqNum.toUInt8,
    (hdr.ackNum >>> 24).toUInt8, (hdr.ackNum >>> 16).toUInt8,
    (hdr.ackNum >>> 8).toUInt8, hdr.ackNum.toUInt8,
    (hdr.sackMask >>> 24).toUInt8, (hdr.sackMask >>> 16).toUInt8,
    (hdr.sackMask >>> 8).toUInt8, hdr.sackMask.toUInt8]

/-- The 32-bit big-endian word at an offset. -/
def wordAt (b : List UInt8) (i : ℕ) : UInt32 :=
  word32 (byteAt b i) (byteAt b (i + 1)) (byteAt b (i + 2)) (byteAt b (i + 3))

/-- The header that the first 24 bytes of a buffer spell. -/
def headerAt (b : List UInt8) : Header :=
  { magic := word16 (byteAt b 0) (byteAt b 1)
    version := byteAt b 2
    packetType := byteAt b 3
    deliveryMode := byteAt b 4
    flags := byteAt b 5
    payloadLen := word16 (byteAt b 6) (byteAt b 7)
    sessionId := wordAt b 8
    seqNum := wordAt b 12
    ackNum := wordAt b 16
    sackMask := wordAt b 20 }

/-- The encoder does not depend on the host. -/
theorem encodeHeader_eq (host : Endian) (hdr : Header) :
    encodeHeader host hdr = headerBytes hdr := by
  simp only [encodeHeader, Endian.store16_htons, Endian.store32_htonl]
  rfl

theorem length_encodeHeader (host : Endian) (hdr : Header) :
    (encodeHeader host hdr).length = headerLen := by
  rw [encodeHeader_eq]
  rfl

/-- Reading a header behind which anything may follow. -/
theorem headerAt_append (host : Endian) (hdr : Header) (p : List UInt8) :
    headerAt (encodeHeader host hdr ++ p) = hdr := by
  obtain ⟨magic, version, packetType, deliveryMode, flags, payloadLen, sessionId, seqNum, ackNum,
    sackMask⟩ := hdr
  rw [encodeHeader_eq]
  show Header.mk (word16 _ _) _ _ _ _ (word16 _ _) (word32 _ _ _ _) (word32 _ _ _ _)
    (word32 _ _ _ _) (word32 _ _ _ _) = _
  simp only [headerBytes, byteAt, List.cons_append, List.getD_cons_zero, List.getD_cons_succ,
    word16_bytes, word32_bytes]

/-- Writing the header that was read gives the bytes it was read from. -/
theorem encodeHeader_headerAt (host : Endian) {b : List UInt8} (hb : headerLen ≤ b.length) :
    encodeHeader host (headerAt b) = b.take headerLen := by
  have hbytes : b.take headerLen = (List.range headerLen).map (byteAt b) := by
    apply List.ext_getElem
    · simpa using hb
    · intro i h₁ h₂
      have hi : i < b.length := by
        rw [List.length_take] at h₁
        omega
      simp [byteAt, hi]
  rw [encodeHeader_eq, hbytes]
  simp only [headerBytes, headerAt, wordAt, toUInt8_word16, toUInt8_word16_shiftRight,
    bytes_word32]
  rfl

/-- The decoder accepts a buffer exactly when it is long enough, for the header and for the payload
that the header announces, and starts with the magic and the version; it then returns the header
that the bytes spell. -/
theorem decodeHeader_eq_ok_iff {host : Endian} {b : List UInt8} {hdr : Header} :
    decodeHeader host b = .ok hdr ↔ headerLen ≤ b.length ∧ hdr = headerAt b ∧
      hdr.magic = magic ∧ hdr.version = version ∧
      headerLen + hdr.payloadLen.toNat ≤ b.length := by
  have hread : decodeHeader host b =
      if b.length < headerLen then .error (-1)
      else if (headerAt b).magic ≠ magic then .error (-2)
      else if (headerAt b).version ≠ version then .error (-3)
      else if b.length < headerLen + (headerAt b).payloadLen.toNat then .error (-4)
      else .ok (headerAt b) := by
    simp only [decodeHeader, Endian.htons_load16, Endian.htonl_load32]
    rfl
  rw [hread]
  constructor
  · intro h
    split at h
    · cases h
    split at h
    · cases h
    split at h
    · cases h
    split at h
    · cases h
    cases h
    refine ⟨by omega, rfl, ?_, ?_, by omega⟩
    · rwa [← not_ne_iff]
    · rwa [← not_ne_iff]
  · rintro ⟨hlen, rfl, hmagic, hversion, hpay⟩
    rw [if_neg (by omega), if_neg (by simpa using hmagic), if_neg (by simpa using hversion),
      if_neg (by omega)]

/-- **Decoding after encoding**, whatever follows the header, if there is enough of it. -/
theorem decodeHeader_encodeHeader_append (host : Endian) {hdr : Header} {p : List UInt8}
    (hmagic : hdr.magic = magic) (hversion : hdr.version = version)
    (hp : hdr.payloadLen.toNat ≤ p.length) :
    decodeHeader host (encodeHeader host hdr ++ p) = .ok hdr := by
  have hlen : (encodeHeader host hdr ++ p).length = headerLen + p.length := by
    rw [List.length_append, length_encodeHeader]
  rw [decodeHeader_eq_ok_iff, hlen]
  exact ⟨by omega, (headerAt_append host hdr p).symm, hmagic, hversion, by omega⟩

/-- **Encoding after decoding** gives the first 24 bytes back. -/
theorem encodeHeader_of_decodeHeader (host : Endian) {b : List UInt8} {hdr : Header}
    (h : decodeHeader host b = .ok hdr) : encodeHeader host hdr = b.take headerLen := by
  obtain ⟨hlen, rfl, -⟩ := decodeHeader_eq_ok_iff.1 h
  exact encodeHeader_headerAt host hlen

/-- What the decoder asks of a buffer, byte by byte. -/
def WellFormed (b : List UInt8) : Prop :=
  24 ≤ b.length ∧ byteAt b 0 = 0x34 ∧ byteAt b 1 = 0x55 ∧ byteAt b 2 = 1 ∧
    24 + ((byteAt b 6).toNat * 256 + (byteAt b 7).toNat) ≤ b.length

instance (b : List UInt8) : Decidable (WellFormed b) := inferInstanceAs (Decidable (_ ∧ _))

/-- **The decoder accepts exactly the well formed buffers.** -/
theorem exists_decodeHeader_iff (host : Endian) (b : List UInt8) :
    (∃ hdr, decodeHeader host b = .ok hdr) ↔ WellFormed b := by
  have hmagic : (headerAt b).magic = magic ↔ byteAt b 0 = 0x34 ∧ byteAt b 1 = 0x55 := by
    have hword : magic = word16 0x34 0x55 := by decide
    rw [hword]
    exact word16_inj
  have hlen : (headerAt b).payloadLen.toNat =
      (byteAt b 6).toNat * 256 + (byteAt b 7).toNat := toNat_word16 _ _
  constructor
  · rintro ⟨hdr, h⟩
    obtain ⟨h₁, rfl, h₂, h₃, h₄⟩ := decodeHeader_eq_ok_iff.1 h
    rw [hlen] at h₄
    exact ⟨h₁, (hmagic.1 h₂).1, (hmagic.1 h₂).2, h₃, h₄⟩
  · rintro ⟨h₁, h₂, h₃, h₄, h₅⟩
    rw [← hlen] at h₅
    exact ⟨headerAt b, decodeHeader_eq_ok_iff.2 ⟨h₁, rfl, hmagic.2 ⟨h₂, h₃⟩, h₄, h₅⟩⟩

end Rel4u
