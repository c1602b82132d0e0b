import Rel4u.Wire.Codec
import Rel4u.Worker.SharedInv
import Rel4u.Server.Model

/-!
# Payload copies stay in bounds

Neither the receive window nor the workers compare `payload_len` with the length of the arrays they
copy to, `payload` of a slot and `data` of a queue item, both of `maxPayloadSize` bytes. They rely
on the decoder, which compares it with the number of bytes received, and on the buffer, which has
room for no more than a header and `maxPayloadSize` bytes. A slot that fits stays one that fits
through every function of the receive window, since they only copy slots and clear marks.
-/

namespace Rel4u

/-- The payload of a slot lies in its array. -/
def RecvSlot.Fits (s : RecvSlot) : Prop :=
  s.payloadLen.toNat ≤ maxPayloadSize ∧ s.payload.length ≤ maxPayloadSize

theorem RecvSlot.fits_default : (default : RecvSlot).Fits := ⟨by decide, by decide⟩

theorem RecvSlot.Fits.clear {s : RecvSlot} (h : s.Fits) : s.clear.Fits := h

namespace RecvWindow

/-- Every slot of the window fits. -/
def Fits (w : RecvWindow) : Prop := ∀ s ∈ w.slots, s.Fits

/-- The window and the slots handed out all fit. -/
def AllFit (r : RecvWindow × List RecvSlot) : Prop := r.1.Fits ∧ ∀ s ∈ r.2, s.Fits

theorem fits_fresh (c s : UInt32) : (fresh c s).Fits := by
  intro x hx
  rw [List.eq_of_mem_replicate hx]
  exact RecvSlot.fits_default

section Window

variable {w : RecvWindow}

theorem Fits.slot (hw : w.Fits) (i : ℕ) : (w.slot i).Fits := by
  rcases Nat.lt_or_ge i w.slots.length with hi | hi
  · rw [RecvWindow.slot, List.getD_eq_getElem _ _ hi]
    exact hw _ (List.getElem_mem hi)
  · rw [RecvWindow.slot, List.getD_eq_default _ _ hi]
    exact RecvSlot.fits_default

theorem Fits.setSlot (hw : w.Fits) (i : ℕ) {s : RecvSlot} (hs : s.Fits) : (w.setSlot i s).Fits := by
  intro x hx
  rcases List.mem_or_eq_of_mem_set hx with h | rfl
  · exact hw x h
  · exact hs

theorem Fits.advance (hw : w.Fits) : w.advance.Fits :=
  hw.setSlot _ (hw.slot _).clear

theorem Fits.allFit_nil (hw : w.Fits) : AllFit (w, []) := ⟨hw, List.forall_mem_nil _⟩

theorem AllFit.append {r : RecvWindow × List RecvSlot} (hr : AllFit r) {l : List RecvSlot}
    (hl : ∀ s ∈ l, s.Fits) : AllFit (r.1, l ++ r.2) := by
  refine ⟨hr.1, fun s hs => ?_⟩
  rcases List.mem_append.1 hs with h | h
  · exact hl s h
  · exact hr.2 s h

theorem fits_snoc {l : List RecvSlot} (hl : ∀ s ∈ l, s.Fits) {s : RecvSlot} (hs : s.Fits) :
    ∀ x ∈ l ++ [s], x.Fits := by
  intro x hx
  rcases List.mem_append.1 hx with h | h
  · exact hl x h
  · rw [List.mem_singleton.1 h]
    exact hs

/-! ### The loops -/

theorem popLoop_fits (maxReady fuel : ℕ) : ∀ {w : RecvWindow} {ready : List RecvSlot},
    AllFit (w, ready) → AllFit (popLoop maxReady fuel w ready) := by
  induction fuel with
  | zero => exact id
  | succ fuel ih =>
    intro w ready h
    rw [popLoop]
    split
    · split
      · apply ih
        refine ⟨h.1.advance, ?_⟩
        dsimp only
        split
        · exact fits_snoc h.2 (h.1.slot _)
        · exact h.2
      · exact h
    · exact h

theorem Fits.popReady (hw : w.Fits) (maxReady : ℕ) : AllFit (w.popReady maxReady) :=
  popLoop_fits _ _ hw.allFit_nil

theorem skipLoop_fits (maxReady fuel : ℕ) : ∀ {w : RecvWindow} {ready : List RecvSlot},
    AllFit (w, ready) → AllFit (skipLoop maxReady fuel w ready) := by
  induction fuel with
  | zero => exact id
  | succ fuel ih =>
    intro w ready h
    rw [skipLoop]
    split
    · split
      · exact ih ⟨h.1.advance, h.2⟩
      · split
        · split
          · exact ih ⟨h.1.advance, fits_snoc h.2 (h.1.slot _)⟩
          · exact h
        · exact h
    · exact h

theorem drainFull_fits (maxReady fuel : ℕ) : ∀ {w : RecvWindow} (ready : List RecvSlot),
    w.Fits → AllFit (drainFull maxReady fuel w ready) := by
  induction fuel with
  | zero => exact fun _ hw => hw.allFit_nil
  | succ fuel ih =>
    intro w ready hw
    have hpop := hw.popReady maxReady
    rw [drainFull]
    dsimp only
    split
    · split
      · exact (ih _ hpop.1).append hpop.2
      · exact hpop.1.allFit_nil
    · exact hw.allFit_nil

theorem drainReady_fits (maxReady fuel : ℕ) : ∀ {w : RecvWindow},
    w.Fits → AllFit (drainReady maxReady fuel w) := by
  induction fuel with
  | zero => exact fun hw => hw.allFit_nil
  | succ fuel ih =>
    intro w hw
    have hpop := hw.popReady maxReady
    rw [drainReady]
    dsimp only
    split
    · exact (ih hpop.1).append hpop.2
    · exact hpop.1.allFit_nil

/-! ### A packet -/

section Packet

variable {hdr : Header} (hlen : hdr.payloadLen.toNat ≤ maxPayloadSize) (payload : List UInt8)
include hlen

theorem fits_readySlot : (readySlot hdr payload).Fits :=
  ⟨hlen, (List.length_take_le _ _).trans hlen⟩

theorem fits_readySlots : ∀ s ∈ [readySlot hdr payload], s.Fits := by
  intro s hs
  rw [List.mem_singleton.1 hs]
  exact fits_readySlot hlen payload

theorem Fits.onPacket (hw : w.Fits) (maxReady : ℕ) :
    AllFit (w.onPacket hdr payload maxReady).2 := by
  have hready := fits_readySlots hlen payload
  have hslot : ∀ i, (arrivedSlot hdr payload (w.slot i)).Fits := by
    intro i
    refine ⟨hlen, ?_⟩
    rw [arrivedSlot]
    dsimp only
    split
    · exact (List.length_take_le _ _).trans hlen
    · exact (hw.slot i).2
  by_cases hm : maxReady = 0
  · rw [hm, onPacket_zero]
    exact hw.allFit_nil
  obtain ⟨f, harr, hf⟩ := arrival_onPacket w hdr payload
  rw [hf _ hm]
  cases harr with
  | refused code hcode => exact hw.allFit_nil
  | unreliable highest has hrel => exact ⟨hw, hready⟩
  | unordered hmode hnew => exact skipLoop_fits _ _ ⟨hw.setSlot _ (hslot _), hready⟩
  | ordered hmode hnew => exact Fits.popReady (hw.setSlot _ (hslot _)) maxReady

theorem Fits.onData (hw : w.Fits) (maxReady : ℕ) :
    AllFit (w.onData hdr payload maxReady).2 := by
  have h := hw.onPacket hlen payload maxReady
  rw [RecvWindow.onData]
  dsimp only
  split
  · exact (drainFull_fits _ _ _ h.1).append h.2
  · split
    · exact drainReady_fits _ _ h.1
    · exact h.1.allFit_nil

end Packet

end Window

/-! ### Whole runs -/

/-- A datagram read into `in_buf` and, if it decodes, handled as DATA: the window and the slots
copied to queue items. -/
def receive (host : Endian) (w : RecvWindow) (datagram : List UInt8) :
    RecvWindow × List RecvSlot :=
  let inBuf := datagram.take inBufSize
  match decodeHeader host inBuf with
  | .error _ => (w, [])
  | .ok hdr => (w.onData hdr (inBuf.drop headerLen) readySlots).2

/-- What the buffer gives: the announced payload is in the buffer and is not too long. -/
theorem payloadLen_le_of_decode {host : Endian} {datagram : List UInt8} {hdr : Header}
    (h : decodeHeader host (datagram.take inBufSize) = .ok hdr) :
    hdr.payloadLen.toNat ≤ maxPayloadSize ∧
      hdr.payloadLen.toNat ≤ ((datagram.take inBufSize).drop headerLen).length := by
  obtain ⟨-, -, -, -, hlen⟩ := decodeHeader_eq_ok_iff.1 h
  have hbuf : (datagram.take inBufSize).length ≤ maxPayloadSize + headerLen :=
    List.length_take_le _ _
  rw [List.length_drop]
  omega

theorem Fits.receive {w : RecvWindow} (hw : w.Fits) (host : Endian) (datagram : List UInt8) :
    AllFit (w.receive host datagram) := by
  rw [RecvWindow.receive]
  cases hdec : decodeHeader host (datagram.take inBufSize) with
  | error e => exact hw.allFit_nil
  | ok hdr => exact hw.onData (payloadLen_le_of_decode hdec).1 _ _

theorem Fits.foldl_receive (host : Endian) (datagrams : List (List UInt8)) :
    ∀ {w : RecvWindow}, w.Fits →
      (datagrams.foldl (fun w datagram => (w.receive host datagram).1) w).Fits := by
  induction datagrams with
  | nil => exact id
  | cons datagram datagrams ih => exact fun hw => ih (hw.receive host datagram).1

end RecvWindow

/-- **The header codec is a bijection on its format, and payload copies stay in bounds.** On either
host a header of this version survives encoding and decoding, whatever follows it. A buffer decodes
exactly when it is well formed, and the header read encodes to its first 24 bytes. In a receive
window that has been given any datagrams, the next datagram that decodes announces a payload that
the buffer has and that an array of `maxPayloadSize` bytes can take, and so do all the slots of the
window and all that are copied to queue items. -/
theorem header_codec_and_copies :
    (∀ (host : Endian) (hdr : Header) (p : List UInt8), hdr.magic = magic →
      hdr.version = version → hdr.payloadLen.toNat ≤ p.length →
        decodeHeader host (encodeHeader host hdr ++ p) = .ok hdr) ∧
    (∀ (host : Endian) (b : List UInt8),
      ((∃ hdr, decodeHeader host b = .ok hdr) ↔ WellFormed b) ∧
      ∀ hdr, decodeHeader host b = .ok hdr → encodeHeader host hdr = b.take headerLen) ∧
    (∀ (host : Endian) (c s : UInt32) (datagrams : List (List UInt8)) (datagram : List UInt8)
      (hdr : Header), decodeHeader host (datagram.take inBufSize) = .ok hdr →
      let w := datagrams.foldl (fun w datagram => (w.receive host datagram).1)
        (RecvWindow.fresh c s)
      hdr.payloadLen.toNat ≤ maxPayloadSize ∧
      hdr.payloadLen.toNat ≤ ((datagram.take inBufSize).drop headerLen).length ∧
      (w.receive host datagram).1.Fits ∧
      ∀ slot ∈ (w.receive host datagram).2, slot.Fits ∧
        ∀ clientId, (itemOfReady clientId slot).len.toNat ≤ maxPayloadSize) := by
  refine ⟨?_, ?_, ?_⟩
  · intro host hdr p hmagic hversion hp
    exact decodeHeader_encodeHeader_append host hmagic hversion hp
  · intro host b
    exact ⟨exists_decodeHeader_iff host b, fun hdr h => encodeHeader_of_decodeHeader host h⟩
  · intro host c s datagrams datagram hdr h w
    have hw : w.Fits := RecvWindow.Fits.foldl_receive host datagrams (RecvWindow.fits_fresh c s)
    have hall := hw.receive host datagram
    obtain ⟨hmax, hbuf⟩ := RecvWindow.payloadLen_le_of_decode h
    exact ⟨hmax, hbuf, hall.1,
      fun slot hslot => ⟨hall.2 slot hslot, fun _ => (hall.2 slot hslot).1⟩⟩

/-- A DATA datagram of two payload bytes. -/
def smallDatagram : List UInt8 :=
  (mkPacket .data 3 7 0x01020304 (2, 5) [0xAA, 0xBB] 2).datagram .big

/-- The datagram decodes on a little-endian host, to a header that encodes to its first 24 bytes,
and its payload is kept in bounds. -/
theorem header_codec_and_copies_of_two :
    let hdr := (mkPacket .data 3 7 0x01020304 (2, 5) [0xAA, 0xBB] 2).hdr
    decodeHeader .little (encodeHeader .little hdr ++ [0xAA, 0xBB]) = .ok hdr ∧
    encodeHeader .little hdr = smallDatagram.take headerLen ∧
    ((RecvWindow.fresh 4 0x01020304).receive .little smallDatagram).1.Fits := by
  intro hdr
  have hok : decodeHeader .little (encodeHeader .little hdr ++ [0xAA, 0xBB]) = .ok hdr :=
    header_codec_and_copies.1 .little hdr [0xAA, 0xBB] rfl rfl (by decide)
  have hdec : decodeHeader .little smallDatagram = .ok hdr := by rfl
  exact ⟨hok, (header_codec_and_copies.2.1 .little smallDatagram).2 hdr hdec,
    (header_codec_and_copies.2.2 .little 4 0x01020304 [] smallDatagram hdr hdec).2.2.1⟩

end Rel4u
