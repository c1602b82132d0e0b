import Rel4u.Window.AckLaws
import Rel4u.Window.Reclaim
import Rel4u.Worker.SharedInv

/-!
# The acknowledgement encoder and decoder agree

`rel4u_recv_window_get_ack_info` and `rel4u_send_window_on_ack` are written independently. Here the
first is read as a statement about the packets that the receive window holds, and the second is
applied to it: the sender's head comes to the receiver's expected number, and the slots it marks are
those of the packets held within 32 of it.
-/

namespace Rel4u

open Serial (wrap)

namespace RecvWindow

/-- The window holds the packet with this number. -/
def Buffered (w : RecvWindow) (seq : UInt32) : Prop :=
  ∃ s ∈ w.slots, s.received = true ∧ s.seqNum = seq

instance (w : RecvWindow) (seq : UInt32) : Decidable (w.Buffered seq) :=
  inferInstanceAs (Decidable (∃ s ∈ w.slots, _))

/-- The packets held ahead of the expected number are those of the received cells. -/
theorem Rep.buffered_iff {w : RecvWindow} {e i : ℕ} (hw : w.Rep e) (hi : i < 2 ^ 31) :
    w.Buffered (w.expectedSeq + UInt32.ofNat i) ↔
      i < w.capacity.toNat ∧ (w.cell (e + i)).received = true := by
  have hseq : w.expectedSeq + UInt32.ofNat i = wrap (e + i) := by
    rw [hw.expected, Serial.wrap_add]
    rfl
  have hsm := hw.small
  rw [hseq]
  constructor
  · rintro ⟨s, hs, hrec, hnum⟩
    obtain ⟨j, hj, rfl⟩ := List.mem_iff_getElem.1 hs
    obtain ⟨q, hq, hq', hmod⟩ := Ring.exists_pos_of_lt e hj
    have hcell : w.slots[j] = w.cell q := by
      rw [← slot_mod, hmod, slot, List.getD_eq_getElem _ _ hj]
    rw [hcell] at hrec hnum
    rw [hw.len] at hq'
    rw [hw.seqNum q hq hq' hrec] at hnum
    obtain rfl := Serial.wrap_inj hnum (by omega) (by omega)
    exact ⟨by omega, hrec⟩
  · rintro ⟨hlt, hrec⟩
    refine ⟨w.cell (e + i), ?_, hrec, hw.seqNum _ (by omega) (by omega) hrec⟩
    have hin := Nat.mod_lt (e + i) hw.len_pos
    rw [← slot_mod, slot, List.getD_eq_getElem _ _ hin]
    exact List.getElem_mem hin

/-- **Bit `i` of the mask is set exactly when the packet `i` after the expected one is held.** -/
theorem getAckInfo_bit {w : RecvWindow} (hw : (∃ e, w.Rep e) ∨ w.Idle) {i : ℕ} (hi : i < 32) :
    w.getAckInfo.2 &&& ((1 : UInt32) <<< UInt32.ofNat i) ≠ 0 ↔
      w.Buffered (w.expectedSeq + UInt32.ofNat i) := by
  rcases hw with ⟨e, hw⟩ | hw
  · rw [hw.buffered_iff (by omega)]
    exact hw.sackMask_bit hi
  · have hmask : w.getAckInfo.2 = 0 := hw.sackMask_eq
    refine iff_of_false (by rw [hmask]; simp) ?_
    rintro ⟨s, hs, hrec, -⟩
    obtain ⟨j, hj, rfl⟩ := List.mem_iff_getElem.1 hs
    have hno := hw.empty j
    rw [slot, List.getD_eq_getElem _ _ hj, hrec] at hno
    exact Bool.noConfusion hno

end RecvWindow

namespace SendWindow

/-- An acknowledgement of everything before a position of the window releases up to it. -/
theorem cumTo_pred {h n a : ℕ} (hle : h ≤ a) (hn : a ≤ n) (hs : n ≤ h + 2 ^ 30) :
    cumTo (wrap a - 1) h n = a := by
  have hd : seqDiff (wrap h) (wrap a - 1) = (h : ℤ) + 1 - a :=
    Serial.diff_wrap_pred (by omega) (by omega)
  unfold cumTo
  rw [hd]
  split
  · omega
  · omega

/-- The mask after position `a` selects the position `i` further on by its bit `i`. -/
theorem sacks_pred_iff {a i : ℕ} (hi : i ≤ 2 ^ 30) (mask : UInt32) :
    Sacks (wrap a - 1) mask (a + i) ↔
      i < 32 ∧ mask &&& ((1 : UInt32) <<< UInt32.ofNat i) ≠ 0 := by
  have hnum : ∀ j, wrap a - 1 + 1 + UInt32.ofNat j = wrap (a + j) := by
    intro j
    rw [UInt32.sub_add_cancel, Serial.wrap_add]
    rfl
  constructor
  · rintro ⟨j, hj, hbit, hq⟩
    rw [hnum] at hq
    have hji : j = i := by
      have := Serial.wrap_inj hq (by omega) (by omega)
      omega
    rw [← hji]
    exact ⟨hj, hbit⟩
  · rintro ⟨hlt, hbit⟩
    exact ⟨i, hlt, hbit, hnum i⟩

end SendWindow

/-- **The sender understands what the receiver says.** The mask of any receive window names the
packets it holds among the 32 from the expected one on. Applied to any send window that has the
expected number between its head and its next number, the acknowledgement moves the head to the
expected number, and from there on marks exactly the slots of the packets held. -/
theorem sack_agree {rw : RecvWindow} (hr : (∃ e, rw.Rep e) ∨ rw.Idle) :
    rw.getAckInfo.1 = rw.expectedSeq - 1 ∧
    (∀ i < 32, rw.getAckInfo.2 &&& ((1 : UInt32) <<< UInt32.ofNat i) ≠ 0 ↔
      rw.Buffered (rw.expectedSeq + UInt32.ofNat i)) ∧
    ∀ sw : SendWindow, sw.Usable →
      (rw.expectedSeq - sw.headSeq).toNat ≤ (sw.nextSeq - sw.headSeq).toNat →
      ∀ (nowNs : UInt64) (rtt : Rtt),
        let sw' := (sw.onAck rw.getAckInfo.1 rw.getAckInfo.2 nowNs rtt).1
        sw'.headSeq = rw.expectedSeq ∧ sw'.nextSeq = sw.nextSeq ∧
        ∀ i < (sw.nextSeq - rw.expectedSeq).toNat,
          let seq := rw.expectedSeq + UInt32.ofNat i
          (sw'.slot (sw'.slotIdx seq)).acked = true ↔
            (sw.slot (sw.slotIdx seq)).acked = true ∨ (i < 32 ∧ rw.Buffered seq) := by
  refine ⟨rfl, fun i hi => RecvWindow.getAckInfo_bit hr hi, ?_⟩
  rintro sw (⟨h, n, hs⟩ | hs) hin nowNs rtt sw'
  · have hb := hs.bound
    have hsm := hs.small
    have hle := hs.le
    -- the expected number is that of a position `a` between head and next
    obtain ⟨a, ha, ha', hexp⟩ : ∃ a, h ≤ a ∧ a ≤ n ∧ rw.expectedSeq = wrap a := by
      refine ⟨h + (rw.expectedSeq - sw.headSeq).toNat, by omega, ?_, ?_⟩
      · rw [hs.next, hs.head, Serial.toNat_wrap_sub hle (by omega)] at hin
        rw [hs.head]
        omega
      · rw [Serial.wrap_add, Serial.wrap_toNat_self, ← hs.head, UInt32.add_comm,
          UInt32.sub_add_cancel]
    obtain ⟨hrep, -, hcell⟩ := hs.onAck_rep rw.getAckInfo.1 rw.getAckInfo.2 nowNs rtt
    have hack : rw.getAckInfo.1 = wrap a - 1 := by
      rw [← hexp]
      rfl
    rw [hack, SendWindow.cumTo_pred ha ha' (by omega)] at hrep hcell
    have hsw' : sw' = (sw.onAck (wrap a - 1) rw.getAckInfo.2 nowNs rtt).1 := by
      rw [← hack]
    rw [← hsw'] at hrep hcell
    refine ⟨by rw [hrep.head, hexp], by rw [hrep.next, hs.next], ?_⟩
    intro i hi seq
    have hseq : seq = wrap (a + i) := by
      rw [Serial.wrap_add, ← hexp]
      rfl
    rw [hs.next, hexp, Serial.toNat_wrap_sub ha' (by omega)] at hi
    have hsel := SendWindow.sacks_pred_iff (a := a) (i := i) (by omega) rw.getAckInfo.2
    have hbit : i < 32 ∧ rw.getAckInfo.2 &&& ((1 : UInt32) <<< UInt32.ofNat i) ≠ 0 ↔
        i < 32 ∧ rw.Buffered seq :=
      and_congr_right fun h32 => RecvWindow.getAckInfo_bit hr h32
    rw [hbit] at hsel
    rw [hseq, hrep.slotIdx, hs.slotIdx, SendWindow.slot_mod, SendWindow.slot_mod,
      hcell (a + i) (by omega) (by omega), if_neg (by omega), ← hseq]
    by_cases hheld : i < 32 ∧ rw.Buffered seq
    · rw [if_pos ⟨by omega, hsel.2 hheld⟩]
      exact iff_of_true rfl (Or.inr hheld)
    · rw [if_neg fun hq => hheld (hsel.1 hq.2)]
      exact (or_iff_left hheld).symm
  · -- a window of `2 ^ 31` slots is empty
    have hsw' : sw' = sw := by
      show (sw.onAck _ _ nowNs rtt).1 = sw
      rw [hs.onAck_eq]
    have hexp : rw.expectedSeq = sw.headSeq := by
      rw [← hs.empty, UInt32.sub_self] at hin
      have h0 : rw.expectedSeq - sw.headSeq = 0 := by
        apply UInt32.toNat_inj.1
        rw [UInt32.toNat_zero] at hin ⊢
        omega
      rw [← UInt32.sub_add_cancel rw.expectedSeq sw.headSeq, h0, UInt32.zero_add]
    rw [hsw', hexp, ← hs.empty, UInt32.sub_self]
    exact ⟨rfl, rfl, fun i hi => absurd hi (Nat.not_lt_zero i)⟩

/-- A receive window that waits for number 1 and holds number 2. -/
def twoHeld : RecvWindow :=
  (RecvWindow.fresh 4 1).arrive 2 ⟨magic, version, 2, 3, 0, 1, 7, 2, 0, 0⟩ [8]

/-- It tells the sender of numbers 1 and 2 so. -/
theorem sack_agree_of_two :
    twoHeld.Buffered 2 ∧
    (SendWindow.twoPushed.onAck twoHeld.getAckInfo.1 twoHeld.getAckInfo.2 5 .default).1.headSeq =
      1 := by
  have hrep : twoHeld.Rep 1 :=
    (RecvWindow.fresh_rep (c := 4) ⟨2, by decide, rfl⟩ (by decide) 1).arrive_rep (p := 2)
      (by decide) (by decide) rfl (by decide) [8]
  obtain ⟨-, hbit, hall⟩ := sack_agree (Or.inl ⟨1, hrep⟩)
  exact ⟨(hbit 1 (by decide)).1 (by decide),
    (hall SendWindow.twoPushed (Or.inl ⟨1, 3, SendWindow.twoPushed_rep⟩) (by decide) 5 .default).1⟩

end Rel4u
