import Rel4u.Window.Expiry
import Rel4u.Window.RecvInv
import Rel4u.Worker.Shared

/-!
# What the shared worker code does to the windows

* `onData_cases`: a reliable DATA packet, whatever its header, is refused or stored, and in both
  cases the window is then drained (`RecvWindow.Drained`); the batches of 64 leave no trace in the
  statement.
* `retransmit_rep`: the retransmission pass keeps the send window's invariant, changes nothing
  but times and counts, and every packet it sends is that of an unacknowledged position.
* `SendWindow.letters`, the messages in a send window: only a push adds one, and retransmission
  sends no other.
-/

namespace Rel4u

open Serial (wrap)

namespace RecvWindow

theorem drainFull_drained (maxReady fuel : ℕ) :
    ∀ {w : RecvWindow} {e : ℕ} (ready : List RecvSlot), w.Rep e →
      ∃ w' e' out, drainFull maxReady fuel w ready = (w', out) ∧ Drained w e w' e' out := by
  induction fuel with
  | zero => intro w e ready hw; exact ⟨w, e, [], rfl, Drained.refl hw⟩
  | succ fuel ih =>
    intro w e ready hw
    by_cases hm : ready.length = maxReady
    · obtain ⟨w₁, e₁, out₁, hrun₁, hd₁⟩ := popReady_drained hw maxReady
      by_cases hpos : out₁.length > 0
      · obtain ⟨w₂, e₂, out₂, hrun₂, hd₂⟩ := ih out₁ hd₁.rep
        refine ⟨w₂, e₂, out₁ ++ out₂, ?_, hd₁.trans hd₂⟩
        simp only [drainFull, if_pos hm, hrun₁, if_pos hpos, hrun₂]
      · have hnil : out₁ = [] := List.length_eq_zero_iff.1 (by omega)
        refine ⟨w₁, e₁, [], ?_, hnil ▸ hd₁⟩
        simp only [drainFull, if_pos hm, hrun₁, if_neg hpos]
    · exact ⟨w, e, [], by simp only [drainFull, if_neg hm], Drained.refl hw⟩

theorem drainReady_drained (maxReady fuel : ℕ) :
    ∀ {w : RecvWindow} {e : ℕ}, w.Rep e →
      ∃ w' e' out, drainReady maxReady fuel w = (w', out) ∧ Drained w e w' e' out := by
  induction fuel with
  | zero => intro w e hw; exact ⟨w, e, [], rfl, Drained.refl hw⟩
  | succ fuel ih =>
    intro w e hw
    obtain ⟨w₁, e₁, out₁, hrun₁, hd₁⟩ := popReady_drained hw maxReady
    by_cases hpos : out₁.length > 0
    · obtain ⟨w₂, e₂, out₂, hrun₂, hd₂⟩ := ih hd₁.rep
      refine ⟨w₂, e₂, out₁ ++ out₂, ?_, hd₁.trans hd₂⟩
      simp only [drainReady, hrun₁, if_pos hpos, hrun₂]
    · have hnil : out₁ = [] := List.length_eq_zero_iff.1 (by omega)
      refine ⟨w₁, e₁, [], ?_, hnil ▸ hd₁⟩
      simp only [drainReady, hrun₁, if_neg hpos]

/-- **What the worker does with a reliable DATA packet.** -/
theorem Rep.onData_cases {w : RecvWindow} {e : ℕ} (hw : w.Rep e) {hdr : Header}
    (hrel : Reliable hdr.deliveryMode) (payload : List UInt8) {maxReady : ℕ}
    (hmax : 0 < maxReady) :
    (∃ code w' e' out, w.onData hdr payload maxReady = (code, w', out) ∧ Drained w e w' e' out ∧
      ∀ p, e ≤ p → p < e + w.capacity.toNat → hdr.seqNum = wrap p → (w.cell p).received = true) ∨
    ∃ p w' e' out, e ≤ p ∧ p < e + w.capacity.toNat ∧ hdr.seqNum = wrap p ∧
      (w.cell p).received = false ∧ Drained (w.arrive p hdr payload) e w' e' out ∧
      w.onData hdr payload maxReady = (0, w', immediate hdr payload ++ out) := by
  rcases hw.onPacket_cases hrel payload hmax with
    ⟨code, hcode, hrun, hall⟩ | ⟨p, w₁, e₁, out₁, hp, hp', hseq, hnew, hd₁, hrun⟩
  · left
    rcases hcode with rfl | rfl
    · obtain ⟨w', e', out, hrun', hd⟩ := drainReady_drained maxReady (w.slots.length + 1) hw
      refine ⟨1, w', e', out, ?_, hd, hall⟩
      simp only [onData, hrun, hrun']
      norm_num
    · refine ⟨-2, w, e, [], ?_, Drained.refl hw, hall⟩
      simp only [onData, hrun]
      norm_num
  · right
    obtain ⟨w₂, e₂, out₂, hrun₂, hd₂⟩ :=
      drainFull_drained maxReady (w₁.slots.length + 1) (immediate hdr payload ++ out₁) hd₁.rep
    refine ⟨p, w₂, e₂, out₁ ++ out₂, hp, hp', hseq, hnew, hd₁.trans hd₂, ?_⟩
    simp only [onData, hrun, hrun₂, if_true, List.append_assoc]

/-! ### Any DATA packet -/

theorem Rep.mark_rep {w : RecvWindow} {e : ℕ} (hw : w.Rep e) (highest : UInt32) (has : Bool) :
    (w.mark highest has).Rep e :=
  ⟨hw.ring, hw.small, hw.len, hw.expected, hw.seqNum, hw.reliable⟩

/-- **What the handling of a DATA packet comes to**, whatever its header: the window's reliable part
is only drained, beside at most an unreliable packet handed out; or the packet is reliable and new,
is stored at a position, and the window drained from there. -/
inductive Takes (w : RecvWindow) (e : ℕ) (hdr : Header) (payload : List UInt8) :
    ℤ → RecvWindow → ℕ → List RecvSlot → Prop
  | pass (code : ℤ) (highest : UInt32) (has : Bool) (imm out : List RecvSlot) (w' : RecvWindow)
      (e' : ℕ) (hcode : Reliable hdr.deliveryMode → code ≠ 0)
      (himm : ∀ s ∈ imm, ¬ Reliable s.deliveryMode ∧ s.payloadLen = hdr.payloadLen)
      (hd : Drained (w.mark highest has) e w' e' out) :
      Takes w e hdr payload code w' e' (imm ++ out)
  | store (p : ℕ) (out : List RecvSlot) (w' : RecvWindow) (e' : ℕ)
      (hrel : Reliable hdr.deliveryMode) (hp : e ≤ p) (hp' : p < e + w.capacity.toNat)
      (hseq : hdr.seqNum = wrap p) (hnew : (w.cell p).received = false)
      (hd : Drained (w.arrive p hdr payload) e w' e' out) :
      Takes w e hdr payload 0 w' e' (immediate hdr payload ++ out)

theorem Takes.rep_capacity {w w' : RecvWindow} {e e' : ℕ} {hdr : Header} {payload : List UInt8}
    {code : ℤ} {out : List RecvSlot} (h : Takes w e hdr payload code w' e' out) :
    w'.Rep e' ∧ w'.capacity = w.capacity := by
  cases h with
  | pass _ _ _ _ _ _ _ _ _ hd => exact ⟨hd.rep, hd.cap⟩
  | store _ _ _ _ _ _ _ _ _ hd => exact ⟨hd.rep, hd.cap⟩

theorem Rep.takes_onData {w : RecvWindow} {e : ℕ} (hw : w.Rep e) (hdr : Header)
    (payload : List UInt8) {maxReady : ℕ} (hmax : 0 < maxReady) :
    ∃ e', Takes w e hdr payload (w.onData hdr payload maxReady).1
      (w.onData hdr payload maxReady).2.1 e' (w.onData hdr payload maxReady).2.2 := by
  by_cases hrel : Reliable hdr.deliveryMode
  · rcases hw.onPacket_cases hrel payload hmax with
      ⟨code, hcode, hrun, -⟩ | ⟨p, w₁, e₁, out₁, hp, hp', hseq, hnew, hd₁, hrun⟩
    · rcases hcode with rfl | rfl
      · obtain ⟨w', e', out, hrun', hd⟩ := drainReady_drained maxReady (w.slots.length + 1) hw
        refine ⟨e', ?_⟩
        have heq : w.onData hdr payload maxReady = (1, w', [] ++ out) := by
          simp only [onData, hrun, hrun']
          norm_num
        rw [heq]
        exact .pass 1 w.highestUnrelSeq w.hasHighestUnrel [] out w' e' (fun _ => by decide)
          (fun s hs => absurd hs List.not_mem_nil) hd
      · refine ⟨e, ?_⟩
        have heq : w.onData hdr payload maxReady = (-2, w, [] ++ []) := by
          simp only [onData, hrun]
          norm_num
        rw [heq]
        exact .pass (-2) w.highestUnrelSeq w.hasHighestUnrel [] [] w e (fun _ => by decide)
          (fun s hs => absurd hs List.not_mem_nil) (Drained.refl hw)
    · obtain ⟨w₂, e₂, out₂, hrun₂, hd₂⟩ :=
        drainFull_drained maxReady (w₁.slots.length + 1) (immediate hdr payload ++ out₁) hd₁.rep
      refine ⟨e₂, ?_⟩
      have heq : w.onData hdr payload maxReady =
          (0, w₂, immediate hdr payload ++ (out₁ ++ out₂)) := by
        simp only [onData, hrun, hrun₂, if_true, List.append_assoc]
      rw [heq]
      exact .store p _ w₂ e₂ hrel hp hp' hseq hnew (hd₁.trans hd₂)
  · obtain ⟨code, highest, has, imm, hrun, hcode, hnone, himm⟩ :=
      w.onPacket_unreliable hrel payload hmax
    have hw₁ := hw.mark_rep highest has
    rcases hcode with rfl | rfl | rfl
    · obtain ⟨w', e', out, hrun', hd⟩ :=
        drainFull_drained maxReady ((w.mark highest has).slots.length + 1) imm hw₁
      refine ⟨e', ?_⟩
      have heq : w.onData hdr payload maxReady = (0, w', imm ++ out) := by
        simp only [onData, hrun, hrun', if_true]
      rw [heq]
      exact .pass 0 highest has imm out w' e' (fun h => absurd h hrel) himm hd
    · obtain ⟨w', e', out, hrun', hd⟩ :=
        drainReady_drained maxReady ((w.mark highest has).slots.length + 1) hw₁
      refine ⟨e', ?_⟩
      have heq : w.onData hdr payload maxReady = (1, w', [] ++ out) := by
        simp only [onData, hrun, hrun']
        norm_num
      rw [heq]
      exact .pass 1 highest has [] out w' e' (fun h => absurd h hrel)
        (fun s hs => absurd hs List.not_mem_nil) hd
    · refine ⟨e, ?_⟩
      have heq : w.onData hdr payload maxReady = (-1, w.mark highest has, [] ++ []) := by
        simp only [onData, hrun]
        norm_num
      rw [heq]
      exact .pass (-1) highest has [] [] _ e (fun h => absurd h hrel)
        (fun s hs => absurd hs List.not_mem_nil) (Drained.refl hw₁)

/-! ### The widest ring

A ring of `2 ^ 31` slots reads its own capacity as a negative number and finds every reliable packet
out of range. -/

/-- A window of `2 ^ 31` slots that has received nothing, which is all it ever does. -/
structure Idle (w : RecvWindow) : Prop where
  cap : w.capacity = 0x80000000
  empty : ∀ i, (w.slot i).received = false

section Idle

variable {w : RecvWindow}

theorem fresh_idle (s : UInt32) : (fresh 0x80000000 s).Idle where
  cap := rfl
  empty := fun i => by
    rw [slot, fresh, List.getD_eq_getElem?_getD, List.getElem?_replicate]
    split_ifs <;> rfl

theorem Idle.mark_idle (hw : w.Idle) (highest : UInt32) (has : Bool) :
    (w.mark highest has).Idle := ⟨hw.cap, hw.empty⟩

theorem Idle.expReady_eq (hw : w.Idle) : w.expReady = false := by
  rw [expReady, expSlot, hw.empty, Bool.false_and]

theorem Idle.popReady_eq (hw : w.Idle) (maxReady : ℕ) : w.popReady maxReady = (w, []) := by
  unfold popReady
  cases w.slots.length with
  | zero => rfl
  | succ n => simp [popLoop, hw.expReady_eq]

theorem Idle.drainReady_eq (hw : w.Idle) (maxReady fuel : ℕ) :
    drainReady maxReady fuel w = (w, []) := by
  cases fuel with
  | zero => rfl
  | succ n => simp [drainReady, hw.popReady_eq]

theorem Idle.drainFull_eq (hw : w.Idle) (maxReady fuel : ℕ) (ready : List RecvSlot) :
    drainFull maxReady fuel w ready = (w, []) := by
  cases fuel with
  | zero => rfl
  | succ n => simp [drainFull, hw.popReady_eq]

theorem Idle.sackMask_eq (hw : w.Idle) : w.sackMask = 0 := by
  unfold sackMask
  simp [hw.empty]

theorem Idle.onPacket_reliable (hw : w.Idle) {hdr : Header} (hrel : Reliable hdr.deliveryMode)
    (payload : List UInt8) {maxReady : ℕ} (hmax : 0 < maxReady) :
    w.onPacket hdr payload maxReady = (1, w, []) ∨
      w.onPacket hdr payload maxReady = (-2, w, []) := by
  have hge : seqDiff hdr.seqNum w.expectedSeq ≥ w.capacity.toInt32.toInt := by
    rw [hw.cap]
    exact (Serial.diff_bounds _ _).1
  have hn0 : hdr.deliveryMode ≠ DeliveryMode.unreliableUnordered.code := by
    rcases hrel with h | h <;> rw [h] <;> decide
  have hn1 : hdr.deliveryMode ≠ DeliveryMode.unreliableOrdered.code := by
    rcases hrel with h | h <;> rw [h] <;> decide
  unfold onPacket
  rw [if_neg (by omega), if_neg hn0, if_neg hn1]
  by_cases hlt : seqLt hdr.seqNum w.expectedSeq = true
  · left
    simp only [if_pos hlt]
    rcases hrel with h | h <;> simp [h, DeliveryMode.code]
  · right
    simp only [if_neg hlt, if_pos hge]
    rcases hrel with h | h <;> simp [h, DeliveryMode.code]

/-- Nothing reliable gets in. -/
theorem Idle.onData_eq (hw : w.Idle) (hdr : Header) (payload : List UInt8) {maxReady : ℕ}
    (hmax : 0 < maxReady) :
    ∃ code highest has imm, w.onData hdr payload maxReady = (code, w.mark highest has, imm) ∧
      (Reliable hdr.deliveryMode → code ≠ 0) ∧
      ∀ s ∈ imm, ¬ Reliable s.deliveryMode ∧ s.payloadLen = hdr.payloadLen := by
  by_cases hrel : Reliable hdr.deliveryMode
  · rcases hw.onPacket_reliable hrel payload hmax with h | h
    · refine ⟨1, w.highestUnrelSeq, w.hasHighestUnrel, [], ?_, fun _ => by decide,
        fun s hs => absurd hs List.not_mem_nil⟩
      simp only [onData, h, hw.drainReady_eq]
      norm_num
      rfl
    · refine ⟨-2, w.highestUnrelSeq, w.hasHighestUnrel, [], ?_, fun _ => by decide,
        fun s hs => absurd hs List.not_mem_nil⟩
      simp only [onData, h]
      norm_num
      rfl
  · obtain ⟨code, highest, has, imm, hrun, hcode, hnone, himm⟩ :=
      w.onPacket_unreliable hrel payload hmax
    have hw₁ := hw.mark_idle highest has
    refine ⟨code, highest, has, imm, ?_, fun h => absurd h hrel, himm⟩
    rcases hcode with rfl | rfl | rfl
    · simp [onData, hrun, hw₁.drainFull_eq]
    · simp [onData, hrun, hw₁.drainReady_eq, hnone]
    · simp [onData, hrun, hnone]

end Idle

end RecvWindow

/-! ### Retransmission -/

/-- **The retransmission pass.** -/
theorem retransmit_rep {w : SendWindow} {h n : ℕ} (hw : w.Rep h n) (rtt : Rtt) (nowNs : UInt64)
    (sessionId : UInt32) (ackInfo : UInt32 × UInt32) :
    (retransmit w rtt nowNs sessionId ackInfo).1.Rep h n ∧
      (retransmit w rtt nowNs sessionId ackInfo).1.capacity = w.capacity ∧
      (∀ {β : Type} (f : SendSlot → β), (∀ (s : SendSlot) (t : UInt64), f (s.resent t) = f s) →
        ∀ p, f ((retransmit w rtt nowNs sessionId ackInfo).1.cell p) = f (w.cell p)) ∧
      ∀ pkt ∈ (retransmit w rtt nowNs sessionId ackInfo).2.2,
        ∃ q, h ≤ q ∧ q < n ∧ (w.cell q).acked = false ∧
          pkt = slotPacket sessionId ackInfo (w.cell q) := by
  obtain ⟨h1, h2, h3⟩ := hw.foldl_resend_rep nowNs (w.getExpired nowNs rtt.getRto 16)
  unfold retransmit
  dsimp only
  split_ifs with hpos
  · refine ⟨h1, h2, h3, ?_⟩
    intro pkt hpkt
    obtain ⟨i, hi, rfl⟩ := List.mem_map.1 hpkt
    obtain ⟨q, hq, hq', hiq, ha⟩ := hw.mem_getExpired hi
    exact ⟨q, hq, hq', ha, by rw [hiq]; rfl⟩
  · exact ⟨hw, rfl, fun _ _ _ => rfl, fun pkt hpkt => absurd hpkt List.not_mem_nil⟩

/-- The workers' pass is the pass of the window with a limit of 16, and sends what it returns. -/
theorem retransmit_eq_pass (w : SendWindow) (rtt : Rtt) (nowNs : UInt64) (sessionId : UInt32)
    (ackInfo : UInt32 × UInt32) :
    (retransmit w rtt nowNs sessionId ackInfo).1 = w.retransmitPass nowNs rtt.getRto 16 ∧
      (retransmit w rtt nowNs sessionId ackInfo).2.2.map (·.hdr.seqNum) =
        w.returned nowNs rtt.getRto 16 := by
  unfold retransmit SendWindow.retransmitPass SendWindow.returned
  dsimp only
  split_ifs with hpos
  · exact ⟨rfl, by rw [List.map_map]; rfl⟩
  · rw [List.eq_nil_of_length_eq_zero (Nat.eq_zero_of_not_pos hpos)]
    exact ⟨rfl, rfl⟩

theorem retransmit_usable {w : SendWindow} (hw : w.Usable) (rtt : Rtt) (nowNs : UInt64)
    (sessionId : UInt32) (ackInfo : UInt32 × UInt32) :
    (retransmit w rtt nowNs sessionId ackInfo).1.Usable ∧
      (retransmit w rtt nowNs sessionId ackInfo).1.capacity = w.capacity := by
  rcases hw with ⟨h, n, hw⟩ | hw
  · obtain ⟨h1, h2, -⟩ := retransmit_rep hw rtt nowNs sessionId ackInfo
    exact ⟨Or.inl ⟨h, n, h1⟩, h2⟩
  · have heq : retransmit w rtt nowNs sessionId ackInfo = (w, rtt, []) := by
      simp [retransmit, hw.getExpired_eq]
    rw [heq]
    exact ⟨Or.inr hw, rfl⟩

/-! ### The messages in a send window -/

theorem message_pushedSlot (seq : UInt32) (mode : UInt8) (data : List UInt8) {len : ℕ}
    (hlen : len ≤ maxPayloadSize) (nowNs : UInt64) :
    (SendWindow.pushedSlot seq mode data len nowNs).message = Message.ofPush mode data len := by
  have hl : (UInt16.ofNat len).toNat = len := by
    rw [UInt16.toNat_ofNat_of_lt']
    exact lt_of_le_of_lt hlen (by decide)
  simp [SendSlot.message, SendWindow.pushedSlot, Message.ofPush, hl]

namespace SendWindow

variable {w : SendWindow}

/-- The messages in the used slots, with their numbers. -/
def letters (w : SendWindow) : List (UInt32 × Message) :=
  (w.slots.filter (·.inUse)).map fun s => (s.seqNum, s.message)

theorem mem_letters {x : UInt32 × Message} :
    x ∈ w.letters ↔ ∃ s ∈ w.slots, s.inUse = true ∧ (s.seqNum, s.message) = x := by
  simp only [letters, List.mem_map, List.mem_filter, and_assoc]

theorem slot_mem_of_inUse {i : ℕ} (h : (w.slot i).inUse = true) : w.slot i ∈ w.slots := by
  by_cases hi : i < w.slots.length
  · rw [slot, List.getD_eq_getElem _ _ hi]
    exact List.getElem_mem hi
  · rw [slot, List.getD_eq_default _ _ (not_lt.1 hi)] at h
    exact absurd h (by decide)

/-- A slot that is overwritten brings its own message at most. -/
theorem letters_setSlot {i : ℕ} {s : SendSlot} {x : UInt32 × Message}
    (hx : x ∈ (w.setSlot i s).letters) :
    x ∈ w.letters ∨ (s.inUse = true ∧ (s.seqNum, s.message) = x) := by
  obtain ⟨t, ht, huse, rfl⟩ := mem_letters.1 hx
  rcases List.mem_or_eq_of_mem_set ht with hmem | rfl
  · exact Or.inl (mem_letters.2 ⟨t, hmem, huse, rfl⟩)
  · exact Or.inr ⟨huse, rfl⟩

/-- An update of a slot that keeps its number and its message. -/
theorem letters_setSlot_subset {i : ℕ} {s : SendSlot}
    (huse : s.inUse = true → (w.slot i).inUse = true) (hseq : s.seqNum = (w.slot i).seqNum)
    (hmsg : s.message = (w.slot i).message) : (w.setSlot i s).letters ⊆ w.letters := by
  intro x hx
  rcases letters_setSlot hx with h | ⟨h, rfl⟩
  · exact h
  · exact mem_letters.2 ⟨w.slot i, slot_mem_of_inUse (huse h), huse h, by rw [hseq, hmsg]⟩

theorem letters_markAcked (w : SendWindow) (i : ℕ) : (w.markAcked i).letters ⊆ w.letters := by
  have h : (w.setSlot i (w.slot i).ack).letters ⊆ w.letters :=
    letters_setSlot_subset id rfl rfl
  unfold markAcked
  dsimp only
  split_ifs <;> exact h

theorem letters_unuse (w : SendWindow) (i : ℕ) :
    (w.setSlot i (w.slot i).unuse).letters ⊆ w.letters :=
  letters_setSlot_subset (fun h => absurd h (by simp [SendSlot.unuse])) rfl rfl

theorem letters_ackHead (w : SendWindow) (nowNs : UInt64) (rtt : Rtt) :
    (w.ackHead nowNs rtt).1.letters ⊆ w.letters := by
  unfold ackHead
  dsimp only
  split_ifs
  · exact List.Subset.trans (letters_unuse _ _) (letters_markAcked w _)
  · exact letters_unuse w _
  · exact List.Subset.refl _

theorem letters_ackCumulative (fuel : ℕ) : ∀ (w : SendWindow) (ackNum : UInt32) (nowNs : UInt64)
    (rtt : Rtt), (ackCumulative fuel w ackNum nowNs rtt).1.letters ⊆ w.letters := by
  induction fuel with
  | zero => intro w ackNum nowNs rtt; exact List.Subset.refl _
  | succ fuel ih =>
    intro w ackNum nowNs rtt
    unfold ackCumulative
    split_ifs
    · exact List.Subset.trans (ih _ _ _ _) (letters_ackHead w nowNs rtt)
    · exact List.Subset.refl _

theorem letters_ackSelective (ackNum sackMask : UInt32) (nowNs : UInt64) (s : SendWindow × Rtt)
    (i : ℕ) : (ackSelective ackNum sackMask nowNs s i).1.letters ⊆ s.1.letters := by
  unfold ackSelective
  dsimp only
  split_ifs
  · exact letters_markAcked _ _
  all_goals exact List.Subset.refl _

/-- Acknowledgements add no message. -/
theorem letters_onAck (w : SendWindow) (ackNum sackMask : UInt32) (nowNs : UInt64) (rtt : Rtt) :
    (w.onAck ackNum sackMask nowNs rtt).1.letters ⊆ w.letters := by
  have hfold : ∀ (l : List ℕ) (s : SendWindow × Rtt),
      (l.foldl (ackSelective ackNum sackMask nowNs) s).1.letters ⊆ s.1.letters := by
    intro l
    induction l with
    | nil => intro s; exact List.Subset.refl _
    | cons i l ih =>
      intro s
      exact List.Subset.trans (ih _) (letters_ackSelective ackNum sackMask nowNs s i)
  unfold onAck
  dsimp only
  split_ifs
  · exact List.Subset.trans (hfold _ _) (letters_ackCumulative _ w ackNum nowNs rtt)
  · exact letters_ackCumulative _ w ackNum nowNs rtt

/-- A push adds the message under the number it returns, or nothing. -/
theorem letters_push {mode : UInt8} {data : List UInt8} {len : ℕ} {nowNs : UInt64}
    {w' : SendWindow} {seq : UInt32} (h : w.push mode data len nowNs = .ok (w', seq)) :
    w'.letters ⊆
      (seq, ⟨mode, UInt16.ofNat len, (data.take len).take (UInt16.ofNat len).toNat⟩) ::
        w.letters := by
  unfold push at h
  dsimp only at h
  split_ifs at h
  · obtain ⟨rfl, rfl⟩ := Prod.mk.inj (Except.ok.inj h)
    intro x hx
    rcases letters_setSlot hx with hold | ⟨-, rfl⟩
    · exact List.mem_cons_of_mem _ hold
    · exact List.mem_cons_self
  · obtain ⟨rfl, rfl⟩ := Prod.mk.inj (Except.ok.inj h)
    exact List.subset_cons_self _ _

theorem inUse_of_mem_expiredFrom {nowNs rtoNs : UInt64} {maxSlots : ℕ} (fuel : ℕ) :
    ∀ (seq : UInt32) (out : List ℕ), (∀ i ∈ out, (w.slot i).inUse = true) →
      ∀ i ∈ w.expiredFrom nowNs rtoNs maxSlots fuel seq out, (w.slot i).inUse = true := by
  induction fuel with
  | zero => intro seq out hout; exact hout
  | succ fuel ih =>
    intro seq out hout
    unfold expiredFrom
    dsimp only
    by_cases hlt : seqLt seq w.nextSeq = true
    · rw [if_pos hlt]
      split_ifs with hexp hmax
      all_goals
        first
        | exact ih _ _ hout
        | have happ : ∀ i ∈ out ++ [w.slotIdx seq], (w.slot i).inUse = true := by
            intro i hi
            rcases List.mem_append.1 hi with hi | hi
            · exact hout i hi
            · rw [List.mem_singleton.1 hi]
              simp only [Bool.and_eq_true] at hexp
              exact hexp.1.1.1
          first
          | exact happ
          | exact ih _ _ happ
    · rw [if_neg hlt]
      exact hout

theorem inUse_of_mem_getExpired {nowNs : UInt64} {rtoMs : UInt32} {maxSlots i : ℕ}
    (h : i ∈ w.getExpired nowNs rtoMs maxSlots) : (w.slot i).inUse = true := by
  unfold getExpired at h
  split_ifs at h
  · exact absurd h List.not_mem_nil
  · exact inUse_of_mem_expiredFrom _ _ _ (fun i hi => absurd hi List.not_mem_nil) i h

/-- Retransmission adds no message, and what it sends are messages of the window. -/
theorem letters_retransmit (w : SendWindow) (rtt : Rtt) (nowNs : UInt64) (sessionId : UInt32)
    (ackInfo : UInt32 × UInt32) :
    (retransmit w rtt nowNs sessionId ackInfo).1.letters ⊆ w.letters ∧
      ∀ pkt ∈ (retransmit w rtt nowNs sessionId ackInfo).2.2,
        (pkt.hdr.seqNum, pkt.message) ∈ w.letters := by
  have hfold : ∀ (l : List ℕ) (w : SendWindow),
      (l.foldl (fun win i => win.resend nowNs i) w).letters ⊆ w.letters := by
    intro l
    induction l with
    | nil => intro w; exact List.Subset.refl _
    | cons i l ih => intro w; exact List.Subset.trans (ih _) (letters_setSlot_subset id rfl rfl)
  unfold retransmit
  dsimp only
  split_ifs
  · refine ⟨hfold _ w, fun pkt hpkt => ?_⟩
    obtain ⟨i, hi, rfl⟩ := List.mem_map.1 hpkt
    have huse := inUse_of_mem_getExpired hi
    refine mem_letters.2 ⟨w.slot i, slot_mem_of_inUse huse, huse, ?_⟩
    simp [slotPacket, mkPacket, Packet.message, SendSlot.message]
  · exact ⟨List.Subset.refl _, fun pkt hpkt => absurd hpkt List.not_mem_nil⟩

/-- Slots that are not in use hold no message. -/
theorem letters_eq_nil (h : ∀ s ∈ w.slots, s.inUse = false) : w.letters = [] := by
  rw [letters, List.map_eq_nil_iff, List.filter_eq_nil_iff]
  intro s hs
  rw [h s hs]
  exact Bool.false_ne_true

/-- A reset adds no message. -/
theorem letters_reset (w : SendWindow) (initialSeq : UInt32) :
    (w.reset initialSeq).2.letters ⊆ w.letters := by
  unfold reset
  split_ifs
  · exact List.Subset.refl _
  · rw [letters_eq_nil fun s hs => by rw [List.eq_of_mem_replicate hs]; rfl]
    exact List.nil_subset _

/-- A window that has just been initialised, or failed to be, holds no message. -/
theorem letters_init {capacity initialSeq : UInt32} {calloc : Bool} (hw : w.slots = []) :
    (w.init capacity initialSeq calloc).2.letters = [] := by
  unfold init
  split_ifs
  · simp [letters, hw]
  · simp [letters]
  · exact letters_eq_nil fun s hs => by rw [List.eq_of_mem_replicate hs]; rfl

end SendWindow

end Rel4u
