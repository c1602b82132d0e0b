import Rel4u.Window.SendInv

/-!
# Acknowledgements commute

What an acknowledgement does to a window depends on its two fields only through the position up to
which it releases (`cumTo`) and the positions it selects (`Sacks`). Releasing is a maximum and
selecting a union, so two acknowledgements come to the same in either order, and one of them twice
to the same as once. This needs the acknowledged numbers to be near the head: the comparison with
the head is a signed 32-bit difference, and the head moves.
-/

namespace Rel4u

open Serial (wrap)

namespace SendWindow

/-! ### What an acknowledgement leaves alone -/

/-- A reading of the window that depends neither on the contents of the slots nor on `headSeq` and
`inFlight`, which is all that an acknowledgement writes. -/
structure Static {β : Type*} (f : SendWindow → β) : Prop where
  setSlot : ∀ w i s, f (w.setSlot i s) = f w
  headSeq : ∀ w n, f { w with headSeq := n } = f w
  inFlight : ∀ w n, f { w with inFlight := n } = f w

section Static

variable {β : Type*} {f : SendWindow → β}

theorem Static.markAcked (hf : Static f) (w : SendWindow) (i : ℕ) : f (w.markAcked i) = f w := by
  unfold SendWindow.markAcked
  dsimp only
  split
  · exact (hf.inFlight _ _).trans (hf.setSlot _ _ _)
  · exact hf.setSlot _ _ _

theorem Static.ackHead (hf : Static f) (w : SendWindow) (nowNs : UInt64) (rtt : Rtt) :
    f (w.ackHead nowNs rtt).1 = f w := by
  unfold SendWindow.ackHead
  dsimp only
  split
  · split
    · exact ((hf.headSeq _ _).trans (hf.setSlot _ _ _)).trans (hf.markAcked w _)
    · exact (hf.headSeq _ _).trans (hf.setSlot _ _ _)
  · exact hf.headSeq _ _

theorem Static.ackCumulative (hf : Static f) (fuel : ℕ) : ∀ (w : SendWindow) (ackNum : UInt32)
    (nowNs : UInt64) (rtt : Rtt), f (ackCumulative fuel w ackNum nowNs rtt).1 = f w := by
  induction fuel with
  | zero => exact fun _ _ _ _ => rfl
  | succ fuel ih =>
    intro w ackNum nowNs rtt
    rw [SendWindow.ackCumulative]
    split
    · exact (ih _ _ _ _).trans (hf.ackHead w nowNs rtt)
    · rfl

theorem Static.ackSelective (hf : Static f) (ackNum sackMask : UInt32) (nowNs : UInt64)
    (s : SendWindow × Rtt) (i : ℕ) : f (ackSelective ackNum sackMask nowNs s i).1 = f s.1 := by
  unfold SendWindow.ackSelective
  dsimp only
  split
  · split
    · split
      · exact hf.markAcked _ _
      · rfl
    · rfl
  · rfl

theorem Static.onAck (hf : Static f) (w : SendWindow) (ackNum sackMask : UInt32) (nowNs : UInt64)
    (rtt : Rtt) : f (w.onAck ackNum sackMask nowNs rtt).1 = f w := by
  have hfold : ∀ (l : List ℕ) (s : SendWindow × Rtt),
      f (l.foldl (SendWindow.ackSelective ackNum sackMask nowNs) s).1 = f s.1 := by
    intro l
    induction l with
    | nil => exact fun _ => rfl
    | cons i l ih => exact fun s => (ih _).trans (hf.ackSelective _ _ _ s i)
  rw [SendWindow.onAck]
  split
  · exact (hfold _ _).trans (hf.ackCumulative _ w ackNum nowNs rtt)
  · exact hf.ackCumulative _ w ackNum nowNs rtt

theorem static_nextSeq : Static SendWindow.nextSeq :=
  ⟨fun _ _ _ => rfl, fun _ _ => rfl, fun _ _ => rfl⟩

theorem static_nextUnrelSeq : Static SendWindow.nextUnrelSeq :=
  ⟨fun _ _ _ => rfl, fun _ _ => rfl, fun _ _ => rfl⟩

theorem static_capacity : Static SendWindow.capacity :=
  ⟨fun _ _ _ => rfl, fun _ _ => rfl, fun _ _ => rfl⟩

end Static

/-- Two windows that hold the same positions with the same cells are equal. -/
theorem Rep.ext {w w' : SendWindow} {h n : ℕ} (b : ℕ) (hw : w.Rep h n) (hw' : w'.Rep h n)
    (hcap : w.capacity = w'.capacity) (hun : w.nextUnrelSeq = w'.nextUnrelSeq)
    (hcell : ∀ q, b ≤ q → q < b + w.capacity.toNat → w.cell q = w'.cell q) : w = w' := by
  have hall : ∀ q, w.cell q = w'.cell q := by
    intro q
    obtain ⟨p, hp, hp', hmod⟩ := Ring.exists_pos_of_lt b (Nat.mod_lt q hw.len_pos)
    have hlen : w.slots.length = w'.slots.length := by rw [hw.len, hw'.len, hcap]
    have h1 : w.cell q = w.cell p := by rw [cell, cell, Ring.cell, Ring.cell, hmod]
    have h2 : w'.cell q = w'.cell p := by
      rw [cell, cell, Ring.cell, Ring.cell, ← hlen, hmod]
    rw [h1, h2]
    exact hcell p hp (by rw [← hw.len]; exact hp')
  have hslots : w.slots = w'.slots := by
    have hlen : w.slots.length = w'.slots.length := by rw [hw.len, hw'.len, hcap]
    apply List.ext_getElem hlen
    intro i h1 h2
    have := hall i
    simp only [cell, Ring.cell, Nat.mod_eq_of_lt h1, Nat.mod_eq_of_lt h2] at this
    rwa [List.getD_eq_getElem _ _ h1, List.getD_eq_getElem _ _ h2] at this
  have hfl : w.inFlight = w'.inFlight := by
    apply UInt32.toNat_inj.1
    rw [hw.flight, hw'.flight]
    congr 1
    exact unacked_congr fun p _ _ => by rw [hall p]
  obtain ⟨slots, capacity, headSeq, nextSeq, nextUnrelSeq, inFlight⟩ := w
  obtain ⟨slots', capacity', headSeq', nextSeq', nextUnrelSeq', inFlight'⟩ := w'
  have hhead : headSeq = headSeq' := hw.head.trans hw'.head.symm
  have hnext : nextSeq = nextSeq' := hw.next.trans hw'.next.symm
  simp only at hslots hcap hun hfl
  rw [hslots, hcap, hhead, hnext, hun, hfl]

/-! ### Two acknowledgements in a row -/

section Twice

variable {w : SendWindow} {h n : ℕ}

/-- **Two acknowledgements**: the positions below the second release are released, and those above
it that either selects are marked. -/
theorem Rep.onAck_onAck (hw : w.Rep h n) (a₁ m₁ a₂ m₂ : UInt32) (t₁ t₂ : UInt64)
    (rtt₁ rtt₂ : Rtt) :
    ((w.onAck a₁ m₁ t₁ rtt₁).1.onAck a₂ m₂ t₂ rtt₂).1.Rep (cumTo a₂ (cumTo a₁ h n) n) n ∧
      ((w.onAck a₁ m₁ t₁ rtt₁).1.onAck a₂ m₂ t₂ rtt₂).1.capacity = w.capacity ∧
      ∀ q, h ≤ q → q < h + w.capacity.toNat →
        ((w.onAck a₁ m₁ t₁ rtt₁).1.onAck a₂ m₂ t₂ rtt₂).1.cell q =
          if q < cumTo a₂ (cumTo a₁ h n) n then (w.cell q).ack.unuse
          else if q < n ∧ (Sacks a₁ m₁ q ∨ Sacks a₂ m₂ q) then (w.cell q).ack else w.cell q := by
  obtain ⟨hrep₁, hcap₁, hcell₁⟩ := hw.onAck_rep a₁ m₁ t₁ rtt₁
  generalize (w.onAck a₁ m₁ t₁ rtt₁).1 = w₁ at hrep₁ hcap₁ hcell₁ ⊢
  obtain ⟨hrep₂, hcap₂, hcell₂⟩ := hrep₁.onAck_rep a₂ m₂ t₂ rtt₂
  generalize (w₁.onAck a₂ m₂ t₂ rtt₂).1 = w₂ at hrep₂ hcap₂ hcell₂ ⊢
  have hge₁ := cumTo_ge a₁ hw.le
  have hge₂ := cumTo_ge a₂ hrep₁.le
  have hle₂ := cumTo_le a₂ hrep₁.le
  have hb := hw.bound
  refine ⟨hrep₂, hcap₂.trans hcap₁, fun q hq hq' => ?_⟩
  rw [hcap₁] at hcell₂
  by_cases hlt : q < cumTo a₁ h n
  · -- released by the first; for the second its cell is that of a position beyond `n`
    have hfar := hcell₂ (q + w.capacity.toNat) (by omega) (by omega)
    rw [if_neg (by omega), if_neg (by omega)] at hfar
    have e₁ := cell_add_length w₁ q
    have e₂ := cell_add_length w₂ q
    rw [hrep₁.len, hcap₁] at e₁
    rw [hrep₂.len, hcap₂, hcap₁] at e₂
    rw [← e₂, hfar, e₁, hcell₁ q hq hq', if_pos hlt, if_pos (by omega)]
  · rw [hcell₂ q (by omega) (by omega), hcell₁ q hq hq', if_neg hlt]
    have hack : (w.cell q).ack.ack = (w.cell q).ack := rfl
    by_cases h1 : Sacks a₁ m₁ q <;> by_cases h2 : Sacks a₂ m₂ q <;> by_cases hn : q < n <;>
      simp [h1, h2, hn, hack]

/-- For a number near the head, the release is the position after it, cut to the window. -/
theorem cumTo_near {a : UInt32} {h' : ℕ} (hh : h ≤ h') (hn : h' ≤ n) (hs : n ≤ h + 2 ^ 30)
    (hnear : |seqDiff a (wrap h)| ≤ 2 ^ 30) :
    (cumTo a h' n : ℤ) = max (h' : ℤ) (min (n : ℤ) (h + seqDiff a (wrap h) + 1)) := by
  obtain ⟨hlo, hhi⟩ := abs_le.1 hnear
  rcases Nat.eq_or_lt_of_le hn with rfl | hlt
  · rw [cumTo_self]
    omega
  · -- short of the end, the signed difference is the true one
    have hdiff : seqDiff (wrap h') a = (h' : ℤ) - (h + seqDiff a (wrap h)) := by
      obtain ⟨r, hr, hd⟩ := Serial.diff_cases a (wrap h)
      unfold seqDiff at hlo hhi ⊢
      apply Serial.diff_eq_of_modEq
      · rw [Serial.wrap_toNat] at hr ⊢
        omega
      · omega
      · omega
    unfold cumTo
    rw [hdiff]
    split
    · omega
    · omega

end Twice

/-- **Acknowledgements near the head commute and are idempotent.** -/
theorem onAck_comm_and_idem {w : SendWindow} {h n : ℕ} (hw : w.Rep h n) {a₁ a₂ : UInt32}
    (h₁ : |seqDiff a₁ w.headSeq| ≤ 2 ^ 30) (h₂ : |seqDiff a₂ w.headSeq| ≤ 2 ^ 30)
    (m₁ m₂ : UInt32) (t₁ t₂ t₃ t₄ : UInt64) (rtt₁ rtt₂ rtt₃ rtt₄ : Rtt) :
    ((w.onAck a₁ m₁ t₁ rtt₁).1.onAck a₂ m₂ t₂ rtt₂).1 =
        ((w.onAck a₂ m₂ t₃ rtt₃).1.onAck a₁ m₁ t₄ rtt₄).1 ∧
      ((w.onAck a₁ m₁ t₁ rtt₁).1.onAck a₁ m₁ t₂ rtt₂).1 = (w.onAck a₁ m₁ t₁ rtt₁).1 := by
  rw [hw.head] at h₁ h₂
  have hbound : n ≤ h + 2 ^ 30 := hw.bound.trans (Nat.add_le_add_left hw.small h)
  have hself := fun {a : UInt32} ha => cumTo_near (a := a) le_rfl hw.le hbound ha
  have hthen := fun {a b : UInt32} hb =>
    cumTo_near (a := b) (cumTo_ge a hw.le) (cumTo_le a hw.le) hbound hb
  constructor
  · obtain ⟨hrep, hcap, hcell⟩ := hw.onAck_onAck a₁ m₁ a₂ m₂ t₁ t₂ rtt₁ rtt₂
    obtain ⟨hrep', hcap', hcell'⟩ := hw.onAck_onAck a₂ m₂ a₁ m₁ t₃ t₄ rtt₃ rtt₄
    have hto : cumTo a₂ (cumTo a₁ h n) n = cumTo a₁ (cumTo a₂ h n) n := by
      have e₁ := hself h₁
      have e₂ := hself h₂
      have e₁₂ := hthen (a := a₁) h₂
      have e₂₁ := hthen (a := a₂) h₁
      omega
    rw [← hto] at hrep' hcell'
    apply hrep.ext h hrep' (hcap.trans hcap'.symm)
    · simp only [static_nextUnrelSeq.onAck]
    · intro q hq hq'
      rw [hcap] at hq'
      simp only [hcell q hq hq', hcell' q hq hq', or_comm (a := Sacks a₁ m₁ q)]
  · obtain ⟨hrep, hcap, hcell⟩ := hw.onAck_onAck a₁ m₁ a₁ m₁ t₁ t₂ rtt₁ rtt₂
    obtain ⟨hrep', hcap', hcell'⟩ := hw.onAck_rep a₁ m₁ t₁ rtt₁
    have hto : cumTo a₁ (cumTo a₁ h n) n = cumTo a₁ h n := by
      have e₁ := hself h₁
      have e₁₁ := hthen (a := a₁) h₁
      omega
    rw [hto] at hrep hcell
    apply hrep.ext h hrep' (hcap.trans hcap'.symm)
    · simp only [static_nextUnrelSeq.onAck]
    · intro q hq hq'
      rw [hcap] at hq'
      simp only [hcell q hq hq', hcell' q hq hq', or_self]

/-- The first message acknowledged by number and the second by the mask, in either order. -/
theorem onAck_comm_and_idem_of_two :
    ((twoPushed.onAck 1 0 5 .default).1.onAck 0 2 6 .default).1 =
        ((twoPushed.onAck 0 2 5 .default).1.onAck 1 0 6 .default).1 ∧
      ((twoPushed.onAck 1 0 5 .default).1.onAck 1 0 6 .default).1 =
        (twoPushed.onAck 1 0 5 .default).1 := by
  exact onAck_comm_and_idem twoPushed_rep (by decide) (by decide) 0 2 5 6 5 6 .default .default
    .default
    .default

end SendWindow

end Rel4u
