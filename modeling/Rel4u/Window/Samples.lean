import Rel4u.Window.SendInv

/-!
# Which slots an acknowledgement takes a round-trip sample of

`rel4u_send_window_on_ack` calls `rel4u_rtt_update_sample` at two places, one in each of its loops.
`onAckSamples` lists the slots for which it does, in order, by following the same two loops over
the same windows; `onAck_rtt` says that the estimator it returns is the one these calls produce.

In terms of positions the list has no repetition: the cumulative loop meets each position once, and
a slot that was sampled is marked before any later bit of the mask is looked at.
-/

namespace Rel4u

open Serial (wrap)

/-- The condition under which an acknowledged slot is sampled. -/
def SendSlot.Sampled (slot : SendSlot) (nowNs : UInt64) : Prop :=
  slot.retransmitCount = 0 ∧ nowNs ≥ slot.firstSentTimeNs

instance (slot : SendSlot) (nowNs : UInt64) : Decidable (slot.Sampled nowNs) :=
  inferInstanceAs (Decidable (_ ∧ _))

namespace SendWindow

/-- The call of `rel4u_rtt_update_sample` for a slot. -/
def sample (nowNs : UInt64) (rtt : Rtt) (slot : SendSlot) : Rtt :=
  rtt.updateSample ((nowNs - slot.firstSentTimeNs) / 1000000).toUInt32

/-- The slot sampled by one turn of the cumulative loop. -/
def ackHeadSamples (win : SendWindow) (nowNs : UInt64) : List SendSlot :=
  let slot := win.slot (win.slotIdx win.headSeq)
  if (slot.inUse && decide (slot.seqNum = win.headSeq)) && !slot.acked then
    if slot.Sampled nowNs then [slot] else []
  else []

/-- The slots sampled by the cumulative loop. -/
def ackCumulativeSamples : ℕ → SendWindow → UInt32 → UInt64 → Rtt → List SendSlot
  | 0, _, _, _, _ => []
  | fuel + 1, win, ackNum, nowNs, rtt =>
    if seqLte win.headSeq ackNum && decide (win.headSeq ≠ win.nextSeq) then
      let (win', rtt') := win.ackHead nowNs rtt
      win.ackHeadSamples nowNs ++ ackCumulativeSamples fuel win' ackNum nowNs rtt'
    else []

/-- The slot sampled for bit `i` of the mask. -/
def ackSelectiveSamples (ackNum sackMask : UInt32) (nowNs : UInt64) (win : SendWindow) (i : ℕ) :
    List SendSlot :=
  if sackMask &&& ((1 : UInt32) <<< UInt32.ofNat i) ≠ 0 then
    let sackSeq := ackNum + 1 + UInt32.ofNat i
    if seqLt sackSeq win.nextSeq && seqGte sackSeq win.headSeq then
      let slot := win.slot (win.slotIdx sackSeq)
      if slot.inUse && decide (slot.seqNum = sackSeq) && !slot.acked then
        if slot.Sampled nowNs then [slot] else []
      else []
    else []
  else []

/-- The slots sampled by the selective loop over a list of bits. -/
def selectiveSamples (ackNum sackMask : UInt32) (nowNs : UInt64) :
    List ℕ → SendWindow × Rtt → List SendSlot
  | [], _ => []
  | i :: bits, s =>
    ackSelectiveSamples ackNum sackMask nowNs s.1 i ++
      selectiveSamples ackNum sackMask nowNs bits (ackSelective ackNum sackMask nowNs s i)

/-- The slots for which `onAck` takes a sample. -/
def onAckSamples (win : SendWindow) (ackNum sackMask : UInt32) (nowNs : UInt64) (rtt : Rtt) :
    List SendSlot :=
  let fuel := (win.nextSeq - win.headSeq).toNat
  ackCumulativeSamples fuel win ackNum nowNs rtt ++
    if sackMask ≠ 0 then
      selectiveSamples ackNum sackMask nowNs (List.range 32)
        (ackCumulative fuel win ackNum nowNs rtt)
    else []

/-! ### The estimator is the result of these calls -/

theorem sampleRtt_eq (slot : SendSlot) (nowNs : UInt64) (rtt : Rtt) :
    sampleRtt slot nowNs rtt =
      (if slot.Sampled nowNs then [slot] else []).foldl (sample nowNs) rtt := by
  by_cases h : slot.Sampled nowNs
  · rw [if_pos h]
    exact if_pos h
  · rw [if_neg h]
    exact if_neg h

theorem ackHead_rtt (win : SendWindow) (nowNs : UInt64) (rtt : Rtt) :
    (win.ackHead nowNs rtt).2 = (win.ackHeadSamples nowNs).foldl (sample nowNs) rtt := by
  unfold ackHead ackHeadSamples
  dsimp only
  generalize win.slot (win.slotIdx win.headSeq) = slot
  cases hown : slot.inUse && decide (slot.seqNum = win.headSeq) with
  | false => rfl
  | true =>
    cases hacked : slot.acked with
    | true => rfl
    | false => exact sampleRtt_eq slot nowNs rtt

theorem ackCumulative_rtt (fuel : ℕ) : ∀ (win : SendWindow) (ackNum : UInt32) (nowNs : UInt64)
    (rtt : Rtt), (ackCumulative fuel win ackNum nowNs rtt).2 =
      (ackCumulativeSamples fuel win ackNum nowNs rtt).foldl (sample nowNs) rtt := by
  induction fuel with
  | zero => intros; rfl
  | succ fuel ih =>
    intro win ackNum nowNs rtt
    rw [ackCumulative, ackCumulativeSamples]
    split
    · dsimp only
      rw [List.foldl_append, ← ackHead_rtt win nowNs rtt]
      exact ih _ ackNum nowNs _
    · rfl

theorem ackSelective_rtt (ackNum sackMask : UInt32) (nowNs : UInt64) (s : SendWindow × Rtt)
    (i : ℕ) : (ackSelective ackNum sackMask nowNs s i).2 =
      (ackSelectiveSamples ackNum sackMask nowNs s.1 i).foldl (sample nowNs) s.2 := by
  obtain ⟨win, rtt⟩ := s
  unfold ackSelective ackSelectiveSamples
  dsimp only
  split
  · split
    · split
      · exact sampleRtt_eq _ nowNs rtt
      · rfl
    · rfl
  · rfl

theorem foldl_ackSelective_rtt (ackNum sackMask : UInt32) (nowNs : UInt64) (bits : List ℕ) :
    ∀ s : SendWindow × Rtt, (bits.foldl (ackSelective ackNum sackMask nowNs) s).2 =
      (selectiveSamples ackNum sackMask nowNs bits s).foldl (sample nowNs) s.2 := by
  induction bits with
  | nil => intro s; rfl
  | cons i bits ih =>
    intro s
    rw [List.foldl_cons, ih, selectiveSamples, List.foldl_append, ackSelective_rtt]

/-- **The estimator after an acknowledgement is the result of the samples listed.** -/
theorem onAck_rtt (win : SendWindow) (ackNum sackMask : UInt32) (nowNs : UInt64) (rtt : Rtt) :
    (win.onAck ackNum sackMask nowNs rtt).2 =
      (win.onAckSamples ackNum sackMask nowNs rtt).foldl (sample nowNs) rtt := by
  rw [onAck, onAckSamples, List.foldl_append, ← ackCumulative_rtt]
  split
  · exact foldl_ackSelective_rtt ackNum sackMask nowNs _ _
  · rfl

/-! ### The positions sampled -/

section Positions

variable {w : SendWindow} {h n : ℕ}

/-- `l` lists the slots of the positions that satisfy `P`, each once. -/
def Lists (w : SendWindow) (l : List SendSlot) (P : ℕ → Prop) : Prop :=
  ∃ ps : List ℕ, ps.Nodup ∧ l = ps.map w.cell ∧ ∀ p, p ∈ ps ↔ P p

theorem Lists.nil {P : ℕ → Prop} (hP : ∀ p, ¬ P p) : w.Lists [] P :=
  ⟨[], List.nodup_nil, rfl, fun p => iff_of_false List.not_mem_nil (hP p)⟩

theorem Lists.single {P : ℕ → Prop} {p : ℕ} (hP : ∀ q, P q ↔ q = p) : w.Lists [w.cell p] P :=
  ⟨[p], List.nodup_singleton p, rfl, fun q => List.mem_singleton.trans (hP q).symm⟩

/-- Two lists one after the other, the second over a window that still has the cells it reads. -/
theorem Lists.append {w' : SendWindow} {l l' : List SendSlot} {P P' Q : ℕ → Prop}
    (hl : w.Lists l P) (hl' : w'.Lists l' P') (hcell : ∀ p, P' p → w'.cell p = w.cell p)
    (hdisj : ∀ p, P p → ¬ P' p) (hQ : ∀ p, Q p ↔ P p ∨ P' p) : w.Lists (l ++ l') Q := by
  obtain ⟨ps, hnd, rfl, hmem⟩ := hl
  obtain ⟨ps', hnd', rfl, hmem'⟩ := hl'
  refine ⟨ps ++ ps', List.nodup_append'.2 ⟨hnd, hnd', ?_⟩, ?_, ?_⟩
  · intro p hp hp'
    exact hdisj p ((hmem p).1 hp) ((hmem' p).1 hp')
  · rw [List.map_append]
    congr 1
    exact List.map_congr_left fun p hp => hcell p ((hmem' p).1 hp)
  · intro p
    rw [List.mem_append, hmem, hmem', hQ]

/-- A position that an acknowledgement at `nowNs` samples if it acknowledges it. -/
def Fresh (w : SendWindow) (nowNs : UInt64) (p : ℕ) : Prop :=
  (w.cell p).acked = false ∧ (w.cell p).Sampled nowNs

theorem Rep.ackHeadSamples_lists (hw : w.Rep h n) (hlt : h < n) (nowNs : UInt64) :
    w.Lists (w.ackHeadSamples nowNs) fun p => p = h ∧ w.Fresh nowNs p := by
  have hi : w.slot (w.slotIdx w.headSeq) = w.cell h := by rw [hw.head, hw.slotIdx]; rfl
  have hs : (w.cell h).seqNum = w.headSeq := by rw [hw.seqNum h le_rfl hlt, hw.head]
  unfold ackHeadSamples
  simp only [hi, hw.inUse h le_rfl hlt, hs, decide_true, Bool.and_self, Bool.true_and]
  cases ha : (w.cell h).acked with
  | true =>
    apply Lists.nil
    rintro p ⟨rfl, hf, -⟩
    exact absurd (hf.symm.trans ha) (by decide)
  | false =>
    by_cases hsm : (w.cell h).Sampled nowNs
    · simp only [Bool.not_false, if_true, hsm]
      apply Lists.single
      intro q
      exact ⟨fun hq => hq.1, fun hq => ⟨hq, by rw [hq]; exact ⟨ha, hsm⟩⟩⟩
    · simp only [Bool.not_false, if_true, hsm, if_false]
      apply Lists.nil
      rintro p ⟨rfl, hf⟩
      exact hsm hf.2

/-- The cumulative loop samples the fresh positions that it releases. -/
theorem Rep.ackCumulativeSamples_lists (ackNum : UInt32) (nowNs : UInt64) (k : ℕ) :
    ∀ {w : SendWindow} {h : ℕ} (rtt : Rtt), w.Rep h n → k = n - h →
      w.Lists (ackCumulativeSamples k w ackNum nowNs rtt) fun p =>
        (h ≤ p ∧ p < cumTo ackNum h n) ∧ w.Fresh nowNs p := by
  induction k with
  | zero =>
    intro w h rtt hw hk
    have hle := cumTo_le ackNum hw.le
    apply Lists.nil
    rintro p ⟨hp, -⟩
    omega
  | succ k ih =>
    intro w h rtt hw hk
    have hlt : h < n := by omega
    have hb := hw.bound
    have hle := cumTo_le ackNum hw.le
    rw [ackCumulativeSamples]
    by_cases hd : seqDiff (wrap h) ackNum ≤ 0
    · have hcond : (seqLte w.headSeq ackNum && decide (w.headSeq ≠ w.nextSeq)) = true := by
        have hne := hw.headSeq_ne_nextSeq hlt
        simp only [seqLte, hw.head] at hne ⊢
        simp [hd, hne]
      obtain ⟨h1, -, h3⟩ := hw.ackHead_rep hlt nowNs rtt
      have htail := ih (w.ackHead nowNs rtt).2 h1 (by omega)
      rw [cumTo_succ ackNum hlt hd] at htail
      have hgt : h < cumTo ackNum h n := by unfold cumTo; rw [if_pos hd]; omega
      have hcell : ∀ p, h + 1 ≤ p → p < cumTo ackNum h n →
          (w.ackHead nowNs rtt).1.cell p = w.cell p := by
        intro p h4 h5
        rw [h3 p (by omega) (by omega), if_neg (by omega)]
      have hfresh : ∀ p, h + 1 ≤ p → p < cumTo ackNum h n →
          ((w.ackHead nowNs rtt).1.Fresh nowNs p ↔ w.Fresh nowNs p) := by
        intro p h4 h5
        unfold Fresh
        rw [hcell p h4 h5]
      rw [if_pos hcond]
      apply (hw.ackHeadSamples_lists hlt nowNs).append htail
      · exact fun p hp => hcell p hp.1.1 hp.1.2
      · rintro p ⟨rfl, -⟩ ⟨hp, -⟩
        omega
      · intro p
        constructor
        · rintro ⟨⟨h4, h5⟩, hf⟩
          rcases Nat.eq_or_lt_of_le h4 with rfl | h6
          · exact Or.inl ⟨rfl, hf⟩
          · exact Or.inr ⟨⟨h6, h5⟩, (hfresh p h6 h5).2 hf⟩
        · rintro (⟨rfl, hf⟩ | ⟨⟨h4, h5⟩, hf⟩)
          · exact ⟨⟨le_rfl, hgt⟩, hf⟩
          · exact ⟨⟨by omega, h5⟩, (hfresh p h4 h5).1 hf⟩
    · have hcond : ¬ (seqLte w.headSeq ackNum && decide (w.headSeq ≠ w.nextSeq)) = true := by
        simp [seqLte, hw.head, hd]
      have hc : cumTo ackNum h n = h := if_neg hd
      rw [if_neg hcond]
      apply Lists.nil
      rintro p ⟨hp, -⟩
      omega

theorem Rep.ackSelectiveSamples_lists (hw : w.Rep h n) (ackNum sackMask : UInt32) (nowNs : UInt64)
    (i : ℕ) :
    w.Lists (ackSelectiveSamples ackNum sackMask nowNs w i) fun p =>
      (h ≤ p ∧ p < n) ∧ SackBit ackNum sackMask i p ∧ w.Fresh nowNs p := by
  have hb := hw.bound
  have hsm := hw.small
  unfold ackSelectiveSamples
  dsimp only
  by_cases hbit : sackMask &&& ((1 : UInt32) <<< UInt32.ofNat i) ≠ 0
  · rw [if_pos hbit]
    by_cases hr : (seqLt (ackNum + 1 + UInt32.ofNat i) w.nextSeq &&
        seqGte (ackNum + 1 + UInt32.ofNat i) w.headSeq) = true
    · rw [if_pos hr]
      obtain ⟨p, hp, hp', hx⟩ := (hw.inRange_iff _).1 hr
      have hname : ∀ q, (h ≤ q ∧ q < n) ∧ SackBit ackNum sackMask i q → q = p := by
        rintro q ⟨⟨h1, h2⟩, -, hq⟩
        exact Serial.wrap_inj (hq.symm.trans hx) (by omega) (by omega)
      rw [hx, hw.slotIdx, slot_mod, hw.inUse p hp hp', hw.seqNum p hp hp']
      simp only [decide_true, Bool.and_self, Bool.true_and]
      by_cases hf : w.Fresh nowNs p
      · simp only [hf.1, Bool.not_false, if_true, hf.2]
        apply Lists.single
        intro q
        refine ⟨fun hq => hname q ⟨hq.1, hq.2.1⟩, ?_⟩
        rintro rfl
        exact ⟨⟨hp, hp'⟩, ⟨hbit, hx⟩, hf⟩
      · have hempty : (if (!(w.cell p).acked) = true then
            if (w.cell p).Sampled nowNs then [w.cell p] else [] else []) = [] := by
          split_ifs with h1 h2
          · exact absurd ⟨by simpa using h1, h2⟩ hf
          · rfl
          · rfl
        rw [hempty]
        apply Lists.nil
        rintro q ⟨hq, hqb, hqf⟩
        rw [hname q ⟨hq, hqb⟩] at hqf
        exact hf hqf
    · rw [if_neg hr]
      apply Lists.nil
      rintro q ⟨⟨h1, h2⟩, ⟨-, hx⟩, -⟩
      exact hr ((hw.inRange_iff _).2 ⟨q, h1, h2, hx⟩)
  · rw [if_neg hbit]
    apply Lists.nil
    rintro q ⟨-, ⟨h1, -⟩, -⟩
    exact hbit h1

/-- The selective loop samples the fresh positions that its bits name. -/
theorem Rep.selectiveSamples_lists (ackNum sackMask : UInt32) (nowNs : UInt64) (bits : List ℕ) :
    ∀ {w : SendWindow} (rtt : Rtt), w.Rep h n →
      w.Lists (selectiveSamples ackNum sackMask nowNs bits (w, rtt)) fun p =>
        (h ≤ p ∧ p < n) ∧ (∃ i ∈ bits, SackBit ackNum sackMask i p) ∧ w.Fresh nowNs p := by
  induction bits with
  | nil =>
    intro w rtt hw
    apply Lists.nil
    rintro p ⟨-, ⟨i, hi, -⟩, -⟩
    exact absurd hi List.not_mem_nil
  | cons i bits ih =>
    intro w rtt hw
    have hb := hw.bound
    obtain ⟨h1, -, h3⟩ := hw.ackSelective_rep ackNum sackMask nowNs rtt i
    rw [selectiveSamples]
    generalize ackSelective ackNum sackMask nowNs (w, rtt) i = s at h1 h3 ⊢
    obtain ⟨w', rtt'⟩ := s
    -- what the first bit names is marked, everything else is as before
    have hsame : ∀ p, h ≤ p → p < n → ¬ SackBit ackNum sackMask i p → w'.cell p = w.cell p := by
      intro p hp hp' hbit
      rw [h3 p hp (by omega), if_neg (fun hq => hbit hq.2)]
    have hmarked : ∀ p, h ≤ p → p < n → SackBit ackNum sackMask i p → ¬ w'.Fresh nowNs p := by
      intro p hp hp' hbit hf
      have hf1 := hf.1
      rw [h3 p hp (by omega), if_pos ⟨hp', hbit⟩] at hf1
      exact absurd hf1 (by simp [SendSlot.ack])
    apply (hw.ackSelectiveSamples_lists ackNum sackMask nowNs i).append (ih rtt' h1)
    · rintro p ⟨⟨hp, hp'⟩, -, hf⟩
      exact hsame p hp hp' fun hbit => hmarked p hp hp' hbit hf
    · rintro p ⟨⟨hp, hp'⟩, hbit, -⟩ ⟨-, -, hf⟩
      exact hmarked p hp hp' hbit hf
    · intro p
      constructor
      · rintro ⟨⟨hp, hp'⟩, ⟨j, hj, hbit⟩, hf⟩
        by_cases hi : SackBit ackNum sackMask i p
        · exact Or.inl ⟨⟨hp, hp'⟩, hi, hf⟩
        · refine Or.inr ⟨⟨hp, hp'⟩, ⟨j, ?_, hbit⟩, ?_⟩
          · rcases List.mem_cons.1 hj with rfl | hj'
            · exact absurd hbit hi
            · exact hj'
          · unfold Fresh
            rw [hsame p hp hp' hi]
            exact hf
      · rintro (⟨hr, hi, hf⟩ | ⟨⟨hp, hp'⟩, ⟨j, hj, hbit⟩, hf⟩)
        · exact ⟨hr, ⟨i, List.mem_cons_self, hi⟩, hf⟩
        · refine ⟨⟨hp, hp'⟩, ⟨j, List.mem_cons_of_mem i hj, hbit⟩, ?_⟩
          have hi : ¬ SackBit ackNum sackMask i p := fun hi => hmarked p hp hp' hi hf
          unfold Fresh at hf
          rw [hsame p hp hp' hi] at hf
          exact hf

/-- **An acknowledgement samples exactly the fresh positions that it acknowledges, each once.** -/
theorem Rep.onAckSamples_lists (hw : w.Rep h n) (ackNum sackMask : UInt32) (nowNs : UInt64)
    (rtt : Rtt) :
    w.Lists (w.onAckSamples ackNum sackMask nowNs rtt) fun p =>
      (h ≤ p ∧ p < n) ∧ (p < cumTo ackNum h n ∨ Sacks ackNum sackMask p) ∧ w.Fresh nowNs p := by
  have hb := hw.bound
  have hsm := hw.small
  have hge := cumTo_ge ackNum hw.le
  have hle := cumTo_le ackNum hw.le
  obtain ⟨h1, -, h3⟩ := Rep.ackCumulative_rep ackNum nowNs (n - h) rtt hw rfl
  have hcum := Rep.ackCumulativeSamples_lists ackNum nowNs (n - h) rtt hw rfl
  rw [onAckSamples, hw.fuel_eq]
  by_cases hm : sackMask ≠ 0
  · rw [if_pos hm]
    generalize ackCumulative (n - h) w ackNum nowNs rtt = s at h1 h3 ⊢
    obtain ⟨w', rtt'⟩ := s
    have hsel := Rep.selectiveSamples_lists ackNum sackMask nowNs (List.range 32) rtt' h1
    have hcell : ∀ p, cumTo ackNum h n ≤ p → p < n → w'.cell p = w.cell p := by
      intro p hp hp'
      rw [h3 p (by omega) (by omega), if_neg (by omega)]
    have hfresh : ∀ p, cumTo ackNum h n ≤ p → p < n →
        (w'.Fresh nowNs p ↔ w.Fresh nowNs p) := by
      intro p hp hp'
      unfold Fresh
      rw [hcell p hp hp']
    apply hcum.append hsel
    · exact fun p hp => hcell p hp.1.1 hp.1.2
    · rintro p ⟨⟨-, hp⟩, -⟩ ⟨⟨hp', -⟩, -⟩
      omega
    · intro p
      simp only [List.mem_range]
      constructor
      · rintro ⟨⟨hp, hp'⟩, hack, hf⟩
        by_cases hlt : p < cumTo ackNum h n
        · exact Or.inl ⟨⟨hp, hlt⟩, hf⟩
        · exact Or.inr ⟨⟨by omega, hp'⟩, hack.resolve_left hlt, (hfresh p (by omega) hp').2 hf⟩
      · rintro (⟨⟨hp, hlt⟩, hf⟩ | ⟨⟨hp, hp'⟩, hbit, hf⟩)
        · exact ⟨⟨hp, by omega⟩, Or.inl hlt, hf⟩
        · exact ⟨⟨by omega, hp'⟩, Or.inr hbit, (hfresh p hp hp').1 hf⟩
  · rw [if_neg hm, List.append_nil]
    obtain ⟨ps, hnd, heq, hmem⟩ := hcum
    refine ⟨ps, hnd, heq, fun p => (hmem p).trans ?_⟩
    have hnone := not_sacks_zero ackNum p
    rw [← not_not.1 hm] at hnone
    constructor
    · rintro ⟨⟨hp, hlt⟩, hf⟩
      exact ⟨⟨hp, by omega⟩, Or.inl hlt, hf⟩
    · rintro ⟨⟨hp, -⟩, hack, hf⟩
      exact ⟨⟨hp, hack.resolve_right hnone⟩, hf⟩

end Positions

end SendWindow

end Rel4u
