import Rel4u.Lib.Batches
import Rel4u.Window.Reclaim

/-!
# The expiry scan

`rel4u_send_window_get_expired` goes through the window from `head_seq` and returns the slots that
are due, up to a limit; the workers then stamp each of them with the current time. `expired` lists
the sequence numbers that are due, `getExpired_eq` says that the scan returns the slots of the first
of them, and `dueFrom_retransmitPass` that a pass leaves the others due. So passes at one moment
take the due packets in batches (`getExpired_exact_and_fair`): none is passed over, and none is
returned twice.
-/

namespace Rel4u

open Serial (wrap)

/-- Unacknowledged, and last sent `rtoMs` milliseconds ago or earlier. -/
def SendSlot.Due (s : SendSlot) (nowNs : UInt64) (rtoMs : UInt32) : Prop :=
  s.acked = false ∧ s.lastSentTimeNs ≤ nowNs ∧
    rtoMs.toNat * 10 ^ 6 ≤ nowNs.toNat - s.lastSentTimeNs.toNat

instance (s : SendSlot) (nowNs : UInt64) (rtoMs : UInt32) : Decidable (s.Due nowNs rtoMs) :=
  inferInstanceAs (Decidable (_ ∧ _))

/-- The timeout in nanoseconds fits its word. -/
theorem toNat_rtoNs (rtoMs : UInt32) :
    (rtoMs.toUInt64 * 1000000).toNat = rtoMs.toNat * 10 ^ 6 := by
  have h := rtoMs.toNat_lt
  rw [UInt64.toNat_mul, UInt32.toNat_toUInt64, show (1000000 : UInt64).toNat = 10 ^ 6 from rfl]
  omega

/-- The tests of the scan on times are those of `Due`. -/
theorem SendSlot.due_iff (s : SendSlot) (nowNs : UInt64) (rtoMs : UInt32) :
    s.Due nowNs rtoMs ↔ s.acked = false ∧ nowNs ≥ s.lastSentTimeNs ∧
      nowNs - s.lastSentTimeNs ≥ rtoMs.toUInt64 * 1000000 := by
  refine and_congr_right fun _ => and_congr_right fun hle => ?_
  rw [ge_iff_le, UInt64.le_iff_toNat_le, toNat_rtoNs, UInt64.toNat_sub_of_le _ _ hle]

/-- A slot that has just been sent again is not due. -/
theorem SendSlot.not_due_of_now {s : SendSlot} {nowNs : UInt64} {rtoMs : UInt32} (hrto : 1 ≤ rtoMs)
    (h : s.lastSentTimeNs = nowNs) : ¬ s.Due nowNs rtoMs := by
  rintro ⟨-, -, hdue⟩
  rw [UInt32.le_iff_toNat_le, show (1 : UInt32).toNat = 1 from rfl] at hrto
  rw [h] at hdue
  omega

namespace SendWindow

/-- The sequence numbers of `[head_seq, next_seq)` that are due, in ascending order. -/
def expired (w : SendWindow) (nowNs : UInt64) (rtoMs : UInt32) : List UInt32 :=
  ((List.range (w.nextSeq - w.headSeq).toNat).map fun i => w.headSeq + UInt32.ofNat i).filter
    fun seq => decide ((w.slot (w.slotIdx seq)).Due nowNs rtoMs)

/-- The workers' pass: every slot that the scan returns is marked as sent again. -/
def retransmitPass (nowNs : UInt64) (rtoMs : UInt32) (maxSlots : ℕ) (w : SendWindow) : SendWindow :=
  (w.getExpired nowNs rtoMs maxSlots).foldl (fun win i => win.resend nowNs i) w

/-- The sequence numbers of the slots that a pass returns. -/
def returned (nowNs : UInt64) (rtoMs : UInt32) (maxSlots : ℕ) (w : SendWindow) : List UInt32 :=
  (w.getExpired nowNs rtoMs maxSlots).map fun i => (w.slot i).seqNum

/-- The due positions among the `k` positions from `p` on. -/
def dueFrom (w : SendWindow) (nowNs : UInt64) (rtoMs : UInt32) (p k : ℕ) : List ℕ :=
  (List.range' p k).filter fun q => decide ((w.cell q).Due nowNs rtoMs)

section Scan

variable {w : SendWindow} {h n : ℕ}

theorem mem_dueFrom {nowNs : UInt64} {rtoMs : UInt32} {p k q : ℕ} :
    q ∈ w.dueFrom nowNs rtoMs p k ↔ (p ≤ q ∧ q < p + k) ∧ (w.cell q).Due nowNs rtoMs := by
  rw [dueFrom, List.mem_filter, List.mem_range'_1, decide_eq_true_eq]

theorem nodup_dueFrom (w : SendWindow) (nowNs : UInt64) (rtoMs : UInt32) (p k : ℕ) :
    (w.dueFrom nowNs rtoMs p k).Nodup :=
  List.Nodup.filter _ (List.nodup_range' 1)

theorem dueFrom_succ (w : SendWindow) (nowNs : UInt64) (rtoMs : UInt32) (p k : ℕ) :
    w.dueFrom nowNs rtoMs p (k + 1) = if (w.cell p).Due nowNs rtoMs then
      p :: w.dueFrom nowNs rtoMs (p + 1) k else w.dueFrom nowNs rtoMs (p + 1) k := by
  rw [dueFrom, List.range'_succ, List.filter_cons]
  simp only [decide_eq_true_eq]
  rfl

/-- At a position of the window the scan asks whether its slot is due. -/
theorem Rep.scan_test (hw : w.Rep h n) {p : ℕ} (hp : h ≤ p) (hp' : p < n) (nowNs : UInt64)
    (rtoMs : UInt32) :
    ((w.cell p).inUse && decide ((w.cell p).seqNum = wrap p) && !(w.cell p).acked &&
      (decide (nowNs ≥ (w.cell p).lastSentTimeNs) &&
        decide (nowNs - (w.cell p).lastSentTimeNs ≥ rtoMs.toUInt64 * 1000000))) =
      decide ((w.cell p).Due nowNs rtoMs) := by
  rw [hw.inUse p hp hp', hw.seqNum p hp hp', decide_eq_true rfl, Bool.eq_iff_iff,
    decide_eq_true_eq, SendSlot.due_iff]
  simp only [Bool.true_and, Bool.and_eq_true, Bool.not_eq_true', decide_eq_true_eq]

/-- **The scan from a position on**: it adds the slots of the due positions, up to the limit. -/
theorem Rep.expiredFrom_eq (hw : w.Rep h n) (nowNs : UInt64) (rtoMs : UInt32) (maxSlots : ℕ)
    (fuel : ℕ) : ∀ (p : ℕ) (out : List ℕ), h ≤ p → p + fuel = n → out.length < maxSlots →
      w.expiredFrom nowNs (rtoMs.toUInt64 * 1000000) maxSlots fuel (wrap p) out =
        out ++ ((w.dueFrom nowNs rtoMs p fuel).take (maxSlots - out.length)).map
          (· % w.slots.length) := by
  induction fuel with
  | zero =>
    intro p out _ _ _
    simp [expiredFrom, dueFrom]
  | succ fuel ih =>
    intro p out hp hpn hout
    have hb := hw.bound
    have hs := hw.small
    have hlt : seqLt (wrap p) w.nextSeq = true := by
      rw [seqLt, hw.next, seqDiff, Serial.diff_wrap (by omega) (by omega)]
      exact decide_eq_true (by omega)
    rw [expiredFrom, if_pos hlt]
    simp only [hw.slotIdx, slot_mod, hw.scan_test hp (by omega), ← Serial.wrap_succ]
    by_cases hdue : (w.cell p).Due nowNs rtoMs
    · rw [if_pos (decide_eq_true hdue), dueFrom_succ, if_pos hdue]
      have hsucc : maxSlots - out.length = maxSlots - (out.length + 1) + 1 := by omega
      rw [hsucc, List.take_succ_cons, List.map_cons]
      by_cases hfull : (out ++ [p % w.slots.length]).length ≥ maxSlots
      · -- the limit is reached: nothing more is taken
        rw [if_pos hfull]
        rw [List.length_append, List.length_singleton] at hfull
        rw [show maxSlots - (out.length + 1) = 0 by omega, List.take_zero, List.map_nil]
      · rw [if_neg hfull, ih (p + 1) _ (by omega) (by omega) (not_le.1 hfull),
          List.length_append, List.length_singleton, List.append_assoc, List.singleton_append]
    · rw [if_neg (by simpa using hdue), dueFrom_succ, if_neg hdue]
      exact ih (p + 1) out (by omega) (by omega) hout

theorem Rep.getExpired_eq (hw : w.Rep h n) (nowNs : UInt64) (rtoMs : UInt32) (maxSlots : ℕ) :
    w.getExpired nowNs rtoMs maxSlots =
      ((w.dueFrom nowNs rtoMs h (n - h)).take maxSlots).map (· % w.slots.length) := by
  have hle := hw.le
  unfold getExpired
  split_ifs with hmax
  · rw [hmax, List.take_zero, List.map_nil]
  · rw [hw.fuel_eq, hw.head, hw.expiredFrom_eq nowNs rtoMs maxSlots (n - h) h [] le_rfl (by omega)
      (Nat.pos_of_ne_zero hmax)]
    rfl

/-- The expiry scan returns slots of unacknowledged positions. -/
theorem Rep.mem_getExpired (hw : w.Rep h n) {nowNs : UInt64} {rtoMs : UInt32} {maxSlots i : ℕ}
    (hi : i ∈ w.getExpired nowNs rtoMs maxSlots) :
    ∃ q, h ≤ q ∧ q < n ∧ i = q % w.slots.length ∧ (w.cell q).acked = false := by
  have hle := hw.le
  rw [hw.getExpired_eq] at hi
  obtain ⟨q, hq, rfl⟩ := List.mem_map.1 hi
  obtain ⟨⟨h1, h2⟩, hdue⟩ := mem_dueFrom.1 (List.mem_of_mem_take hq)
  exact ⟨q, h1, by omega, rfl, hdue.1⟩

/-- The due sequence numbers are those of the due positions. -/
theorem Rep.expired_eq (hw : w.Rep h n) (nowNs : UInt64) (rtoMs : UInt32) :
    w.expired nowNs rtoMs = (w.dueFrom nowNs rtoMs h (n - h)).map wrap := by
  have hseqs : (List.range (n - h)).map (fun i => w.headSeq + UInt32.ofNat i) =
      (List.range' h (n - h)).map wrap := by
    rw [List.range'_eq_map_range, List.map_map]
    refine List.map_congr_left fun i _ => ?_
    rw [hw.head]
    exact (Serial.wrap_add h i).symm
  rw [expired, hw.fuel_eq, hseqs, List.filter_map, dueFrom]
  congr 1
  refine List.filter_congr fun p _ => ?_
  simp only [Function.comp_apply, hw.slotIdx, slot_mod]

theorem Rep.returned_eq (hw : w.Rep h n) (nowNs : UInt64) (rtoMs : UInt32) (maxSlots : ℕ) :
    w.returned nowNs rtoMs maxSlots =
      ((w.dueFrom nowNs rtoMs h (n - h)).take maxSlots).map wrap := by
  have hle := hw.le
  rw [returned, hw.getExpired_eq, List.map_map]
  refine List.map_congr_left fun q hq => ?_
  obtain ⟨⟨h1, h2⟩, -⟩ := mem_dueFrom.1 (List.mem_of_mem_take hq)
  exact hw.seqNum q h1 (by omega)

end Scan

/-! ### A pass -/

section Pass

variable {w : SendWindow} {h n : ℕ}

/-- Marking any slots as sent again keeps the invariant and every field but times and counts. -/
theorem Rep.foldl_resend_rep (nowNs : UInt64) (l : List ℕ) :
    ∀ {w : SendWindow}, w.Rep h n →
      (l.foldl (fun win i => win.resend nowNs i) w).Rep h n ∧
      (l.foldl (fun win i => win.resend nowNs i) w).capacity = w.capacity ∧
      ∀ {β : Type} (f : SendSlot → β), (∀ (s : SendSlot) (t : UInt64), f (s.resent t) = f s) →
        ∀ p, f ((l.foldl (fun win i => win.resend nowNs i) w).cell p) = f (w.cell p) := by
  induction l with
  | nil => intro w hw; exact ⟨hw, rfl, fun _ _ _ => rfl⟩
  | cons i l ih =>
    intro w hw
    obtain ⟨h1, h2, h3⟩ := ih (hw.resend_rep nowNs i)
    refine ⟨h1, h2, fun f hf p => ?_⟩
    rw [List.foldl_cons, h3 f hf p]
    exact cell_resend_field f hf w nowNs i p

/-- Marking the slots of some positions stamps them and leaves the others alone. -/
theorem Rep.cell_foldl_resend (nowNs : UInt64) {p : ℕ} (hp : h ≤ p) (hp' : p < n) (l : List ℕ) :
    ∀ {w : SendWindow}, w.Rep h n → (∀ q ∈ l, h ≤ q ∧ q < n) →
      (p ∉ l → ((l.map (· % w.slots.length)).foldl (fun win i => win.resend nowNs i) w).cell p =
        w.cell p) ∧
      (p ∈ l → (((l.map (· % w.slots.length)).foldl (fun win i => win.resend nowNs i)
        w).cell p).lastSentTimeNs = nowNs) := by
  induction l with
  | nil => exact fun _ _ => ⟨fun _ => rfl, fun hmem => absurd hmem List.not_mem_nil⟩
  | cons q l ih =>
    intro w hw hl
    obtain ⟨hq, hq'⟩ := hl q List.mem_cons_self
    have hlen : (w.resend nowNs (q % w.slots.length)).slots.length = w.slots.length :=
      setSlot_slots_length _ _ _
    obtain ⟨hkept, hstamped⟩ := ih (hw.resend_rep nowNs (q % w.slots.length))
      fun q' hq' => hl q' (List.mem_cons_of_mem q hq')
    rw [hlen] at hkept hstamped
    have hcell := hw.cell_resend_mod hp hp' hq hq' nowNs
    rw [List.map_cons, List.foldl_cons]
    constructor
    · intro hnot
      obtain ⟨hpq, hpl⟩ := not_or.1 (fun hmem => hnot (List.mem_cons.2 hmem))
      rw [hkept hpl, hcell, if_neg hpq]
    · intro hmem
      by_cases hpl : p ∈ l
      · exact hstamped hpl
      · rcases List.mem_cons.1 hmem with hpq | hpl'
        · rw [hkept hpl, hcell, if_pos hpq]
          rfl
        · exact absurd hpl' hpl

theorem Rep.retransmitPass_rep (hw : w.Rep h n) (nowNs : UInt64) (rtoMs : UInt32) (maxSlots : ℕ) :
    (w.retransmitPass nowNs rtoMs maxSlots).Rep h n :=
  (hw.foldl_resend_rep nowNs _).1

/-- **A pass leaves the due positions that it has not returned.** -/
theorem Rep.dueFrom_retransmitPass (hw : w.Rep h n) (nowNs : UInt64) {rtoMs : UInt32}
    (hrto : 1 ≤ rtoMs) (maxSlots : ℕ) :
    (w.retransmitPass nowNs rtoMs maxSlots).dueFrom nowNs rtoMs h (n - h) =
      (w.dueFrom nowNs rtoMs h (n - h)).drop maxSlots := by
  have hle := hw.le
  rw [← Batches.filter_notMem_take (w.nodup_dueFrom nowNs rtoMs h (n - h)) maxSlots]
  conv_rhs =>
    arg 2
    rw [dueFrom]
  rw [dueFrom, List.filter_filter]
  refine List.filter_congr fun p hp => ?_
  rw [List.mem_range'_1] at hp
  obtain ⟨hkept, hstamped⟩ := Rep.cell_foldl_resend nowNs hp.1 (show p < n by omega)
    ((w.dueFrom nowNs rtoMs h (n - h)).take maxSlots) hw fun q hq => by
      have hq := mem_dueFrom.1 (List.mem_of_mem_take hq)
      omega
  rw [← hw.getExpired_eq] at hkept hstamped
  change _ → (w.retransmitPass nowNs rtoMs maxSlots).cell p = _ at hkept
  change _ → ((w.retransmitPass nowNs rtoMs maxSlots).cell p).lastSentTimeNs = _ at hstamped
  by_cases hmem : p ∈ (w.dueFrom nowNs rtoMs h (n - h)).take maxSlots
  · rw [decide_eq_false (SendSlot.not_due_of_now hrto (hstamped hmem)),
      decide_eq_false (not_not.2 hmem), Bool.false_and]
  · rw [hkept hmem, decide_eq_true hmem, Bool.true_and]

/-- After `j` passes. -/
theorem Rep.iterate_retransmitPass (hw : w.Rep h n) (nowNs : UInt64) {rtoMs : UInt32}
    (hrto : 1 ≤ rtoMs) (maxSlots j : ℕ) :
    ((retransmitPass nowNs rtoMs maxSlots)^[j] w).Rep h n ∧
      ((retransmitPass nowNs rtoMs maxSlots)^[j] w).dueFrom nowNs rtoMs h (n - h) =
        (w.dueFrom nowNs rtoMs h (n - h)).drop (j * maxSlots) := by
  induction j with
  | zero => exact ⟨hw, by rw [Nat.zero_mul, List.drop_zero]; rfl⟩
  | succ j ih =>
    obtain ⟨hrep, hdue⟩ := ih
    rw [Function.iterate_succ_apply']
    refine ⟨hrep.retransmitPass_rep nowNs rtoMs maxSlots, ?_⟩
    rw [hrep.dueFrom_retransmitPass nowNs hrto maxSlots, hdue, List.drop_drop, Nat.succ_mul]

theorem Idle.expired_eq (hw : w.Idle) (nowNs : UInt64) (rtoMs : UInt32) :
    w.expired nowNs rtoMs = [] := by
  have hspan : (w.nextSeq - w.headSeq).toNat = 0 := by
    rw [hw.empty, UInt32.sub_self]; rfl
  rw [expired, hspan]
  rfl

theorem Idle.iterate_retransmitPass (hw : w.Idle) (nowNs : UInt64) (rtoMs : UInt32)
    (maxSlots j : ℕ) : (retransmitPass nowNs rtoMs maxSlots)^[j] w = w := by
  apply Function.iterate_fixed
  rw [retransmitPass, hw.getExpired_eq]
  rfl

/-- The window of a program returns the due packets in batches, one for each pass. -/
theorem Usable.returned_iterate (hw : w.Usable) (nowNs : UInt64) {rtoMs : UInt32}
    (hrto : 1 ≤ rtoMs) (maxSlots j : ℕ) :
    ((retransmitPass nowNs rtoMs maxSlots)^[j] w).returned nowNs rtoMs maxSlots =
      Batches.batch maxSlots (w.expired nowNs rtoMs) j := by
  rcases hw with ⟨h, n, hw⟩ | hw
  · obtain ⟨hrep, hdue⟩ := hw.iterate_retransmitPass nowNs hrto maxSlots j
    rw [hrep.returned_eq, hdue, hw.expired_eq, Batches.batch_map]
    rfl
  · rw [hw.iterate_retransmitPass, returned, hw.getExpired_eq, hw.expired_eq, Batches.batch,
      List.drop_nil, List.take_nil, List.map_nil]

theorem Usable.nodup_expired (hw : w.Usable) (nowNs : UInt64) (rtoMs : UInt32) :
    (w.expired nowNs rtoMs).Nodup := by
  rcases hw with ⟨h, n, hw⟩ | hw
  · have hb := hw.bound
    have hs := hw.small
    rw [hw.expired_eq]
    refine (w.nodup_dueFrom nowNs rtoMs h (n - h)).map_on fun p hp q hq hpq => ?_
    have hp := mem_dueFrom.1 hp
    have hq := mem_dueFrom.1 hq
    exact Serial.wrap_inj hpq (by omega) (by omega)
  · rw [hw.expired_eq]
    exact List.nodup_nil

theorem Usable.getExpired_eq_map (hw : w.Usable) (nowNs : UInt64) (rtoMs : UInt32)
    (maxSlots : ℕ) : w.getExpired nowNs rtoMs maxSlots =
      ((w.expired nowNs rtoMs).take maxSlots).map w.slotIdx := by
  rcases hw with ⟨h, n, hw⟩ | hw
  · rw [hw.getExpired_eq, hw.expired_eq, ← List.map_take, List.map_map]
    exact List.map_congr_left fun p _ => (hw.slotIdx p).symm
  · rw [hw.getExpired_eq, hw.expired_eq, List.take_nil, List.map_nil]

end Pass

/-- **The expiry scan is exact and fair.** For every window a program can have, every time, every
timeout and limit of at least one: the scan returns the slots of the first `maxSlots` of the due
packets, in sequence order, and passes at one moment return the due packets in batches, each packet
once over the first `⌈n / maxSlots⌉` passes and nothing after them. -/
theorem getExpired_exact_and_fair {w : SendWindow} (hw : w.Usable) (nowNs : UInt64)
    {rtoMs : UInt32} (hrto : 1 ≤ rtoMs) {maxSlots : ℕ} (hmax : 1 ≤ maxSlots) :
    let due := w.expired nowNs rtoMs
    let pass := fun j => ((retransmitPass nowNs rtoMs maxSlots)^[j] w).returned nowNs rtoMs maxSlots
    let passes := (due.length + maxSlots - 1) / maxSlots
    w.getExpired nowNs rtoMs maxSlots = (due.take maxSlots).map w.slotIdx ∧
      w.returned nowNs rtoMs maxSlots = due.take maxSlots ∧ due.Nodup ∧
      (∀ j, pass j = (due.drop (j * maxSlots)).take maxSlots) ∧
      (List.range passes).flatMap pass = due ∧ ∀ j, passes ≤ j → pass j = [] := by
  intro due pass passes
  have hpass : ∀ j, pass j = Batches.batch maxSlots due j :=
    fun j => hw.returned_iterate nowNs hrto maxSlots j
  refine ⟨hw.getExpired_eq_map nowNs rtoMs maxSlots, ?_, hw.nodup_expired nowNs rtoMs, hpass, ?_,
    ?_⟩
  · have hfirst := hpass 0
    rw [Batches.batch, Nat.zero_mul, List.drop_zero] at hfirst
    exact hfirst
  · rw [funext hpass]
    exact Batches.flatMap_batch hmax due
  · intro j hj
    rw [hpass]
    exact Batches.batch_eq_nil hmax hj

/-- Two packets that are due, one at a time: the second pass returns the second, and the third pass
nothing. -/
theorem getExpired_exact_and_fair_of_two :
    twoPushed.expired 5000000 5 = [1, 2] ∧ twoPushed.returned 5000000 5 1 = [1] ∧
      (twoPushed.retransmitPass 5000000 5 1).returned 5000000 5 1 = [2] ∧
      ((twoPushed.retransmitPass 5000000 5 1).retransmitPass 5000000 5 1).returned 5000000 5 1 =
        [] := by
  have hdue : twoPushed.expired 5000000 5 = [1, 2] := by decide +kernel
  obtain ⟨-, hfirst, -, hpass, -, hrest⟩ := @getExpired_exact_and_fair twoPushed
    (Or.inl ⟨1, 3, twoPushed_rep⟩) 5000000 5 (by decide) 1 le_rfl
  refine ⟨hdue, ?_, ?_, ?_⟩
  · rw [hfirst, hdue]
    rfl
  · exact (hpass 1).trans (by rw [hdue]; rfl)
  · exact hrest 2 (by rw [hdue]; decide)

end SendWindow

end Rel4u
