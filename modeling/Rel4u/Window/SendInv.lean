import Rel4u.Lib.Ring
import Rel4u.Window.Send

/-!
# The send window as a range of positions

`Rep w h n` says that the send window `w` holds the positions `h, …, n - 1`: its counters are
those of `h` and `n`, each position of the range sits in its own slot, in use and under its own
sequence number, and `inFlight` counts the unacknowledged ones. Positions are natural numbers, so
the invariant is insensitive to the wrap of the 32-bit counters.

Each operation gets one lemma that gives the new range and the new content of every cell of the
ring: `push_rep` with `cell_pushed`, `onAck_rep`, `resend_rep`. The acknowledgement lemma is about
an arbitrary `ack_num` and an arbitrary mask, since the peer controls both.
-/

namespace Rel4u

open Serial (wrap IsRingSize)

/-- A capacity that `init` accepts and whose ring is at most `2 ^ 30` long. -/
structure WindowSize where
  val : UInt32
  ring : IsRingSize val
  small : val.toNat ≤ 2 ^ 30

namespace SendWindow

/-- The slot of a position. -/
def cell (w : SendWindow) (p : ℕ) : SendSlot := Ring.cell w.slots p

/-- The unacknowledged positions of a range. -/
def unacked (w : SendWindow) (h n : ℕ) : Finset ℕ :=
  (Finset.Ico h n).filter fun p => (w.cell p).acked = false

/-- **The send window holds the positions `h, …, n - 1`.** -/
structure Rep (w : SendWindow) (h n : ℕ) : Prop where
  ring : IsRingSize w.capacity
  small : w.capacity.toNat ≤ 2 ^ 30
  len : w.slots.length = w.capacity.toNat
  head : w.headSeq = wrap h
  next : w.nextSeq = wrap n
  le : h ≤ n
  bound : n ≤ h + w.capacity.toNat
  inUse : ∀ p, h ≤ p → p < n → (w.cell p).inUse = true
  seqNum : ∀ p, h ≤ p → p < n → (w.cell p).seqNum = wrap p
  reliable : ∀ p, h ≤ p → p < n → Reliable (w.cell p).deliveryMode
  short : ∀ p, h ≤ p → p < n → (w.cell p).payloadLen.toNat ≤ maxPayloadSize
  flight : w.inFlight.toNat = (w.unacked h n).card

section Cells

variable {w : SendWindow} {h n : ℕ}

theorem Rep.len_pos (hw : w.Rep h n) : 0 < w.slots.length := hw.len ▸ hw.ring.pos

theorem Rep.slotIdx (hw : w.Rep h n) (p : ℕ) : w.slotIdx (wrap p) = p % w.slots.length := by
  rw [SendWindow.slotIdx, Serial.wrap_and_mask hw.ring, hw.len]

theorem slot_mod (w : SendWindow) (p : ℕ) : w.slot (p % w.slots.length) = w.cell p := rfl

@[simp] theorem setSlot_slots_length (w : SendWindow) (i : ℕ) (s : SendSlot) :
    (w.setSlot i s).slots.length = w.slots.length := by simp [setSlot]

@[simp] theorem setSlot_capacity (w : SendWindow) (i : ℕ) (s : SendSlot) :
    (w.setSlot i s).capacity = w.capacity := rfl

@[simp] theorem setSlot_headSeq (w : SendWindow) (i : ℕ) (s : SendSlot) :
    (w.setSlot i s).headSeq = w.headSeq := rfl

@[simp] theorem setSlot_nextSeq (w : SendWindow) (i : ℕ) (s : SendSlot) :
    (w.setSlot i s).nextSeq = w.nextSeq := rfl

@[simp] theorem setSlot_inFlight (w : SendWindow) (i : ℕ) (s : SendSlot) :
    (w.setSlot i s).inFlight = w.inFlight := rfl

theorem cell_setSlot (hl : 0 < w.slots.length) (p q : ℕ) (s : SendSlot) :
    (w.setSlot (p % w.slots.length) s).cell q =
      if p % w.slots.length = q % w.slots.length then s else w.cell q :=
  Ring.cell_put hl p q s

theorem cell_setSlot_self (hl : 0 < w.slots.length) (p : ℕ) (s : SendSlot) :
    (w.setSlot (p % w.slots.length) s).cell p = s :=
  Ring.cell_put_self hl p s

/-- Writing the slot of one position of a window of `capacity` positions keeps the others. -/
theorem cell_setSlot_of_ne {p q : ℕ} (s : SendSlot) (hpq : p ≠ q) (h1 : p < q + w.slots.length)
    (h2 : q < p + w.slots.length) : (w.setSlot (p % w.slots.length) s).cell q = w.cell q :=
  Ring.cell_put_of_window s hpq h1 h2

theorem Rep.cell_setSlot_window (hw : w.Rep h n) {p q : ℕ} (hp : h ≤ p)
    (hp' : p < h + w.capacity.toNat) (hq : h ≤ q) (hq' : q < h + w.capacity.toNat) (s : SendSlot) :
    (w.setSlot (p % w.slots.length) s).cell q = if q = p then s else w.cell q := by
  have hl := hw.len
  split_ifs with hqp
  · rw [hqp, cell_setSlot_self hw.len_pos]
  · exact cell_setSlot_of_ne s (Ne.symm hqp) (by omega) (by omega)

/-- The loops over a window run over its positions. -/
theorem Rep.fuel_eq (hw : w.Rep h n) : (w.nextSeq - w.headSeq).toNat = n - h := by
  have hb := hw.bound
  have hs := hw.small
  rw [hw.head, hw.next]
  exact Serial.toNat_wrap_sub hw.le (by omega)

theorem mem_unacked {p : ℕ} :
    p ∈ w.unacked h n ↔ (h ≤ p ∧ p < n) ∧ (w.cell p).acked = false := by
  simp [unacked]

theorem unacked_card_le (w : SendWindow) (h n : ℕ) : (w.unacked h n).card ≤ n - h := by
  have := Finset.card_filter_le (Finset.Ico h n) fun p => (w.cell p).acked = false
  simpa [unacked] using this

theorem unacked_congr {w w' : SendWindow} {h n : ℕ}
    (hc : ∀ p, h ≤ p → p < n → (w'.cell p).acked = (w.cell p).acked) :
    w'.unacked h n = w.unacked h n := by
  ext p
  simp only [mem_unacked]
  constructor
  · rintro ⟨⟨h1, h2⟩, h3⟩
    exact ⟨⟨h1, h2⟩, by rw [← hc p h1 h2]; exact h3⟩
  · rintro ⟨⟨h1, h2⟩, h3⟩
    exact ⟨⟨h1, h2⟩, by rw [hc p h1 h2]; exact h3⟩

end Cells

/-! ### Creation and reset -/

theorem badCapacity_eq_false {c : UInt32} (hc : IsRingSize c) : badCapacity c = false := by
  obtain ⟨h2, h0⟩ := (Serial.isRingSize_iff c).1 hc
  have h1 : ¬ c < 2 := by rw [UInt32.lt_iff_toNat_lt, UInt32.le_iff_toNat_le] at *; omega
  simp [badCapacity, h1, h0]

theorem isRingSize_of_badCapacity {c : UInt32} (h : badCapacity c = false) : IsRingSize c := by
  simp only [badCapacity, Bool.or_eq_false_iff, decide_eq_false_iff_not, not_not] at h
  exact (Serial.isRingSize_iff c).2 ⟨UInt32.not_lt.1 h.1, h.2⟩

/-- The zeroed window at a sequence number. -/
def fresh (capacity initialSeq : UInt32) : SendWindow :=
  { slots := List.replicate capacity.toNat default
    capacity := capacity
    headSeq := initialSeq
    nextSeq := initialSeq
    nextUnrelSeq := initialSeq
    inFlight := 0 }

theorem init_eq_fresh {c : UInt32} (hc : IsRingSize c) (w : SendWindow) (s : UInt32) :
    w.init c s true = (0, fresh c s) := by
  simp [init, badCapacity_eq_false hc, fresh]

/-- What a successful `rel4u_send_window_init` leaves. -/
theorem init_ok {w : SendWindow} {c s : UInt32} {calloc : Bool} (h : (w.init c s calloc).1 = 0) :
    IsRingSize c ∧ (w.init c s calloc).2 = fresh c s := by
  cases hbad : badCapacity c with
  | true => simp [init, hbad] at h
  | false =>
    cases calloc with
    | false => simp [init, hbad] at h
    | true =>
      have hring := isRingSize_of_badCapacity hbad
      rw [init_eq_fresh hring]
      exact ⟨hring, rfl⟩

theorem fresh_rep {c : UInt32} (hc : IsRingSize c) (hs : c.toNat ≤ 2 ^ 30) (s : UInt32) :
    (fresh c s).Rep s.toNat s.toNat where
  ring := hc
  small := hs
  len := by simp [fresh]
  head := by simp [fresh]
  next := by simp [fresh]
  le := le_rfl
  bound := by omega
  inUse := by intro p h1 h2; omega
  seqNum := by intro p h1 h2; omega
  reliable := by intro p h1 h2; omega
  short := by intro p h1 h2; omega
  flight := by simp [fresh, unacked]

/-- `reset` gives the zeroed window again. -/
theorem Rep.reset_eq {w : SendWindow} {h n : ℕ} (hw : w.Rep h n) (s : UInt32) :
    w.reset s = (0, fresh w.capacity s) := by
  have hne : w.slots ≠ [] := List.ne_nil_of_length_pos hw.len_pos
  simp [reset, hne, hw.ring.ne_zero, fresh]

/-! ### Push -/

theorem Rep.seqDiff_next_head {w : SendWindow} {h n : ℕ} (hw : w.Rep h n) :
    seqDiff w.nextSeq w.headSeq = (n : ℤ) - h := by
  have h1 := hw.le
  have h2 := hw.bound
  have h3 := hw.small
  rw [seqDiff, hw.head, hw.next]
  exact Serial.diff_wrap (by omega) (by omega)

theorem Rep.toInt_capacity {w : SendWindow} {h n : ℕ} (hw : w.Rep h n) :
    w.capacity.toInt32.toInt = w.capacity.toNat := by
  have := hw.small
  exact Serial.toInt_of_le (by omega)

/-- The window admits a message exactly when its range is narrower than the ring. -/
theorem Rep.canSend_iff {w : SendWindow} {h n : ℕ} (hw : w.Rep h n) :
    w.canSend = true ↔ n < h + w.capacity.toNat := by
  have hc := unacked_card_le w h n
  have hle := hw.le
  have hp := hw.ring.pos
  simp only [canSend, Bool.and_eq_true, decide_eq_true_eq, UInt32.lt_iff_toNat_lt, hw.flight,
    hw.seqDiff_next_head, hw.toInt_capacity]
  omega

theorem isFull_eq_not_canSend (w : SendWindow) : w.isFull = !w.canSend := by
  rw [isFull, canSend, Bool.not_and, ← decide_not, ← decide_not]
  simp only [not_lt, UInt32.not_lt, ge_iff_le]

/-- The slot a push writes. -/
def pushedSlot (seq : UInt32) (mode : UInt8) (data : List UInt8) (len : ℕ) (nowNs : UInt64) :
    SendSlot :=
  { seqNum := seq
    firstSentTimeNs := nowNs
    lastSentTimeNs := nowNs
    payloadLen := UInt16.ofNat len
    retransmitCount := 0
    deliveryMode := mode
    inUse := true
    acked := false
    payload := data.take len }

/-- The window after a reliable push. -/
def pushed (w : SendWindow) (mode : UInt8) (data : List UInt8) (len : ℕ) (nowNs : UInt64) :
    SendWindow :=
  { w.setSlot (w.slotIdx w.nextSeq) (pushedSlot w.nextSeq mode data len nowNs) with
    nextSeq := w.nextSeq + 1
    inFlight := w.inFlight + 1 }

theorem push_eq_pushed {w : SendWindow} {mode : UInt8} {data : List UInt8} {len : ℕ}
    {nowNs : UInt64} (hlen : len ≤ maxPayloadSize) (hmode : Reliable mode)
    (hs : w.canSend = true) :
    w.push mode data len nowNs = .ok (w.pushed mode data len nowNs, w.nextSeq) := by
  have hf : w.isFull = false := by rw [isFull_eq_not_canSend, hs]; rfl
  simp only [push, if_neg (not_lt.2 hlen), if_pos hmode, hf]
  rfl

/-- A push of a short message into an open window succeeds, in every mode. -/
theorem exists_push_of_canSend {w : SendWindow} {len : ℕ} (hlen : len ≤ maxPayloadSize)
    (hs : w.canSend = true) (mode : UInt8) (data : List UInt8) (nowNs : UInt64) :
    ∃ r, w.push mode data len nowNs = .ok r := by
  by_cases hmode : Reliable mode
  · exact ⟨_, push_eq_pushed hlen hmode hs⟩
  · rw [push, if_neg (not_lt.2 hlen), if_neg hmode]
    exact ⟨_, rfl⟩

/-- A push of an unreliable message only draws a number. -/
theorem push_unreliable {w w' : SendWindow} {mode : UInt8} {data : List UInt8}
    {len : ℕ} {nowNs : UInt64} {seq : UInt32} (hmode : ¬ Reliable mode)
    (hpush : w.push mode data len nowNs = .ok (w', seq)) :
    w' = { w with nextUnrelSeq := w.nextUnrelSeq + 1 } := by
  unfold push at hpush
  split_ifs at hpush
  exact (Prod.mk.inj (Except.ok.inj hpush)).1.symm

/-- A push that succeeds is of a short message; a reliable one finds the window open. -/
theorem push_reliable {w w' : SendWindow} {mode : UInt8} {data : List UInt8} {len : ℕ}
    {nowNs : UInt64} {seq : UInt32} (hmode : Reliable mode)
    (hpush : w.push mode data len nowNs = .ok (w', seq)) :
    len ≤ maxPayloadSize ∧ w.canSend = true ∧ w' = w.pushed mode data len nowNs := by
  by_cases hlen : len ≤ maxPayloadSize
  · cases hs : w.canSend with
    | true =>
      rw [push_eq_pushed hlen hmode hs] at hpush
      exact ⟨hlen, rfl, (Prod.mk.inj (Except.ok.inj hpush)).1.symm⟩
    | false =>
      have hf : w.isFull = true := by rw [isFull_eq_not_canSend, hs]; rfl
      simp only [push, if_neg (not_lt.2 hlen), if_pos hmode, hf, if_true] at hpush
      cases hpush
  · rw [push, if_pos (not_le.1 hlen)] at hpush
    cases hpush

theorem Rep.cell_pushed {w : SendWindow} {h n : ℕ} (hw : w.Rep h n) (mode : UInt8)
    (data : List UInt8) (len : ℕ) (nowNs : UInt64) {p : ℕ} (hp : h ≤ p)
    (hp' : p < h + w.capacity.toNat) (hn : n < h + w.capacity.toNat) :
    (w.pushed mode data len nowNs).cell p =
      if p = n then pushedSlot (wrap n) mode data len nowNs else w.cell p := by
  have hcell : (w.pushed mode data len nowNs).cell p =
      (w.setSlot (n % w.slots.length) (pushedSlot (wrap n) mode data len nowNs)).cell p := by
    rw [pushed, hw.next, hw.slotIdx]; rfl
  rw [hcell]
  exact hw.cell_setSlot_window hw.le hn hp hp' _

/-- **A push extends the range by one position and writes only its slot.** -/
theorem Rep.push_rep {w : SendWindow} {h n : ℕ} (hw : w.Rep h n) {mode : UInt8}
    (hmode : Reliable mode) (data : List UInt8) {len : ℕ} (hlen : len ≤ maxPayloadSize)
    (nowNs : UInt64) (hs : w.canSend = true) : (w.pushed mode data len nowNs).Rep h (n + 1) := by
  have hn := hw.canSend_iff.1 hs
  have hle := hw.le
  have hcell := fun p hp hp' => hw.cell_pushed mode data len nowNs (p := p) hp hp' hn
  have hun : (w.pushed mode data len nowNs).unacked h (n + 1) = insert n (w.unacked h n) := by
    ext p
    simp only [mem_unacked, Finset.mem_insert]
    constructor
    · rintro ⟨⟨h1, h2⟩, h3⟩
      by_cases hpn : p = n
      · exact Or.inl hpn
      · rw [hcell p h1 (by omega), if_neg hpn] at h3
        exact Or.inr ⟨⟨h1, by omega⟩, h3⟩
    · rintro (rfl | ⟨⟨h1, h2⟩, h3⟩)
      · exact ⟨⟨hle, by omega⟩, by rw [hcell p hle hn, if_pos rfl]; rfl⟩
      · exact ⟨⟨h1, by omega⟩, by rw [hcell p h1 (by omega), if_neg (by omega)]; exact h3⟩
  refine
    { ring := hw.ring
      small := hw.small
      len := by simpa [pushed] using hw.len
      head := hw.head
      next := by rw [pushed, hw.next, Serial.wrap_succ]
      le := by omega
      bound := by simpa [pushed] using hn
      inUse := ?_
      seqNum := ?_
      reliable := ?_
      short := ?_
      flight := ?_ }
  · intro p h1 h2
    rw [hcell p h1 (by omega)]
    split_ifs with hpn
    · rfl
    · exact hw.inUse p h1 (by omega)
  · intro p h1 h2
    rw [hcell p h1 (by omega)]
    split_ifs with hpn
    · rw [hpn]; rfl
    · exact hw.seqNum p h1 (by omega)
  · intro p h1 h2
    rw [hcell p h1 (by omega)]
    split_ifs with hpn
    · exact hmode
    · exact hw.reliable p h1 (by omega)
  · intro p h1 h2
    rw [hcell p h1 (by omega)]
    split_ifs with hpn
    · exact (Nat.mod_le len _).trans hlen
    · exact hw.short p h1 (by omega)
  · have hnot : n ∉ w.unacked h n := by simp [mem_unacked]
    have hcard := unacked_card_le w h n
    have hsmall := hw.small
    have hfl := hw.flight
    rw [hun, Finset.card_insert_of_notMem hnot]
    have : (w.pushed mode data len nowNs).inFlight = w.inFlight + 1 := rfl
    rw [this, UInt32.toNat_add, show (1 : UInt32).toNat = 1 from rfl]
    omega

/-! ### Acknowledgements -/

section Ack

variable {w : SendWindow} {h n : ℕ}

theorem Rep.inFlight_pos (hw : w.Rep h n) {p : ℕ} (hp : h ≤ p) (hp' : p < n)
    (ha : (w.cell p).acked = false) : 0 < w.inFlight.toNat := by
  rw [hw.flight]
  exact Finset.card_pos.2 ⟨p, mem_unacked.2 ⟨⟨hp, hp'⟩, ha⟩⟩

/-- With something in flight, marking a slot decrements the counter. -/
theorem markAcked_eq {i : ℕ} (hpos : 0 < w.inFlight.toNat) :
    w.markAcked i = { w.setSlot i (w.slot i).ack with inFlight := w.inFlight - 1 } := by
  have h0 : (w.setSlot i (w.slot i).ack).inFlight > 0 := by
    rw [setSlot_inFlight, gt_iff_lt, UInt32.lt_iff_toNat_lt]; exact hpos
  exact if_pos h0

theorem toNat_sub_one {x : UInt32} (hpos : 0 < x.toNat) : (x - 1).toNat = x.toNat - 1 :=
  UInt32.toNat_sub_of_le x 1 (UInt32.le_iff_toNat_le.2 hpos)

/-- **Marking an unacknowledged position acknowledges it and nothing else.** -/
theorem Rep.markAcked_rep (hw : w.Rep h n) {p : ℕ} (hp : h ≤ p) (hp' : p < n)
    (ha : (w.cell p).acked = false) :
    (w.markAcked (p % w.slots.length)).Rep h n ∧
      ∀ q, h ≤ q → q < h + w.capacity.toNat →
        (w.markAcked (p % w.slots.length)).cell q =
          if q = p then (w.cell p).ack else w.cell q := by
  have hpos := hw.inFlight_pos hp hp' ha
  have hb := hw.bound
  rw [markAcked_eq hpos, slot_mod]
  set w' : SendWindow :=
    { w.setSlot (p % w.slots.length) (w.cell p).ack with inFlight := w.inFlight - 1 } with hw'
  have hcell : ∀ q, h ≤ q → q < h + w.capacity.toNat →
      w'.cell q = if q = p then (w.cell p).ack else w.cell q :=
    fun q h1 h2 => hw.cell_setSlot_window hp (by omega) h1 h2 (w.cell p).ack
  refine ⟨?_, hcell⟩
  -- a field that `ack` does not touch is the same in every cell of the range
  have hkeep : ∀ {β : Type} (f : SendSlot → β), (∀ s : SendSlot, f s.ack = f s) →
      ∀ q, h ≤ q → q < n → f (w'.cell q) = f (w.cell q) := by
    intro β f hf q h1 h2
    rw [hcell q h1 (by omega)]
    split_ifs with hqp
    · rw [hqp, hf]
    · rfl
  have hun : w'.unacked h n = (w.unacked h n).erase p := by
    ext q
    simp only [mem_unacked, Finset.mem_erase]
    constructor
    · rintro ⟨⟨h1, h2⟩, h3⟩
      rw [hcell q h1 (by omega)] at h3
      split_ifs at h3 with hqp
      · exact Bool.noConfusion h3
      · exact ⟨hqp, ⟨h1, h2⟩, h3⟩
    · rintro ⟨hqp, ⟨h1, h2⟩, h3⟩
      exact ⟨⟨h1, h2⟩, by rw [hcell q h1 (by omega), if_neg hqp]; exact h3⟩
  exact
    { ring := hw.ring
      small := hw.small
      len := by simpa [hw'] using hw.len
      head := hw.head
      next := hw.next
      le := hw.le
      bound := hw.bound
      inUse := fun q h1 h2 => by
        rw [hkeep (·.inUse) (fun _ => rfl) q h1 h2]; exact hw.inUse q h1 h2
      seqNum := fun q h1 h2 => by
        rw [hkeep (·.seqNum) (fun _ => rfl) q h1 h2]; exact hw.seqNum q h1 h2
      reliable := fun q h1 h2 => by
        rw [hkeep (·.deliveryMode) (fun _ => rfl) q h1 h2]; exact hw.reliable q h1 h2
      short := fun q h1 h2 => by
        rw [hkeep (·.payloadLen) (fun _ => rfl) q h1 h2]; exact hw.short q h1 h2
      flight := by
        show (w.inFlight - 1).toNat = _
        rw [hun, Finset.card_erase_of_mem (mem_unacked.2 ⟨⟨hp, hp'⟩, ha⟩), toNat_sub_one hpos,
          hw.flight] }

/-- Unusing the acknowledged head slot and stepping over it drops one position. -/
theorem Rep.stepHead_rep (hw : w.Rep h n) (hlt : h < n) (ha : (w.cell h).acked = true) :
    ({ w.setSlot (h % w.slots.length) (w.cell h).unuse with headSeq := w.headSeq + 1 }).Rep
        (h + 1) n ∧
      ∀ q, h ≤ q → q < h + w.capacity.toNat →
        (w.setSlot (h % w.slots.length) (w.cell h).unuse).cell q =
          if q = h then (w.cell h).unuse else w.cell q := by
  have hb := hw.bound
  have hcell : ∀ q, h ≤ q → q < h + w.capacity.toNat →
      (w.setSlot (h % w.slots.length) (w.cell h).unuse).cell q =
        if q = h then (w.cell h).unuse else w.cell q :=
    fun q h1 h2 => hw.cell_setSlot_window le_rfl (by omega) h1 h2 (w.cell h).unuse
  refine ⟨?_, hcell⟩
  set w' : SendWindow :=
    { w.setSlot (h % w.slots.length) (w.cell h).unuse with headSeq := w.headSeq + 1 } with hw'
  have hrest : ∀ q, h + 1 ≤ q → q < n → w'.cell q = w.cell q := by
    intro q h1 h2
    have := hcell q (by omega) (by omega)
    rw [if_neg (by omega)] at this
    exact this
  have hun : w'.unacked (h + 1) n = w.unacked h n := by
    ext q
    simp only [mem_unacked]
    constructor
    · rintro ⟨⟨h1, h2⟩, h3⟩
      rw [hrest q h1 h2] at h3
      exact ⟨⟨by omega, h2⟩, h3⟩
    · rintro ⟨⟨h1, h2⟩, h3⟩
      have hne : q ≠ h := by
        intro hqh
        rw [hqh, ha] at h3
        exact Bool.noConfusion h3
      exact ⟨⟨by omega, h2⟩, by rw [hrest q (by omega) h2]; exact h3⟩
  exact
    { ring := hw.ring
      small := hw.small
      len := by simpa [hw'] using hw.len
      head := by show w.headSeq + 1 = _; rw [hw.head, Serial.wrap_succ]
      next := hw.next
      le := hlt
      bound := by show n ≤ h + 1 + w.capacity.toNat; omega
      inUse := fun q h1 h2 => by rw [hrest q h1 h2]; exact hw.inUse q (by omega) h2
      seqNum := fun q h1 h2 => by rw [hrest q h1 h2]; exact hw.seqNum q (by omega) h2
      reliable := fun q h1 h2 => by rw [hrest q h1 h2]; exact hw.reliable q (by omega) h2
      short := fun q h1 h2 => by rw [hrest q h1 h2]; exact hw.short q (by omega) h2
      flight := by rw [hun]; exact hw.flight }

theorem markAcked_slots_length (w : SendWindow) (i : ℕ) :
    (w.markAcked i).slots.length = w.slots.length := by
  unfold markAcked
  dsimp only
  split_ifs <;> simp

/-- The window part of one turn of the cumulative loop. -/
theorem Rep.ackHead_eq (hw : w.Rep h n) (hlt : h < n) (nowNs : UInt64) (rtt : Rtt) :
    (w.ackHead nowNs rtt).1 =
      let w₁ := if (w.cell h).acked then w else w.markAcked (h % w.slots.length)
      { w₁.setSlot (h % w₁.slots.length) (w₁.cell h).unuse with headSeq := w₁.headSeq + 1 } := by
  have hi : w.slotIdx w.headSeq = h % w.slots.length := by rw [hw.head, hw.slotIdx]
  have hu := hw.inUse h le_rfl hlt
  have hs : (w.cell h).seqNum = w.headSeq := by rw [hw.seqNum h le_rfl hlt, hw.head]
  simp only [ackHead, hi, slot_mod, hu, hs, decide_true, Bool.and_self, if_true]
  cases ha : (w.cell h).acked with
  | true => simp [slot_mod]
  | false =>
    have hc : (w.markAcked (h % w.slots.length)).slot (h % w.slots.length) =
        (w.markAcked (h % w.slots.length)).cell h := by
      rw [← slot_mod, markAcked_slots_length]
    simp [hc, markAcked_slots_length]

/-- **One turn of the cumulative loop releases the head position.** -/
theorem Rep.ackHead_rep (hw : w.Rep h n) (hlt : h < n) (nowNs : UInt64) (rtt : Rtt) :
    (w.ackHead nowNs rtt).1.Rep (h + 1) n ∧
      (w.ackHead nowNs rtt).1.capacity = w.capacity ∧
      ∀ q, h ≤ q → q < h + w.capacity.toNat →
        (w.ackHead nowNs rtt).1.cell q = if q = h then (w.cell h).ack.unuse else w.cell q := by
  rw [hw.ackHead_eq hlt]
  cases ha : (w.cell h).acked with
  | true =>
    have hack : (w.cell h).ack = w.cell h := by
      rw [SendSlot.ack, ← ha]
    obtain ⟨h1, h2⟩ := hw.stepHead_rep hlt ha
    refine ⟨h1, rfl, fun q hq hq' => ?_⟩
    rw [hack]
    exact h2 q hq hq'
  | false =>
    obtain ⟨hm, hmc⟩ := hw.markAcked_rep le_rfl hlt ha
    have hcap : (w.markAcked (h % w.slots.length)).capacity = w.capacity := by
      rw [markAcked_eq (hw.inFlight_pos le_rfl hlt ha)]; rfl
    have hcell := hmc h le_rfl (by have := hw.ring.pos; omega)
    rw [if_pos rfl] at hcell
    obtain ⟨h1, h2⟩ := hm.stepHead_rep hlt (by rw [hcell]; rfl)
    refine ⟨h1, hcap, fun q hq hq' => ?_⟩
    refine (h2 q hq (by rw [hcap]; exact hq')).trans ?_
    rw [hcell]
    split_ifs with hqh
    · rfl
    · rw [hmc q hq hq', if_neg hqh]

/-- Where the cumulative loop stops, from head position `h`: one past the acknowledged number,
at most at `n`. -/
def cumTo (ackNum : UInt32) (h n : ℕ) : ℕ :=
  if seqDiff (wrap h) ackNum ≤ 0 then min n (h + (1 - seqDiff (wrap h) ackNum).toNat) else h

theorem cumTo_ge (ackNum : UInt32) {h n : ℕ} (hle : h ≤ n) : h ≤ cumTo ackNum h n := by
  unfold cumTo; split_ifs <;> omega

theorem cumTo_le (ackNum : UInt32) {h n : ℕ} (hle : h ≤ n) : cumTo ackNum h n ≤ n := by
  unfold cumTo; split_ifs <;> omega

theorem cumTo_succ (ackNum : UInt32) {h n : ℕ} (hlt : h < n)
    (hd : seqDiff (wrap h) ackNum ≤ 0) : cumTo ackNum (h + 1) n = cumTo ackNum h n := by
  have hs : seqDiff (wrap (h + 1)) ackNum = seqDiff (wrap h) ackNum + 1 := by
    rw [Serial.wrap_succ]
    exact Serial.diff_succ (show Serial.diff _ _ < _ by unfold seqDiff at hd; omega)
  unfold cumTo
  rw [if_pos hd, hs]
  split_ifs <;> omega

theorem cumTo_self (ackNum : UInt32) (n : ℕ) : cumTo ackNum n n = n := by
  unfold cumTo; split_ifs <;> omega

theorem Rep.headSeq_ne_nextSeq (hw : w.Rep h n) (hlt : h < n) : w.headSeq ≠ w.nextSeq := by
  have hb := hw.bound
  have hsm := hw.small
  rw [hw.head, hw.next]
  intro he
  have := Serial.wrap_inj he (by omega) (by omega)
  omega

/-- **The cumulative loop releases exactly the positions before `cumTo`.** -/
theorem Rep.ackCumulative_rep (ackNum : UInt32) (nowNs : UInt64) (k : ℕ) :
    ∀ {w : SendWindow} {h : ℕ} (rtt : Rtt), w.Rep h n → k = n - h →
      (ackCumulative k w ackNum nowNs rtt).1.Rep (cumTo ackNum h n) n ∧
      (ackCumulative k w ackNum nowNs rtt).1.capacity = w.capacity ∧
      ∀ q, h ≤ q → q < h + w.capacity.toNat →
        (ackCumulative k w ackNum nowNs rtt).1.cell q =
          if q < cumTo ackNum h n then (w.cell q).ack.unuse else w.cell q := by
  -- the loop recurses on the distance to `n`; the head position moves up with it
  induction k with
  | zero =>
    intro w h rtt hw hk
    have hhn : h = n := by have := hw.le; omega
    subst hhn
    rw [cumTo_self]
    exact ⟨hw, rfl, fun q h1 h2 => by rw [if_neg (by omega)]; rfl⟩
  | succ k ih =>
    intro w h rtt hw hk
    have hlt : h < n := by omega
    have hb := hw.bound
    have hne := hw.headSeq_ne_nextSeq hlt
    by_cases hd : seqDiff (wrap h) ackNum ≤ 0
    · obtain ⟨h1, h2, h3⟩ := hw.ackHead_rep hlt nowNs rtt
      have hrun : ackCumulative (k + 1) w ackNum nowNs rtt =
          ackCumulative k (w.ackHead nowNs rtt).1 ackNum nowNs (w.ackHead nowNs rtt).2 := by
        rw [ackCumulative, if_pos]
        simp [seqLte, hw.head, hd]
        rw [← hw.head]; exact hne
      rw [hrun]
      obtain ⟨i1, i2, i3⟩ := ih (w.ackHead nowNs rtt).2 h1 (by omega)
      rw [cumTo_succ ackNum hlt hd] at i1 i3
      refine ⟨i1, i2.trans h2, fun q hq hq' => ?_⟩
      by_cases hqh : q = h
      · -- the ring cell of `h` is that of `h + capacity`, beyond every later turn
        have hcyc : ∀ v : SendWindow, v.slots.length = w.capacity.toNat →
            v.cell h = v.cell (h + w.capacity.toNat) := by
          intro v hv
          simp [cell, Ring.cell, hv]
        have hge := cumTo_ge ackNum hw.le
        have hle := cumTo_le ackNum hw.le
        have hlater := i3 (h + w.capacity.toNat) (by have := hw.ring.pos; omega)
          (by rw [h2]; omega)
        rw [if_neg (by omega), ← hcyc _ (by rw [i1.len, i2, h2]), ← hcyc _ (by rw [h1.len, h2]),
          h3 h le_rfl (by have := hw.ring.pos; omega), if_pos rfl] at hlater
        have hlt' : h < cumTo ackNum h n := by unfold cumTo; rw [if_pos hd]; omega
        rw [hqh, hlater, if_pos hlt']
      · rw [i3 q (by omega) (by rw [h2]; omega), h3 q hq hq', if_neg hqh]
    · have hrun : ackCumulative (k + 1) w ackNum nowNs rtt = (w, rtt) := by
        rw [ackCumulative, if_neg]
        simp [seqLte, hw.head, hd]
      rw [hrun]
      have hc : cumTo ackNum h n = h := if_neg hd
      rw [hc]
      exact ⟨hw, rfl, fun q h1 h2 => by rw [if_neg (by omega)]⟩

/-- Bit `i` of an acknowledgement's mask is set and names position `q`. -/
def SackBit (ackNum sackMask : UInt32) (i q : ℕ) : Prop :=
  sackMask &&& ((1 : UInt32) <<< UInt32.ofNat i) ≠ 0 ∧ ackNum + 1 + UInt32.ofNat i = wrap q

/-- An acknowledgement selects position `q`. -/
def Sacks (ackNum sackMask : UInt32) (q : ℕ) : Prop := ∃ i < 32, SackBit ackNum sackMask i q

instance (ackNum sackMask : UInt32) (i q : ℕ) : Decidable (SackBit ackNum sackMask i q) :=
  inferInstanceAs (Decidable (_ ∧ _))

instance (ackNum sackMask : UInt32) (q : ℕ) : Decidable (Sacks ackNum sackMask q) :=
  inferInstanceAs (Decidable (∃ i < 32, _))

/-- An empty mask selects nothing. -/
theorem not_sacks_zero (ackNum : UInt32) (q : ℕ) : ¬ Sacks ackNum 0 q := by
  rintro ⟨i, -, hbit, -⟩
  exact hbit UInt32.zero_and

/-- The counters between `headSeq` and `nextSeq` are those of the positions of the range. -/
theorem Rep.inRange_iff (hw : w.Rep h n) (x : UInt32) :
    (seqLt x w.nextSeq && seqGte x w.headSeq) = true ↔ ∃ p, h ≤ p ∧ p < n ∧ x = wrap p := by
  have hb := hw.bound
  have hs := hw.small
  have hle := hw.le
  simp only [seqLt, seqGte, seqDiff, hw.head, hw.next, Bool.and_eq_true, decide_eq_true_eq]
  constructor
  · rintro ⟨h1, h2⟩
    have hx := Serial.eq_wrap_of_diff h2
    have hd := Serial.diff_bounds x (wrap h)
    refine ⟨h + (Serial.diff x (wrap h)).toNat, by omega, ?_, hx⟩
    by_contra hge
    rw [hx] at h1
    -- beyond `n`, but less than half the counter range beyond it
    rw [Serial.diff_wrap (by omega) (by omega)] at h1
    omega
  · rintro ⟨p, hp, hp', rfl⟩
    rw [Serial.diff_wrap (by omega) (by omega), Serial.diff_wrap (by omega) (by omega)]
    omega

/-- **One bit of the mask acknowledges the position it names, if the window holds it.** -/
theorem Rep.ackSelective_rep (hw : w.Rep h n) (ackNum sackMask : UInt32) (nowNs : UInt64)
    (rtt : Rtt) (i : ℕ) :
    (ackSelective ackNum sackMask nowNs (w, rtt) i).1.Rep h n ∧
      (ackSelective ackNum sackMask nowNs (w, rtt) i).1.capacity = w.capacity ∧
      ∀ q, h ≤ q → q < h + w.capacity.toNat →
        (ackSelective ackNum sackMask nowNs (w, rtt) i).1.cell q =
          if q < n ∧ SackBit ackNum sackMask i q then (w.cell q).ack else w.cell q := by
  have hb := hw.bound
  have hsm := hw.small
  unfold ackSelective
  dsimp only
  by_cases hbit : sackMask &&& ((1 : UInt32) <<< UInt32.ofNat i) ≠ 0
  · rw [if_pos hbit]
    by_cases hr : (seqLt (ackNum + 1 + UInt32.ofNat i) w.nextSeq &&
        seqGte (ackNum + 1 + UInt32.ofNat i) w.headSeq) = true
    · rw [if_pos hr]
      obtain ⟨p, hp, hp', hx⟩ := (hw.inRange_iff _).1 hr
      -- the bit names `p` and no other position of the ring
      have hname : ∀ q, h ≤ q → q < h + w.capacity.toNat →
          ((q < n ∧ SackBit ackNum sackMask i q) ↔ q = p) := by
        intro q h1 h2
        refine ⟨fun hq => ?_, fun hq => hq ▸ ⟨hp', hbit, hx⟩⟩
        exact Serial.wrap_inj (hq.2.2.symm.trans hx) (by omega) (by omega)
      rw [hx, hw.slotIdx, slot_mod, hw.inUse p hp hp', hw.seqNum p hp hp']
      cases ha : (w.cell p).acked with
      | true =>
        have hack : (w.cell p).ack = w.cell p := by rw [SendSlot.ack, ← ha]
        simp only [Bool.not_true, Bool.and_false, Bool.false_eq_true, if_false]
        refine ⟨hw, trivial, fun q h1 h2 => ?_⟩
        simp only [hname q h1 h2]
        split_ifs with hqp
        · rw [hqp, hack]
        · rfl
      | false =>
        obtain ⟨hm, hmc⟩ := hw.markAcked_rep hp hp' ha
        simp only [decide_true, Bool.not_false, Bool.and_self, if_true]
        refine ⟨hm, by rw [markAcked_eq (hw.inFlight_pos hp hp' ha)]; rfl, fun q h1 h2 => ?_⟩
        simp only [hname q h1 h2]
        rw [hmc q h1 h2]
        split_ifs with hqp
        · rw [hqp]
        · rfl
    · rw [if_neg hr]
      refine ⟨hw, rfl, fun q h1 h2 => (if_neg ?_).symm⟩
      rintro ⟨hq, -, hx⟩
      exact hr ((hw.inRange_iff _).2 ⟨q, h1, hq, hx⟩)
  · rw [if_neg hbit]
    refine ⟨hw, rfl, fun q h1 h2 => (if_neg ?_).symm⟩
    rintro ⟨-, h3, -⟩
    exact hbit h3

/-- The selective loop over any list of bits. -/
theorem Rep.foldl_ackSelective_rep (ackNum sackMask : UInt32) (nowNs : UInt64) (l : List ℕ) :
    ∀ {w : SendWindow} (rtt : Rtt), w.Rep h n →
      (l.foldl (ackSelective ackNum sackMask nowNs) (w, rtt)).1.Rep h n ∧
      (l.foldl (ackSelective ackNum sackMask nowNs) (w, rtt)).1.capacity = w.capacity ∧
      ∀ q, h ≤ q → q < h + w.capacity.toNat →
        (l.foldl (ackSelective ackNum sackMask nowNs) (w, rtt)).1.cell q =
          if q < n ∧ ∃ i ∈ l, SackBit ackNum sackMask i q then (w.cell q).ack else w.cell q := by
  induction l with
  | nil =>
    intro w rtt hw
    exact ⟨hw, rfl, fun q _ _ => (if_neg (by simp)).symm⟩
  | cons i l ih =>
    intro w rtt hw
    obtain ⟨h1, h2, h3⟩ := hw.ackSelective_rep ackNum sackMask nowNs rtt i
    rw [List.foldl_cons]
    generalize ackSelective ackNum sackMask nowNs (w, rtt) i = s at h1 h2 h3 ⊢
    obtain ⟨w', rtt'⟩ := s
    obtain ⟨i1, i2, i3⟩ := ih rtt' h1
    refine ⟨i1, i2.trans h2, fun q hq hq' => ?_⟩
    rw [i3 q hq (by rw [h2]; exact hq'), h3 q hq hq']
    -- acknowledging twice is acknowledging once
    have hidem : (w.cell q).ack.ack = (w.cell q).ack := rfl
    by_cases hi : SackBit ackNum sackMask i q <;>
      by_cases hl : ∃ j ∈ l, SackBit ackNum sackMask j q <;> by_cases hn : q < n <;>
      simp [hi, hl, hn, hidem]

theorem cell_add_length (w : SendWindow) (p : ℕ) : w.cell (p + w.slots.length) = w.cell p := by
  simp [cell, Ring.cell]

/-- **What an acknowledgement does**, for arbitrary contents of its two fields: the positions up
to `ackNum` are released, the selected ones after them are marked, and no other cell of the ring
changes. -/
theorem Rep.onAck_rep (hw : w.Rep h n) (ackNum sackMask : UInt32) (nowNs : UInt64) (rtt : Rtt) :
    (w.onAck ackNum sackMask nowNs rtt).1.Rep (cumTo ackNum h n) n ∧
      (w.onAck ackNum sackMask nowNs rtt).1.capacity = w.capacity ∧
      ∀ q, h ≤ q → q < h + w.capacity.toNat →
        (w.onAck ackNum sackMask nowNs rtt).1.cell q =
          if q < cumTo ackNum h n then (w.cell q).ack.unuse
          else if q < n ∧ Sacks ackNum sackMask q then (w.cell q).ack else w.cell q := by
  have hb := hw.bound
  have hge := cumTo_ge ackNum hw.le
  have hle := cumTo_le ackNum hw.le
  obtain ⟨h1, h2, h3⟩ := Rep.ackCumulative_rep ackNum nowNs (n - h) rtt hw rfl
  unfold onAck
  dsimp only
  rw [hw.fuel_eq]
  by_cases hm : sackMask ≠ 0
  · rw [if_pos hm]
    generalize ackCumulative (n - h) w ackNum nowNs rtt = s at h1 h2 h3 ⊢
    obtain ⟨w', rtt'⟩ := s
    obtain ⟨i1, i2, i3⟩ := Rep.foldl_ackSelective_rep ackNum sackMask nowNs (List.range 32) rtt' h1
    refine ⟨i1, i2.trans h2, fun q hq hq' => ?_⟩
    by_cases hqc : q < cumTo ackNum h n
    · -- a released cell is that of a position beyond `n`, which no bit can name
      have hfar := i3 (q + w.capacity.toNat) (by omega) (by rw [h2]; omega)
      rw [if_neg (by omega)] at hfar
      have hl1 : w'.slots.length = w.capacity.toNat := by rw [h1.len, h2]
      have hl2 := i1.len
      rw [i2, h2] at hl2
      have e1 := cell_add_length w' q
      rw [hl1] at e1
      have e2 := cell_add_length
        ((List.range 32).foldl (ackSelective ackNum sackMask nowNs) (w', rtt')).1 q
      rw [hl2] at e2
      rw [← e2, hfar, e1, h3 q hq hq', if_pos hqc, if_pos hqc]
    · rw [i3 q (by omega) (by rw [h2]; omega), h3 q hq hq', if_neg hqc, if_neg hqc]
      exact if_congr (by simp only [Sacks, List.mem_range]) rfl rfl
  · rw [if_neg hm]
    refine ⟨h1, h2, fun q hq hq' => ?_⟩
    have hnone := not_sacks_zero ackNum q
    rw [← not_not.1 hm] at hnone
    simp only [h3 q hq hq', hnone, and_false, if_false]

end Ack

/-! ### Retransmission -/

section Resend

variable {w : SendWindow} {h n : ℕ}

/-- Marking a slot as sent again changes only its time and its count. -/
theorem cell_resend (w : SendWindow) (nowNs : UInt64) (i p : ℕ) :
    (w.resend nowNs i).cell p = w.cell p ∨
      (w.resend nowNs i).cell p = (w.cell p).resent nowNs := by
  by_cases hi : i < w.slots.length
  · have hmod : i = i % w.slots.length := (Nat.mod_eq_of_lt hi).symm
    have hcell : (w.resend nowNs i).cell p =
        if i % w.slots.length = p % w.slots.length then (w.slot i).resent nowNs
        else w.cell p := by
      rw [← cell_setSlot (by omega), ← hmod]; rfl
    rw [hcell]
    split_ifs with hip
    · right
      rw [show w.slot i = w.cell p by rw [hmod, hip]; rfl]
    · exact Or.inl rfl
  · left
    have : w.slots.set i ((w.slot i).resent nowNs) = w.slots :=
      List.set_eq_of_length_le (by omega)
    show Ring.cell (w.slots.set i ((w.slot i).resent nowNs)) p = _
    rw [this]
    rfl

/-- A field that retransmission does not touch is the same in every cell. -/
theorem cell_resend_field {β : Type*} (f : SendSlot → β)
    (hf : ∀ (s : SendSlot) (t : UInt64), f (s.resent t) = f s) (w : SendWindow) (nowNs : UInt64)
    (i p : ℕ) : f ((w.resend nowNs i).cell p) = f (w.cell p) := by
  rcases cell_resend w nowNs i p with h | h
  · rw [h]
  · rw [h, hf]

/-- Within the window, marking the slot of a position changes only that position. -/
theorem Rep.cell_resend_mod (hw : w.Rep h n) {p q : ℕ} (hp : h ≤ p) (hp' : p < n) (hq : h ≤ q)
    (hq' : q < n) (nowNs : UInt64) : (w.resend nowNs (q % w.slots.length)).cell p =
      if p = q then (w.cell p).resent nowNs else w.cell p := by
  have hb := hw.bound
  have hcell := hw.cell_setSlot_window hq (by omega) hp (by omega) ((w.cell q).resent nowNs)
  show (w.setSlot (q % w.slots.length) ((w.cell q).resent nowNs)).cell p = _
  rw [hcell]
  split_ifs with hpq
  · rw [hpq]
  · rfl

theorem Rep.resend_rep (hw : w.Rep h n) (nowNs : UInt64) (i : ℕ) : (w.resend nowNs i).Rep h n where
  ring := hw.ring
  small := hw.small
  len := by simpa [resend] using hw.len
  head := hw.head
  next := hw.next
  le := hw.le
  bound := hw.bound
  inUse := fun p h1 h2 => by
    rw [cell_resend_field (·.inUse) (fun _ _ => rfl)]; exact hw.inUse p h1 h2
  seqNum := fun p h1 h2 => by
    rw [cell_resend_field (·.seqNum) (fun _ _ => rfl)]; exact hw.seqNum p h1 h2
  reliable := fun p h1 h2 => by
    rw [cell_resend_field (·.deliveryMode) (fun _ _ => rfl)]; exact hw.reliable p h1 h2
  short := fun p h1 h2 => by
    rw [cell_resend_field (·.payloadLen) (fun _ _ => rfl)]; exact hw.short p h1 h2
  flight := by
    rw [unacked_congr fun p _ _ => cell_resend_field (·.acked) (fun _ _ => rfl) w nowNs i p]
    exact hw.flight

end Resend

/-! ### A small window -/

/-- A window of four slots that holds the numbers 1 and 2. -/
def twoPushed : SendWindow := ((fresh 4 1).pushed 3 [7] 1 0).pushed 3 [8] 1 0

theorem twoPushed_rep : twoPushed.Rep 1 3 :=
  ((fresh_rep (c := 4) ⟨2, by decide, rfl⟩ (by decide) 1).push_rep (show Reliable 3 by decide) [7]
    (by decide) 0 (by decide)).push_rep (show Reliable 3 by decide) [8] (by decide) 0
    (by decide)

end SendWindow

end Rel4u
