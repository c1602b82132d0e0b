import Rel4u.Queue.Refine
import Rel4u.Window.SendInv

/-!
# Reclaiming the unacknowledged messages

`rel4u_send_window_reclaim_unacked` walks the window from its newest message to its oldest and
pushes each unacknowledged one to the front of a queue. `reclaimUnacked_eq` says so on the list of
these messages, `unackedItems`, which is read off the mode, the length and the bytes of the slots;
the item that the code builds from a slot is that one (`itemOfSlot_eq`).

A window of `2 ^ 31` slots is the largest that `rel4u_send_window_init` accepts. Its capacity is
negative as an `int32_t`, so nothing can ever be pushed into it: such a window is `Idle`, and every
operation leaves it so. `Usable` covers both kinds of window a program can have.
-/

namespace Rel4u

open Serial (wrap IsRingSize)

/-- The message held in a slot of the send window. -/
def SendSlot.message (s : SendSlot) : Message :=
  { mode := s.deliveryMode, len := s.payloadLen, payload := s.payload.take s.payloadLen.toNat }

/-- A message as the client's send queue holds it. -/
def Message.item (m : Message) : MpmcItem :=
  { clientId := 0, mode := m.mode, len := m.len, data := m.payload }

namespace SendWindow

/-- The unacknowledged messages between `headSeq` and `nextSeq`, oldest first. -/
def unackedItems (w : SendWindow) : List MpmcItem :=
  (((List.range (w.nextSeq - w.headSeq).toNat).map fun i =>
    w.slot (w.slotIdx (w.headSeq + UInt32.ofNat i))).filter fun s => !s.acked).map
      fun s => s.message.item

/-- The unacknowledged messages of a range of positions, oldest first. -/
def rangeItems (w : SendWindow) (h n : ℕ) : List MpmcItem :=
  (((List.range' h (n - h)).map w.cell).filter fun s => !s.acked).map fun s => s.message.item

/-- The loop copies the mode, the length and the bytes of a slot as they are. -/
theorem itemOfSlot_eq (s : SendSlot) : itemOfSlot s = s.message.item := rfl

/-- One push of the reclaiming loop, with the count of those that succeeded. -/
def reclaimStep (x : MpmcItem) (s : MpmcQueue × ℕ) : MpmcQueue × ℕ :=
  ((s.1.pushFront x).2, if (s.1.pushFront x).1 then s.2 + 1 else s.2)

section Reclaim

variable {w : SendWindow} {h n : ℕ}

theorem Rep.unackedItems_eq (hw : w.Rep h n) : w.unackedItems = w.rangeItems h n := by
  have hslot : ∀ i, w.slot (w.slotIdx (w.headSeq + UInt32.ofNat i)) = w.cell (h + i) := by
    intro i
    have hseq : w.headSeq + UInt32.ofNat i = wrap (h + i) := by
      rw [hw.head, Serial.wrap_add]; rfl
    rw [hseq, hw.slotIdx, slot_mod]
  unfold unackedItems rangeItems
  rw [hw.fuel_eq, List.range'_eq_map_range, List.map_map]
  simp only [hslot]
  rfl

theorem rangeItems_succ (w : SendWindow) (h k : ℕ) :
    w.rangeItems h (h + k + 1) = w.rangeItems h (h + k) ++
      if (w.cell (h + k)).acked then [] else [(w.cell (h + k)).message.item] := by
  unfold rangeItems
  rw [show h + k + 1 - h = k + 1 by omega, show h + k - h = k by omega, List.range'_concat,
    List.map_append, List.filter_append, List.map_append]
  cases ha : (w.cell (h + k)).acked <;> simp [ha]

theorem Rep.reclaimFrom_eq (hw : w.Rep h n) (k : ℕ) (hk : h + k ≤ n) :
    ∀ (q : MpmcQueue) (r : ℕ),
      w.reclaimFrom k (wrap (h + k)) q r = (w.rangeItems h (h + k)).foldr reclaimStep (q, r) := by
  have hb := hw.bound
  have hs := hw.small
  induction k with
  | zero => intro q r; simp [reclaimFrom, rangeItems]
  | succ k ih =>
    intro q r
    have hgt : seqGt (wrap (h + (k + 1))) w.headSeq = true := by
      rw [seqGt, seqDiff, hw.head, Serial.diff_wrap (by omega) (by omega)]
      exact decide_eq_true (by omega)
    have hpred : wrap (h + (k + 1)) - 1 = wrap (h + k) := by
      rw [Serial.wrap_pred (by omega)]; rfl
    rw [reclaimFrom, if_pos hgt, hpred]
    simp only [hw.slotIdx, slot_mod, hw.inUse (h + k) (by omega) (by omega),
      hw.seqNum (h + k) (by omega) (by omega), decide_true, Bool.true_and]
    rw [← Nat.add_assoc, rangeItems_succ, List.foldr_append]
    cases ha : (w.cell (h + k)).acked with
    | true => simp [ih (by omega)]
    | false =>
      have hrel : decide (Reliable (w.cell (h + k)).deliveryMode) = true :=
        decide_eq_true (hw.reliable (h + k) (by omega) (by omega))
      simp only [Bool.not_false, Bool.true_and, hrel, if_true, ih (by omega), itemOfSlot_eq]
      rfl

/-- **Reclaiming pushes the unacknowledged messages to the front, newest first.** -/
theorem Rep.reclaimUnacked_eq (hw : w.Rep h n) (q : MpmcQueue) :
    w.reclaimUnacked q = w.unackedItems.foldr reclaimStep (q, 0) := by
  have hb := hw.bound
  have hs := hw.small
  have hle := hw.le
  have hne : w.slots ≠ [] := List.ne_nil_of_length_pos hw.len_pos
  rw [hw.unackedItems_eq, reclaimUnacked, if_neg hne]
  have hdiff : seqGt w.nextSeq w.headSeq = decide (h < n) := by
    rw [seqGt, hw.seqDiff_next_head]
    exact decide_eq_decide.2 (by omega)
  rw [hdiff]
  by_cases hlt : h < n
  · have hn : h + (n - h) = n := by omega
    have := hw.reclaimFrom_eq (n - h) (by omega) q 0
    rw [hn] at this
    rw [if_pos (decide_eq_true hlt), hw.fuel_eq, hw.next, this]
  · have hnil : w.rangeItems h n = [] := by
      rw [rangeItems, show n - h = 0 by omega]; rfl
    rw [if_neg (by simpa using hlt), hnil]
    rfl

/-- What is reclaimed is what a queue can hold. -/
theorem Rep.mem_unackedItems (hw : w.Rep h n) {x : MpmcItem} (hx : x ∈ w.unackedItems) :
    x.len.toNat ≤ maxPayloadSize ∧ x.trim = x := by
  rw [hw.unackedItems_eq, rangeItems] at hx
  obtain ⟨s, hs, rfl⟩ := List.mem_map.1 hx
  obtain ⟨p, hp, rfl⟩ := List.mem_map.1 (List.mem_filter.1 hs).1
  rw [List.mem_range'_1] at hp
  refine ⟨hw.short p hp.1 (by omega), ?_⟩
  simp [Message.item, SendSlot.message, MpmcItem.trim, List.take_take]

end Reclaim

/-! ### Windows that nothing fits into -/

/-- A window of `2 ^ 31` slots, into which nothing has been pushed. -/
structure Idle (w : SendWindow) : Prop where
  cap : w.capacity = 0x80000000
  empty : w.headSeq = w.nextSeq
  alive : w.slots ≠ []

/-- The windows a program can have. -/
def Usable (w : SendWindow) : Prop := (∃ h n, w.Rep h n) ∨ w.Idle

section Idle

variable {w : SendWindow}

theorem Idle.canSend_eq (hw : w.Idle) : w.canSend = false := by
  have h0 : seqDiff w.nextSeq w.headSeq = 0 := by
    rw [seqDiff, hw.empty]; exact Serial.diff_self _
  have hneg : (0x80000000 : UInt32).toInt32.toInt = -2147483648 := by decide
  rw [canSend, h0, hw.cap, hneg]
  simp

theorem Idle.inRange (hw : w.Idle) (x : UInt32) :
    (seqLt x w.nextSeq && seqGte x w.headSeq) = false := by
  rw [seqLt, seqGte, hw.empty]
  by_cases h : seqDiff x w.nextSeq < 0
  · rw [decide_eq_false (by omega : ¬ seqDiff x w.nextSeq ≥ 0), Bool.and_false]
  · rw [decide_eq_false h, Bool.false_and]

theorem Idle.ackSelective_eq (hw : w.Idle) (ackNum sackMask : UInt32) (nowNs : UInt64) (rtt : Rtt)
    (i : ℕ) : ackSelective ackNum sackMask nowNs (w, rtt) i = (w, rtt) := by
  simp only [ackSelective, hw.inRange, Bool.false_eq_true, if_false, ite_self]

theorem Idle.onAck_eq (hw : w.Idle) (ackNum sackMask : UInt32) (nowNs : UInt64) (rtt : Rtt) :
    w.onAck ackNum sackMask nowNs rtt = (w, rtt) := by
  have hfold : ∀ l : List ℕ,
      l.foldl (ackSelective ackNum sackMask nowNs) (w, rtt) = (w, rtt) := by
    intro l
    induction l with
    | nil => rfl
    | cons i l ih => rw [List.foldl_cons, hw.ackSelective_eq, ih]
  have hfuel : (w.nextSeq - w.headSeq).toNat = 0 := by
    rw [hw.empty, UInt32.sub_self]; rfl
  simp only [onAck, hfuel, ackCumulative, hfold, ite_self]

theorem Idle.getExpired_eq (hw : w.Idle) (nowNs : UInt64) (rtoMs : UInt32) (maxSlots : ℕ) :
    w.getExpired nowNs rtoMs maxSlots = [] := by
  have hfuel : (w.nextSeq - w.headSeq).toNat = 0 := by
    rw [hw.empty, UInt32.sub_self]; rfl
  simp only [getExpired, hfuel, expiredFrom, ite_self]

theorem Idle.reset_eq (hw : w.Idle) (s : UInt32) : w.reset s = (0, fresh w.capacity s) := by
  have hc : w.capacity ≠ 0 := by rw [hw.cap]; decide
  simp [reset, hw.alive, hc, fresh]

theorem Idle.reset_idle (hw : w.Idle) (s : UInt32) : (w.reset s).2.Idle := by
  rw [hw.reset_eq]
  refine ⟨hw.cap, rfl, ?_⟩
  intro h0
  have hlen : (fresh w.capacity s).slots.length = w.capacity.toNat := by simp [fresh]
  rw [h0, hw.cap] at hlen
  exact absurd hlen (by decide)

theorem Idle.unackedItems_eq (hw : w.Idle) : w.unackedItems = [] := by
  have hfuel : (w.nextSeq - w.headSeq).toNat = 0 := by
    rw [hw.empty, UInt32.sub_self]; rfl
  rw [unackedItems, hfuel]
  rfl

theorem Idle.reclaimUnacked_eq (hw : w.Idle) (q : MpmcQueue) : w.reclaimUnacked q = (q, 0) := by
  have hgt : seqGt w.nextSeq w.headSeq = false := by
    rw [seqGt, seqDiff, hw.empty, Serial.diff_self]; rfl
  rw [reclaimUnacked, if_neg hw.alive, hgt]
  rfl

end Idle

section Usable

variable {w : SendWindow}

theorem fresh_usable {c : UInt32} (hc : IsRingSize c) (s : UInt32) : (fresh c s).Usable := by
  rcases hc.small_or_half with hs | hs
  · exact Or.inl ⟨_, _, fresh_rep hc hs s⟩
  · refine Or.inr ⟨hs, rfl, ?_⟩
    have hlen : (fresh c s).slots.length = c.toNat := by simp [fresh]
    exact List.ne_nil_of_length_pos (hlen ▸ hc.pos)

theorem Usable.reset_usable (hw : w.Usable) (s : UInt32) : (w.reset s).2.Usable := by
  rcases hw with ⟨h, n, hw⟩ | hw
  · rw [hw.reset_eq]
    exact Or.inl ⟨_, _, fresh_rep hw.ring hw.small s⟩
  · exact Or.inr (hw.reset_idle s)

theorem Usable.onAck_usable (hw : w.Usable) (ackNum sackMask : UInt32) (nowNs : UInt64)
    (rtt : Rtt) : (w.onAck ackNum sackMask nowNs rtt).1.Usable ∧
      (w.onAck ackNum sackMask nowNs rtt).1.capacity = w.capacity := by
  rcases hw with ⟨h, n, hw⟩ | hw
  · obtain ⟨h1, h2, -⟩ := hw.onAck_rep ackNum sackMask nowNs rtt
    exact ⟨Or.inl ⟨_, _, h1⟩, h2⟩
  · rw [hw.onAck_eq]
    exact ⟨Or.inr hw, rfl⟩

theorem Usable.reclaimUnacked_eq (hw : w.Usable) (q : MpmcQueue) :
    w.reclaimUnacked q = w.unackedItems.foldr reclaimStep (q, 0) := by
  rcases hw with ⟨h, n, hw⟩ | hw
  · exact hw.reclaimUnacked_eq q
  · rw [hw.reclaimUnacked_eq, hw.unackedItems_eq]
    rfl

theorem Usable.mem_unackedItems (hw : w.Usable) {x : MpmcItem} (hx : x ∈ w.unackedItems) :
    x.len.toNat ≤ maxPayloadSize ∧ x.trim = x := by
  rcases hw with ⟨h, n, hw⟩ | hw
  · exact hw.mem_unackedItems hx
  · rw [hw.unackedItems_eq] at hx
    exact absurd hx List.not_mem_nil

/-- A push that succeeds, of any mode, leaves a usable window. -/
theorem Usable.push_usable (hw : w.Usable) {w' : SendWindow} {mode : UInt8} {data : List UInt8}
    {len : ℕ} {nowNs : UInt64} {seq : UInt32}
    (hpush : w.push mode data len nowNs = .ok (w', seq)) :
    w'.Usable ∧ w'.capacity = w.capacity := by
  unfold push at hpush
  split_ifs at hpush with hlen hmode hfull
  · -- a reliable message is admitted by `canSend`, which an idle window never allows
    have hs : w.canSend = true := by
      rw [isFull_eq_not_canSend] at hfull
      simpa using hfull
    obtain ⟨rfl, -⟩ := Prod.mk.inj (Except.ok.inj hpush)
    refine ⟨?_, rfl⟩
    rcases hw with ⟨h, n, hw⟩ | hw
    · exact Or.inl ⟨_, _, hw.push_rep hmode data (not_lt.1 hlen) nowNs hs⟩
    · rw [hw.canSend_eq] at hs
      exact Bool.noConfusion hs
  · obtain ⟨rfl, -⟩ := Prod.mk.inj (Except.ok.inj hpush)
    refine ⟨?_, rfl⟩
    rcases hw with ⟨h, n, hw⟩ | hw
    · exact Or.inl ⟨h, n, { hw with }⟩
    · exact Or.inr { hw with }

/-- The windows that `rel4u_send_window_init` accepts. -/
theorem init_usable {win : SendWindow} {capacity initialSeq : UInt32} {calloc : Bool}
    (hinit : (win.init capacity initialSeq calloc).1 = 0) :
    (win.init capacity initialSeq calloc).2.Usable := by
  obtain ⟨hring, hfresh⟩ := init_ok hinit
  rw [hfresh]
  exact fresh_usable hring initialSeq

end Usable

/-! ### What the queue holds afterwards -/

/-- The queue has room for the items beside what it holds: in cells or bytes, and in allocations. -/
def HasRoomFor (q : MpmcQueue) (u : List MpmcItem) : Prop :=
  Deque.total q.weight u + Deque.total q.weight q.contents ≤ q.limit ∧
    ∀ j < u.length, q.allocs (q.heap.brk + j) = true

instance (q : MpmcQueue) (u : List MpmcItem) : Decidable (HasRoomFor q u) :=
  inferInstanceAs (Decidable (_ ∧ _))

/-- With room, every push of the loop succeeds. -/
theorem foldr_reclaimStep_of_room {q : MpmcQueue} {l : List MpmcItem} (hq : q.Rep l)
    {u : List MpmcItem} (hu : ∀ x ∈ u, x.len.toNat ≤ maxPayloadSize ∧ x.trim = x)
    (hfit : Deque.total q.weight u + Deque.total q.weight l ≤ q.limit)
    (halloc : ∀ j < u.length, q.allocs (q.heap.brk + j) = true) (k : ℕ) :
    (u.foldr reclaimStep (q, k)).1.Rep (u ++ l) ∧ (u.foldr reclaimStep (q, k)).2 = k + u.length ∧
      MpmcQueue.SameConfig q (u.foldr reclaimStep (q, k)).1 ∧
      (q.mode = .dynamic → (u.foldr reclaimStep (q, k)).1.heap.brk = q.heap.brk + u.length) := by
  induction u with
  | nil => exact ⟨hq, rfl, MpmcQueue.SameConfig.refl q, fun _ => rfl⟩
  | cons x u ih =>
    obtain ⟨hlen, htrim⟩ := hu x List.mem_cons_self
    rw [Deque.total_cons] at hfit
    obtain ⟨h1, h2, h3, h4⟩ := ih (fun y hy => hu y (List.mem_cons_of_mem x hy)) (by omega)
      fun j hj => halloc j (by rw [List.length_cons]; omega)
    rw [List.foldr_cons]
    generalize u.foldr reclaimStep (q, k) = s at h1 h2 h3 h4 ⊢
    obtain ⟨g1, g2, g3, -, g5⟩ := h1.pushFront hlen
    have hroom : Deque.total q.weight (u ++ l) + q.weight x ≤ q.limit := by
      rw [Deque.total_append]
      omega
    have hok : s.1.allocOk = true := by
      have hj := halloc u.length (by rw [List.length_cons]; omega)
      rw [MpmcQueue.allocOk, h3.mode]
      rw [MpmcQueue.allocs] at hj
      cases hm : q.mode with
      | fixed => rfl
      | dynamic =>
        rw [hm] at hj
        rw [h3.mallocOk, h4 hm]
        exact hj
    have hspec : s.1.pushSpec x (s.1.stored x :: ·) (u ++ l) = (true, x :: (u ++ l)) := by
      rw [MpmcQueue.pushSpec, hok, MpmcQueue.stored_of_trim htrim, h3.weight_eq, h3.limit_eq,
        h3.evicts_eq, Deque.push_of_fits hroom]
    rw [hspec] at g1 g2
    have hcount : (reclaimStep x s).2 = s.2 + 1 := by rw [reclaimStep, if_pos g1]
    refine ⟨g2, ?_, h3.trans g3, fun hm => ?_⟩
    · rw [hcount, h2, List.length_cons]
      omega
    · have hadm : Deque.Admits s.1.weight s.1.limit s.1.evicts (s.1.weight x) (u ++ l) := by
        rw [h3.weight_eq, h3.limit_eq]
        exact ⟨by omega, Or.inr hroom⟩
      have hbrk := g5 (h3.mode.trans hm)
      rw [if_pos hadm, h4 hm] at hbrk
      rw [List.length_cons, ← Nat.add_assoc]
      exact hbrk

/-- If the queue counts no loss, it has taken all of them. -/
theorem foldr_reclaimStep_counts {q : MpmcQueue} {l : List MpmcItem} (hq : q.Rep l)
    {u : List MpmcItem} (hu : ∀ x ∈ u, x.len.toNat ≤ maxPayloadSize ∧ x.trim = x) (k : ℕ) :
    (∃ l', (u.foldr reclaimStep (q, k)).1.Rep l') ∧
      q.droppedCount ≤ (u.foldr reclaimStep (q, k)).1.droppedCount ∧
      ((u.foldr reclaimStep (q, k)).1.droppedCount ≤ q.droppedCount →
        (u.foldr reclaimStep (q, k)).1.Rep (u ++ l)) := by
  induction u with
  | nil => exact ⟨⟨l, hq⟩, le_rfl, fun _ => hq⟩
  | cons x u ih =>
    obtain ⟨hlen, htrim⟩ := hu x List.mem_cons_self
    obtain ⟨⟨l', h1⟩, h2, h3⟩ := ih fun y hy => hu y (List.mem_cons_of_mem x hy)
    rw [List.foldr_cons]
    generalize u.foldr reclaimStep (q, k) = s at h1 h2 h3 ⊢
    obtain ⟨g1, g2, -⟩ := h1.pushFront_counts hlen htrim
    refine ⟨g1, h2.trans g2, fun hdropped => ?_⟩
    exact ((h3 (g2.trans hdropped)).pushFront_counts hlen htrim).2.2 (hdropped.trans h2)

/-- **Reclaiming keeps order and content.** The queue then holds some of the unacknowledged messages
followed by some of what it held, all in their order; with room, it holds all of them, and the
return value counts the messages. -/
theorem reclaimUnacked_contents {w : SendWindow} (hw : w.Usable) {q : MpmcQueue}
    {l : List MpmcItem} (hq : q.Rep l) :
    (w.reclaimUnacked q).1.contents.Sublist (w.unackedItems ++ q.contents) ∧
      (HasRoomFor q w.unackedItems →
        (w.reclaimUnacked q).1.contents = w.unackedItems ++ q.contents ∧
        (w.reclaimUnacked q).2 = w.unackedItems.length) := by
  have hitems := fun x (hx : x ∈ w.unackedItems) => hw.mem_unackedItems hx
  rw [hw.reclaimUnacked_eq, HasRoomFor, hq.contents_eq]
  constructor
  · obtain ⟨hrep, -⟩ := hq.foldr_pushFront hitems reclaimStep (fun _ _ => rfl) 0
    rw [hrep.contents_eq]
    exact Deque.pushesFront_sublist
  · rintro ⟨hfit, halloc⟩
    obtain ⟨hrep, hcount, -⟩ := foldr_reclaimStep_of_room hq hitems hfit halloc 0
    rw [hrep.contents_eq, hcount, Nat.zero_add]
    exact ⟨rfl, rfl⟩

/-- A window of four slots that holds `pkt1`, ordered, `pkt2`, acknowledged selectively, and
`pkt3`, unordered. -/
def threePushed : SendWindow :=
  ((((fresh 4 1).pushed 3 [112, 107, 116, 49] 4 0).pushed 3 [112, 107, 116, 50] 4 0).pushed 2
    [112, 107, 116, 51] 4 0).onAck 0 2 5 .default |>.1

theorem threePushed_usable : threePushed.Usable := by
  have hlen : 4 ≤ maxPayloadSize := by decide
  have h1 := (fresh_rep (c := 4) ⟨2, by decide, rfl⟩ (by decide) 1).push_rep
    (show Reliable 3 by decide) [112, 107, 116, 49] hlen 0 (by decide)
  have h2 := h1.push_rep (show Reliable 3 by decide) [112, 107, 116, 50] hlen 0 (by decide)
  have h3 := h2.push_rep (show Reliable 2 by decide) [112, 107, 116, 51] hlen 0 (by decide)
  exact (Usable.onAck_usable (Or.inl ⟨_, _, h3⟩) 0 2 5 .default).1

/-- The two unacknowledged messages come back with their modes, lengths and bytes, in their order,
to an empty queue of four cells. -/
theorem reclaimUnacked_contents_of_two :
    ∃ q, MpmcQueue.init .fixed .dropLast 4 0 true (fun _ => true) = some q ∧
      (threePushed.reclaimUnacked q).1.contents =
        [⟨0, 3, 4, [112, 107, 116, 49]⟩, ⟨0, 2, 4, [112, 107, 116, 51]⟩] ∧
      (threePushed.reclaimUnacked q).2 = 2 := by
  refine ⟨_, rfl, ?_⟩
  obtain ⟨hrep, -⟩ := MpmcQueue.init_rep (q := _)
    (show MpmcQueue.init .fixed .dropLast 4 0 true (fun _ => true) = some _ from rfl)
  exact (reclaimUnacked_contents threePushed_usable hrep).2 (by decide)

end SendWindow

end Rel4u
