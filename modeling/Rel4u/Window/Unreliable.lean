import Rel4u.Lib.Records
import Rel4u.Window.RecvInv

/-!
# Packets of all four modes on one receive window

One call of `on_packet` serves all delivery modes, with one window and one output array. What the
unreliable modes read and write is the pair `highestUnrelSeq`, `hasHighestUnrel`, the *marks* of the
window, and the reliable modes neither read nor write them: a reliable packet on a window with other
marks returns the same and leaves the same window, with those marks (`onPacket_mark`). So the
unreliable packets can be taken out of any run without a trace in what the reliable ones see
(`replies_filter_reliable`).

The marks remember the number of the last mode-1 packet handed out, and a mode-1 packet is handed
out if it is ahead of that one (`delivered_sequenced`). The comparison is the serial one, which is
not transitive; on numbers of a span below `2 ^ 31` it orders them by their offset in the span, and
the packets handed out are the records of the stream.
-/

namespace Rel4u

/-- The arguments of a call of `on_packet`, with room for at least one slot. -/
structure PacketCall where
  hdr : Header
  payload : List UInt8
  maxReady : ℕ+

/-- What a call of `on_packet` returned. -/
structure PacketReply where
  call : PacketCall
  code : ℤ
  ready : List RecvSlot

namespace PacketCall

/-- The packet is of mode 2 or 3. -/
def reliable (c : PacketCall) : Bool := decide (Reliable c.hdr.deliveryMode)

/-- The packet is of the given mode. -/
def hasMode (mode : DeliveryMode) (c : PacketCall) : Bool :=
  decide (c.hdr.deliveryMode = mode.code)

/-- The packet as it is handed out: its number, its mode, its length and its bytes. -/
def slot (c : PacketCall) : RecvSlot :=
  { seqNum := c.hdr.seqNum
    payloadLen := c.hdr.payloadLen
    deliveryMode := c.hdr.deliveryMode
    received := true
    payload := c.payload.take c.hdr.payloadLen.toNat }

end PacketCall

/-- The slots of one mode that a run handed out. -/
def deliveredIn (mode : DeliveryMode) (replies : List PacketReply) : List RecvSlot :=
  (replies.flatMap PacketReply.ready).filter fun s => decide (s.deliveryMode = mode.code)

/-- The slots of modes 2 and 3 that a run handed out. -/
def deliveredReliably (replies : List PacketReply) : List RecvSlot :=
  (replies.flatMap PacketReply.ready).filter fun s => decide (Reliable s.deliveryMode)

namespace RecvWindow

/-- Calls of `on_packet` one after another: the window they leave and what each returned. -/
def onPackets (w : RecvWindow) : List PacketCall → RecvWindow × List PacketReply
  | [] => (w, [])
  | c :: cs =>
    let (code, w', ready) := w.onPacket c.hdr c.payload c.maxReady
    let (w'', replies) := w'.onPackets cs
    (w'', ⟨c, code, ready⟩ :: replies)

/-- The number of the last mode-1 packet handed out. -/
def highestUnrel (w : RecvWindow) : Option UInt32 :=
  if w.hasHighestUnrel then some w.highestUnrelSeq else none

/-! ### Reliable packets do not see the marks -/

section Mark

variable (w : RecvWindow) (highest : UInt32) (has : Bool)

@[simp] theorem mark_slots : (w.mark highest has).slots = w.slots := rfl

@[simp] theorem mark_capacity : (w.mark highest has).capacity = w.capacity := rfl

@[simp] theorem mark_expectedSeq : (w.mark highest has).expectedSeq = w.expectedSeq := rfl

@[simp] theorem mark_slot (i : ℕ) : (w.mark highest has).slot i = w.slot i := rfl

@[simp] theorem mark_slotIdx (s : UInt32) : (w.mark highest has).slotIdx s = w.slotIdx s := rfl

@[simp] theorem mark_setSlot (i : ℕ) (s : RecvSlot) :
    (w.mark highest has).setSlot i s = (w.setSlot i s).mark highest has := rfl

@[simp] theorem mark_expSlot : (w.mark highest has).expSlot = w.expSlot := rfl

@[simp] theorem mark_expReady : (w.mark highest has).expReady = w.expReady := rfl

@[simp] theorem mark_advance : (w.mark highest has).advance = w.advance.mark highest has := rfl

@[simp] theorem mark_getAckInfo : (w.mark highest has).getAckInfo = w.getAckInfo := rfl

/-- What a loop returns, with the marks of the window replaced. -/
def markLoop (r : RecvWindow × List RecvSlot) : RecvWindow × List RecvSlot :=
  (r.1.mark highest has, r.2)

/-- What a call returns, with the marks of the window replaced. -/
def markReply (r : ℤ × RecvWindow × List RecvSlot) : ℤ × RecvWindow × List RecvSlot :=
  (r.1, markLoop highest has r.2)

theorem popLoop_mark (maxReady fuel : ℕ) (ready : List RecvSlot) :
    popLoop maxReady fuel (w.mark highest has) ready =
      markLoop highest has (popLoop maxReady fuel w ready) := by
  induction fuel generalizing w ready with
  | zero => rfl
  | succ fuel ih =>
    simp only [popLoop, mark_expReady, mark_expSlot, mark_advance, ih,
      apply_ite (markLoop highest has)]
    rfl

theorem skipLoop_mark (maxReady fuel : ℕ) (ready : List RecvSlot) :
    skipLoop maxReady fuel (w.mark highest has) ready =
      markLoop highest has (skipLoop maxReady fuel w ready) := by
  induction fuel generalizing w ready with
  | zero => rfl
  | succ fuel ih =>
    simp only [skipLoop, mark_expReady, mark_expSlot, mark_advance, ih,
      apply_ite (markLoop highest has)]
    rfl

/-- **A reliable packet returns the same whatever the marks are**, and keeps them. -/
theorem onPacket_mark {hdr : Header} (hrel : Reliable hdr.deliveryMode) (payload : List UInt8)
    (maxReady : ℕ) :
    (w.mark highest has).onPacket hdr payload maxReady =
      markReply highest has (w.onPacket hdr payload maxReady) := by
  have h0 : hdr.deliveryMode ≠ DeliveryMode.unreliableUnordered.code := by
    rcases hrel with h | h <;> rw [h] <;> decide
  have h1 : hdr.deliveryMode ≠ DeliveryMode.unreliableOrdered.code := by
    rcases hrel with h | h <;> rw [h] <;> decide
  simp only [onPacket, if_neg h0, if_neg h1, mark_slot, mark_slotIdx, mark_setSlot,
    mark_expectedSeq, mark_capacity, mark_slots, popReady, skipLoop_mark, popLoop_mark,
    apply_ite (markReply highest has)]
  rfl

end Mark

/-! ### What one call does, mode by mode -/

section Call

variable {w : RecvWindow} {c : PacketCall}

theorem onPacket_unordered (h : c.hdr.deliveryMode = DeliveryMode.unreliableUnordered.code) :
    w.onPacket c.hdr c.payload c.maxReady = (0, w, [c.slot]) := by
  rw [onPacket, if_neg c.maxReady.ne_zero, if_pos h]
  rfl

/-- A mode-1 packet is compared with the last one handed out, and takes its place. -/
theorem onPacket_sequenced (h : c.hdr.deliveryMode = DeliveryMode.unreliableOrdered.code) :
    w.onPacket c.hdr c.payload c.maxReady =
      if w.highestUnrel.all fun s => seqGt c.hdr.seqNum s then
        (0, w.mark c.hdr.seqNum true, [c.slot])
      else (1, w, []) := by
  have h0 : c.hdr.deliveryMode ≠ DeliveryMode.unreliableUnordered.code := by rw [h]; decide
  have hcond : (!w.hasHighestUnrel || seqGt c.hdr.seqNum w.highestUnrelSeq) =
      w.highestUnrel.all fun s => seqGt c.hdr.seqNum s := by
    unfold highestUnrel
    cases w.hasHighestUnrel <;> rfl
  rw [onPacket, if_neg c.maxReady.ne_zero, if_neg h0, if_pos h, hcond]
  rfl

/-- Only a mode-1 packet moves the marks. -/
theorem highestUnrel_onPacket
    (h : c.hdr.deliveryMode ≠ DeliveryMode.unreliableOrdered.code) :
    (w.onPacket c.hdr c.payload c.maxReady).2.1.highestUnrel = w.highestUnrel := by
  by_cases hrel : Reliable c.hdr.deliveryMode
  · -- a window is itself with its own marks
    have hself := w.onPacket_mark w.highestUnrelSeq w.hasHighestUnrel hrel c.payload c.maxReady
    rw [show w.mark w.highestUnrelSeq w.hasHighestUnrel = w from rfl] at hself
    rw [hself]
    rfl
  · by_cases h0 : c.hdr.deliveryMode = DeliveryMode.unreliableUnordered.code
    · rw [onPacket_unordered h0]
    · have h2 : c.hdr.deliveryMode ≠ DeliveryMode.reliableUnordered.code :=
        fun h2 => hrel (Or.inr h2)
      have h3 : c.hdr.deliveryMode ≠ DeliveryMode.reliableOrdered.code :=
        fun h3 => hrel (Or.inl h3)
      rw [onPacket, if_neg c.maxReady.ne_zero, if_neg h0, if_neg h, if_neg h2, if_neg h3]

/-- Handing out one more ordered slot. -/
theorem mem_append_ordered {ready : List RecvSlot} {slot s : RecvSlot}
    (hslot : slot.deliveryMode = DeliveryMode.reliableOrdered.code)
    (hs : s ∈ ready ++ [slot] ∨ Reliable s.deliveryMode) :
    s ∈ ready ∨ Reliable s.deliveryMode := by
  rcases hs with hs | hs
  · rcases List.mem_append.1 hs with hs | hs
    · exact Or.inl hs
    · rw [List.mem_singleton.1 hs]
      exact Or.inr (Or.inl hslot)
  · exact Or.inr hs

theorem mem_popLoop {maxReady fuel : ℕ} {w : RecvWindow} {ready : List RecvSlot} {s : RecvSlot}
    (hs : s ∈ (popLoop maxReady fuel w ready).2) : s ∈ ready ∨ Reliable s.deliveryMode := by
  induction fuel generalizing w ready with
  | zero => exact Or.inl hs
  | succ fuel ih =>
    simp only [popLoop] at hs
    split_ifs at hs with _ _ hmode
    · exact mem_append_ordered hmode (ih hs)
    · exact ih hs
    · exact Or.inl hs
    · exact Or.inl hs

theorem mem_skipLoop {maxReady fuel : ℕ} {w : RecvWindow} {ready : List RecvSlot} {s : RecvSlot}
    (hs : s ∈ (skipLoop maxReady fuel w ready).2) : s ∈ ready ∨ Reliable s.deliveryMode := by
  induction fuel generalizing w ready with
  | zero => exact Or.inl hs
  | succ fuel ih =>
    simp only [skipLoop] at hs
    split_ifs at hs with _ _ hmode _
    · exact ih hs
    · exact mem_append_ordered hmode (ih hs)
    · exact Or.inl hs
    · exact Or.inl hs
    · exact Or.inl hs

/-- What a call hands out is its own packet, or reliable. -/
theorem mode_of_mem_ready {s : RecvSlot}
    (hs : s ∈ (w.onPacket c.hdr c.payload c.maxReady).2.2) :
    s.deliveryMode = c.hdr.deliveryMode ∨ Reliable s.deliveryMode := by
  obtain ⟨f, harr, hf⟩ := arrival_onPacket w c.hdr c.payload
  rw [hf _ c.maxReady.ne_zero] at hs
  cases harr with
  | refused code hcode => exact absurd hs List.not_mem_nil
  | unreliable highest has _ =>
    rw [List.mem_singleton.1 hs]
    exact Or.inl rfl
  | unordered hmode hnew =>
    rcases mem_skipLoop hs with h | h
    · rw [List.mem_singleton.1 h]
      exact Or.inl rfl
    · exact Or.inr h
  | ordered hmode hnew =>
    rcases mem_popLoop hs with h | h
    · exact absurd h List.not_mem_nil
    · exact Or.inr h

/-- A call for another mode hands out nothing of an unreliable mode. -/
theorem filter_ready_of_hasMode_eq_false {mode : DeliveryMode} (hrel : ¬ Reliable mode.code)
    (h : c.hasMode mode = false) :
    (w.onPacket c.hdr c.payload c.maxReady).2.2.filter
      (fun s => decide (s.deliveryMode = mode.code)) = [] := by
  rw [List.filter_eq_nil_iff]
  intro s hs hmode
  have hs' : s.deliveryMode = mode.code := of_decide_eq_true hmode
  rcases mode_of_mem_ready hs with hc | hr
  · exact of_decide_eq_false h (hc ▸ hs')
  · exact hrel (hs' ▸ hr)

end Call

/-! ### Runs -/

/-- **Without its unreliable packets a run returns the same to the reliable ones**, and leaves the
same window up to the marks. -/
theorem replies_filter_reliable (w : RecvWindow) (highest : UInt32) (has : Bool)
    (cs : List PacketCall) :
    (((w.mark highest has).onPackets cs).2.filter fun r => r.call.reliable) =
        (w.onPackets (cs.filter PacketCall.reliable)).2 ∧
      ∃ highest' has', ((w.mark highest has).onPackets cs).1 =
        (w.onPackets (cs.filter PacketCall.reliable)).1.mark highest' has' := by
  induction cs generalizing w highest has with
  | nil => exact ⟨rfl, highest, has, rfl⟩
  | cons c cs ih =>
    by_cases hrel : Reliable c.hdr.deliveryMode
    · have hc : c.reliable = true := decide_eq_true hrel
      obtain ⟨hreplies, hwin⟩ :=
        ih (w.onPacket c.hdr c.payload c.maxReady).2.1 highest has
      rw [List.filter_cons_of_pos hc]
      simp only [onPackets, onPacket_mark w highest has hrel, markReply, markLoop]
      rw [List.filter_cons_of_pos (by exact hc), hreplies]
      exact ⟨rfl, hwin⟩
    · have hc : ¬ c.reliable = true := fun h => hrel (of_decide_eq_true h)
      obtain ⟨code, highest', has', ready, hrun, -⟩ :=
        (w.mark highest has).onPacket_unreliable hrel c.payload c.maxReady.pos
      obtain ⟨hreplies, hwin⟩ := ih w highest' has'
      rw [List.filter_cons_of_neg hc]
      simp only [onPackets, hrun]
      rw [List.filter_cons_of_neg (by exact hc)]
      exact ⟨hreplies, hwin⟩

/-- An unreliable packet hands out nothing reliable. -/
theorem filter_ready_of_unreliable {w : RecvWindow} {c : PacketCall} (h : c.reliable = false) :
    (w.onPacket c.hdr c.payload c.maxReady).2.2.filter
      (fun s => decide (Reliable s.deliveryMode)) = [] := by
  obtain ⟨code, highest, has, ready, hrun, -, -, hready⟩ :=
    w.onPacket_unreliable (of_decide_eq_false h) c.payload c.maxReady.pos
  rw [hrun, List.filter_eq_nil_iff]
  intro s hs hrel
  exact (hready s hs).1 (of_decide_eq_true hrel)

theorem deliveredReliably_cons (r : PacketReply) (rs : List PacketReply) :
    deliveredReliably (r :: rs) =
      r.ready.filter (fun s => decide (Reliable s.deliveryMode)) ++ deliveredReliably rs := by
  rw [deliveredReliably, List.flatMap_cons, List.filter_append, deliveredReliably]

/-- **What a run hands out reliably, it hands out in reply to its reliable packets.** -/
theorem deliveredReliably_filter (w : RecvWindow) (cs : List PacketCall) :
    deliveredReliably ((w.onPackets cs).2.filter fun r => r.call.reliable) =
      deliveredReliably (w.onPackets cs).2 := by
  induction cs generalizing w with
  | nil => rfl
  | cons c cs ih =>
    simp only [onPackets]
    cases hc : c.reliable with
    | true => rw [List.filter_cons_of_pos (by exact hc), deliveredReliably_cons, ih,
        deliveredReliably_cons]
    | false =>
      rw [List.filter_cons_of_neg (by simp [hc]), ih, deliveredReliably_cons]
      dsimp only
      rw [filter_ready_of_unreliable hc, List.nil_append]

theorem deliveredIn_cons (mode : DeliveryMode) (r : PacketReply) (rs : List PacketReply) :
    deliveredIn mode (r :: rs) =
      r.ready.filter (fun s => decide (s.deliveryMode = mode.code)) ++ deliveredIn mode rs := by
  rw [deliveredIn, List.flatMap_cons, List.filter_append, deliveredIn]

/-- A call for another mode adds nothing to what a run hands out in an unreliable mode. -/
theorem deliveredIn_onPackets_of_hasMode_eq_false (w : RecvWindow) {mode : DeliveryMode}
    (hrel : ¬ Reliable mode.code) {c : PacketCall} (h : c.hasMode mode = false)
    (cs : List PacketCall) :
    deliveredIn mode (w.onPackets (c :: cs)).2 =
      deliveredIn mode ((w.onPacket c.hdr c.payload c.maxReady).2.1.onPackets cs).2 := by
  simp only [onPackets]
  rw [deliveredIn_cons]
  dsimp only
  rw [filter_ready_of_hasMode_eq_false hrel h, List.nil_append]

/-- **Each mode-0 packet is handed out by its own call.** -/
theorem replies_filter_unordered (w : RecvWindow) (cs : List PacketCall) :
    ((w.onPackets cs).2.filter fun r => r.call.hasMode .unreliableUnordered) =
      (cs.filter (PacketCall.hasMode .unreliableUnordered)).map fun c => ⟨c, 0, [c.slot]⟩ := by
  induction cs generalizing w with
  | nil => rfl
  | cons c cs ih =>
    simp only [onPackets]
    cases hc : c.hasMode .unreliableUnordered with
    | true =>
      have hmode : c.hdr.deliveryMode = DeliveryMode.unreliableUnordered.code :=
        of_decide_eq_true hc
      rw [List.filter_cons_of_pos (by exact hc), List.filter_cons_of_pos hc, ih,
        onPacket_unordered hmode, List.map_cons]
    | false =>
      rw [List.filter_cons_of_neg (by simp [hc]), List.filter_cons_of_neg (by simp [hc]), ih]

/-- **The mode-0 packets handed out are those that arrived**, in order. -/
theorem delivered_unordered (w : RecvWindow) (cs : List PacketCall) :
    deliveredIn .unreliableUnordered (w.onPackets cs).2 =
      (cs.filter (PacketCall.hasMode .unreliableUnordered)).map PacketCall.slot := by
  induction cs generalizing w with
  | nil => rfl
  | cons c cs ih =>
    cases hc : c.hasMode .unreliableUnordered with
    | true =>
      have hmode : c.hdr.deliveryMode = DeliveryMode.unreliableUnordered.code :=
        of_decide_eq_true hc
      have hslot : decide (c.slot.deliveryMode = DeliveryMode.unreliableUnordered.code) = true := hc
      simp only [onPackets, onPacket_unordered hmode]
      rw [deliveredIn_cons, ih, List.filter_cons_of_pos hc, List.map_cons]
      simp only [List.filter_singleton, hslot, cond_true, List.singleton_append]
    | false =>
      rw [deliveredIn_onPackets_of_hasMode_eq_false w (by decide) hc, ih,
        List.filter_cons_of_neg (by simp [hc])]

/-- **The mode-1 packets handed out are those ahead of the last one handed out.** -/
theorem delivered_sequenced (w : RecvWindow) (cs : List PacketCall) :
    deliveredIn .unreliableOrdered (w.onPackets cs).2 =
      (Records.newest (fun c : PacketCall => c.hdr.seqNum) seqGt w.highestUnrel
        (cs.filter (PacketCall.hasMode .unreliableOrdered))).map PacketCall.slot := by
  induction cs generalizing w with
  | nil => rfl
  | cons c cs ih =>
    cases hc : c.hasMode .unreliableOrdered with
    | true =>
      have hmode : c.hdr.deliveryMode = DeliveryMode.unreliableOrdered.code :=
        of_decide_eq_true hc
      have hslot : decide (c.slot.deliveryMode = DeliveryMode.unreliableOrdered.code) = true := hc
      rw [List.filter_cons_of_pos hc, Records.newest]
      simp only [onPackets, onPacket_sequenced hmode]
      rw [deliveredIn_cons]
      split
      next hgt =>
        rw [List.map_cons, ih]
        simp only [List.filter_singleton, hslot, cond_true, List.singleton_append]
        rfl
      next hgt =>
        rw [ih]
        rfl
    | false =>
      rw [deliveredIn_onPackets_of_hasMode_eq_false w (by decide) hc, ih,
        highestUnrel_onPacket (of_decide_eq_false hc), List.filter_cons_of_neg (by simp [hc])]

/-! ### Sequenced delivery over a span -/

/-- The numbers lie in the span of `2 ^ 31` that starts at `base`. -/
def InSpan (base seq : UInt32) : Prop := (seq - base).toNat < 2 ^ 31

instance (base seq : UInt32) : Decidable (InSpan base seq) := inferInstanceAs (Decidable (_ < _))

/-- In a span, a number is ahead of another if its offset is larger. -/
theorem rankedOn_span (base : UInt32) :
    Records.RankedOn seqGt (InSpan base) fun seq => (seq - base).toNat := by
  intro a b ha hb
  have hdiff : seqDiff a b = _ := Serial.diff_of_span ha hb
  rw [seqGt, hdiff, decide_eq_true_eq]
  dsimp only
  omega

theorem seqLt_of_seqGt {a b : UInt32} (h : seqGt b a = true) : seqLt a b = true := by
  have hpos : 0 < Serial.diff b a := of_decide_eq_true h
  obtain ⟨r, hr, h1⟩ := Serial.diff_cases b a
  obtain ⟨r', hr', h2⟩ := Serial.diff_cases a b
  refine decide_eq_true (?_ : Serial.diff a b < 0)
  omega

/-- The records of a stream of packets increase. -/
theorem increasing_records (seen : List UInt32) (cs : List PacketCall) :
    ((Records.records (fun c : PacketCall => c.hdr.seqNum) seqGt seen cs).map
      PacketCall.slot).Pairwise (fun s t => seqLt s.seqNum t.seqNum = true) := by
  have hrec : (Records.records (fun c : PacketCall => c.hdr.seqNum) seqGt seen cs).Pairwise
      (fun c d => seqGt d.hdr.seqNum c.hdr.seqNum = true) := Records.pairwise_records seen cs
  rw [List.pairwise_map]
  refine hrec.imp ?_
  intro c d hgt
  exact seqLt_of_seqGt hgt

theorem nodup_of_increasing {l : List RecvSlot}
    (h : l.Pairwise fun s t => seqLt s.seqNum t.seqNum = true) :
    (l.map RecvSlot.seqNum).Nodup := by
  refine List.pairwise_map.2 (h.imp ?_)
  intro s t hlt heq
  rw [heq, seqLt, seqDiff, Serial.diff_self] at hlt
  exact absurd hlt (by decide)

theorem isTop_highestUnrel (w : RecvWindow) (rank : UInt32 → ℕ) :
    Records.IsTop rank w.highestUnrel.toList w.highestUnrel := by
  cases w.highestUnrel with
  | none => rfl
  | some t => exact ⟨List.mem_singleton_self t, fun b hb => (List.mem_singleton.1 hb ▸ le_rfl)⟩

/-- The calls of a run lie, with what the window remembers, in the span that starts at `base`. -/
def SequencedIn (base : UInt32) (w : RecvWindow) (cs : List PacketCall) : Prop :=
  (∀ seq ∈ w.highestUnrel, InSpan base seq) ∧
    ∀ c ∈ cs, c.hasMode .unreliableOrdered = true → InSpan base c.hdr.seqNum

/-- Over a span the mode-1 packets handed out are the records of those that arrived. -/
theorem delivered_sequenced_records {base : UInt32} {w : RecvWindow} {cs : List PacketCall}
    (h : SequencedIn base w cs) :
    deliveredIn .unreliableOrdered (w.onPackets cs).2 =
      (Records.records (fun c : PacketCall => c.hdr.seqNum) seqGt w.highestUnrel.toList
        (cs.filter (PacketCall.hasMode .unreliableOrdered))).map PacketCall.slot := by
  obtain ⟨hwin, hcs⟩ := h
  rw [delivered_sequenced, Records.newest_eq_records (rankedOn_span base)]
  · intro c hc
    obtain ⟨hmem, hmode⟩ := List.mem_filter.1 hc
    exact hcs c hmem hmode
  · intro seq hseq
    exact hwin seq (Option.mem_toList.1 hseq)
  · exact isTop_highestUnrel w _

/-- **Unreliable packets do not interfere with reliable ones, and sequenced delivery keeps only new
packets.** For any calls of `on_packet` on one receive window: what the reliable packets return, the
slots, `expected_seq` and the acknowledgement are those of the reliable packets alone, and so are
all the reliable slots that the run hands out. Each mode-0 packet is handed out once, by its own
call. If the mode-1 numbers lie in a span below `2 ^ 31`, the mode-1 packets handed out are those
ahead of all mode-1 packets before them, so they increase and none comes twice. -/
theorem unreliable_isolated_and_sequenced (w : RecvWindow) (cs : List PacketCall) :
    (((w.onPackets cs).2.filter fun r => r.call.reliable) =
        (w.onPackets (cs.filter PacketCall.reliable)).2 ∧
      deliveredReliably (w.onPackets cs).2 =
        deliveredReliably (w.onPackets (cs.filter PacketCall.reliable)).2 ∧
      (w.onPackets cs).1.slots = (w.onPackets (cs.filter PacketCall.reliable)).1.slots ∧
      (w.onPackets cs).1.expectedSeq = (w.onPackets (cs.filter PacketCall.reliable)).1.expectedSeq ∧
      (w.onPackets cs).1.getAckInfo = (w.onPackets (cs.filter PacketCall.reliable)).1.getAckInfo) ∧
    (((w.onPackets cs).2.filter fun r => r.call.hasMode .unreliableUnordered) =
        (cs.filter (PacketCall.hasMode .unreliableUnordered)).map (fun c => ⟨c, 0, [c.slot]⟩) ∧
      deliveredIn .unreliableUnordered (w.onPackets cs).2 =
        (cs.filter (PacketCall.hasMode .unreliableUnordered)).map PacketCall.slot) ∧
    ∀ base, SequencedIn base w cs →
      deliveredIn .unreliableOrdered (w.onPackets cs).2 =
          (Records.records (fun c : PacketCall => c.hdr.seqNum) seqGt w.highestUnrel.toList
            (cs.filter (PacketCall.hasMode .unreliableOrdered))).map PacketCall.slot ∧
        (deliveredIn .unreliableOrdered (w.onPackets cs).2).Pairwise
          (fun s t => seqLt s.seqNum t.seqNum = true) ∧
        ((deliveredIn .unreliableOrdered (w.onPackets cs).2).map RecvSlot.seqNum).Nodup := by
  obtain ⟨hreplies, highest, has, hwin⟩ :=
    replies_filter_reliable w w.highestUnrelSeq w.hasHighestUnrel cs
  have hself : w.mark w.highestUnrelSeq w.hasHighestUnrel = w := rfl
  rw [hself] at hreplies hwin
  refine ⟨⟨hreplies, ?_, ?_, ?_, ?_⟩, ⟨replies_filter_unordered w cs, delivered_unordered w cs⟩, ?_⟩
  · rw [← hreplies, deliveredReliably_filter]
  · rw [hwin, mark_slots]
  · rw [hwin, mark_expectedSeq]
  · rw [hwin, mark_getAckInfo]
  · intro base hspan
    have hrec := delivered_sequenced_records hspan
    have hincr : (deliveredIn .unreliableOrdered (w.onPackets cs).2).Pairwise
        (fun s t => seqLt s.seqNum t.seqNum = true) := by
      rw [hrec]
      exact increasing_records _ _
    exact ⟨hrec, hincr, nodup_of_increasing hincr⟩

/-- A packet of the given mode and number, with one byte. -/
def byteCall (mode : DeliveryMode) (seq : UInt32) : PacketCall :=
  { hdr :=
      { magic := 0, version := 1, packetType := 0, deliveryMode := mode.code, flags := 0
        payloadLen := 1, sessionId := 0, seqNum := seq, ackNum := 0, sackMask := 0 }
    payload := [7]
    maxReady := 4 }

/-- Mode-1 packets around `2 ^ 32`, out of order and with a repetition, among the other modes. -/
def mixedCalls : List PacketCall :=
  [byteCall .unreliableOrdered 4294967294, byteCall .reliableOrdered 1,
    byteCall .unreliableOrdered 0, byteCall .unreliableUnordered 9,
    byteCall .unreliableOrdered 4294967295, byteCall .reliableUnordered 2,
    byteCall .unreliableOrdered 0, byteCall .unreliableOrdered 1]

/-- A window of two slots that expects number 1. -/
def twoSlots : RecvWindow :=
  { slots := List.replicate 2 default, capacity := 2, expectedSeq := 1, highestUnrelSeq := 0
    hasHighestUnrel := false }

theorem sequencedIn_mixedCalls : SequencedIn 4294967290 twoSlots mixedCalls := by
  constructor
  · simp [highestUnrel, twoSlots]
  · decide +kernel

theorem unreliable_isolated_and_sequenced_mixed :
    (deliveredReliably (twoSlots.onPackets mixedCalls).2).map RecvSlot.seqNum = [1, 2] ∧
      (deliveredIn .unreliableOrdered (twoSlots.onPackets mixedCalls).2).map RecvSlot.seqNum =
        [4294967294, 0, 1] := by
  obtain ⟨⟨-, hreliable, -⟩, -, hsequenced⟩ :=
    unreliable_isolated_and_sequenced twoSlots mixedCalls
  rw [hreliable, (hsequenced _ sequencedIn_mixedCalls).1]
  decide +kernel

end RecvWindow

end Rel4u
