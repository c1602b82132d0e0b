import Rel4u.Window.RecvInv

/-!
# Runs of one receive window

A run gives one receive window arbitrary packets and calls of `pop_ready`, each with a scratch
array of any positive length. It counts the advances of `expected_seq`, which numbers the positions
of the stream without wrap, and records for each reliable packet handed out its position and mode.

`Inv` says of a recorded position that it lies before the count, or belongs to an unordered packet
whose mark is still in the window. So a position that can still be delivered has not been, and the
ordered ones are delivered in the order in which the count passes them.
-/

namespace Rel4u

open Serial (wrap IsRingSize)

namespace RecvWindow

/-! ### The unordered branch's loop without a bound -/

/-- The loop of the reliable unordered branch, as it stands in the source, ends after the given
number of advances with the given window and slots. -/
inductive SkipEnds (maxReady : ℕ) :
    ℕ → RecvWindow → List RecvSlot → RecvWindow × List RecvSlot → Prop
  | stop {w : RecvWindow} {ready : List RecvSlot}
      (hstop : w.expReady = true →
        w.expSlot.deliveryMode ≠ DeliveryMode.reliableUnordered.code ∧
        ¬ (w.expSlot.deliveryMode = DeliveryMode.reliableOrdered.code ∧
          ready.length < maxReady)) :
      SkipEnds maxReady 0 w ready (w, ready)
  | skip {k : ℕ} {w : RecvWindow} {ready : List RecvSlot} {res : RecvWindow × List RecvSlot}
      (hready : w.expReady = true)
      (hmode : w.expSlot.deliveryMode = DeliveryMode.reliableUnordered.code)
      (hrest : SkipEnds maxReady k w.advance ready res) : SkipEnds maxReady (k + 1) w ready res
  | deliver {k : ℕ} {w : RecvWindow} {ready : List RecvSlot} {res : RecvWindow × List RecvSlot}
      (hready : w.expReady = true)
      (hmode : w.expSlot.deliveryMode = DeliveryMode.reliableOrdered.code)
      (hroom : ready.length < maxReady)
      (hrest : SkipEnds maxReady k w.advance (ready ++ [w.expSlot]) res) :
      SkipEnds maxReady (k + 1) w ready res

/-- One turn leaves one position fewer that may be received: the cell just cleared is free. -/
theorem Drained.free_advance {w w' : RecvWindow} {e fuel : ℕ} {out : List RecvSlot}
    (hd : Drained w e w' (e + 1) out)
    (hfree : ∀ q, e + (fuel + 1) ≤ q → q < e + w.capacity.toNat → (w.cell q).received = false) :
    ∀ q, e + 1 + fuel ≤ q → q < e + 1 + w'.capacity.toNat → (w'.cell q).received = false := by
  intro q h1 h2
  rw [hd.cap] at h2
  by_cases hq : q < e + w.capacity.toNat
  · rw [hd.kept q (by omega) hq]
    exact hfree q (by omega) hq
  · exact hd.cleared q (by omega) h2

/-- With nothing received from position `e + fuel` on, `fuel` turns are enough. -/
theorem Rep.skipEnds_skipLoop (maxReady fuel : ℕ) :
    ∀ {w : RecvWindow} {e : ℕ} (ready : List RecvSlot), w.Rep e →
      (∀ q, e + fuel ≤ q → q < e + w.capacity.toNat → (w.cell q).received = false) →
      fuel ≤ w.capacity.toNat →
      ∃ k ≤ fuel, SkipEnds maxReady k w ready (skipLoop maxReady fuel w ready) := by
  induction fuel with
  | zero =>
    intro w e ready hw hfree _
    refine ⟨0, le_rfl, .stop fun hr => ?_⟩
    have hno := hfree e le_rfl (by have := hw.ring.pos; omega)
    rw [hw.expReady_iff, hno] at hr
    exact Bool.noConfusion hr
  | succ fuel ih =>
    intro w e ready hw hfree hle
    rw [skipLoop]
    by_cases hr : w.expReady = true
    · have hd := hw.advance_drained (hw.expReady_iff.1 hr)
      have hfree' := hd.free_advance hfree
      have hle' : fuel ≤ w.advance.capacity.toNat := by rw [hd.cap]; omega
      rw [if_pos hr]
      by_cases hu : w.expSlot.deliveryMode = DeliveryMode.reliableUnordered.code
      · obtain ⟨k, hk, hends⟩ := ih ready hd.rep hfree' hle'
        rw [if_pos hu]
        exact ⟨k + 1, by omega, .skip hr hu hends⟩
      · rw [if_neg hu]
        by_cases ho : w.expSlot.deliveryMode = DeliveryMode.reliableOrdered.code
        · rw [if_pos ho]
          by_cases hm : ready.length < maxReady
          · obtain ⟨k, hk, hends⟩ := ih (ready ++ [w.expSlot]) hd.rep hfree' hle'
            rw [if_pos hm]
            exact ⟨k + 1, by omega, .deliver hr ho hm hends⟩
          · rw [if_neg hm]
            exact ⟨0, by omega, .stop fun _ => ⟨hu, fun h => hm h.2⟩⟩
        · rw [if_neg ho]
          exact ⟨0, by omega, .stop fun _ => ⟨hu, fun h => ho h.1⟩⟩
    · rw [if_neg hr]
      exact ⟨0, by omega, .stop fun h => absurd h hr⟩

/-- In a window in order, a new packet has a position of the window that is not received. -/
theorem Rep.isNew_iff {w : RecvWindow} {e : ℕ} (hw : w.Rep e) {hdr : Header} :
    w.IsNew hdr ↔ ∃ p, (e ≤ p ∧ p < e + w.capacity.toNat) ∧ hdr.seqNum = wrap p ∧
      (w.cell p).received = false ∧
      ∀ payload, w.storePacket hdr payload = w.arrive p hdr payload := by
  constructor
  · rintro ⟨hin, hdup⟩
    obtain ⟨p, hp, hp', hseq⟩ := (hw.inRange_iff _).1 hin
    rw [hseq, hw.slotIdx, slot_mod, hw.duplicate_iff hp hp'] at hdup
    refine ⟨p, ⟨hp, hp'⟩, hseq, Bool.eq_false_iff.2 hdup, fun payload => ?_⟩
    rw [storePacket, hseq, hw.slotIdx, slot_mod]
    rfl
  · rintro ⟨p, ⟨hp, hp'⟩, hseq, hrec, -⟩
    refine ⟨(hw.inRange_iff _).2 ⟨p, hp, hp', hseq⟩, ?_⟩
    rw [hseq, hw.slotIdx, slot_mod, hw.duplicate_iff hp hp', hrec]
    exact Bool.noConfusion

/-- **The loop of the unordered branch ends after at most `capacity` advances.** -/
theorem Rep.skipEnds_onPacket {w : RecvWindow} {e : ℕ} (hw : w.Rep e) {hdr : Header}
    (hmode : hdr.deliveryMode = DeliveryMode.reliableUnordered.code) (payload : List UInt8)
    {maxReady : ℕ} (hok : (w.onPacket hdr payload maxReady).1 = 0) :
    ∃ k ≤ w.capacity.toNat, SkipEnds maxReady k (w.storePacket hdr payload)
      [readySlot hdr payload] (w.onPacket hdr payload maxReady).2 := by
  obtain ⟨f, harr, hf⟩ := arrival_onPacket w hdr payload
  have hm : maxReady ≠ 0 := by
    rintro rfl
    exact absurd hok (by simp)
  rw [hf _ hm] at hok ⊢
  cases harr with
  | refused code hcode => exact absurd hok hcode
  | unreliable highest has hrel => exact absurd (Or.inr hmode) hrel
  | unordered _ hnew =>
    obtain ⟨p, ⟨hp, hp'⟩, hseq, -, hstore⟩ := hw.isNew_iff.1 hnew
    have hrep := hw.arrive_rep hp hp' hseq (Or.inr hmode) payload
    have hfree : ∀ q, e + w.slots.length ≤ q →
        q < e + (w.arrive p hdr payload).capacity.toNat →
        ((w.arrive p hdr payload).cell q).received = false := by
      intro q h1 h2
      have hcap : (w.arrive p hdr payload).capacity = w.capacity := rfl
      rw [hcap, ← hw.len] at h2
      omega
    rw [hstore, ← hw.len]
    exact hrep.skipEnds_skipLoop maxReady w.slots.length _ hfree hw.len.le
  | ordered h3 _ =>
    rw [hmode] at h3
    exact absurd h3 (by decide)

/-! ### Received slots are cleared, never overwritten -/

/-- Every slot is as it was, or is that slot cleared. -/
def Released (w w' : RecvWindow) : Prop :=
  ∀ i, w'.slot i = w.slot i ∨ w'.slot i = (w.slot i).clear

theorem Released.refl (w : RecvWindow) : Released w w := fun _ => Or.inl rfl

theorem Released.trans {w₁ w₂ w₃ : RecvWindow} (h₁ : Released w₁ w₂) (h₂ : Released w₂ w₃) :
    Released w₁ w₃ := by
  intro i
  rcases h₁ i with h1 | h1 <;> rcases h₂ i with h2 | h2 <;> rw [h2, h1]
  · exact Or.inl rfl
  · exact Or.inr rfl
  · exact Or.inr rfl
  · exact Or.inr rfl

theorem slot_setSlot (w : RecvWindow) (i j : ℕ) (s : RecvSlot) :
    (w.setSlot i s).slot j = if i = j ∧ j < w.slots.length then s else w.slot j := by
  simp only [slot, setSlot, List.getD_eq_getElem?_getD, List.getElem?_set]
  by_cases hij : i = j
  · subst hij
    by_cases hi : i < w.slots.length
    · simp [hi]
    · simp [hi]
  · simp [hij]

theorem released_advance (w : RecvWindow) : Released w w.advance := by
  intro i
  have hslot : w.advance.slot i =
      (w.setSlot (w.slotIdx w.expectedSeq) w.expSlot.clear).slot i := rfl
  rw [hslot, slot_setSlot]
  split
  · next h => exact Or.inr (by rw [← h.1]; rfl)
  · exact Or.inl rfl

theorem released_popLoop (maxReady fuel : ℕ) : ∀ (w : RecvWindow) (ready : List RecvSlot),
    Released w (popLoop maxReady fuel w ready).1 := by
  induction fuel with
  | zero => exact fun w _ => Released.refl w
  | succ fuel ih =>
    intro w ready
    rw [popLoop]
    split
    · split
      · exact (released_advance w).trans (ih _ _)
      · exact Released.refl w
    · exact Released.refl w

theorem released_skipLoop (maxReady fuel : ℕ) : ∀ (w : RecvWindow) (ready : List RecvSlot),
    Released w (skipLoop maxReady fuel w ready).1 := by
  induction fuel with
  | zero => exact fun w _ => Released.refl w
  | succ fuel ih =>
    intro w ready
    rw [skipLoop]
    split
    · split
      · exact (released_advance w).trans (ih _ _)
      · split
        · split
          · exact (released_advance w).trans (ih _ _)
          · exact Released.refl w
        · exact Released.refl w
    · exact Released.refl w

/-- **A packet leaves each received slot as it is, or clears it.** -/
theorem Rep.onPacket_keeps {w : RecvWindow} {e : ℕ} (hw : w.Rep e) (hdr : Header)
    (payload : List UInt8) {maxReady : ℕ} (hm : maxReady ≠ 0) {i : ℕ}
    (hi : (w.slot i).received = true) :
    (w.onPacket hdr payload maxReady).2.1.slot i = w.slot i ∨
      (w.onPacket hdr payload maxReady).2.1.slot i = (w.slot i).clear := by
  -- the packet is stored in another slot, and the loops only clear
  have hstore : w.IsNew hdr → ∀ {w'}, Released (w.storePacket hdr payload) w' →
      w'.slot i = w.slot i ∨ w'.slot i = (w.slot i).clear := by
    intro hnew w' hrel
    obtain ⟨p, -, hseq, hfree, -⟩ := hw.isNew_iff.1 hnew
    have hother : (w.storePacket hdr payload).slot i = w.slot i := by
      rw [storePacket, slot_setSlot, if_neg]
      rintro ⟨rfl, -⟩
      rw [hseq, hw.slotIdx, slot_mod, hfree] at hi
      exact Bool.noConfusion hi
    have := hrel i
    rwa [hother] at this
  obtain ⟨f, harr, hf⟩ := arrival_onPacket w hdr payload
  rw [hf _ hm]
  cases harr with
  | refused code hcode => exact Or.inl rfl
  | unreliable highest has hrel => exact Or.inl rfl
  | unordered hmode hnew => exact hstore hnew (released_skipLoop _ _ _ _)
  | ordered hmode hnew => exact hstore hnew (released_popLoop _ _ _ _)

/-- **A packet that is refused leaves the window as it is.** -/
theorem onPacket_of_ne_zero {w : RecvWindow} {hdr : Header} {payload : List UInt8} {maxReady : ℕ}
    (h : (w.onPacket hdr payload maxReady).1 ≠ 0) :
    (w.onPacket hdr payload maxReady).2 = (w, []) := by
  by_cases hm : maxReady = 0
  · rw [hm, onPacket_zero]
  obtain ⟨f, harr, hf⟩ := arrival_onPacket w hdr payload
  rw [hf _ hm] at h ⊢
  cases harr with
  | refused code hcode => rfl
  | unreliable highest has hrel => exact absurd rfl h
  | unordered hmode hnew => exact absurd rfl h
  | ordered hmode hnew => exact absurd rfl h

end RecvWindow

/-! ### Runs -/

/-- A receive window, the number of times `expected_seq` has advanced, and the reliable packets
handed out: the position of each, counted in advances, and its mode. -/
structure RecvRun where
  win : RecvWindow
  advances : ℕ
  delivered : List (ℕ × UInt8)
  deriving DecidableEq, Repr

/-- The two calls that move a receive window, each with a scratch array of at least one slot. -/
inductive RecvOp
  | packet (hdr : Header) (payload : List UInt8) (maxReady : ℕ+)
  | pop (maxReady : ℕ+)

namespace RecvRun

open RecvWindow

/-- The window just created. -/
def start (capacity : WindowSize) (initialSeq : UInt32) : RecvRun :=
  { win := ((default : RecvWindow).init capacity.val initialSeq true).2
    advances := 0
    delivered := [] }

/-- The record of a slot handed out: its position is that many ahead of the expected one. -/
def deliveryOf (r : RecvRun) (s : RecvSlot) : ℕ × UInt8 :=
  (r.advances + (s.seqNum - r.win.expectedSeq).toNat, s.deliveryMode)

/-- The state after a call that left the window `win` and handed out `ready`. -/
def after (r : RecvRun) (win : RecvWindow) (ready : List RecvSlot) : RecvRun :=
  { win := win
    advances := r.advances + (win.expectedSeq - r.win.expectedSeq).toNat
    delivered := r.delivered ++
      (ready.filter fun s => decide (Reliable s.deliveryMode)).map r.deliveryOf }

/-- One call. -/
def exec (r : RecvRun) : RecvOp → RecvRun
  | .packet hdr payload maxReady =>
    let (_, win, ready) := r.win.onPacket hdr payload maxReady
    r.after win ready
  | .pop maxReady =>
    let (win, ready) := r.win.popReady maxReady
    r.after win ready

/-- A run of calls. -/
def run (r : RecvRun) (ops : List RecvOp) : RecvRun := ops.foldl exec r

/-- **The window is in order at position `base + advances`, and what was delivered is past.** A
delivered position that is not before the expected one is that of an unordered packet whose mark the
window still holds. -/
structure Inv (r : RecvRun) (base : ℕ) : Prop where
  rep : r.win.Rep (base + r.advances)
  once : (r.delivered.map Prod.fst).Nodup
  increasing : ((r.delivered.filter fun x =>
    x.2 = DeliveryMode.reliableOrdered.code).map Prod.fst).Pairwise (· < ·)
  past : ∀ x ∈ r.delivered, x.1 < r.advances ∨
    (x.2 ≠ DeliveryMode.reliableOrdered.code ∧ x.1 < r.advances + r.win.capacity.toNat ∧
      (r.win.cell (base + x.1)).received = true ∧
      (r.win.cell (base + x.1)).deliveryMode ≠ DeliveryMode.reliableOrdered.code)

theorem start_inv (c : WindowSize) (s : UInt32) : (start c s).Inv s.toNat := by
  rw [start, init_eq_fresh c.ring]
  exact
    { rep := fresh_rep c.ring c.small s
      once := List.nodup_nil
      increasing := List.Pairwise.nil
      past := fun x hx => nomatch hx }

section Steps

variable {r : RecvRun} {base : ℕ}

theorem Inv.deliveryOf_eq (hr : r.Inv base) {s : RecvSlot} {q : ℕ} (hs : s.seqNum = wrap q)
    (hq : base + r.advances ≤ q) (hq' : q < base + r.advances + r.win.capacity.toNat) :
    r.deliveryOf s = (q - base, s.deliveryMode) := by
  have hsm := hr.rep.small
  rw [deliveryOf, hs, hr.rep.expected, Serial.toNat_wrap_sub hq (by omega)]
  congr 1
  omega

/-- The records of the ordered slots that a drain hands out. -/
theorem Inv.map_orderedSlots (hr : r.Inv base) {w' : RecvWindow} {e' : ℕ} {out : List RecvSlot}
    (hd : Drained r.win (base + r.advances) w' e' out) :
    (out.filter fun s => decide (Reliable s.deliveryMode)).map r.deliveryOf =
      ((List.range' (base + r.advances) (e' - (base + r.advances))).filter fun q =>
        (r.win.cell q).deliveryMode = DeliveryMode.reliableOrdered.code).map fun q =>
          (q - base, DeliveryMode.reliableOrdered.code) := by
  have hrel : ∀ s ∈ out, decide (Reliable s.deliveryMode) = true := by
    intro s hs
    rw [hd.out_eq, orderedSlots] at hs
    exact decide_eq_true (Or.inl (by simpa using (List.mem_filter.1 hs).2))
  rw [List.filter_eq_self.2 hrel, hd.out_eq, orderedSlots, List.filter_map, List.map_map]
  apply List.map_congr_left
  intro q hq
  obtain ⟨hq, hmode⟩ := List.mem_filter.1 hq
  obtain ⟨h1, h2⟩ := List.mem_range'_1.1 hq
  obtain ⟨h3, h4⟩ := hd.received q h1 (by omega)
  rw [Function.comp_apply, hr.deliveryOf_eq (hr.rep.seqNum q h1 h3 h4) h1 h3]
  congr 1
  simpa using hmode

/-- **A drain keeps the invariant**: it delivers only positions that are ahead and ordered. -/
theorem Inv.drained (hr : r.Inv base) {w' : RecvWindow} {e' : ℕ} {out : List RecvSlot}
    (hd : Drained r.win (base + r.advances) w' e' out) : (r.after w' out).Inv base := by
  have hle := hd.le
  have hcap := hd.le_capacity
  have hsm := hr.rep.small
  have hadv : r.advances + (w'.expectedSeq - r.win.expectedSeq).toNat = e' - base := by
    rw [hd.rep.expected, hr.rep.expected, Serial.toNat_wrap_sub hle (by omega)]
    omega
  have hbase : base + (e' - base) = e' := by omega
  rw [after, hadv, hr.map_orderedSlots hd]
  -- the positions delivered now: ahead of the count, and ordered
  generalize hqs : (List.range' (base + r.advances) (e' - (base + r.advances))).filter (fun q =>
    (r.win.cell q).deliveryMode = DeliveryMode.reliableOrdered.code) = qs
  have hmem : ∀ q ∈ qs, base + r.advances ≤ q ∧ q < e' ∧
      (r.win.cell q).deliveryMode = DeliveryMode.reliableOrdered.code := by
    intro q hq
    rw [← hqs] at hq
    obtain ⟨hq, hmode⟩ := List.mem_filter.1 hq
    obtain ⟨h1, h2⟩ := List.mem_range'_1.1 hq
    exact ⟨h1, by omega, by simpa using hmode⟩
  have hsorted : (qs.map fun q => q - base).Pairwise (· < ·) := by
    have hlt : qs.Pairwise (· < ·) := by
      rw [← hqs]
      exact List.Pairwise.filter _ List.pairwise_lt_range'
    apply List.pairwise_map.2
    apply hlt.imp_of_mem
    intro a b ha hb hab
    have := (hmem a ha).1
    omega
  have hfst : ((qs.map fun q => (q - base, DeliveryMode.reliableOrdered.code)).map Prod.fst) =
      qs.map fun q => q - base := by
    rw [List.map_map]
    rfl
  refine ⟨by rw [hbase]; exact hd.rep, ?_, ?_, ?_⟩
  · rw [List.map_append, hfst]
    refine List.nodup_append'.2 ⟨hr.once, hsorted.imp (fun h => Nat.ne_of_lt h), ?_⟩
    intro p hp hp'
    obtain ⟨x, hx, rfl⟩ := List.mem_map.1 hp
    obtain ⟨q, hq, hqx⟩ := List.mem_map.1 hp'
    obtain ⟨h1, h2, h3⟩ := hmem q hq
    rcases hr.past x hx with hlt | ⟨-, -, -, hmode⟩
    · omega
    · have hxq : base + x.1 = q := by omega
      rw [hxq] at hmode
      exact hmode h3
  · have hall : (qs.map fun q => (q - base, DeliveryMode.reliableOrdered.code)).filter (fun x =>
        x.2 = DeliveryMode.reliableOrdered.code) =
        qs.map fun q => (q - base, DeliveryMode.reliableOrdered.code) := by
      apply List.filter_eq_self.2
      intro x hx
      obtain ⟨q, -, rfl⟩ := List.mem_map.1 hx
      simp
    rw [List.filter_append, hall, List.map_append, hfst]
    refine List.pairwise_append.2 ⟨hr.increasing, hsorted, ?_⟩
    intro p hp p' hp'
    obtain ⟨x, hx, rfl⟩ := List.mem_map.1 hp
    obtain ⟨q, hq, rfl⟩ := List.mem_map.1 hp'
    obtain ⟨hx, hmode⟩ := List.mem_filter.1 hx
    have h1 := (hmem q hq).1
    rcases hr.past x hx with hlt | ⟨hno, -⟩
    · omega
    · exact absurd (by simpa using hmode) hno
  · intro x hx
    rcases List.mem_append.1 hx with hx | hx
    · rcases hr.past x hx with hlt | ⟨hno, h1, h2, h3⟩
      · exact Or.inl (by dsimp only; omega)
      · by_cases hxe : base + x.1 < e'
        · exact Or.inl (by dsimp only; omega)
        · refine Or.inr ⟨hno, ?_, ?_⟩
          · rw [hd.cap]
            dsimp only
            omega
          · rw [hd.kept _ (by omega) (by omega)]
            exact ⟨h2, h3⟩
    · obtain ⟨q, hq, rfl⟩ := List.mem_map.1 hx
      obtain ⟨h1, h2, -⟩ := hmem q hq
      exact Or.inl (by dsimp only; omega)

/-- Storing a new packet keeps the invariant: its position has not been delivered. -/
theorem Inv.stored (hr : r.Inv base) {p : ℕ} (hp : base + r.advances ≤ p)
    (hp' : p < base + r.advances + r.win.capacity.toNat) {hdr : Header}
    (hseq : hdr.seqNum = wrap p) (hrel : Reliable hdr.deliveryMode)
    (hnew : (r.win.cell p).received = false) (payload : List UInt8) :
    Inv ⟨r.win.arrive p hdr payload, r.advances,
      r.delivered ++ (immediate hdr payload).map r.deliveryOf⟩ base := by
  have hcap : (r.win.arrive p hdr payload).capacity = r.win.capacity := rfl
  have hcell := fun q hq hq' => hr.rep.cell_arrive (q := q) hp hp' hq hq' hdr payload
  have hpbase : base + (p - base) = p := by omega
  have hfree : ∀ x ∈ r.delivered, x.1 ≠ p - base := by
    intro x hx hxp
    rcases hr.past x hx with hlt | ⟨-, -, hrec, -⟩
    · omega
    · rw [hxp, hpbase, hnew] at hrec
      exact Bool.noConfusion hrec
  -- what was delivered before keeps its mark
  have hpast : ∀ x ∈ r.delivered, x.1 < r.advances ∨
      (x.2 ≠ DeliveryMode.reliableOrdered.code ∧ x.1 < r.advances + r.win.capacity.toNat ∧
        ((r.win.arrive p hdr payload).cell (base + x.1)).received = true ∧
        ((r.win.arrive p hdr payload).cell (base + x.1)).deliveryMode ≠
          DeliveryMode.reliableOrdered.code) := by
    intro x hx
    by_cases hlt : x.1 < r.advances
    · exact Or.inl hlt
    · have hback := (hr.past x hx).resolve_left hlt
      have hne := hfree x hx
      rw [hcell (base + x.1) (by omega) (by omega), if_neg (by omega)]
      exact Or.inr hback
  by_cases hu : hdr.deliveryMode = DeliveryMode.reliableUnordered.code
  · have himm : (immediate hdr payload).map r.deliveryOf = [(p - base, hdr.deliveryMode)] := by
      rw [immediate, if_pos hu, List.map_singleton, hr.deliveryOf_eq hseq hp hp']
      rfl
    have hno : hdr.deliveryMode ≠ DeliveryMode.reliableOrdered.code := by rw [hu]; decide
    rw [himm]
    refine ⟨hr.rep.arrive_rep hp hp' hseq hrel payload, ?_, ?_, ?_⟩
    · rw [List.map_append]
      refine List.nodup_append'.2 ⟨hr.once, List.nodup_singleton _, ?_⟩
      intro q hq hq'
      obtain ⟨x, hx, rfl⟩ := List.mem_map.1 hq
      exact hfree x hx (List.mem_singleton.1 hq')
    · rw [List.filter_append]
      have hnone : [(p - base, hdr.deliveryMode)].filter (fun x =>
          x.2 = DeliveryMode.reliableOrdered.code) = [] := by simp [hno]
      rw [hnone, List.append_nil]
      exact hr.increasing
    · intro x hx
      rcases List.mem_append.1 hx with hx | hx
      · exact hpast x hx
      · rw [List.mem_singleton.1 hx]
        refine Or.inr ⟨hno, by dsimp only; rw [hcap]; omega, ?_⟩
        dsimp only
        rw [hpbase, hcell p hp hp', if_pos rfl]
        exact ⟨rfl, hno⟩
  · have himm : immediate hdr payload = [] := if_neg hu
    rw [himm, List.map_nil, List.append_nil]
    exact ⟨hr.rep.arrive_rep hp hp' hseq hrel payload, hr.once, hr.increasing, hpast⟩

theorem Inv.mark (hr : r.Inv base) (highest : UInt32) (has : Bool) {imm : List RecvSlot}
    (himm : ∀ s ∈ imm, ¬ Reliable s.deliveryMode) :
    (r.after (r.win.mark highest has) imm).Inv base := by
  have hnone : (imm.filter fun s => decide (Reliable s.deliveryMode)) = [] :=
    List.filter_eq_nil_iff.2 fun s hs => by simpa using himm s hs
  have hself : ((r.win.mark highest has).expectedSeq - r.win.expectedSeq).toNat = 0 := by
    show (r.win.expectedSeq - r.win.expectedSeq).toNat = 0
    simp
  rw [after, hnone, hself, List.map_nil, List.append_nil, Nat.add_zero]
  have hrep := hr.rep
  exact ⟨⟨hrep.ring, hrep.small, hrep.len, hrep.expected, hrep.seqNum, hrep.reliable⟩, hr.once,
    hr.increasing, hr.past⟩

/-- **Every call keeps the invariant.** -/
theorem Inv.exec (hr : r.Inv base) (op : RecvOp) : (r.exec op).Inv base := by
  cases op with
  | pop maxReady =>
    obtain ⟨w', e', out, hrun, hd⟩ := popReady_drained hr.rep maxReady
    rw [RecvRun.exec, hrun]
    exact hr.drained hd
  | packet hdr payload maxReady =>
    rw [RecvRun.exec]
    by_cases hrel : Reliable hdr.deliveryMode
    · rcases hr.rep.onPacket_cases hrel payload maxReady.pos with
        ⟨code, -, hrun, -⟩ | ⟨p, w', e', out, hp, hp', hseq, hnew, hd, hrun⟩
      · rw [hrun]
        exact hr.drained (Drained.refl hr.rep)
      · rw [hrun]
        -- the packet is stored, then the window drained
        have hstored := hr.stored hp hp' hseq hrel hnew payload
        have hafter := hstored.drained hd
        have himm : ((immediate hdr payload).filter fun s => decide (Reliable s.deliveryMode)) =
            immediate hdr payload := by
          apply List.filter_eq_self.2
          intro s hs
          unfold immediate at hs
          split at hs
          · rw [List.mem_singleton.1 hs]
            exact decide_eq_true hrel
          · exact absurd hs List.not_mem_nil
        have heq : r.after w' (immediate hdr payload ++ out) =
            RecvRun.after ⟨r.win.arrive p hdr payload, r.advances,
              r.delivered ++ (immediate hdr payload).map r.deliveryOf⟩ w' out := by
          simp only [after, List.filter_append, himm, List.map_append, List.append_assoc]
          rfl
        dsimp only
        rw [heq]
        exact hafter
    · obtain ⟨f, harr, hf⟩ := arrival_onPacket r.win hdr payload
      rw [hf _ maxReady.ne_zero]
      cases harr with
      | refused code hcode => exact hr.drained (Drained.refl hr.rep)
      | unreliable highest has _ =>
        apply hr.mark highest has
        intro s hs
        rw [List.mem_singleton.1 hs]
        exact hrel
      | unordered hmode _ => exact absurd (Or.inr hmode) hrel
      | ordered hmode _ => exact absurd (Or.inl hmode) hrel

end Steps

theorem inv_run {base : ℕ} (ops : List RecvOp) :
    ∀ {r : RecvRun}, r.Inv base → (r.run ops).Inv base := by
  induction ops with
  | nil => exact id
  | cons op ops ih => exact fun hr => ih (hr.exec op)

/-! ### The invariant in the terms of the code -/

/-- **What holds of a receive window at all times.** -/
structure Consistent (r : RecvRun) : Prop where
  /-- A received slot is the one of its number, which is ahead by less than the capacity. -/
  inPlace : ∀ i < r.win.slots.length, (r.win.slot i).received = true →
    i = (r.win.slot i).seqNum.toNat % r.win.capacity.toNat ∧
      ((r.win.slot i).seqNum - r.win.expectedSeq).toNat < r.win.capacity.toNat
  /-- No call overwrites a received slot: it stays as it is or is cleared. -/
  keeps : ∀ (op : RecvOp) (i : ℕ), (r.win.slot i).received = true →
    (r.exec op).win.slot i = r.win.slot i ∨ (r.exec op).win.slot i = (r.win.slot i).clear
  /-- A refused packet leaves the window as it is. -/
  refuses : ∀ (hdr : Header) (payload : List UInt8) (maxReady : ℕ),
    (r.win.onPacket hdr payload maxReady).1 ≠ 0 →
      (r.win.onPacket hdr payload maxReady).2.1 = r.win
  /-- The loop of the unordered branch ends after at most `capacity` advances. -/
  ends : ∀ (hdr : Header) (payload : List UInt8) (maxReady : ℕ),
    hdr.deliveryMode = DeliveryMode.reliableUnordered.code →
    (r.win.onPacket hdr payload maxReady).1 = 0 →
      ∃ k ≤ r.win.capacity.toNat, SkipEnds maxReady k (r.win.storePacket hdr payload)
        [readySlot hdr payload] (r.win.onPacket hdr payload maxReady).2
  /-- A position is delivered at most once, and ordered ones in increasing order. -/
  once : (r.delivered.map Prod.fst).Nodup
  increasing : ((r.delivered.filter fun x =>
    x.2 = DeliveryMode.reliableOrdered.code).map Prod.fst).Pairwise (· < ·)

theorem Inv.consistent {r : RecvRun} {base : ℕ} (hr : r.Inv base) : r.Consistent := by
  have hw := hr.rep
  refine ⟨?_, ?_, ?_, ?_, hr.once, hr.increasing⟩
  · intro i hi hrec
    obtain ⟨q, hq, hq', hmod⟩ := Ring.exists_pos_of_lt (base + r.advances) hi
    rw [hw.len] at hq'
    have hcell : r.win.slot i = r.win.cell q := by rw [← slot_mod, ← hmod]
    rw [hcell] at hrec ⊢
    have hsm := hw.small
    rw [hw.seqNum q hq hq' hrec, hw.expected, Serial.toNat_wrap_sub hq (by omega),
      Serial.wrap_toNat]
    obtain ⟨k, -, hk⟩ := hw.ring
    refine ⟨?_, by omega⟩
    rw [← hmod, hw.len, hk, Nat.mod_mod_of_dvd]
    apply Nat.pow_dvd_pow
    by_contra hgt
    have : 2 ^ 32 ≤ 2 ^ k := Nat.pow_le_pow_right (by decide) (by omega)
    omega
  · intro op i hi
    cases op with
    | packet hdr payload maxReady => exact hw.onPacket_keeps hdr payload maxReady.ne_zero hi
    | pop maxReady => exact released_popLoop _ _ _ _ i
  · intro hdr payload maxReady h
    rw [onPacket_of_ne_zero h]
  · intro hdr payload maxReady hmode hok
    exact hw.skipEnds_onPacket hmode payload hok

/-- **The receive window is consistent in every run**, whatever the packets. -/
theorem recv_consistent_run (c : WindowSize) (s : UInt32) (ops : List RecvOp) :
    ((start c s).run ops).Consistent :=
  (inv_run ops (start_inv c s)).consistent

end RecvRun

end Rel4u
