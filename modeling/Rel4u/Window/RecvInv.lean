import Rel4u.Lib.Ring
import Rel4u.Window.SendInv
import Rel4u.Window.Recv

/-!
# The receive window as a range of positions

`Rep w e` says that the receive window `w` expects position `e`: a slot marked received belongs to
a position of `e, …, e + capacity - 1`, under the sequence number of that position and with a
reliable mode.

Everything that moves `expectedSeq` is an instance of one relation, `Drained w e w' e' out`: from
`w` at `e` the window has passed the received positions `e, …, e' - 1`, handing out the ordered
ones among them, in order. It composes (`Drained.trans`), both loops of the source are instances
of it (`popLoop_drained`, `skipLoop_drained`), and `onPacket_cases` says what a reliable packet
with arbitrary header fields does: nothing, or one slot is stored and the window drained.
-/

namespace Rel4u

open Serial (wrap IsRingSize)

namespace RecvWindow

/-- The slot of a position. -/
def cell (w : RecvWindow) (p : ℕ) : RecvSlot := Ring.cell w.slots p

/-- **The receive window expects position `e`.** -/
structure Rep (w : RecvWindow) (e : ℕ) : Prop where
  ring : IsRingSize w.capacity
  small : w.capacity.toNat ≤ 2 ^ 30
  len : w.slots.length = w.capacity.toNat
  expected : w.expectedSeq = wrap e
  seqNum : ∀ p, e ≤ p → p < e + w.capacity.toNat → (w.cell p).received = true →
    (w.cell p).seqNum = wrap p
  reliable : ∀ p, e ≤ p → p < e + w.capacity.toNat → (w.cell p).received = true →
    Reliable (w.cell p).deliveryMode

/-- Position `p` is before the expected one or is held in the window. -/
def Accepted (w : RecvWindow) (e p : ℕ) : Prop :=
  p < e ∨ (p < e + w.capacity.toNat ∧ (w.cell p).received = true)

section Cells

variable {w : RecvWindow} {e : ℕ}

theorem Rep.len_pos (hw : w.Rep e) : 0 < w.slots.length := hw.len ▸ hw.ring.pos

theorem Rep.slotIdx (hw : w.Rep e) (p : ℕ) : w.slotIdx (wrap p) = p % w.slots.length := by
  rw [RecvWindow.slotIdx, Serial.wrap_and_mask hw.ring, hw.len]

theorem slot_mod (w : RecvWindow) (p : ℕ) : w.slot (p % w.slots.length) = w.cell p := rfl

theorem cell_add_length (w : RecvWindow) (p : ℕ) : w.cell (p + w.slots.length) = w.cell p := by
  simp [cell, Ring.cell]

@[simp] theorem setSlot_slots_length (w : RecvWindow) (i : ℕ) (s : RecvSlot) :
    (w.setSlot i s).slots.length = w.slots.length := by simp [setSlot]

@[simp] theorem setSlot_capacity (w : RecvWindow) (i : ℕ) (s : RecvSlot) :
    (w.setSlot i s).capacity = w.capacity := rfl

theorem cell_setSlot_self (hl : 0 < w.slots.length) (p : ℕ) (s : RecvSlot) :
    (w.setSlot (p % w.slots.length) s).cell p = s :=
  Ring.cell_put_self hl p s

theorem cell_setSlot_of_ne {p q : ℕ} (s : RecvSlot) (hpq : p ≠ q) (h1 : p < q + w.slots.length)
    (h2 : q < p + w.slots.length) : (w.setSlot (p % w.slots.length) s).cell q = w.cell q :=
  Ring.cell_put_of_window s hpq h1 h2

theorem Rep.expSlot_eq (hw : w.Rep e) : w.expSlot = w.cell e := by
  rw [expSlot, hw.expected, hw.slotIdx, slot_mod]

theorem Rep.expReady_iff (hw : w.Rep e) : w.expReady = true ↔ (w.cell e).received = true := by
  have hpos := hw.ring.pos
  simp only [expReady, hw.expSlot_eq, Bool.and_eq_true, decide_eq_true_eq, hw.expected]
  exact ⟨fun h => h.1, fun h => ⟨h, hw.seqNum e le_rfl (by omega) h⟩⟩

end Cells

/-! ### Creation and reset -/

/-- The zeroed window at a sequence number. -/
def fresh (capacity initialSeq : UInt32) : RecvWindow :=
  { slots := List.replicate capacity.toNat default
    capacity := capacity
    expectedSeq := initialSeq
    highestUnrelSeq := 0
    hasHighestUnrel := false }

theorem init_eq_fresh {c : UInt32} (hc : IsRingSize c) (w : RecvWindow) (s : UInt32) :
    w.init c s true = (0, fresh c s) := by
  simp [init, SendWindow.badCapacity_eq_false hc, fresh]

/-- What a successful `rel4u_recv_window_init` leaves. -/
theorem init_ok {w : RecvWindow} {c s : UInt32} {calloc : Bool} (h : (w.init c s calloc).1 = 0) :
    (w.init c s calloc).2 = fresh c s := by
  unfold init at h ⊢
  split_ifs at h ⊢
  · exact absurd h (by simp)
  · exact absurd h (by simp)
  · rfl

theorem cell_fresh (c s : UInt32) (p : ℕ) : (fresh c s).cell p = default :=
  Ring.cell_replicate _ _

theorem fresh_rep {c : UInt32} (hc : IsRingSize c) (hs : c.toNat ≤ 2 ^ 30) (s : UInt32) :
    (fresh c s).Rep s.toNat where
  ring := hc
  small := hs
  len := by simp [fresh]
  expected := by simp [fresh]
  seqNum := by intro p _ _ hr; rw [cell_fresh] at hr; exact Bool.noConfusion hr
  reliable := by intro p _ _ hr; rw [cell_fresh] at hr; exact Bool.noConfusion hr

/-- `reset` gives the zeroed window again. -/
theorem Rep.reset_eq {w : RecvWindow} {e : ℕ} (hw : w.Rep e) (s : UInt32) :
    w.reset s = (0, fresh w.capacity s) := by
  have hne : w.slots ≠ [] := List.ne_nil_of_length_pos hw.len_pos
  simp [reset, hne, hw.ring.ne_zero, fresh]

/-! ### Advancing -/

/-- The slots of the ordered positions of `e, …, e' - 1`. -/
def orderedSlots (w : RecvWindow) (e e' : ℕ) : List RecvSlot :=
  ((List.range' e (e' - e)).map w.cell).filter
    fun s => s.deliveryMode = DeliveryMode.reliableOrdered.code

/-- **The window has passed the received positions `e, …, e' - 1` and handed out `out`.** -/
structure Drained (w : RecvWindow) (e : ℕ) (w' : RecvWindow) (e' : ℕ) (out : List RecvSlot) :
    Prop where
  rep : w'.Rep e'
  le : e ≤ e'
  cap : w'.capacity = w.capacity
  received : ∀ p, e ≤ p → p < e' → p < e + w.capacity.toNat ∧ (w.cell p).received = true
  kept : ∀ q, e' ≤ q → q < e + w.capacity.toNat → w'.cell q = w.cell q
  cleared : ∀ q, e + w.capacity.toNat ≤ q → q < e' + w.capacity.toNat →
    (w'.cell q).received = false
  out_eq : out = w.orderedSlots e e'
  highest : w'.highestUnrelSeq = w.highestUnrelSeq
  hasHighest : w'.hasHighestUnrel = w.hasHighestUnrel

theorem Drained.refl {w : RecvWindow} {e : ℕ} (hw : w.Rep e) : Drained w e w e [] where
  rep := hw
  le := le_rfl
  cap := rfl
  received := by intro p h1 h2; omega
  kept := fun _ _ _ => rfl
  cleared := by intro q h1 h2; omega
  out_eq := by simp [orderedSlots]
  highest := rfl
  hasHighest := rfl

section Drained

variable {w w₁ w₂ : RecvWindow} {e e₁ e₂ : ℕ} {out out₁ out₂ : List RecvSlot}

theorem Drained.le_capacity (hd : Drained w e w₁ e₁ out) : e₁ ≤ e + w.capacity.toNat := by
  by_contra hlt
  have := hd.rep.ring.pos
  rw [hd.cap] at this
  have := (hd.received (e₁ - 1) (by have := hd.le; omega) (by omega)).1
  omega

theorem orderedSlots_congr (hc : ∀ p, e ≤ p → p < e₁ → w.cell p = w₁.cell p) :
    w.orderedSlots e e₁ = w₁.orderedSlots e e₁ := by
  unfold orderedSlots
  congr 1
  refine List.map_congr_left fun p hp => ?_
  rw [List.mem_range'_1] at hp
  exact hc p hp.1 (by omega)

theorem orderedSlots_append (w : RecvWindow) (h₁ : e ≤ e₁) (h₂ : e₁ ≤ e₂) :
    w.orderedSlots e e₂ = w.orderedSlots e e₁ ++ w.orderedSlots e₁ e₂ := by
  unfold orderedSlots
  have hr : List.range' e (e₁ - e) ++ List.range' (e + 1 * (e₁ - e)) (e₂ - e₁) =
      List.range' e (e₁ - e + (e₂ - e₁)) := List.range'_append
  rw [show e + 1 * (e₁ - e) = e₁ by omega, show e₁ - e + (e₂ - e₁) = e₂ - e by omega] at hr
  rw [← hr, List.map_append, List.filter_append]

/-- Draining composes. -/
theorem Drained.trans (h₁ : Drained w e w₁ e₁ out₁) (h₂ : Drained w₁ e₁ w₂ e₂ out₂) :
    Drained w e w₂ e₂ (out₁ ++ out₂) := by
  have hle₁ := h₁.le
  have hle₂ := h₂.le
  have hc₁ := h₁.le_capacity
  -- a position passed by the second drain was still the original's own
  have hold : ∀ p, e₁ ≤ p → p < e₂ → p < e + w.capacity.toNat := by
    intro p h1 h2
    obtain ⟨h3, h4⟩ := h₂.received p h1 h2
    rw [h₁.cap] at h3
    by_contra hge
    rw [h₁.cleared p (by omega) h3] at h4
    exact Bool.noConfusion h4
  refine
    { rep := h₂.rep
      le := hle₁.trans hle₂
      cap := h₂.cap.trans h₁.cap
      received := ?_
      kept := ?_
      cleared := ?_
      out_eq := ?_
      highest := h₂.highest.trans h₁.highest
      hasHighest := h₂.hasHighest.trans h₁.hasHighest }
  · intro p h1 h2
    by_cases hp : p < e₁
    · exact h₁.received p h1 hp
    · have hin := hold p (by omega) h2
      refine ⟨hin, ?_⟩
      rw [← h₁.kept p (by omega) hin]
      exact (h₂.received p (by omega) h2).2
  · intro q h1 h2
    rw [h₂.kept q h1 (by rw [h₁.cap]; omega), h₁.kept q (by omega) h2]
  · intro q h1 h2
    by_cases hq : q < e₁ + w.capacity.toNat
    · have hq₂ : e₂ ≤ q := by
        by_contra hlt
        have := hold q (by omega) (by omega)
        omega
      rw [h₂.kept q hq₂ (by rw [h₁.cap]; exact hq)]
      exact h₁.cleared q h1 hq
    · exact h₂.cleared q (by rw [h₁.cap]; omega) (by rw [h₁.cap]; exact h2)
  · rw [orderedSlots_append w hle₁ hle₂, ← h₁.out_eq, h₂.out_eq]
    congr 1
    exact (orderedSlots_congr fun p h1 h2 => (h₁.kept p h1 (hold p h1 h2)).symm).symm

end Drained

/-- **One turn of a draining loop.** -/
theorem Rep.advance_drained {w : RecvWindow} {e : ℕ} (hw : w.Rep e)
    (hr : (w.cell e).received = true) :
    Drained w e w.advance (e + 1) (w.orderedSlots e (e + 1)) := by
  have hl := hw.len_pos
  have hlen := hw.len
  have hpos := hw.ring.pos
  have hi : w.slotIdx w.expectedSeq = e % w.slots.length := by rw [hw.expected, hw.slotIdx]
  have hadv : w.advance =
      { w.setSlot (e % w.slots.length) (w.cell e).clear with
        expectedSeq := w.expectedSeq + 1 } := by
    simp only [advance, hi, hw.expSlot_eq]
    rfl
  have hself : w.advance.cell e = (w.cell e).clear := by
    rw [hadv]; exact cell_setSlot_self hl e _
  have hother : ∀ q, e < q → q < e + w.capacity.toNat → w.advance.cell q = w.cell q := by
    intro q h1 h2
    rw [hadv]
    exact cell_setSlot_of_ne _ (by omega) (by omega) (by omega)
  have hcap : w.advance.capacity = w.capacity := by rw [hadv]; rfl
  have hlen' : w.advance.slots.length = w.slots.length := by rw [hadv]; simp
  -- the cell just freed is now that of the last position of the window
  have hlast : (w.advance.cell (e + w.capacity.toNat)).received = false := by
    have := cell_add_length w.advance e
    rw [hlen', hlen] at this
    rw [this, hself]
    rfl
  have hheld : ∀ p, e + 1 ≤ p → p < e + 1 + w.advance.capacity.toNat →
      (w.advance.cell p).received = true →
      p < e + w.capacity.toNat ∧ w.advance.cell p = w.cell p := by
    intro p h1 h2 h3
    rw [hcap] at h2
    by_cases hp : p = e + w.capacity.toNat
    · rw [hp, hlast] at h3
      exact Bool.noConfusion h3
    · exact ⟨by omega, hother p h1 (by omega)⟩
  refine
    { rep :=
        { ring := by rw [hcap]; exact hw.ring
          small := by rw [hcap]; exact hw.small
          len := by rw [hlen', hcap]; exact hlen
          expected := by rw [hadv]; show w.expectedSeq + 1 = _; rw [hw.expected, Serial.wrap_succ]
          seqNum := ?_
          reliable := ?_ }
      le := by omega
      cap := hcap
      received := ?_
      kept := fun q h1 h2 => hother q h1 h2
      cleared := ?_
      out_eq := rfl
      highest := by rw [hadv]; rfl
      hasHighest := by rw [hadv]; rfl }
  · intro p h1 h2 h3
    obtain ⟨hp, hcell⟩ := hheld p h1 h2 h3
    rw [hcell] at h3 ⊢
    exact hw.seqNum p (by omega) hp h3
  · intro p h1 h2 h3
    obtain ⟨hp, hcell⟩ := hheld p h1 h2 h3
    rw [hcell] at h3 ⊢
    exact hw.reliable p (by omega) hp h3
  · intro p h1 h2
    have hpe : p = e := by omega
    rw [hpe]
    exact ⟨by omega, hr⟩
  · intro q h1 h2
    have hq : q = e + w.capacity.toNat := by omega
    rw [hq]
    exact hlast

theorem orderedSlots_one (w : RecvWindow) (e : ℕ) :
    w.orderedSlots e (e + 1) =
      if (w.cell e).deliveryMode = DeliveryMode.reliableOrdered.code then [w.cell e] else [] := by
  unfold orderedSlots
  rw [show e + 1 - e = 1 by omega]
  by_cases h : (w.cell e).deliveryMode = DeliveryMode.reliableOrdered.code <;> simp [h]

/-- **The loop of `pop_ready` drains the window.** -/
theorem popLoop_drained (maxReady : ℕ) (fuel : ℕ) :
    ∀ {w : RecvWindow} {e : ℕ} (ready : List RecvSlot), w.Rep e →
      ∃ w' e' out, popLoop maxReady fuel w ready = (w', ready ++ out) ∧ Drained w e w' e' out := by
  induction fuel with
  | zero => intro w e ready hw; exact ⟨w, e, [], by simp [popLoop], Drained.refl hw⟩
  | succ fuel ih =>
    intro w e ready hw
    by_cases hm : ready.length < maxReady
    · by_cases hr : w.expReady = true
      · have hd := hw.advance_drained (hw.expReady_iff.1 hr)
        obtain ⟨w', e', out, hrun, hd'⟩ := ih (ready ++ w.orderedSlots e (e + 1)) hd.rep
        refine ⟨w', e', w.orderedSlots e (e + 1) ++ out, ?_, hd.trans hd'⟩
        rw [← List.append_assoc, ← hrun, popLoop, if_pos hm, if_pos hr, hw.expSlot_eq,
          orderedSlots_one]
        split_ifs <;> simp
      · exact ⟨w, e, [], by rw [popLoop, if_pos hm, if_neg hr]; simp, Drained.refl hw⟩
    · exact ⟨w, e, [], by rw [popLoop, if_neg hm]; simp, Drained.refl hw⟩

/-- **The loop of the unordered branch drains the window.** -/
theorem skipLoop_drained (maxReady : ℕ) (fuel : ℕ) :
    ∀ {w : RecvWindow} {e : ℕ} (ready : List RecvSlot), w.Rep e →
      ∃ w' e' out, skipLoop maxReady fuel w ready = (w', ready ++ out) ∧ Drained w e w' e' out := by
  induction fuel with
  | zero => intro w e ready hw; exact ⟨w, e, [], by simp [skipLoop], Drained.refl hw⟩
  | succ fuel ih =>
    intro w e ready hw
    have hne : DeliveryMode.reliableUnordered.code ≠ DeliveryMode.reliableOrdered.code := by decide
    by_cases hr : w.expReady = true
    · have hd := hw.advance_drained (hw.expReady_iff.1 hr)
      by_cases hu : (w.cell e).deliveryMode = DeliveryMode.reliableUnordered.code
      · obtain ⟨w', e', out, hrun, hd'⟩ := ih ready hd.rep
        have hnil : w.orderedSlots e (e + 1) = [] := by
          rw [orderedSlots_one, hu, if_neg hne]
        rw [hnil] at hd
        refine ⟨w', e', out, ?_, hd.trans hd'⟩
        rw [skipLoop, if_pos hr, hw.expSlot_eq, if_pos hu, hrun]
      · by_cases ho : (w.cell e).deliveryMode = DeliveryMode.reliableOrdered.code
        · by_cases hm : ready.length < maxReady
          · obtain ⟨w', e', out, hrun, hd'⟩ := ih (ready ++ w.orderedSlots e (e + 1)) hd.rep
            refine ⟨w', e', w.orderedSlots e (e + 1) ++ out, ?_, hd.trans hd'⟩
            rw [← List.append_assoc, ← hrun, skipLoop, if_pos hr, hw.expSlot_eq, if_neg hu,
              if_pos ho, if_pos hm, orderedSlots_one, if_pos ho]
          · refine ⟨w, e, [], ?_, Drained.refl hw⟩
            rw [skipLoop, if_pos hr, hw.expSlot_eq, if_neg hu, if_pos ho, if_neg hm]
            simp
        · refine ⟨w, e, [], ?_, Drained.refl hw⟩
          rw [skipLoop, if_pos hr, hw.expSlot_eq, if_neg hu, if_neg ho]
          simp
    · exact ⟨w, e, [], by rw [skipLoop, if_neg hr]; simp, Drained.refl hw⟩

theorem popReady_drained {w : RecvWindow} {e : ℕ} (hw : w.Rep e) (maxReady : ℕ) :
    ∃ w' e' out, w.popReady maxReady = (w', out) ∧ Drained w e w' e' out := by
  obtain ⟨w', e', out, hrun, hd⟩ := popLoop_drained maxReady w.slots.length [] hw
  exact ⟨w', e', out, by rw [popReady, hrun]; simp, hd⟩

/-! ### Accepted positions -/

instance (w : RecvWindow) (e p : ℕ) : Decidable (w.Accepted e p) :=
  inferInstanceAs (Decidable (_ ∨ _))

/-- Draining accepts nothing and forgets nothing. -/
theorem Drained.accepted_iff {w w' : RecvWindow} {e e' : ℕ} {out : List RecvSlot}
    (hd : Drained w e w' e' out) (p : ℕ) : w'.Accepted e' p ↔ w.Accepted e p := by
  have hle := hd.le
  unfold Accepted
  rw [hd.cap]
  constructor
  · rintro (h | ⟨h1, h2⟩)
    · by_cases hp : p < e
      · exact Or.inl hp
      · exact Or.inr (hd.received p (by omega) h)
    · by_cases hp' : p < e'
      · by_cases hp : p < e
        · exact Or.inl hp
        · exact Or.inr (hd.received p (by omega) hp')
      · have hin : p < e + w.capacity.toNat := by
          by_contra hge
          rw [hd.cleared p (by omega) h1] at h2
          exact Bool.noConfusion h2
        exact Or.inr ⟨hin, by rw [← hd.kept p (by omega) hin]; exact h2⟩
  · rintro (h | ⟨h1, h2⟩)
    · exact Or.inl (by omega)
    · by_cases hp : p < e'
      · exact Or.inl hp
      · exact Or.inr ⟨by omega, by rw [hd.kept p (by omega) h1]; exact h2⟩

/-! ### Packets -/

/-- The slot of a packet that has arrived: only an ordered packet leaves its payload there. -/
def arrivedSlot (hdr : Header) (payload : List UInt8) (old : RecvSlot) : RecvSlot :=
  { seqNum := hdr.seqNum
    payloadLen := hdr.payloadLen
    deliveryMode := hdr.deliveryMode
    received := true
    payload :=
      if hdr.deliveryMode = DeliveryMode.reliableOrdered.code ∧ hdr.payloadLen > 0 then
        payload.take hdr.payloadLen.toNat
      else old.payload }

/-- What is handed out at once: an unordered packet itself. -/
def immediate (hdr : Header) (payload : List UInt8) : List RecvSlot :=
  if hdr.deliveryMode = DeliveryMode.reliableUnordered.code then [readySlot hdr payload] else []

/-- The window with other marks for unreliable ordered packets. -/
def mark (w : RecvWindow) (highest : UInt32) (has : Bool) : RecvWindow :=
  { w with highestUnrelSeq := highest, hasHighestUnrel := has }

/-- The window with a packet written to the slot of its number. -/
def storePacket (w : RecvWindow) (hdr : Header) (payload : List UInt8) : RecvWindow :=
  w.setSlot (w.slotIdx hdr.seqNum) (arrivedSlot hdr payload (w.slot (w.slotIdx hdr.seqNum)))

/-- The packet's number is in the range of the window and its slot does not hold it yet. -/
def IsNew (w : RecvWindow) (hdr : Header) : Prop :=
  (¬ seqLt hdr.seqNum w.expectedSeq = true ∧
    ¬ seqDiff hdr.seqNum w.expectedSeq ≥ w.capacity.toInt32.toInt) ∧
  ¬ ((w.slot (w.slotIdx hdr.seqNum)).received &&
    decide ((w.slot (w.slotIdx hdr.seqNum)).seqNum = hdr.seqNum)) = true

/-- **The four outcomes of `onPacket`**, as functions of the length of the scratch array: the packet
is refused; it is unreliable and handed out; it is new, is stored, and the loop of its mode runs. -/
inductive Arrival (w : RecvWindow) (hdr : Header) (payload : List UInt8) :
    (ℕ → ℤ × RecvWindow × List RecvSlot) → Prop
  | refused (code : ℤ) (hcode : code ≠ 0) : Arrival w hdr payload fun _ => (code, w, [])
  | unreliable (highest : UInt32) (has : Bool) (hmode : ¬ Reliable hdr.deliveryMode) :
      Arrival w hdr payload fun _ => (0, w.mark highest has, [readySlot hdr payload])
  | unordered (hmode : hdr.deliveryMode = DeliveryMode.reliableUnordered.code)
      (hnew : w.IsNew hdr) :
      Arrival w hdr payload fun maxReady =>
        (0, skipLoop maxReady w.slots.length (w.storePacket hdr payload) [readySlot hdr payload])
  | ordered (hmode : hdr.deliveryMode = DeliveryMode.reliableOrdered.code)
      (hnew : w.IsNew hdr) :
      Arrival w hdr payload fun maxReady => (0, (w.storePacket hdr payload).popReady maxReady)

@[simp] theorem onPacket_zero (w : RecvWindow) (hdr : Header) (payload : List UInt8) :
    w.onPacket hdr payload 0 = (-1, w, []) := rfl

theorem arrival_onPacket (w : RecvWindow) (hdr : Header) (payload : List UInt8) :
    ∃ f, Arrival w hdr payload f ∧ ∀ m, m ≠ 0 → w.onPacket hdr payload m = f m := by
  by_cases h0 : hdr.deliveryMode = DeliveryMode.unreliableUnordered.code
  · refine ⟨_, .unreliable w.highestUnrelSeq w.hasHighestUnrel (by rw [h0]; decide), ?_⟩
    intro m hm
    rw [onPacket, if_neg hm, if_pos h0]
    rfl
  by_cases h1 : hdr.deliveryMode = DeliveryMode.unreliableOrdered.code
  · by_cases hgt : (!w.hasHighestUnrel || seqGt hdr.seqNum w.highestUnrelSeq) = true
    · refine ⟨_, .unreliable hdr.seqNum true (by rw [h1]; decide), ?_⟩
      intro m hm
      rw [onPacket, if_neg hm, if_neg h0, if_pos h1, if_pos hgt]
      rfl
    · refine ⟨_, .refused 1 (by decide), ?_⟩
      intro m hm
      rw [onPacket, if_neg hm, if_neg h0, if_pos h1, if_neg hgt]
  -- the two reliable modes make the same three tests
  by_cases hlt : seqLt hdr.seqNum w.expectedSeq = true
  · refine ⟨_, .refused (if Reliable hdr.deliveryMode then 1 else -1) (by split <;> decide), ?_⟩
    intro m hm
    rw [onPacket, if_neg hm, if_neg h0, if_neg h1, if_pos hlt, if_pos hlt]
    unfold Reliable
    split_ifs <;> simp_all
  by_cases hge : seqDiff hdr.seqNum w.expectedSeq ≥ w.capacity.toInt32.toInt
  · refine ⟨_, .refused (if Reliable hdr.deliveryMode then -2 else -1) (by split <;> decide), ?_⟩
    intro m hm
    rw [onPacket, if_neg hm, if_neg h0, if_neg h1, if_neg hlt, if_neg hlt, if_pos hge, if_pos hge]
    unfold Reliable
    split_ifs <;> simp_all
  by_cases hdup : ((w.slot (w.slotIdx hdr.seqNum)).received &&
      decide ((w.slot (w.slotIdx hdr.seqNum)).seqNum = hdr.seqNum)) = true
  · refine ⟨_, .refused (if Reliable hdr.deliveryMode then 1 else -1) (by split <;> decide), ?_⟩
    intro m hm
    rw [onPacket, if_neg hm, if_neg h0, if_neg h1, if_neg hlt, if_neg hlt, if_neg hge, if_neg hge]
    simp only [if_pos hdup]
    unfold Reliable
    split_ifs <;> simp_all
  have hnew : w.IsNew hdr := ⟨⟨hlt, hge⟩, hdup⟩
  by_cases h2 : hdr.deliveryMode = DeliveryMode.reliableUnordered.code
  · refine ⟨_, .unordered h2 hnew, ?_⟩
    intro m hm
    have hne : DeliveryMode.reliableUnordered.code ≠ DeliveryMode.reliableOrdered.code := by decide
    rw [onPacket, if_neg hm, if_neg h0, if_neg h1, if_pos h2, if_neg hlt, if_neg hge]
    simp only [if_neg hdup, storePacket, arrivedSlot, h2, hne, false_and, if_false, setSlot,
      List.length_set]
  by_cases h3 : hdr.deliveryMode = DeliveryMode.reliableOrdered.code
  · refine ⟨_, .ordered h3 hnew, ?_⟩
    intro m hm
    rw [onPacket, if_neg hm, if_neg h0, if_neg h1, if_neg h2, if_pos h3, if_neg hlt, if_neg hge]
    simp only [if_neg hdup, storePacket, arrivedSlot, h3, true_and]
  · refine ⟨_, .refused (-1) (by decide), ?_⟩
    intro m hm
    rw [onPacket, if_neg hm, if_neg h0, if_neg h1, if_neg h2, if_neg h3]

/-- An unreliable packet at most moves the marks. -/
theorem onPacket_unreliable (w : RecvWindow) {hdr : Header} (hrel : ¬ Reliable hdr.deliveryMode)
    (payload : List UInt8) {maxReady : ℕ} (hmax : 0 < maxReady) :
    ∃ code highest has imm,
      w.onPacket hdr payload maxReady = (code, w.mark highest has, imm) ∧
      (code = 0 ∨ code = 1 ∨ code = -1) ∧ (code ≠ 0 → imm = []) ∧
      ∀ s ∈ imm, ¬ Reliable s.deliveryMode ∧ s.payloadLen = hdr.payloadLen := by
  have hready : ∀ s ∈ [readySlot hdr payload],
      ¬ Reliable s.deliveryMode ∧ s.payloadLen = hdr.payloadLen := by
    intro s hs
    rw [List.mem_singleton.1 hs]
    exact ⟨hrel, rfl⟩
  have hnil : ∀ s ∈ ([] : List RecvSlot),
      ¬ Reliable s.deliveryMode ∧ s.payloadLen = hdr.payloadLen :=
    fun s hs => absurd hs List.not_mem_nil
  have h2 : ¬ hdr.deliveryMode = DeliveryMode.reliableUnordered.code := fun h => hrel (Or.inr h)
  have h3 : ¬ hdr.deliveryMode = DeliveryMode.reliableOrdered.code := fun h => hrel (Or.inl h)
  unfold onPacket
  rw [if_neg (by omega), if_neg h2, if_neg h3]
  by_cases h0 : hdr.deliveryMode = DeliveryMode.unreliableUnordered.code
  · rw [if_pos h0]
    exact ⟨0, w.highestUnrelSeq, w.hasHighestUnrel, _, rfl, Or.inl rfl, by simp, hready⟩
  rw [if_neg h0]
  by_cases h1 : hdr.deliveryMode = DeliveryMode.unreliableOrdered.code
  · rw [if_pos h1]
    by_cases hgt : (!w.hasHighestUnrel || seqGt hdr.seqNum w.highestUnrelSeq) = true
    · rw [if_pos hgt]
      exact ⟨0, hdr.seqNum, true, _, rfl, Or.inl rfl, by simp, hready⟩
    · rw [if_neg hgt]
      exact ⟨1, w.highestUnrelSeq, w.hasHighestUnrel, _, rfl, Or.inr (Or.inl rfl), by simp, hnil⟩
  · rw [if_neg h1]
    exact ⟨-1, w.highestUnrelSeq, w.hasHighestUnrel, _, rfl, Or.inr (Or.inr rfl), by simp, hnil⟩

/-- The window with the packet of position `p` stored. -/
def arrive (w : RecvWindow) (p : ℕ) (hdr : Header) (payload : List UInt8) : RecvWindow :=
  w.setSlot (p % w.slots.length) (arrivedSlot hdr payload (w.cell p))

section Packets

variable {w : RecvWindow} {e : ℕ}

theorem Rep.cell_arrive (hw : w.Rep e) {p q : ℕ} (hp : e ≤ p) (hp' : p < e + w.capacity.toNat)
    (hq : e ≤ q) (hq' : q < e + w.capacity.toNat) (hdr : Header) (payload : List UInt8) :
    (w.arrive p hdr payload).cell q =
      if q = p then arrivedSlot hdr payload (w.cell p) else w.cell q := by
  have hlen := hw.len
  split_ifs with hqp
  · rw [hqp]; exact cell_setSlot_self hw.len_pos p _
  · exact cell_setSlot_of_ne _ (Ne.symm hqp) (by omega) (by omega)

/-- Storing a reliable packet of the window keeps the invariant. -/
theorem Rep.arrive_rep (hw : w.Rep e) {p : ℕ} (hp : e ≤ p) (hp' : p < e + w.capacity.toNat)
    {hdr : Header} (hseq : hdr.seqNum = wrap p) (hrel : Reliable hdr.deliveryMode)
    (payload : List UInt8) : (w.arrive p hdr payload).Rep e := by
  have hcell := fun q hq hq' => hw.cell_arrive (q := q) hp hp' hq hq' hdr payload
  refine
    { ring := hw.ring
      small := hw.small
      len := by simpa [arrive] using hw.len
      expected := hw.expected
      seqNum := ?_
      reliable := ?_ }
  · intro q h1 h2 h3
    rw [hcell q h1 h2] at h3 ⊢
    split_ifs at h3 ⊢ with hqp
    · rw [hqp]; exact hseq
    · exact hw.seqNum q h1 h2 h3
  · intro q h1 h2 h3
    rw [hcell q h1 h2] at h3 ⊢
    split_ifs at h3 ⊢ with hqp
    · exact hrel
    · exact hw.reliable q h1 h2 h3

theorem Rep.accepted_arrive_iff (hw : w.Rep e) {p : ℕ} (hp : e ≤ p)
    (hp' : p < e + w.capacity.toNat) (hdr : Header) (payload : List UInt8) (q : ℕ) :
    (w.arrive p hdr payload).Accepted e q ↔ q = p ∨ w.Accepted e q := by
  have hcap : (w.arrive p hdr payload).capacity = w.capacity := rfl
  unfold Accepted
  rw [hcap]
  by_cases hq : e ≤ q ∧ q < e + w.capacity.toNat
  · rw [hw.cell_arrive hp hp' hq.1 hq.2]
    by_cases hqp : q = p
    · simp [hqp, arrivedSlot, hp']
    · simp [hqp]
  · constructor
    · rintro (h | ⟨h1, h2⟩)
      · exact Or.inr (Or.inl h)
      · exact Or.inr (Or.inl (by omega))
    · rintro (h | h | ⟨h1, h2⟩) <;> exact Or.inl (by omega)

theorem Rep.toInt_capacity (hw : w.Rep e) : w.capacity.toInt32.toInt = w.capacity.toNat := by
  have := hw.small
  exact Serial.toInt_of_le (by omega)

/-- The two range tests of `onPacket` pass exactly the counters of the window's positions. -/
theorem Rep.inRange_iff (hw : w.Rep e) (x : UInt32) :
    (¬ seqLt x w.expectedSeq = true ∧ ¬ seqDiff x w.expectedSeq ≥ w.capacity.toInt32.toInt) ↔
      ∃ p, e ≤ p ∧ p < e + w.capacity.toNat ∧ x = wrap p := by
  have hs := hw.small
  simp only [seqLt, seqDiff, hw.expected, hw.toInt_capacity, decide_eq_true_eq]
  constructor
  · rintro ⟨h1, h2⟩
    have h0 : 0 ≤ Serial.diff x (wrap e) := by omega
    exact ⟨e + (Serial.diff x (wrap e)).toNat, by omega, by omega, Serial.eq_wrap_of_diff h0⟩
  · rintro ⟨p, h1, h2, rfl⟩
    rw [Serial.diff_wrap (by omega) (by omega)]
    omega

/-- At a position of the window the duplicate test of `onPacket` reads the received mark. -/
theorem Rep.duplicate_iff (hw : w.Rep e) {p : ℕ} (hp : e ≤ p) (hp' : p < e + w.capacity.toNat) :
    ((w.cell p).received && decide ((w.cell p).seqNum = wrap p)) = true ↔
      (w.cell p).received = true := by
  simp only [Bool.and_eq_true, decide_eq_true_eq]
  exact ⟨fun h => h.1, fun h => ⟨h, hw.seqNum p hp hp' h⟩⟩

/-- The same test at any position ahead: the slot of a position beyond the window belongs to
another position, less than `2 ^ 32` away. -/
theorem Rep.marked_iff (hw : w.Rep e) {p : ℕ} (hp : e ≤ p) (hp' : p < e + 2 ^ 31) :
    ((w.cell p).received && decide ((w.cell p).seqNum = wrap p)) = true ↔
      p < e + w.capacity.toNat ∧ (w.cell p).received = true := by
  by_cases hin : p < e + w.capacity.toNat
  · rw [hw.duplicate_iff hp hin]
    exact ⟨fun h => ⟨hin, h⟩, fun h => h.2⟩
  · refine ⟨fun h => ?_, fun h => absurd h.1 hin⟩
    simp only [Bool.and_eq_true, decide_eq_true_eq] at h
    obtain ⟨q, hq, hq', hmod⟩ := Ring.exists_pos_of_lt e (Nat.mod_lt p hw.len_pos)
    rw [hw.len] at hq'
    have hcell : w.cell p = w.cell q := by simp only [cell, Ring.cell, hmod]
    rw [hcell] at h
    have hsm := hw.small
    have := Serial.wrap_inj ((hw.seqNum q hq hq' h.1).symm.trans h.2) (by omega) (by omega)
    omega

/-- **What a reliable packet does**, whatever its sequence number: it is refused, being outside
the window or held already, and the window stays as it is; or it is stored and the window drained
from there. -/
theorem Rep.onPacket_cases (hw : w.Rep e) {hdr : Header} (hrel : Reliable hdr.deliveryMode)
    (payload : List UInt8) {maxReady : ℕ} (hmax : 0 < maxReady) :
    (∃ code, (code = 1 ∨ code = -2) ∧ w.onPacket hdr payload maxReady = (code, w, []) ∧
      ∀ p, e ≤ p → p < e + w.capacity.toNat → hdr.seqNum = wrap p → (w.cell p).received = true) ∨
    ∃ p w' e' out, e ≤ p ∧ p < e + w.capacity.toNat ∧ hdr.seqNum = wrap p ∧
      (w.cell p).received = false ∧ Drained (w.arrive p hdr payload) e w' e' out ∧
      w.onPacket hdr payload maxReady = (0, w', immediate hdr payload ++ out) := by
  have hm : maxReady ≠ 0 := by omega
  have hn0 : hdr.deliveryMode ≠ DeliveryMode.unreliableUnordered.code := by
    rcases hrel with h | h <;> rw [h] <;> decide
  have hn1 : hdr.deliveryMode ≠ DeliveryMode.unreliableOrdered.code := by
    rcases hrel with h | h <;> rw [h] <;> decide
  have hne : DeliveryMode.reliableOrdered.code ≠ DeliveryMode.reliableUnordered.code := by decide
  by_cases hin : ∃ p, e ≤ p ∧ p < e + w.capacity.toNat ∧ hdr.seqNum = wrap p
  · obtain ⟨hlt, hge⟩ := (hw.inRange_iff _).2 hin
    obtain ⟨p, hp, hp', hseq⟩ := hin
    have hs := hw.small
    have huniq : ∀ q, e ≤ q → q < e + w.capacity.toNat → hdr.seqNum = wrap q → q = p := by
      intro q h1 h2 h3
      exact Serial.wrap_inj (h3.symm.trans hseq) (by omega) (by omega)
    have hdup := hw.duplicate_iff hp hp'
    rw [← hseq] at hdup
    have hidx : w.slotIdx hdr.seqNum = p % w.slots.length := by rw [hseq, hw.slotIdx]
    have hrep := hw.arrive_rep hp hp' hseq hrel payload
    cases hr : (w.cell p).received with
    | true =>
      refine Or.inl ⟨1, Or.inl rfl, ?_, fun q h1 h2 h3 => huniq q h1 h2 h3 ▸ hr⟩
      have hd := hdup.2 hr
      unfold onPacket
      rw [if_neg hm, if_neg hn0, if_neg hn1]
      simp only [if_neg hlt, if_neg hge, hidx, slot_mod, if_pos hd]
      rcases hrel with h | h
      · rw [if_neg (by rw [h]; exact hne), if_pos h]
      · rw [if_pos h]
    | false =>
      have hd : ¬ ((w.cell p).received && decide ((w.cell p).seqNum = hdr.seqNum)) = true := by
        rw [hdup, hr]; exact Bool.noConfusion
      refine Or.inr ⟨p, ?_⟩
      rcases hrel with h | h
      · obtain ⟨w', e', out, hrun, hdr'⟩ := popReady_drained hrep maxReady
        refine ⟨w', e', out, hp, hp', hseq, hr, hdr', ?_⟩
        unfold onPacket
        rw [if_neg hm, if_neg hn0, if_neg hn1, if_neg (by rw [h]; exact hne), if_pos h]
        simp only [if_neg hlt, if_neg hge, hidx, slot_mod, if_neg hd]
        have himm : immediate hdr payload = [] := if_neg (by rw [h]; exact hne)
        rw [himm, List.nil_append, ← hrun]
        simp only [arrive, arrivedSlot, h, true_and]
      · obtain ⟨w', e', out, hrun, hdr'⟩ :=
          skipLoop_drained maxReady (w.arrive p hdr payload).slots.length
            [readySlot hdr payload] hrep
        refine ⟨w', e', out, hp, hp', hseq, hr, hdr', ?_⟩
        unfold onPacket
        rw [if_neg hm, if_neg hn0, if_neg hn1, if_pos h]
        simp only [if_neg hlt, if_neg hge, hidx, slot_mod, if_neg hd]
        have himm : immediate hdr payload = [readySlot hdr payload] := if_pos h
        rw [himm, ← hrun]
        simp only [arrive, arrivedSlot, h, hne.symm, false_and, if_false]
  · have hout : seqLt hdr.seqNum w.expectedSeq = true ∨
        seqDiff hdr.seqNum w.expectedSeq ≥ w.capacity.toInt32.toInt := by
      by_contra hno
      exact hin ((hw.inRange_iff _).1 (not_or.1 hno))
    refine Or.inl ⟨if seqLt hdr.seqNum w.expectedSeq then 1 else -2, ?_, ?_,
      fun p h1 h2 h3 => absurd ⟨p, h1, h2, h3⟩ hin⟩
    · split_ifs
      · exact Or.inl rfl
      · exact Or.inr rfl
    · unfold onPacket
      rw [if_neg hm, if_neg hn0, if_neg hn1]
      by_cases hlt : seqLt hdr.seqNum w.expectedSeq = true
      · simp only [if_pos hlt]
        rcases hrel with h | h
        · rw [if_neg (by rw [h]; exact hne), if_pos h]
        · rw [if_pos h]
      · simp only [if_neg hlt, if_pos (hout.resolve_left hlt)]
        rcases hrel with h | h
        · rw [if_neg (by rw [h]; exact hne), if_pos h]
        · rw [if_pos h]

end Packets

/-! ### Acknowledgement info -/

/-- **Bit `i` of the mask says whether position `e + i` is held**, even for rings of fewer than
32 slots, where several bits read the same slot. -/
theorem Rep.sackMask_bit {w : RecvWindow} {e : ℕ} (hw : w.Rep e) {i : ℕ} (hi : i < 32) :
    w.sackMask &&& ((1 : UInt32) <<< UInt32.ofNat i) ≠ 0 ↔
      i < w.capacity.toNat ∧ (w.cell (e + i)).received = true := by
  have hmask : w.sackMask.toNat.testBit i =
      ((w.cell (e + i)).received && decide ((w.cell (e + i)).seqNum = wrap (e + i))) := by
    have hseq : ∀ j, w.expectedSeq + UInt32.ofNat j = wrap (e + j) := by
      intro j
      rw [hw.expected, Serial.wrap_add]
      rfl
    have := Serial.testBit_foldl_or
      (fun j => (w.cell (e + j)).received && decide ((w.cell (e + j)).seqNum = wrap (e + j)))
      (le_refl 32) i
    rw [decide_eq_true hi, Bool.true_and] at this
    rw [← this]
    unfold sackMask
    simp only [hseq, hw.slotIdx, slot_mod]
  rw [Serial.and_bit_ne_zero_iff hi, hmask, hw.marked_iff (by omega) (by omega)]
  exact and_congr_left fun _ => by omega

end RecvWindow

end Rel4u
