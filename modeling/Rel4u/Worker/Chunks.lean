import Rel4u.Window.RecvRun
import Rel4u.Worker.SharedInv

/-!
# Draining in batches

`Drains n w out w'` says that the window `w`, drained until the expected slot is not ready, hands
out `out` in `n` turns and becomes `w'`. No scratch array appears in it. Each loop, of the window
and of the workers, performs a first part of this drain and stops short only with a full batch, and
each of the workers' loops goes on after a full batch. So the handling of a DATA packet comes to one
and the same drain for every length of the scratch array.
-/

namespace Rel4u

open Serial (wrap)

namespace RecvWindow

/-- The window is drained to the end: `n` turns hand out `out`. -/
inductive Drains : ℕ → RecvWindow → List RecvSlot → RecvWindow → Prop
  | stop {w : RecvWindow} (hready : w.expReady = false) : Drains 0 w [] w
  | skip {n : ℕ} {w w' : RecvWindow} {out : List RecvSlot} (hready : w.expReady = true)
      (hmode : w.expSlot.deliveryMode = DeliveryMode.reliableUnordered.code)
      (hrest : Drains n w.advance out w') : Drains (n + 1) w out w'
  | deliver {n : ℕ} {w w' : RecvWindow} {out : List RecvSlot} (hready : w.expReady = true)
      (hmode : w.expSlot.deliveryMode = DeliveryMode.reliableOrdered.code)
      (hrest : Drains n w.advance out w') : Drains (n + 1) w (w.expSlot :: out) w'

theorem Drains.expReady_eq {n : ℕ} {w w' : RecvWindow} {out : List RecvSlot}
    (h : Drains n w out w') : w'.expReady = false := by
  induction h with
  | stop hready => exact hready
  | skip _ _ _ ih => exact ih
  | deliver _ _ _ ih => exact ih

theorem Drains.of_zero {w w' : RecvWindow} {out : List RecvSlot} (h : Drains 0 w out w') :
    w = w' ∧ out = [] := by
  cases h with
  | stop hready => exact ⟨rfl, rfl⟩

theorem advance_slots_length (w : RecvWindow) : w.advance.slots.length = w.slots.length := by
  simp [advance, setSlot]

/-- With nothing received from position `e + fuel` on, the window drains in `fuel` turns. -/
theorem Rep.exists_drains (fuel : ℕ) : ∀ {w : RecvWindow} {e : ℕ}, w.Rep e →
    (∀ q, e + fuel ≤ q → q < e + w.capacity.toNat → (w.cell q).received = false) →
    fuel ≤ w.capacity.toNat → ∃ n ≤ fuel, ∃ out w', Drains n w out w' := by
  induction fuel with
  | zero =>
    intro w e hw hfree _
    have hno := hfree e le_rfl (by have := hw.ring.pos; omega)
    refine ⟨0, le_rfl, [], w, .stop (Bool.eq_false_iff.2 fun hr => ?_)⟩
    rw [hw.expReady_iff, hno] at hr
    exact Bool.noConfusion hr
  | succ fuel ih =>
    intro w e hw hfree hle
    cases hr : w.expReady with
    | false => exact ⟨0, by omega, [], w, .stop hr⟩
    | true =>
      have hd := hw.advance_drained (hw.expReady_iff.1 hr)
      obtain ⟨n, hn, out, w', hrest⟩ := ih hd.rep (hd.free_advance hfree) (by rw [hd.cap]; omega)
      have hrel := hw.reliable e le_rfl (by omega) (hw.expReady_iff.1 hr)
      rw [← hw.expSlot_eq] at hrel
      rcases hrel with hmode | hmode
      · exact ⟨n + 1, by omega, _, w', .deliver hr hmode hrest⟩
      · exact ⟨n + 1, by omega, out, w', .skip hr hmode hrest⟩

theorem Rep.drains {w : RecvWindow} {e : ℕ} (hw : w.Rep e) :
    ∃ n ≤ w.slots.length, ∃ out w', Drains n w out w' := by
  rw [hw.len]
  exact Rep.exists_drains _ hw (fun q h1 h2 => by omega) le_rfl

/-! ### The loops perform a first part of the drain -/

/-- From `w`, a loop has come to `w₁` with the slots `got`; `n₁` turns remain. It has stopped before
the end only with a full batch. -/
structure Part (maxReady n : ℕ) (w : RecvWindow) (out : List RecvSlot) (w' : RecvWindow)
    (ready : List RecvSlot) (res : RecvWindow × List RecvSlot) : Prop where
  split : ∃ n₁ got rest, res.2 = ready ++ got ∧ out = got ++ rest ∧ Drains n₁ res.1 rest w' ∧
    n₁ + got.length ≤ n ∧ (res.2.length < maxReady → n₁ = 0)
  length : res.1.slots.length = w.slots.length
  full : ready.length ≤ maxReady → res.2.length ≤ maxReady

theorem Part.here {maxReady n : ℕ} {w w' : RecvWindow} {out ready : List RecvSlot}
    (h : Drains n w out w') (hfull : ready.length < maxReady → n = 0) :
    Part maxReady n w out w' ready (w, ready) where
  split := ⟨n, [], out, by simp, by simp, h, by simp, hfull⟩
  length := rfl
  full := id

theorem Part.skip {maxReady n : ℕ} {w w' : RecvWindow} {out ready : List RecvSlot}
    {res : RecvWindow × List RecvSlot} (h : Part maxReady n w.advance out w' ready res) :
    Part maxReady (n + 1) w out w' ready res where
  split := by
    obtain ⟨n₁, got, rest, h1, h2, h3, h4, h5⟩ := h.split
    exact ⟨n₁, got, rest, h1, h2, h3, by omega, h5⟩
  length := h.length.trans w.advance_slots_length
  full := h.full

theorem Part.deliver {maxReady n : ℕ} {w w' : RecvWindow} {out ready : List RecvSlot}
    {res : RecvWindow × List RecvSlot} (hroom : ready.length < maxReady)
    (h : Part maxReady n w.advance out w' (ready ++ [w.expSlot]) res) :
    Part maxReady (n + 1) w (w.expSlot :: out) w' ready res where
  split := by
    obtain ⟨n₁, got, rest, h1, h2, h3, h4, h5⟩ := h.split
    refine ⟨n₁, w.expSlot :: got, rest, by rw [h1]; simp, by rw [h2]; simp, h3, ?_, h5⟩
    rw [List.length_cons]
    omega
  length := h.length.trans w.advance_slots_length
  full := fun _ => h.full (by rw [List.length_append, List.length_singleton]; omega)

theorem Drains.popLoop_part {n : ℕ} {w w' : RecvWindow} {out : List RecvSlot}
    (h : Drains n w out w') (maxReady : ℕ) : ∀ {fuel : ℕ} (ready : List RecvSlot), n ≤ fuel →
      Part maxReady n w out w' ready (popLoop maxReady fuel w ready) := by
  induction h with
  | @stop w hready =>
    intro fuel ready _
    have hrun : popLoop maxReady fuel w ready = (w, ready) := by
      cases fuel with
      | zero => rfl
      | succ fuel => simp [popLoop, hready]
    rw [hrun]
    exact .here (.stop hready) fun _ => rfl
  | @skip n w w' out hready hmode hrest ih =>
    intro fuel ready hfuel
    obtain ⟨fuel, rfl⟩ := Nat.exists_eq_add_of_le' (show 1 ≤ fuel by omega)
    have hne : w.expSlot.deliveryMode ≠ DeliveryMode.reliableOrdered.code := by
      rw [hmode]
      decide
    rw [popLoop, if_pos hready, if_neg hne]
    by_cases hroom : ready.length < maxReady
    · rw [if_pos hroom]
      exact .skip (ih ready (by omega))
    · rw [if_neg hroom]
      exact .here (.skip hready hmode hrest) fun hlt => absurd hlt hroom
  | @deliver n w w' out hready hmode hrest ih =>
    intro fuel ready hfuel
    obtain ⟨fuel, rfl⟩ := Nat.exists_eq_add_of_le' (show 1 ≤ fuel by omega)
    rw [popLoop, if_pos hready, if_pos hmode]
    by_cases hroom : ready.length < maxReady
    · rw [if_pos hroom]
      exact .deliver hroom (ih _ (by omega))
    · rw [if_neg hroom]
      exact .here (.deliver hready hmode hrest) fun hlt => absurd hlt hroom

theorem Drains.skipLoop_part {n : ℕ} {w w' : RecvWindow} {out : List RecvSlot}
    (h : Drains n w out w') (maxReady : ℕ) : ∀ {fuel : ℕ} (ready : List RecvSlot), n ≤ fuel →
      Part maxReady n w out w' ready (skipLoop maxReady fuel w ready) := by
  induction h with
  | @stop w hready =>
    intro fuel ready _
    have hrun : skipLoop maxReady fuel w ready = (w, ready) := by
      cases fuel with
      | zero => rfl
      | succ fuel => simp [skipLoop, hready]
    rw [hrun]
    exact .here (.stop hready) fun _ => rfl
  | @skip n w w' out hready hmode hrest ih =>
    intro fuel ready hfuel
    obtain ⟨fuel, rfl⟩ := Nat.exists_eq_add_of_le' (show 1 ≤ fuel by omega)
    rw [skipLoop, if_pos hready, if_pos hmode]
    exact .skip (ih ready (by omega))
  | @deliver n w w' out hready hmode hrest ih =>
    intro fuel ready hfuel
    obtain ⟨fuel, rfl⟩ := Nat.exists_eq_add_of_le' (show 1 ≤ fuel by omega)
    have hne : w.expSlot.deliveryMode ≠ DeliveryMode.reliableUnordered.code := by
      rw [hmode]
      decide
    rw [skipLoop, if_pos hready, if_neg hne, if_pos hmode]
    by_cases hroom : ready.length < maxReady
    · rw [if_pos hroom]
      exact .deliver hroom (ih _ (by omega))
    · rw [if_neg hroom]
      exact .here (.deliver hready hmode hrest) fun hlt => absurd hlt hroom

/-! ### The workers' loops complete it -/

/-- A call of `pop_ready` hands out nothing only at the end of the drain. -/
theorem Drains.popReady_part {n : ℕ} {w w' : RecvWindow} {out : List RecvSlot}
    (h : Drains n w out w') (hn : n ≤ w.slots.length) (maxReady : ℕ) :
    ∃ n₁ rest, out = (w.popReady maxReady).2 ++ rest ∧
      Drains n₁ (w.popReady maxReady).1 rest w' ∧
      n₁ ≤ (w.popReady maxReady).1.slots.length ∧
      n₁ + (w.popReady maxReady).2.length ≤ n ∧
      (w.popReady maxReady).2.length ≤ maxReady ∧
      ((w.popReady maxReady).2.length < maxReady → n₁ = 0) := by
  have hpart := h.popLoop_part maxReady [] hn
  rw [popReady]
  obtain ⟨n₁, got, rest, h1, h2, h3, h4, h5⟩ := hpart.split
  rw [List.nil_append] at h1
  have hlen := hpart.length
  exact ⟨n₁, rest, by rw [h1, h2], h3, by omega, by rw [h1]; omega,
    hpart.full (Nat.zero_le _), h5⟩

/-- **The loop after a duplicate drains the window to the end.** -/
theorem Drains.drainReady_eq {maxReady : ℕ} (hmax : 0 < maxReady) (fuel : ℕ) :
    ∀ {n : ℕ} {w w' : RecvWindow} {out : List RecvSlot}, Drains n w out w' →
      n ≤ w.slots.length → n < fuel → drainReady maxReady fuel w = (w', out) := by
  induction fuel with
  | zero => intro n w w' out _ _ hlt; omega
  | succ fuel ih =>
    intro n w w' out h hn hlt
    obtain ⟨n₁, rest, hout, hrest, hn₁, hle, -, hend⟩ := h.popReady_part hn maxReady
    rw [drainReady]
    dsimp only
    split
    · next hpos =>
      rw [ih hrest hn₁ (by omega), hout]
    · next hzero =>
      obtain rfl := hend (by omega)
      obtain ⟨hw, hnil⟩ := hrest.of_zero
      have hnone : (w.popReady maxReady).2 = [] := List.length_eq_zero_iff.1 (by omega)
      rw [hw, hout, hnil, hnone, List.append_nil]

/-- **The loop after a full batch drains the window to the end.** -/
theorem Drains.drainFull_eq {maxReady : ℕ} (hmax : 0 < maxReady) (fuel : ℕ) :
    ∀ {n : ℕ} {w w' : RecvWindow} {out ready : List RecvSlot}, Drains n w out w' →
      n ≤ w.slots.length → n < fuel → ready.length = maxReady →
      drainFull maxReady fuel w ready = (w', out) := by
  induction fuel with
  | zero => intro n w w' out ready _ _ hlt; omega
  | succ fuel ih =>
    intro n w w' out ready h hn hlt hready
    obtain ⟨n₁, rest, hout, hrest, hn₁, hle, hfull, hend⟩ := h.popReady_part hn maxReady
    rw [drainFull, if_pos hready]
    dsimp only
    by_cases hbatch : (w.popReady maxReady).2.length = maxReady
    · rw [if_pos (by omega), ih hrest hn₁ (by omega) hbatch, hout]
    · -- a batch that is not full is the last
      obtain rfl := hend (by omega)
      obtain ⟨hw, hnil⟩ := hrest.of_zero
      rw [hw, hout, hnil, List.append_nil]
      split
      · have hstop : drainFull maxReady fuel w' (w.popReady maxReady).2 = (w', []) := by
          cases fuel with
          | zero => rfl
          | succ fuel => rw [drainFull, if_neg hbatch]
        rw [hstop, List.append_nil]
      · have hnone : (w.popReady maxReady).2 = [] := List.length_eq_zero_iff.1 (by omega)
        rw [hnone]

/-- A loop's part of the drain, completed by the loop after a full batch. -/
theorem Part.drainFull_eq {maxReady n : ℕ} {w w' : RecvWindow} {out ready : List RecvSlot}
    {res : RecvWindow × List RecvSlot} (h : Part maxReady n w out w' ready res)
    (hmax : 0 < maxReady) (hready : ready.length ≤ maxReady) (hn : n ≤ w.slots.length) :
    (drainFull maxReady (res.1.slots.length + 1) res.1 res.2).1 = w' ∧
      res.2 ++ (drainFull maxReady (res.1.slots.length + 1) res.1 res.2).2 = ready ++ out := by
  obtain ⟨n₁, got, rest, h1, h2, h3, h4, h5⟩ := h.split
  have hlen := h.length
  by_cases hbatch : res.2.length = maxReady
  · rw [h3.drainFull_eq hmax _ (by omega) (by omega) hbatch, h1, h2, List.append_assoc]
    exact ⟨rfl, rfl⟩
  · have hle := h.full hready
    obtain rfl := h5 (by omega)
    obtain ⟨hw, hnil⟩ := h3.of_zero
    rw [drainFull, if_neg hbatch, h1, h2, hnil, List.append_nil, List.append_nil]
    exact ⟨hw, rfl⟩

/-! ### A DATA packet -/

/-- A packet whose loop performed a part of the drain. -/
theorem onData_of_part {w w₁ w' : RecvWindow} {hdr : Header} {payload : List UInt8} {m n : ℕ}
    {out ready : List RecvSlot} {res : RecvWindow × List RecvSlot}
    (hrun : w.onPacket hdr payload m = (0, res)) (hpart : Part m n w₁ out w' ready res)
    (hm : 0 < m) (hready : ready.length ≤ m) (hn : n ≤ w₁.slots.length) :
    w.onData hdr payload m = (0, w', ready ++ out) := by
  obtain ⟨h1, h2⟩ := hpart.drainFull_eq hm hready hn
  rw [onData, hrun]
  dsimp only
  rw [if_pos rfl, h1, h2]

/-- A window that drains to the end, as it is and with any new packet stored, handles a DATA packet
in the same way for every scratch array of at least two slots. -/
theorem onData_spec {w : RecvWindow} {hdr : Header} (payload : List UInt8)
    (hself : ∃ n ≤ w.slots.length, ∃ out w', Drains n w out w')
    (hstored : w.IsNew hdr → Reliable hdr.deliveryMode →
      ∃ n ≤ w.slots.length, ∃ out w', Drains n (w.storePacket hdr payload) out w') :
    ∃ code w' out, (∀ m, 2 ≤ m → w.onData hdr payload m = (code, w', out)) ∧
      (w.expReady = false → w'.expReady = false) := by
  obtain ⟨f, harr, hf⟩ := arrival_onPacket w hdr payload
  have hrun := fun m (hm : 2 ≤ m) => hf m (by omega)
  have hlen : (w.storePacket hdr payload).slots.length = w.slots.length := by
    simp [storePacket, setSlot]
  cases harr with
  | refused code hcode =>
    by_cases hdup : code = 1
    · obtain ⟨n, hn, out, w', hdrain⟩ := hself
      refine ⟨code, w', out, fun m hm => ?_, fun _ => hdrain.expReady_eq⟩
      rw [onData, hrun m hm]
      dsimp only
      rw [if_neg hcode, if_pos hdup, hdrain.drainReady_eq (by omega) _ hn (by omega)]
    · refine ⟨code, w, [], fun m hm => ?_, id⟩
      rw [onData, hrun m hm]
      dsimp only
      rw [if_neg hcode, if_neg hdup]
  | unreliable highest has hrel =>
    refine ⟨0, w.mark highest has, [readySlot hdr payload], fun m hm => ?_, id⟩
    have hstop : drainFull m (w.slots.length + 1) (w.mark highest has) [readySlot hdr payload] =
        (w.mark highest has, []) := by
      rw [drainFull, if_neg (by rw [List.length_singleton]; omega)]
    rw [onData, hrun m hm]
    dsimp only
    rw [if_pos rfl]
    exact congrArg (fun r : RecvWindow × List RecvSlot =>
      ((0 : ℤ), r.1, [readySlot hdr payload] ++ r.2)) hstop
  | unordered hmode hnew =>
    obtain ⟨n, hn, out, w', hdrain⟩ := hstored hnew (Or.inr hmode)
    refine ⟨0, w', [readySlot hdr payload] ++ out, fun m hm => ?_, fun _ => hdrain.expReady_eq⟩
    exact onData_of_part (hrun m hm) (hdrain.skipLoop_part m _ hn) (by omega)
      (by rw [List.length_singleton]; omega) (by omega)
  | ordered hmode hnew =>
    obtain ⟨n, hn, out, w', hdrain⟩ := hstored hnew (Or.inl hmode)
    refine ⟨0, w', [] ++ out, fun m hm => ?_, fun _ => hdrain.expReady_eq⟩
    exact onData_of_part (hrun m hm) (hdrain.popLoop_part m _ (by omega)) (by omega)
      (Nat.zero_le m) (by omega)

theorem Rep.rep_onData {w : RecvWindow} {e : ℕ} (hw : w.Rep e) (hdr : Header)
    (payload : List UInt8) {m : ℕ} (hm : 0 < m) : ∃ e', (w.onData hdr payload m).2.1.Rep e' := by
  obtain ⟨e', htakes⟩ := hw.takes_onData hdr payload hm
  exact ⟨e', htakes.rep_capacity.1⟩

theorem Rep.drains_storePacket {w : RecvWindow} {e : ℕ} (hw : w.Rep e) {hdr : Header}
    (payload : List UInt8) (hnew : w.IsNew hdr) (hrel : Reliable hdr.deliveryMode) :
    ∃ n ≤ w.slots.length, ∃ out w', Drains n (w.storePacket hdr payload) out w' := by
  obtain ⟨p, ⟨hp, hp'⟩, hseq, -, hstore⟩ := hw.isNew_iff.1 hnew
  obtain ⟨n, hn, hdrain⟩ := (hw.arrive_rep hp hp' hseq hrel payload).drains
  rw [hstore]
  exact ⟨n, by simpa [arrive, setSlot] using hn, hdrain⟩

theorem Idle.not_isNew {w : RecvWindow} (hw : w.Idle) (hdr : Header) : ¬ w.IsNew hdr := by
  rintro ⟨⟨-, hge⟩, -⟩
  apply hge
  rw [hw.cap]
  exact (Serial.diff_bounds _ _).1

/-- **Draining in batches of 64 is draining at once.** In a window in order, of any capacity, the
handling of a DATA packet leaves the same window and hands out the same slots in the same order with
the workers' 64 scratch slots as with more of them than the ring has. If nothing was deliverable at
the expected number before, nothing is after. -/
theorem onData_chunks {w : RecvWindow} (hw : (∃ e, w.Rep e) ∨ w.Idle) (hdr : Header)
    (payload : List UInt8) {m : ℕ} (hm : w.capacity.toNat < m) :
    w.onData hdr payload readySlots = w.onData hdr payload m ∧
      (w.expReady = false → (w.onData hdr payload readySlots).2.1.expReady = false) := by
  have hspec : 2 ≤ m ∧ ∃ code w' out,
      (∀ m, 2 ≤ m → w.onData hdr payload m = (code, w', out)) ∧
      (w.expReady = false → w'.expReady = false) := by
    rcases hw with ⟨e, hw⟩ | hw
    · have hpos := hw.ring.pos
      exact ⟨by omega, onData_spec payload hw.drains (hw.drains_storePacket payload)⟩
    · have hcap : w.capacity.toNat = 2 ^ 31 := by rw [hw.cap]; rfl
      exact ⟨by omega, onData_spec payload ⟨0, Nat.zero_le _, [], w, .stop hw.expReady_eq⟩
        fun hnew => absurd hnew (hw.not_isNew hdr)⟩
  obtain ⟨h2, code, w', out, hall, hready⟩ := hspec
  rw [hall readySlots (by decide), hall m h2]
  exact ⟨rfl, hready⟩

/-- The header of an ordered packet without payload. -/
def orderedHeader (k : ℕ) : Header := ⟨magic, version, 2, 3, 0, 0, 7, wrap k, 0, 0⟩

/-- A window of 128 slots that waits for number 1 and holds the numbers 2 to 71. -/
def seventyHeld : RecvWindow :=
  (List.range 70).foldl (fun w i => (w.onData (orderedHeader (i + 2)) [] readySlots).2.1)
    (fresh 128 1)

theorem rep_foldl_onData (f : ℕ → Header) (l : List ℕ) : ∀ {w : RecvWindow}, (∃ e, w.Rep e) →
    ∃ e, (l.foldl (fun w i => (w.onData (f i) [] readySlots).2.1) w).Rep e := by
  induction l with
  | nil => exact id
  | cons i l ih =>
    rintro w ⟨e, hw⟩
    exact ih (hw.rep_onData (f i) [] (show 0 < readySlots by decide))

/-- Number 1 releases all 71: a full batch of 64 and seven more, the same slots as with a scratch
array of 129. -/
theorem onData_chunks_of_seventy :
    (seventyHeld.onData (orderedHeader 1) [] readySlots).2.2.map RecvSlot.seqNum =
        (List.range' 1 71).map wrap ∧
      seventyHeld.onData (orderedHeader 1) [] readySlots =
        seventyHeld.onData (orderedHeader 1) [] 129 ∧
      (seventyHeld.onData (orderedHeader 1) [] readySlots).2.1.expReady = false := by
  have hrep : ∃ e, seventyHeld.Rep e := rep_foldl_onData _ _
    ⟨_, fresh_rep (c := 128) ⟨7, by decide, rfl⟩ (by decide) 1⟩
  have hcap : seventyHeld.capacity.toNat < 129 := by decide +kernel
  have hno : seventyHeld.expReady = false := by decide +kernel
  obtain ⟨heq, hend⟩ := onData_chunks (Or.inl hrep) (orderedHeader 1) [] hcap
  exact ⟨by decide +kernel, heq, hend hno⟩

end RecvWindow

end Rel4u
