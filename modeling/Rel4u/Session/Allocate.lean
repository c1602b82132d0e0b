import Rel4u.Session.TableInv

/-!
# Sessions whose windows could not be allocated

`rel4u_session_allocate` marks the slot as connecting, destroys the two windows it finds there and
makes two new ones, without a look at what the two `init` calls return. When an allocation fails,
the caller gets a session with a window that has no array and capacity zero, and `seq & (0 - 1)`
indexes it.

`allocate_all_or_nothing_iff` says when the function is all or nothing: when both windows can be
allocated, or when it takes no slot. `allocate_unequipped` is a call that is not.
-/

namespace Rel4u

open Serial (IsRingSize)

/-- Both windows of a session have their arrays, and the given size. -/
structure Session.Equipped (s : Session) (windowSize : UInt32) : Prop where
  ring : IsRingSize windowSize
  sendSlots : s.sendWin.slots.length = windowSize.toNat
  sendCapacity : s.sendWin.capacity = windowSize
  recvSlots : s.recvWin.slots.length = windowSize.toNat
  recvCapacity : s.recvWin.capacity = windowSize

namespace SessionTable

/-- What a caller of `rel4u_session_allocate` relies on: occupied slots have both windows, a failed
allocation of a window is reported, and the counter counts the occupied slots. -/
structure AllOrNothing (windowSize : UInt32) (callocSend callocRecv : Bool)
    (r : Option (ℤ × Session) × SessionTable) : Prop where
  equipped : ∀ s ∈ r.2.sessions, s.active = true → s.Equipped windowSize
  null : (callocSend && callocRecv) = false → r.1 = none
  count : r.2.activeCount.toNat = r.2.sessions.countP Session.active

section Allocate

variable {t : SessionTable} {w : UInt32}

/-- The new session has both windows, of the size of the old send window, if both could be
allocated. -/
theorem equipped_newSession (hw : IsRingSize w) {s : Session} (hs : s.sendWin.capacity = w)
    (addr : NetAddr) (sessionId : UInt32) :
    (newSession s addr sessionId true true).Equipped w := by
  rw [newSession_eq hw hs]
  exact
    { ring := hw
      sendSlots := List.length_replicate
      sendCapacity := rfl
      recvSlots := List.length_replicate
      recvCapacity := rfl }

/-- What is written over a slot of a table whose occupied slots are equipped. -/
theorem equipped_setSlot (ht : ∀ s ∈ t.sessions, s.active = true → s.Equipped w) (i : ℕ)
    {s' : Session} (hs' : s'.Equipped w) :
    ∀ s ∈ (t.setSlot i s').sessions, s.active = true → s.Equipped w := by
  intro s hs hactive
  rcases List.mem_or_eq_of_mem_set hs with h | rfl
  · exact ht s h hactive
  · exact hs'

end Allocate

/-- **Allocation is all or nothing exactly when both windows can be allocated**, or the table is
full and turns clients away. For every table that keeps its invariant and whose occupied slots have
their windows, every address and either outcome of the two window allocations. -/
theorem allocate_all_or_nothing_iff {t : SessionTable} {w : UInt32} (ht : t.Inv w)
    (hpos : 0 < t.maxClients.toNat) (hwin : ∀ s ∈ t.sessions, s.active = true → s.Equipped w)
    (addr : NetAddr) (sessionId : UInt32) (callocSend callocRecv : Bool) :
    AllOrNothing w callocSend callocRecv (t.allocate addr sessionId callocSend callocRecv) ↔
      (callocSend && callocRecv) = true ∨
        (t.activeCount = t.maxClients ∧ t.fullPolicy = .reject) := by
  rcases ht.allocate_cases hpos addr sessionId callocSend callocRecv with
    ⟨hfull, hreject, h⟩ | ⟨i, c, htakes, hc, h⟩
  · rw [h]
    exact iff_of_true ⟨hwin, fun _ => rfl, ht.count⟩ (Or.inr ⟨hfull, hreject⟩)
  · rw [h]
    constructor
    · intro hall
      left
      by_contra hfailed
      exact Option.some_ne_none _ (hall.null (Bool.eq_false_of_not_eq_true hfailed))
    · rintro (hok | ⟨hfull, hreject⟩)
      · obtain ⟨rfl, rfl⟩ := Bool.and_eq_true_iff.1 hok
        have hnew := equipped_newSession ht.ring (ht.windows i htakes.lt).2 addr sessionId
        refine ⟨equipped_setSlot hwin i hnew, fun hfailed => absurd hok ?_, ?_⟩
        · rw [hfailed]
          decide
        · exact ht.count_allocated htakes hc rfl
      · -- a full table under `reject` takes no slot
        rcases htakes.free_or_oldest with ⟨hlt, -⟩ | ⟨-, hdrop, -⟩
        · rw [hfull] at hlt
          exact absurd hlt (UInt32.lt_irrefl _)
        · rw [hreject] at hdrop
          exact absurd hdrop (by decide)

/-- A new table of one slot with windows of eight. -/
def oneSlot : Option SessionTable := init 1 .reject 8 true (fun _ => true) (fun _ => true)

theorem oneSlot_inv {t : SessionTable} (h : oneSlot = some t) :
    t.Inv 8 ∧ 0 < t.maxClients.toNat ∧ ∀ s ∈ t.sessions, s.active = true → s.Equipped 8 := by
  obtain ⟨hinv, hmax, hpos⟩ := init_inv h (by decide)
  have hfree : oneSlot.map (fun t => decide (∀ s ∈ t.sessions, s.active = false)) = some true := by
    decide +kernel
  rw [h, Option.map_some, Option.some.injEq, decide_eq_true_eq] at hfree
  refine ⟨hinv, hmax ▸ hpos, fun s hs hactive => ?_⟩
  rw [hfree s hs] at hactive
  exact Bool.noConfusion hactive

/-- The first client of the table gets both windows. -/
theorem allocate_all_or_nothing_first :
    ∃ t, oneSlot = some t ∧
      AllOrNothing 8 true true (t.allocate (.inet 5000 2) 7 true true) := by
  obtain ⟨t, ht⟩ : ∃ t, oneSlot = some t := Option.isSome_iff_exists.1 (by decide +kernel)
  obtain ⟨hinv, hpos, hwin⟩ := oneSlot_inv ht
  exact ⟨t, ht, (allocate_all_or_nothing_iff hinv hpos hwin (.inet 5000 2) 7 true true).2
    (Or.inl rfl)⟩

/-- **A session without a send window.** The array cannot be allocated; the caller gets the session
all the same, and the slot counts as occupied. The next client in the slot gets windows of 64, not
of the table's eight. -/
theorem allocate_unequipped :
    ∃ t, oneSlot = some t ∧ t.Inv 8 ∧ (∀ s ∈ t.sessions, s.active = true → s.Equipped 8) ∧
      let r := t.allocate (.inet 5000 2) 7 false true
      r.1.isSome = true ∧ (r.2.slot 0).active = true ∧ (r.2.slot 0).sendWin.slots = [] ∧
        (r.2.slot 0).sendWin.capacity = 0 ∧ ¬ AllOrNothing 8 false true r ∧
        (((r.2.free 0).allocate (.inet 5001 2) 8 true true).2.slot 0).sendWin.capacity = 64 := by
  have hval : oneSlot.map (fun t =>
      let r := t.allocate (.inet 5000 2) 7 false true
      decide (r.1.isSome = true ∧ (r.2.slot 0).active = true ∧ (r.2.slot 0).sendWin.slots = [] ∧
        (r.2.slot 0).sendWin.capacity = 0 ∧
        (((r.2.free 0).allocate (.inet 5001 2) 8 true true).2.slot 0).sendWin.capacity = 64)) =
      some true := by
    decide +kernel
  obtain ⟨t, ht, hval⟩ := Option.map_eq_some_iff.1 hval
  obtain ⟨hsome, hactive, hslots, hcapacity, hnext⟩ := of_decide_eq_true hval
  obtain ⟨hinv, -, hwin⟩ := oneSlot_inv ht
  refine ⟨t, ht, hinv, hwin, hsome, hactive, hslots, hcapacity, fun hall => ?_, hnext⟩
  rw [hall.null rfl] at hsome
  exact Bool.noConfusion hsome

end SessionTable

end Rel4u
