import Rel4u.Lib.Deque
import Rel4u.Lib.Ring
import Rel4u.Queue.Mpmc

/-!
# The fixed-size queue as a bounded list

In the fixed memory mode the queue is a ring: `count` cells from `head` on. `ringContents` reads
them, `FixedRep` adds what keeps the reading meaningful. The two ways of changing the ring, writing
one cell beyond either end and dropping the first cell, have one lemma each, and the two pushes and
the pop are assembled from them.
-/

namespace Rel4u

namespace MpmcQueue

/-- The cells of the ring from `head` on. -/
def ringContents (q : MpmcQueue) : List MpmcItem :=
  (List.range q.count).map fun i => q.items.getD ((q.head + i) % q.capacity) default

/-- **The queue is a ring that holds `l`.** -/
structure FixedRep (q : MpmcQueue) (l : List MpmcItem) : Prop where
  mode : q.mode = .fixed
  capacity : 2 ≤ q.capacity
  len : q.items.length = q.capacity
  head : q.head < q.capacity
  tail : q.tail = (q.head + q.count) % q.capacity
  bound : q.count ≤ q.capacity
  contents : l = q.ringContents

section Ring

variable {q : MpmcQueue} {l : List MpmcItem} {x : MpmcItem}

theorem FixedRep.length (hq : q.FixedRep l) : l.length = q.count := by
  rw [hq.contents]; simp [ringContents]

theorem ringContents_eq (hlen : q.items.length = q.capacity) :
    q.ringContents = (List.range q.count).map fun i => Ring.cell q.items (q.head + i) := by
  simp only [ringContents, Ring.cell, hlen]

/-- The ring with its first cell dropped. -/
def dropFirst (q : MpmcQueue) : MpmcQueue :=
  { q with head := (q.head + 1) % q.capacity, count := q.count - 1 }

/-- **Dropping the first cell.** -/
theorem FixedRep.dropFirst (hq : q.FixedRep (x :: l)) :
    q.dropFirst.FixedRep l ∧ q.items.getD q.head default = x := by
  have hcap := hq.capacity
  have hlen := hq.length
  have hhead := hq.head
  rw [List.length_cons] at hlen
  have hc := hq.contents
  have hsplit : q.ringContents = q.items.getD q.head default :: q.dropFirst.ringContents := by
    unfold ringContents
    have hcount : q.count = q.dropFirst.count + 1 := by show q.count = q.count - 1 + 1; omega
    rw [hcount, List.range_succ_eq_map, List.map_cons, List.map_map]
    congr 1
    · rw [Nat.add_zero, Nat.mod_eq_of_lt hhead]
    · refine List.map_congr_left fun i _ => ?_
      show q.items.getD ((q.head + (i + 1)) % q.capacity) default =
        q.items.getD (((q.head + 1) % q.capacity + i) % q.capacity) default
      rw [Nat.mod_add_mod, show q.head + (i + 1) = q.head + 1 + i by omega]
  rw [hsplit, List.cons.injEq] at hc
  refine ⟨?_, hc.1.symm⟩
  exact
    { mode := hq.mode
      capacity := hcap
      len := hq.len
      head := Nat.mod_lt _ (by omega)
      tail := by
        show q.tail = ((q.head + 1) % q.capacity + (q.count - 1)) % q.capacity
        rw [hq.tail, Nat.mod_add_mod, show q.head + 1 + (q.count - 1) = q.head + q.count by omega]
      bound := by show q.count - 1 ≤ q.capacity; have := hq.bound; omega
      contents := hc.2 }

/-- **Writing the cell after the last.** -/
theorem FixedRep.writeLast (hq : q.FixedRep l) (hroom : q.count < q.capacity) (x : MpmcItem) :
    ({ q with
        items := q.items.set q.tail x
        tail := (q.tail + 1) % q.capacity
        count := q.count + 1 } : MpmcQueue).FixedRep (l ++ [x]) := by
  have hcap := hq.capacity
  have hlen := hq.len
  have hset : q.items.set q.tail x = Ring.put q.items (q.head + q.count) x := by
    rw [Ring.put, hlen, hq.tail]
  refine
    { mode := hq.mode
      capacity := hcap
      len := by simpa using hlen
      head := hq.head
      tail := ?_
      bound := hroom
      contents := ?_ }
  · show (q.tail + 1) % q.capacity = (q.head + (q.count + 1)) % q.capacity
    rw [hq.tail, Nat.mod_add_mod, Nat.add_assoc]
  · rw [hq.contents, ringContents_eq hlen, ringContents_eq (by simpa using hlen)]
    show _ = (List.range (q.count + 1)).map fun i => Ring.cell (q.items.set q.tail x) (q.head + i)
    rw [List.range_succ, List.map_append, List.map_singleton, hset,
      Ring.cell_put_self (by omega)]
    congr 1
    refine List.map_congr_left fun i hi => ?_
    rw [List.mem_range] at hi
    exact (Ring.cell_put_of_window x (by omega) (by omega) (by omega)).symm

/-- **Writing the cell before the first.** -/
theorem FixedRep.writeFirst (hq : q.FixedRep l) (hroom : q.count < q.capacity) (x : MpmcItem) :
    ({ q with
        head := if q.head = 0 then q.capacity - 1 else q.head - 1
        items := q.items.set (if q.head = 0 then q.capacity - 1 else q.head - 1) x
        count := q.count + 1 } : MpmcQueue).FixedRep (x :: l) := by
  have hcap := hq.capacity
  have hlen := hq.len
  have hhead := hq.head
  set k := if q.head = 0 then q.capacity - 1 else q.head - 1 with hk
  have hklt : k < q.capacity := by rw [hk]; split_ifs <;> omega
  -- one step up from the new head is the old one
  have hstep : ∀ i, (k + (i + 1)) % q.capacity = (q.head + i) % q.capacity := by
    intro i
    rw [hk]
    split_ifs with h0
    · rw [h0, show q.capacity - 1 + (i + 1) = 0 + i + q.capacity by omega, Nat.add_mod_right]
    · rw [show q.head - 1 + (i + 1) = q.head + i by omega]
  have hset : q.items.set k x = Ring.put q.items k x := by
    rw [Ring.put, hlen, Nat.mod_eq_of_lt hklt]
  refine
    { mode := hq.mode
      capacity := hcap
      len := by simpa using hlen
      head := hklt
      tail := ?_
      bound := hroom
      contents := ?_ }
  · show q.tail = (k + (q.count + 1)) % q.capacity
    rw [hq.tail, hstep]
  · rw [hq.contents, ringContents_eq hlen, ringContents_eq (by simpa using hlen)]
    show _ = (List.range (q.count + 1)).map fun i => Ring.cell (q.items.set k x) (k + i)
    rw [List.range_succ_eq_map, List.map_cons, List.map_map, hset, Nat.add_zero,
      Ring.cell_put_self (by omega)]
    congr 1
    refine List.map_congr_left fun i hi => ?_
    rw [List.mem_range] at hi
    show _ = Ring.cell (Ring.put q.items k x) (k + (i + 1))
    rw [Ring.cell_put_of_window x (by omega) (by omega) (by omega)]
    simp only [Ring.cell, hlen, hstep]

/-- The fullness test: it passes a queue with room, and otherwise refuses or drops the first
cell. -/
theorem FixedRep.makeRoomFixed_cases (hq : q.FixedRep l) :
    (l.length < q.capacity ∧ q.makeRoomFixed = (true, q)) ∨
    (l.length = q.capacity ∧ q.fullPolicy = .dropNew ∧
      q.makeRoomFixed = (false, { q with droppedCount := q.droppedCount + 1 })) ∨
    (l.length = q.capacity ∧ q.fullPolicy = .dropLast ∧
      q.makeRoomFixed = (true, { q.dropFirst with droppedCount := q.droppedCount + 1 })) := by
  have hlen := hq.length
  have hb := hq.bound
  unfold makeRoomFixed
  by_cases hfull : q.count ≥ q.capacity
  · rw [if_pos hfull]
    split
    · next hp => exact Or.inr (Or.inr ⟨by omega, hp, rfl⟩)
    · next hp => exact Or.inr (Or.inl ⟨by omega, hp, rfl⟩)
  · rw [if_neg hfull]
    exact Or.inl ⟨by omega, rfl⟩

/-- Changing the drop counter does not touch the ring. -/
theorem FixedRep.withDropped (hq : q.FixedRep l) (n : ℕ) :
    ({ q with droppedCount := n } : MpmcQueue).FixedRep l :=
  { mode := hq.mode, capacity := hq.capacity, len := hq.len, head := hq.head, tail := hq.tail,
    bound := hq.bound, contents := hq.contents }

/-- What both pushes do to a ring: `place` is the list operation of the end they write. -/
def FixedPush (q : MpmcQueue) (l : List MpmcItem) (place : List MpmcItem → List MpmcItem)
    (r : Bool × MpmcQueue) : Prop :=
  let spec := Deque.push (fun _ => 1) q.capacity (decide (q.fullPolicy = .dropLast)) true place 1 l
  r.1 = spec.1 ∧ r.2.FixedRep spec.2 ∧ SameConfig q r.2 ∧
    r.2.count + r.2.droppedCount = q.count + q.droppedCount + 1

/-- A push is a push on the list, once its write is known to be. -/
theorem FixedRep.push (hq : q.FixedRep l) (place : List MpmcItem → List MpmcItem)
    (write : MpmcQueue → MpmcQueue)
    (hwrite : ∀ {q' l'}, q'.FixedRep l' → q'.count < q'.capacity →
      (write q').FixedRep (place l') ∧ SameConfig q' (write q') ∧
        (write q').count = q'.count + 1 ∧ (write q').droppedCount = q'.droppedCount)
    {r : Bool × MpmcQueue}
    (hr : r = match q.makeRoomFixed with
      | (false, q) => (false, q)
      | (true, q) => (true, write q)) : FixedPush q l place r := by
  have hlen := hq.length
  have hcap := hq.capacity
  unfold FixedPush
  dsimp only
  rw [Deque.push_one (by omega) (by rw [hlen]; exact hq.bound)]
  rcases hq.makeRoomFixed_cases with ⟨hlt, hm⟩ | ⟨hfull, hp, hm⟩ | ⟨hfull, hp, hm⟩
  · rw [hm] at hr
    obtain ⟨h1, h2, h3, h4⟩ := hwrite hq (by omega)
    rw [if_pos hlt, hr]
    exact ⟨rfl, h1, h2, by simp only [h3, h4]; omega⟩
  · rw [hm] at hr
    rw [if_neg (by omega), hp, if_neg (by decide), hr]
    exact ⟨rfl, hq.withDropped _, ⟨rfl, rfl, rfl, rfl, rfl⟩, by simp only; omega⟩
  · rw [hm] at hr
    rw [if_neg (by omega), hp, if_pos (by decide), hr]
    cases l with
    | nil => simp at hfull; omega
    | cons x l =>
      rw [List.length_cons] at hlen
      have hd := hq.dropFirst.1.withDropped (q.droppedCount + 1)
      have hc : (q.dropFirst).count = q.count - 1 := rfl
      have hb := hq.bound
      obtain ⟨h1, h2, h3, h4⟩ := hwrite hd (by show q.count - 1 < q.capacity; omega)
      refine ⟨rfl, h1, ⟨h2.mode, h2.policy, h2.capacity, h2.maxBytes, h2.mallocOk⟩, ?_⟩
      rw [h3, h4]
      show q.count - 1 + 1 + (q.droppedCount + 1) = _
      omega

/-- **`mpmc_push_back_locked` appends.** -/
theorem FixedRep.pushBackLocked (hq : q.FixedRep l) (hx : x.len.toNat ≤ maxPayloadSize) :
    FixedPush q l (· ++ [x]) (q.pushBackLocked x) := by
  refine hq.push _ (fun q => { q with
    items := q.items.set q.tail x, tail := (q.tail + 1) % q.capacity, count := q.count + 1 })
    (fun hq' hroom => ⟨hq'.writeLast hroom x, ⟨rfl, rfl, rfl, rfl, rfl⟩, rfl, rfl⟩) ?_
  rw [MpmcQueue.pushBackLocked, if_neg (not_lt.2 hx)]
  cases hmode : q.mode with
  | fixed => rfl
  | dynamic => exact absurd (hmode.symm.trans hq.mode) (by decide)

/-- **`mpmc_push_front_locked` prepends.** -/
theorem FixedRep.pushFrontLocked (hq : q.FixedRep l) (hx : x.len.toNat ≤ maxPayloadSize) :
    FixedPush q l (x :: ·) (q.pushFrontLocked x) := by
  refine hq.push _ (fun q => { q with
    head := if q.head = 0 then q.capacity - 1 else q.head - 1
    items := q.items.set (if q.head = 0 then q.capacity - 1 else q.head - 1) x
    count := q.count + 1 })
    (fun hq' hroom => ⟨hq'.writeFirst hroom x, ⟨rfl, rfl, rfl, rfl, rfl⟩, rfl, rfl⟩) ?_
  rw [MpmcQueue.pushFrontLocked, if_neg (not_lt.2 hx)]
  cases hmode : q.mode with
  | fixed => rfl
  | dynamic => exact absurd (hmode.symm.trans hq.mode) (by decide)

/-- **`mpmc_pop_head_locked` returns and removes the first element.** -/
theorem FixedRep.popHeadLocked (hq : q.FixedRep l) :
    q.popHeadLocked.1 = l.head? ∧ q.popHeadLocked.2.FixedRep l.tail ∧
      SameConfig q q.popHeadLocked.2 ∧ q.popHeadLocked.2.droppedCount = q.droppedCount := by
  have hlen := hq.length
  cases l with
  | nil =>
    have hrun : q.popHeadLocked = (none, q) := if_pos (by simpa using hlen.symm)
    rw [hrun]
    exact ⟨rfl, hq, SameConfig.refl q, rfl⟩
  | cons x l =>
    obtain ⟨h1, h2⟩ := hq.dropFirst
    have hne : ¬ q.count = 0 := by rw [List.length_cons] at hlen; omega
    have hrun : q.popHeadLocked = (some (q.items.getD q.head default), q.dropFirst) := by
      unfold MpmcQueue.popHeadLocked
      rw [if_neg hne]
      split
      · rfl
      · next hm => rw [hq.mode] at hm; exact MemoryMode.noConfusion hm
    rw [hrun]
    exact ⟨congrArg some h2, h1, ⟨rfl, rfl, rfl, rfl, rfl⟩, rfl⟩

/-- A queue created in the fixed mode is an empty ring. -/
theorem init_fixed {fullPolicy : QueueFullPolicy} {capacity maxBytes : ℕ} {mallocRing : Bool}
    {mallocOk : ℕ → Bool}
    (hinit : init .fixed fullPolicy capacity maxBytes mallocRing mallocOk = some q) :
    q.FixedRep [] ∧ q.capacity = capacity ∧ q.fullPolicy = fullPolicy ∧ q.droppedCount = 0 := by
  unfold init at hinit
  dsimp only at hinit
  split_ifs at hinit with hcap hm
  cases hinit
  exact
    ⟨{ mode := rfl
       capacity := by show 2 ≤ capacity; omega
       len := by simp
       head := by show 0 < capacity; omega
       tail := by simp
       bound := by simp
       contents := by simp [ringContents] }, rfl, rfl, rfl⟩

end Ring

end MpmcQueue

end Rel4u
