import Rel4u.Queue.Run

/-!
# Runs of the dynamic queue

The dynamic queue is a doubly linked list of nodes of different sizes under a limit in bytes.
`dynamic_refines_list` states what every run of it keeps: the two chains of pointers are each
other's reverse, the counters count them, the contents are a double-ended list, and no message is
unaccounted for.

* `Heap.walk` follows a pointer field from a node to `NULL`;
* `EvictionEnds` is the eviction loop of the two pushes as a relation, without a bound on its turns:
  a state is related to a result only if the loop stops there (`evictionEnds_makeRoom`);
* `bytePush` is the push on the list of the contents.
-/

namespace Rel4u

/-- The nodes met from an address on, following a pointer field until it is `NULL`. -/
def Heap.walk (h : Heap) (field : MpmcNode → Option ℕ) : ℕ → Option ℕ → List ℕ
  | 0, _ => []
  | _ + 1, none => []
  | fuel + 1, some a => a :: h.walk field fuel (field (h.get a))

theorem Heap.walk_none (h : Heap) (field : MpmcNode → Option ℕ) (fuel : ℕ) :
    h.walk field fuel none = [] := by
  cases fuel <;> rfl

namespace MpmcQueue

section Walk

variable {heap : Heap} {prev : Option ℕ} {as : List ℕ} {l : List MpmcItem}

/-- The forward pointers lead through the addresses, and then to `NULL`. -/
theorem Linked.walk_next (h : Linked heap prev as l) {fuel : ℕ} (hfuel : as.length ≤ fuel) :
    heap.walk MpmcNode.next fuel as.head? = as := by
  induction h using Linked.induction generalizing fuel with
  | nil => exact heap.walk_none _ fuel
  | cons prev a as x l n hn hprev hnext hc hl ih =>
    obtain ⟨fuel, rfl⟩ : ∃ k, fuel = k + 1 := ⟨fuel - 1, by rw [List.length_cons] at hfuel; omega⟩
    rw [List.head?_cons, Heap.walk, Heap.get_of_node hn, hnext]
    rw [ih (by simpa using hfuel)]

/-- The backward pointers lead through the addresses in reverse, and then on from `prev`. -/
theorem Linked.walk_prev (h : Linked heap prev as l) {fuel : ℕ} (hfuel : as.length ≤ fuel) :
    heap.walk MpmcNode.prev fuel (as.getLast?.or prev) =
      as.reverse ++ heap.walk MpmcNode.prev (fuel - as.length) prev := by
  induction h using Linked.induction with
  | nil => simp
  | cons prev a as x l n hn hprev hnext hc hl ih =>
    rw [List.length_cons] at hfuel
    have hlast : (a :: as).getLast?.or prev = as.getLast?.or (some a) := by
      cases as with
      | nil => rfl
      | cons b as => simp [List.getLast?_cons]
    have hstep : fuel - as.length = (fuel - (a :: as).length) + 1 := by
      rw [List.length_cons]
      omega
    rw [hlast, ih (by omega), hstep, Heap.walk, Heap.get_of_node hn, hprev]
    simp

theorem Linked.map_itemOf (h : Linked heap prev as l) :
    as.map (fun a => itemOf (heap.get a)) = l := by
  induction h using Linked.induction with
  | nil => rfl
  | cons prev a as x l n hn hprev hnext hc hl ih =>
    rw [List.map_cons, ih, Heap.get_of_node hn, hc.item]

theorem Linked.sum_allocatedSize (h : Linked heap prev as l) :
    (as.map fun a => (heap.get a).allocatedSize).sum = Deque.total itemBytes l := by
  induction h using Linked.induction with
  | nil => rfl
  | cons prev a as x l n hn hprev hnext hc hl ih =>
    rw [List.map_cons, List.sum_cons, ih, Heap.get_of_node hn, hc.size, Deque.total_cons]

end Walk

/-- **The nodes of the queue, at the addresses `as`**: the nodes are different, `next` leads from
`node_head` through them to `NULL`, `prev` from `node_tail` back through them to `NULL`, and the
counters are theirs. -/
structure Nodes (q : MpmcQueue) (as : List ℕ) : Prop where
  nodup : as.Nodup
  forward : ∀ fuel, as.length ≤ fuel → q.heap.walk MpmcNode.next fuel q.nodeHead = as
  backward : ∀ fuel, as.length ≤ fuel → q.heap.walk MpmcNode.prev fuel q.nodeTail = as.reverse
  items : q.contents = as.map fun a => itemOf (q.heap.get a)
  count : q.count = as.length
  bytes : q.currentBytes = (as.map fun a => (q.heap.get a).allocatedSize).sum
  bound : q.currentBytes ≤ q.maxBytes

theorem Chain.nodes {q : MpmcQueue} {as : List ℕ} {l : List MpmcItem} (hq : q.Chain as l) :
    q.Nodes as where
  nodup := hq.nodup
  forward := fun fuel hfuel => by rw [hq.head]; exact hq.linked.walk_next hfuel
  backward := fun fuel hfuel => by
    have h := hq.linked.walk_prev hfuel
    rw [Option.or_none, Heap.walk_none, List.append_nil] at h
    rw [hq.tail]
    exact h
  items := by
    have hrep : q.Rep l := Or.inr ⟨as, hq⟩
    rw [hrep.contents_eq, hq.linked.map_itemOf]
  count := by rw [hq.count, hq.linked.length_eq]
  bytes := by rw [hq.bytes, hq.linked.sum_allocatedSize]
  bound := by rw [hq.bytes]; exact hq.bound

/-! ### The eviction loop -/

/-- The loop `while (q->current_bytes + needed > q->max_bytes)` ends from `q`, with this result:
`true` if it runs to its end, `false` if it returns from the push. -/
inductive EvictionEnds (needed : ℕ) : MpmcQueue → Bool × MpmcQueue → Prop
  | fits (q : MpmcQueue) (h : ¬ q.currentBytes + needed > q.maxBytes) :
      EvictionEnds needed q (true, q)
  | refuses (q : MpmcQueue) (h : q.currentBytes + needed > q.maxBytes)
      (hno : q.fullPolicy ≠ .dropLast ∨ q.nodeHead = none) :
      EvictionEnds needed q (false, { q with droppedCount := q.droppedCount + 1 })
  | evicts (q : MpmcQueue) (victim : ℕ) (r : Bool × MpmcQueue)
      (h : q.currentBytes + needed > q.maxBytes) (hpolicy : q.fullPolicy = .dropLast)
      (hhead : q.nodeHead = some victim)
      (hrest : EvictionEnds needed
        { q.unlinkHead victim with droppedCount := (q.unlinkHead victim).droppedCount + 1 } r) :
      EvictionEnds needed q r

/-- **The eviction loop ends**, and `makeRoom` computes its result: a turn that evicts shortens the
list, and an empty list stops the loop. -/
theorem Chain.evictionEnds_makeRoom (needed : ℕ) {fuel : ℕ} : ∀ {q : MpmcQueue} {as : List ℕ}
    {l : List MpmcItem}, q.Chain as l → l.length < fuel →
      EvictionEnds needed q (q.makeRoom fuel needed) := by
  induction fuel with
  | zero => intro q as l _ hfuel; omega
  | succ fuel ih =>
    intro q as l hq hfuel
    by_cases hover : q.currentBytes + needed > q.maxBytes
    · rw [makeRoom, if_pos hover]
      split
      · next victim hpolicy hhead =>
        cases as with
        | nil => exact absurd (hq.head.symm.trans hhead) (by simp)
        | cons a as =>
          cases l with
          | nil => exact absurd hq.linked id
          | cons x l =>
            have ha : a = victim := Option.some.inj (hq.head.symm.trans hhead)
            subst ha
            obtain ⟨h1, -⟩ := hq.unlinkHead
            refine .evicts q a _ hover hpolicy hhead (ih (h1.withDropped _) ?_)
            simpa using hfuel
      · next hno =>
        refine .refuses q hover ?_
        by_cases hpolicy : q.fullPolicy = .dropLast
        · cases hhead : q.nodeHead with
          | none => exact Or.inr rfl
          | some victim => exact absurd hhead (hno victim hpolicy)
        · exact Or.inl hpolicy
    · rw [makeRoom, if_neg hover]
      exact .fits q hover

/-! ### The push on a list -/

/-- A push of `x` on a list under a limit of `maxBytes` bytes. What is kept beside it is, under
`dropLast`, the list without the shortest prefix that makes it fit (`Deque.evict`). `alloc` is
whether the node could be allocated and `place` adds it at its end. -/
def bytePush (maxBytes : ℕ) (policy : QueueFullPolicy) (alloc : Bool)
    (place : List MpmcItem → List MpmcItem) (x : MpmcItem) (l : List MpmcItem) :
    Bool × List MpmcItem :=
  if itemBytes x > maxBytes then (false, l)
  else
    match policy with
    | .dropNew =>
      if Deque.total itemBytes l + itemBytes x > maxBytes then (false, l)
      else if alloc then (true, place l) else (false, l)
    | .dropLast =>
      let kept := Deque.evict itemBytes (maxBytes - itemBytes x) l
      if alloc then (true, place kept) else (false, kept)

theorem bytePush_eq (maxBytes : ℕ) (policy : QueueFullPolicy) (alloc : Bool)
    (place : List MpmcItem → List MpmcItem) (x : MpmcItem) (l : List MpmcItem) :
    Deque.push itemBytes maxBytes (decide (policy = .dropLast)) alloc place (itemBytes x) l =
      bytePush maxBytes policy alloc place x l := by
  unfold Deque.push bytePush
  by_cases hneed : itemBytes x > maxBytes
  · rw [if_pos hneed, if_neg fun h => not_lt.2 h.1 hneed]
  · rw [if_neg hneed]
    cases policy with
    | dropLast => rw [if_pos ⟨not_lt.1 hneed, Or.inl rfl⟩]
    | dropNew =>
      dsimp only
      by_cases hfit : Deque.total itemBytes l + itemBytes x > maxBytes
      · rw [if_pos hfit, if_neg fun h => ?_]
        rcases h.2 with h | h
        · exact absurd h (by decide)
        · omega
      · rw [if_neg hfit, if_pos ⟨not_lt.1 hneed, Or.inr (not_lt.1 hfit)⟩,
          Deque.evict_of_le (by omega)]

section Dynamic

variable {q : MpmcQueue} {s : QueueRun}

theorem RunInv.dynRep (hs : RunInv q s) (hmode : q.mode = .dynamic) :
    s.queue.DynRep s.queue.contents := by
  rcases hs.rep with h | h
  · exact absurd (h.mode.symm.trans (hs.config.mode.trans hmode)) (by decide)
  · exact h

theorem DynRep.bytePush_eq {l : List MpmcItem} {x : MpmcItem}
    {place : List MpmcItem → List MpmcItem} {r : Bool × MpmcQueue} (hr : DynPush q l x place r) :
    (r.1, r.2.contents) =
      bytePush q.maxBytes q.fullPolicy (q.heap.mallocOk q.heap.brk) place x l := by
  obtain ⟨h1, h2, -⟩ := hr
  have hrep : r.2.Rep _ := Or.inr h2
  rw [h1, hrep.contents_eq, ← MpmcQueue.bytePush_eq]

end Dynamic

/-- **The dynamic queue refines a double-ended list bounded in bytes.** For every limit, both
policies and every stream of `malloc` outcomes, after any run on a new queue: the chains from both
ends are each other's reverse, and `count` and `current_bytes` are their length and their size,
which does not exceed the limit; every attempted push is accounted for; the eviction loop ends,
without overflow in its test; each operation acts on the list of the contents as the list's
operation does, where an eviction keeps the longest suffix that the item fits beside. -/
theorem dynamic_refines_list {maxBytes : ℕ} (hpos : 1 ≤ maxBytes) (hmax : maxBytes ≤ 2 ^ 63)
    (policy : QueueFullPolicy) (capacity : ℕ) (mallocRing : Bool) (mallocOk : ℕ → Bool) :
    ∃ q, init .dynamic policy capacity maxBytes mallocRing mallocOk = some q ∧ q.contents = [] ∧
      ∀ ops : List MpmcOp, (∀ op ∈ ops, op.Fits) →
        let s := QueueRun.run q ops
        let l := s.queue.contents
        (∃ as, s.queue.Nodes as) ∧ s.queue.maxBytes = maxBytes ∧
        s.attempts = s.queue.count + s.pops + s.queue.droppedCount ∧
        (∀ x : MpmcItem, x.len.toNat ≤ maxPayloadSize →
          s.queue.currentBytes + itemBytes x < 2 ^ 64 ∧
          EvictionEnds (itemBytes x) s.queue
            (s.queue.makeRoom (s.queue.count + 1) (itemBytes x)) ∧
          ((s.queue.tryPush x).1, (s.queue.tryPush x).2.contents) =
            bytePush maxBytes policy (mallocOk s.queue.heap.brk) (· ++ [x.trim]) x l ∧
          ((s.queue.pushNotify x).1, (s.queue.pushNotify x).2.contents) =
            bytePush maxBytes policy (mallocOk s.queue.heap.brk) (· ++ [x.trim]) x l ∧
          ((s.queue.pushFront x).1, (s.queue.pushFront x).2.contents) =
            bytePush maxBytes policy (mallocOk s.queue.heap.brk) (x.trim :: ·) x l ∧
          (itemBytes x ≤ maxBytes →
            let kept := Deque.evict itemBytes (maxBytes - itemBytes x) l
            kept <:+ l ∧ Deque.total itemBytes kept + itemBytes x ≤ maxBytes ∧
              ∀ t, t <:+ l → Deque.total itemBytes t + itemBytes x ≤ maxBytes → t <:+ kept)) ∧
        (s.queue.tryPop.1, s.queue.tryPop.2.contents) = (l.head?, l.tail) ∧
        (s.queue.popWait.1, s.queue.popWait.2.contents) = (l.head?, l.tail) := by
  obtain ⟨q, hinit, hq⟩ : ∃ q, init .dynamic policy capacity maxBytes mallocRing mallocOk =
      some q ∧ q.maxBytes = maxBytes ∧ q.heap.mallocOk = mallocOk := by
    refine ⟨_, rfl, ?_, rfl⟩
    exact if_neg (by omega)
  obtain ⟨hrep, hpol, -⟩ := init_dynamic hinit
  have hmode : q.mode = .dynamic := by
    obtain ⟨as, h⟩ := hrep
    exact h.mode
  refine ⟨q, hinit, (show q.Rep [] from Or.inr hrep).contents_eq, fun ops hops => ?_⟩
  have hs := runInv_run hinit hops
  have hdyn := hs.dynRep hmode
  have hmax' : (QueueRun.run q ops).queue.maxBytes = maxBytes := hs.config.maxBytes.trans hq.1
  have hpol' : (QueueRun.run q ops).queue.fullPolicy = policy := hs.config.policy.trans hpol
  have hok' : (QueueRun.run q ops).queue.heap.mallocOk = mallocOk := hs.config.mallocOk.trans hq.2
  have hback := fun {x} hx => DynRep.bytePush_eq (hdyn.pushBackLocked (x := x) hx)
  have hfront := fun {x} hx => DynRep.bytePush_eq (hdyn.pushFrontLocked (x := x) hx)
  rw [hmax', hpol', hok'] at hback hfront
  obtain ⟨hpop, hpop'⟩ := hs.pop_eq
  obtain ⟨as, hchain⟩ := hdyn
  have hnodes := hchain.nodes
  refine ⟨⟨as, hnodes⟩, hmax', hs.account, fun x hx => ⟨?_, ?_, hback hx, hback hx, hfront hx, ?_⟩,
    hpop, hpop'⟩
  · have hb := hnodes.bound
    have hx' : itemBytes x ≤ sizeofNode + maxPayloadSize := Nat.add_le_add_left hx sizeofNode
    rw [sizeofNode, maxPayloadSize] at hx'
    omega
  · exact hchain.evictionEnds_makeRoom (itemBytes x) (by rw [hchain.count]; omega)
  · intro hneed
    have hle : Deque.total itemBytes (Deque.evict itemBytes (maxBytes - itemBytes x)
        (QueueRun.run q ops).queue.contents) ≤ maxBytes - itemBytes x :=
      Deque.total_evict_le _ _
    refine ⟨Deque.evict_suffix _ _, by omega, fun t ht hfit => ?_⟩
    exact Deque.suffix_evict ht (by omega)

/-- Room for two short messages: the third evicts the first, and a fourth whose allocation fails is
dropped after its eviction. -/
theorem dynamic_refines_list_of_two :
    ∃ q, init .dynamic .dropLast 0 66 true (fun k => decide (k ≠ 3)) = some q ∧
      let s := QueueRun.run q [.tryPush ⟨0, 3, 1, [1]⟩, .pushNotify ⟨0, 3, 1, [2]⟩,
        .tryPush ⟨0, 3, 1, [3]⟩, .pushFront ⟨0, 3, 1, [4]⟩]
      (∃ as, s.queue.Nodes as) ∧
        s.attempts = s.queue.count + s.pops + s.queue.droppedCount ∧
        s.queue.contents = [⟨0, 3, 1, [3]⟩] := by
  obtain ⟨q, hinit, -, hrun⟩ := dynamic_refines_list (show 1 ≤ 66 by decide) (by decide) .dropLast 0
    true (fun k => decide (k ≠ 3))
  obtain ⟨h1, -, h3, -⟩ := hrun [.tryPush ⟨0, 3, 1, [1]⟩, .pushNotify ⟨0, 3, 1, [2]⟩,
    .tryPush ⟨0, 3, 1, [3]⟩, .pushFront ⟨0, 3, 1, [4]⟩] (by simp [MpmcOp.Fits, maxPayloadSize])
  refine ⟨q, hinit, h1, h3, ?_⟩
  have hval : (init .dynamic .dropLast 0 66 true (fun k => decide (k ≠ 3))).map (fun q =>
      (QueueRun.run q [.tryPush ⟨0, 3, 1, [1]⟩, .pushNotify ⟨0, 3, 1, [2]⟩,
        .tryPush ⟨0, 3, 1, [3]⟩, .pushFront ⟨0, 3, 1, [4]⟩]).queue.contents) =
      some [⟨0, 3, 1, [3]⟩] := by
    decide +kernel
  rw [hinit, Option.map_some, Option.some.injEq] at hval
  exact hval

end MpmcQueue

end Rel4u
