import Rel4u.Queue.Dynamic
import Rel4u.Queue.Fixed

/-!
# The queue as a bounded list, in either memory mode

`contents` reads the items of a queue, in either mode, and `Rep q l` says that the queue is a
well-formed one that holds `l`. Both pushes are `Deque.push` under the mode's weights, limit and
allocation (`Rep.pushBack`, `Rep.pushFront`), the pop takes the first element (`Rep.pop`). Nothing
beyond this module looks at rings or nodes.
-/

namespace Rel4u

namespace MpmcQueue

/-- The items of the nodes from an address on. -/
def chainContents (heap : Heap) : ℕ → Option ℕ → List MpmcItem
  | 0, _ => []
  | _ + 1, none => []
  | fuel + 1, some a => itemOf (heap.get a) :: chainContents heap fuel (heap.get a).next

/-- The items in the queue, first to be popped first. -/
def contents (q : MpmcQueue) : List MpmcItem :=
  match q.mode with
  | .fixed => q.ringContents
  | .dynamic => chainContents q.heap q.count q.nodeHead

/-- **The queue is well formed and holds `l`.** -/
def Rep (q : MpmcQueue) (l : List MpmcItem) : Prop := q.FixedRep l ∨ q.DynRep l

/-- What an item counts against the limit. -/
def weight (q : MpmcQueue) : MpmcItem → ℕ :=
  match q.mode with
  | .fixed => fun _ => 1
  | .dynamic => itemBytes

/-- The limit: cells of the ring, or bytes. -/
def limit (q : MpmcQueue) : ℕ :=
  match q.mode with
  | .fixed => q.capacity
  | .dynamic => q.maxBytes

/-- The outcome of the next allocation; the ring needs none. -/
def allocOk (q : MpmcQueue) : Bool :=
  match q.mode with
  | .fixed => true
  | .dynamic => q.heap.mallocOk q.heap.brk

/-- The outcomes of the allocations, by the number of the call. -/
def allocs (q : MpmcQueue) : ℕ → Bool :=
  match q.mode with
  | .fixed => fun _ => true
  | .dynamic => q.heap.mallocOk

/-- What is kept of a pushed item: a node has room for `len` bytes only. -/
def stored (q : MpmcQueue) (x : MpmcItem) : MpmcItem :=
  match q.mode with
  | .fixed => x
  | .dynamic => x.trim

/-- The policy evicts. -/
def evicts (q : MpmcQueue) : Bool := decide (q.fullPolicy = .dropLast)

/-- The list operation a push performs. -/
def pushSpec (q : MpmcQueue) (x : MpmcItem) (place : List MpmcItem → List MpmcItem)
    (l : List MpmcItem) : Bool × List MpmcItem :=
  Deque.push q.weight q.limit q.evicts q.allocOk place (q.weight x) l

section Refine

variable {q : MpmcQueue} {l : List MpmcItem} {x : MpmcItem}

theorem chainContents_eq {heap : Heap} {prev : Option ℕ} {as : List ℕ}
    (h : Linked heap prev as l) : chainContents heap l.length as.head? = l := by
  induction h using Linked.induction with
  | nil => rfl
  | cons prev a as x l n hn hprev hnext hc hl ih =>
    rw [List.length_cons, List.head?_cons, chainContents, Heap.get_of_node hn, hnext, ih, hc.item]

theorem Rep.contents_eq (hq : q.Rep l) : q.contents = l := by
  rcases hq with hq | ⟨as, hq⟩
  · rw [contents, hq.mode]; exact hq.contents.symm
  · rw [contents, hq.mode]
    show chainContents q.heap q.count q.nodeHead = l
    rw [hq.count, hq.head]
    exact chainContents_eq hq.linked

theorem Rep.count_eq (hq : q.Rep l) : q.count = l.length := by
  rcases hq with hq | ⟨as, hq⟩
  · exact hq.length.symm
  · exact hq.count

/-- The configuration determines weights, limit, policy and what is kept. -/
theorem SameConfig.weight_eq {q' : MpmcQueue} (h : SameConfig q q') : q'.weight = q.weight := by
  rw [weight, weight, h.mode]

theorem SameConfig.limit_eq {q' : MpmcQueue} (h : SameConfig q q') : q'.limit = q.limit := by
  rw [limit, limit, h.mode, h.capacity, h.maxBytes]

theorem SameConfig.evicts_eq {q' : MpmcQueue} (h : SameConfig q q') : q'.evicts = q.evicts := by
  rw [evicts, evicts, h.policy]

theorem stored_of_trim (h : x.trim = x) : q.stored x = x := by
  unfold stored
  split
  · rfl
  · exact h

/-- **Appending.** -/
theorem Rep.pushBack (hq : q.Rep l) (hx : x.len.toNat ≤ maxPayloadSize) :
    (q.pushBackLocked x).1 = (q.pushSpec x (· ++ [q.stored x]) l).1 ∧
      (q.pushBackLocked x).2.Rep (q.pushSpec x (· ++ [q.stored x]) l).2 ∧
      SameConfig q (q.pushBackLocked x).2 ∧
      (q.pushBackLocked x).2.count + (q.pushBackLocked x).2.droppedCount =
        q.count + q.droppedCount + 1 := by
  rcases hq with hq | hq
  · obtain ⟨h1, h2, h3⟩ := hq.pushBackLocked hx
    have hspec : q.pushSpec x (· ++ [q.stored x]) l = Deque.push (fun _ => 1) q.capacity
        (decide (q.fullPolicy = .dropLast)) true (· ++ [x]) 1 l := by
      simp only [pushSpec, weight, limit, allocOk, stored, evicts, hq.mode]
    rw [hspec]
    exact ⟨h1, Or.inl h2, h3⟩
  · obtain ⟨h1, h2, h3, h4, -⟩ := hq.pushBackLocked hx
    have hspec : q.pushSpec x (· ++ [q.stored x]) l = Deque.push itemBytes q.maxBytes
        (decide (q.fullPolicy = .dropLast)) (q.heap.mallocOk q.heap.brk) (· ++ [x.trim])
        (itemBytes x) l := by
      obtain ⟨as, hq⟩ := hq
      simp only [pushSpec, weight, limit, allocOk, stored, evicts, hq.mode]
    rw [hspec]
    exact ⟨h1, Or.inr h2, h3, h4⟩

/-- **Prepending.** -/
theorem Rep.pushFront (hq : q.Rep l) (hx : x.len.toNat ≤ maxPayloadSize) :
    (q.pushFront x).1 = (q.pushSpec x (q.stored x :: ·) l).1 ∧
      (q.pushFront x).2.Rep (q.pushSpec x (q.stored x :: ·) l).2 ∧
      SameConfig q (q.pushFront x).2 ∧
      (q.pushFront x).2.count + (q.pushFront x).2.droppedCount =
        q.count + q.droppedCount + 1 ∧
      (q.mode = .dynamic → (q.pushFront x).2.heap.brk = q.heap.brk +
        if Deque.Admits q.weight q.limit q.evicts (q.weight x) l then 1 else 0) := by
  rcases hq with hq | hq
  · obtain ⟨h1, h2, h3, h4⟩ := hq.pushFrontLocked hx
    have hspec : q.pushSpec x (q.stored x :: ·) l = Deque.push (fun _ => 1) q.capacity
        (decide (q.fullPolicy = .dropLast)) true (x :: ·) 1 l := by
      simp only [pushSpec, weight, limit, allocOk, stored, evicts, hq.mode]
    rw [hspec]
    exact ⟨h1, Or.inl h2, h3, h4, fun h => absurd (hq.mode.symm.trans h) (by decide)⟩
  · obtain ⟨h1, h2, h3, h4, h5⟩ := hq.pushFrontLocked hx
    have hspec : q.pushSpec x (q.stored x :: ·) l = Deque.push itemBytes q.maxBytes
        (decide (q.fullPolicy = .dropLast)) (q.heap.mallocOk q.heap.brk) (x.trim :: ·)
        (itemBytes x) l := by
      obtain ⟨as, hq⟩ := hq
      simp only [pushSpec, weight, limit, allocOk, stored, evicts, hq.mode]
    rw [hspec]
    refine ⟨h1, Or.inr h2, h3, h4, fun hm => ?_⟩
    simp only [weight, limit, evicts, hm]
    exact h5

/-- Several items pushed at the front, the last one first, are `Deque.pushesFront`. -/
theorem Rep.foldr_pushFront (hq : q.Rep l) {u : List MpmcItem}
    (hu : ∀ x ∈ u, x.len.toNat ≤ maxPayloadSize ∧ x.trim = x) {β : Type*}
    (f : MpmcItem → MpmcQueue × β → MpmcQueue × β)
    (hf : ∀ x s, (f x s).1 = (s.1.pushFront x).2) (b : β) :
    (u.foldr f (q, b)).1.Rep
        (Deque.pushesFront q.weight q.limit q.evicts q.allocs u (l, q.heap.brk)).1 ∧
      SameConfig q (u.foldr f (q, b)).1 ∧
      (q.mode = .dynamic → (u.foldr f (q, b)).1.heap.brk =
        (Deque.pushesFront q.weight q.limit q.evicts q.allocs u (l, q.heap.brk)).2) := by
  induction u with
  | nil => exact ⟨hq, SameConfig.refl q, fun _ => rfl⟩
  | cons x u ih =>
    obtain ⟨h1, h2, h3⟩ := ih fun y hy => hu y (List.mem_cons_of_mem x hy)
    obtain ⟨hlen, htrim⟩ := hu x List.mem_cons_self
    rw [List.foldr_cons, hf, Deque.pushesFront_cons]
    generalize u.foldr f (q, b) = s at h1 h2 h3 ⊢
    generalize Deque.pushesFront q.weight q.limit q.evicts q.allocs u (l, q.heap.brk) = r at h1 h3 ⊢
    obtain ⟨-, g2, g3, -, g5⟩ := h1.pushFront hlen
    -- the call number only matters where calls are made
    have halloc : s.1.allocOk = q.allocs r.2 := by
      rw [allocOk, allocs, h2.mode]
      cases hm : q.mode with
      | fixed => rfl
      | dynamic => rw [h2.mallocOk, h3 hm]
    have hspec : s.1.pushSpec x (s.1.stored x :: ·) r.1 =
        Deque.push q.weight q.limit q.evicts (q.allocs r.2) (x :: ·) (q.weight x) r.1 := by
      rw [pushSpec, halloc, stored_of_trim htrim, h2.weight_eq, h2.limit_eq, h2.evicts_eq]
    rw [hspec] at g2
    refine ⟨g2, h2.trans g3, fun hm => ?_⟩
    rw [g5 (h2.mode.trans hm), h3 hm, h2.weight_eq, h2.limit_eq, h2.evicts_eq]

/-- **Popping.** -/
theorem Rep.pop (hq : q.Rep l) :
    q.popHeadLocked.1 = l.head? ∧ q.popHeadLocked.2.Rep l.tail ∧ SameConfig q q.popHeadLocked.2 ∧
      q.popHeadLocked.2.droppedCount = q.droppedCount := by
  rcases hq with hq | hq
  · obtain ⟨h1, h2, h3⟩ := hq.popHeadLocked
    exact ⟨h1, Or.inl h2, h3⟩
  · obtain ⟨h1, h2, h3⟩ := hq.popHeadLocked
    exact ⟨h1, Or.inr h2, h3⟩

theorem popWait_eq (q : MpmcQueue) : q.popWait = q.popHeadLocked := by
  unfold MpmcQueue.popWait
  split_ifs with h0
  · exact (if_pos h0).symm
  · rfl

/-- A new queue is empty. -/
theorem init_rep {mode : MemoryMode} {fullPolicy : QueueFullPolicy} {capacity maxBytes : ℕ}
    {mallocRing : Bool} {mallocOk : ℕ → Bool}
    (hinit : init mode fullPolicy capacity maxBytes mallocRing mallocOk = some q) :
    q.Rep [] ∧ q.droppedCount = 0 := by
  cases mode with
  | fixed =>
    obtain ⟨h1, -, -, h2⟩ := init_fixed hinit
    exact ⟨Or.inl h1, h2⟩
  | dynamic =>
    obtain ⟨h1, -, h2⟩ := init_dynamic hinit
    exact ⟨Or.inr h1, h2⟩

/-- A push that is refused for its length changes nothing. -/
theorem pushBack_of_long (hx : ¬ x.len.toNat ≤ maxPayloadSize) :
    q.pushBackLocked x = (false, q) := if_pos (not_le.1 hx)

theorem pushFront_of_long (hx : ¬ x.len.toNat ≤ maxPayloadSize) :
    q.pushFront x = (false, q) := if_pos (not_le.1 hx)

/-- Pushing at the back keeps the end of the queue, whatever the item. -/
theorem Rep.pushBack_suffix (hq : q.Rep l) (hx : x.trim = x) :
    ∃ l', (q.pushBackLocked x).2.Rep l' ∧
      l' <:+ if (q.pushBackLocked x).1 then l ++ [x] else l := by
  by_cases hlen : x.len.toNat ≤ maxPayloadSize
  · obtain ⟨h1, h2, -⟩ := hq.pushBack hlen
    rw [stored_of_trim hx] at h1 h2
    refine ⟨_, h2, ?_⟩
    rw [h1]
    exact Deque.push_back_suffix x l
  · rw [pushBack_of_long hlen]
    exact ⟨l, hq, List.suffix_rfl⟩

/-- A push at the back of a queue that refuses or has room loses nothing. -/
theorem Rep.pushBack_keeps (hq : q.Rep l) (hx : x.trim = x)
    (h : q.evicts = false ∨ Deque.total q.weight l + q.weight x ≤ q.limit) :
    ((q.pushBackLocked x).1 = true ∧ (q.pushBackLocked x).2.Rep (l ++ [x])) ∨
      ((q.pushBackLocked x).1 = false ∧ (q.pushBackLocked x).2.Rep l) := by
  by_cases hlen : x.len.toNat ≤ maxPayloadSize
  · obtain ⟨h1, h2, -⟩ := hq.pushBack hlen
    rw [stored_of_trim hx, pushSpec] at h1 h2
    rcases Deque.push_keeps h with heq | heq
    · left
      rw [heq] at h1 h2
      exact ⟨h1, h2⟩
    · right
      rw [heq] at h1 h2
      exact ⟨h1, h2⟩
  · rw [pushBack_of_long hlen]
    exact Or.inr ⟨rfl, hq⟩

/-- A push at the back that finds room. -/
theorem Rep.pushBack_room (hq : q.Rep l) (hx : x.trim = x) (hlen : x.len.toNat ≤ maxPayloadSize)
    (h : Deque.total q.weight l + q.weight x ≤ q.limit) (halloc : q.allocOk = true) :
    (q.pushBackLocked x).1 = true ∧ (q.pushBackLocked x).2.Rep (l ++ [x]) := by
  obtain ⟨h1, h2, -⟩ := hq.pushBack hlen
  rw [stored_of_trim hx, pushSpec, halloc, Deque.push_of_fits h] at h1 h2
  exact ⟨h1, h2⟩

/-- A push adds at most one item, and none if it is refused. -/
theorem Rep.count_pushBack_le (hq : q.Rep l) (x : MpmcItem) :
    (∃ l', (q.pushBackLocked x).2.Rep l') ∧
      (q.pushBackLocked x).2.count ≤ q.count + (q.pushBackLocked x).1.toNat := by
  by_cases hx : x.len.toNat ≤ maxPayloadSize
  · obtain ⟨h1, h2, -⟩ := hq.pushBack hx
    refine ⟨⟨_, h2⟩, ?_⟩
    rw [h2.count_eq, hq.count_eq, h1]
    exact Deque.length_push_le (fun m => by rw [List.length_append, List.length_singleton]) l
  · rw [pushBack_of_long hx]
    exact ⟨⟨l, hq⟩, le_rfl⟩

theorem Rep.count_pushFront_le (hq : q.Rep l) (x : MpmcItem) :
    (∃ l', (q.pushFront x).2.Rep l') ∧
      (q.pushFront x).2.count ≤ q.count + (q.pushFront x).1.toNat := by
  by_cases hx : x.len.toNat ≤ maxPayloadSize
  · obtain ⟨h1, h2, -⟩ := hq.pushFront hx
    refine ⟨⟨_, h2⟩, ?_⟩
    rw [h2.count_eq, hq.count_eq, h1]
    exact Deque.length_push_le (fun m => List.length_cons) l
  · rw [pushFront_of_long hx]
    exact ⟨⟨l, hq⟩, le_rfl⟩

/-- Every refusal and eviction is counted: a push at the back that counts none has placed its item,
unless that was too long for any queue. -/
theorem Rep.pushBack_counts (hq : q.Rep l) (x : MpmcItem) :
    (∃ l', (q.pushBackLocked x).2.Rep l') ∧
      q.droppedCount ≤ (q.pushBackLocked x).2.droppedCount ∧
      (x.len.toNat ≤ maxPayloadSize →
        (q.pushBackLocked x).2.droppedCount ≤ q.droppedCount → (q.pushBackLocked x).1 = true) := by
  by_cases hlen : x.len.toNat ≤ maxPayloadSize
  · obtain ⟨h1, h2, -, h4⟩ := hq.pushBack hlen
    have hsuf : (q.pushSpec x (· ++ [q.stored x]) l).2 <:+
        if (q.pushSpec x (· ++ [q.stored x]) l).1 then l ++ [q.stored x] else l :=
      Deque.push_back_suffix (q.stored x) l
    have hle := hsuf.length_le
    rw [← h1, ← h2.count_eq] at hle
    rw [hq.count_eq] at h4
    refine ⟨⟨_, h2⟩, ?_, fun _ hdropped => ?_⟩
    · split_ifs at hle
      · rw [List.length_append, List.length_singleton] at hle
        omega
      · omega
    · by_contra hno
      rw [if_neg hno] at hle
      omega
  · rw [pushBack_of_long hlen]
    exact ⟨⟨l, hq⟩, le_rfl, fun h => absurd h hlen⟩

/-- A push at the front that counts no loss has lost nothing. -/
theorem Rep.pushFront_counts (hq : q.Rep l) (hlen : x.len.toNat ≤ maxPayloadSize)
    (hx : x.trim = x) :
    (∃ l', (q.pushFront x).2.Rep l') ∧ q.droppedCount ≤ (q.pushFront x).2.droppedCount ∧
      ((q.pushFront x).2.droppedCount ≤ q.droppedCount → (q.pushFront x).2.Rep (x :: l)) := by
  obtain ⟨-, h2, -, h4, -⟩ := hq.pushFront hlen
  rw [stored_of_trim hx, pushSpec] at h2
  have hsub : (Deque.push q.weight q.limit q.evicts q.allocOk (x :: ·) (q.weight x) l).2.Sublist
      (x :: l) := Deque.push_sublist
  have hle := hsub.length_le
  rw [List.length_cons, ← h2.count_eq] at hle
  rw [hq.count_eq] at h4
  refine ⟨⟨_, h2⟩, by omega, fun hdropped => ?_⟩
  rw [hsub.eq_of_length (by rw [← h2.count_eq, List.length_cons]; omega)] at h2
  exact h2

/-- A well-formed queue whose messages all fit in a slot of a window. -/
def Short (q : MpmcQueue) : Prop := ∃ l, q.Rep l ∧ ∀ x ∈ l, x.len.toNat ≤ maxPayloadSize

theorem stored_len (q : MpmcQueue) (x : MpmcItem) : (q.stored x).len = x.len := by
  unfold stored
  split <;> rfl

/-- A push at the back brings nothing but its item, and that only if it is not too long. -/
theorem Rep.mem_pushBack (hq : q.Rep l) (x : MpmcItem) : ∃ l', (q.pushBackLocked x).2.Rep l' ∧
    ∀ y ∈ l', y ∈ l ∨ y = q.stored x ∧ x.len.toNat ≤ maxPayloadSize := by
  by_cases hx : x.len.toNat ≤ maxPayloadSize
  · obtain ⟨-, h2, -⟩ := hq.pushBack hx
    refine ⟨_, h2, fun y hy => ?_⟩
    have hmem := (Deque.push_back_suffix (q.stored x) l).mem hy
    split_ifs at hmem
    · rcases List.mem_append.1 hmem with hy' | hy'
      · exact Or.inl hy'
      · exact Or.inr ⟨List.mem_singleton.1 hy', hx⟩
    · exact Or.inl hmem
  · rw [pushBack_of_long hx]
    exact ⟨l, hq, fun y hy => Or.inl hy⟩

/-- Pushing at the back keeps a queue short, whatever the item: a long one is refused. -/
theorem Short.pushBack (hq : q.Short) (x : MpmcItem) : (q.pushBackLocked x).2.Short := by
  obtain ⟨l, hl, hshort⟩ := hq
  obtain ⟨l', hl', hmem⟩ := hl.mem_pushBack x
  refine ⟨l', hl', fun y hy => ?_⟩
  rcases hmem y hy with hy' | ⟨rfl, hx⟩
  · exact hshort y hy'
  · rw [stored_len]
    exact hx

/-- Popping keeps a queue short, and what comes out fits. -/
theorem Short.pop (hq : q.Short) :
    q.popHeadLocked.2.Short ∧ ∀ x ∈ q.popHeadLocked.1, x.len.toNat ≤ maxPayloadSize := by
  obtain ⟨l, hl, hshort⟩ := hq
  obtain ⟨h1, h2, -⟩ := hl.pop
  refine ⟨⟨_, h2, fun x hx => hshort x (List.mem_of_mem_tail hx)⟩, fun x hx => ?_⟩
  rw [h1] at hx
  exact hshort x (List.mem_of_mem_head? hx)

end Refine

end MpmcQueue

end Rel4u
