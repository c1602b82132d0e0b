import Rel4u.Lib.Deque
import Rel4u.Queue.Mpmc

/-!
# The dynamic queue as a bounded list

In the dynamic memory mode the queue is a doubly linked list of heap nodes. `Linked heap prev as l`
says that the nodes at the addresses `as` are chained in this order, the first one after `prev`,
and carry the items `l`; `Chain q as l` adds the queue's own fields: both ends, the count and the
byte total. `DynRep q l` forgets the addresses.

Unlinking the head, and linking a new node at either end, have one lemma each. The eviction loop
is `Deque.evict` (`makeRoom_of_dropLast`), and the two pushes are `Deque.push`.
-/

namespace Rel4u

namespace MpmcQueue

/-- A node that carries an item. -/
structure Carries (n : MpmcNode) (x : MpmcItem) : Prop where
  item : itemOf n = x
  size : n.allocatedSize = itemBytes x

/-- The nodes at the addresses are chained in order and carry the items. -/
def Linked (heap : Heap) : Option ℕ → List ℕ → List MpmcItem → Prop
  | _, [], [] => True
  | prev, a :: as, x :: l =>
    (∃ n, heap.node a = some n ∧ n.prev = prev ∧ n.next = as.head? ∧ Carries n x) ∧
      Linked heap (some a) as l
  | _, _, _ => False

/-- **The queue is a linked list, at the addresses `as`, that holds `l`.** -/
structure Chain (q : MpmcQueue) (as : List ℕ) (l : List MpmcItem) : Prop where
  mode : q.mode = .dynamic
  linked : Linked q.heap none as l
  nodup : as.Nodup
  old : ∀ a ∈ as, a < q.heap.brk
  head : q.nodeHead = as.head?
  tail : q.nodeTail = as.getLast?
  count : q.count = l.length
  bytes : q.currentBytes = Deque.total itemBytes l
  bound : Deque.total itemBytes l ≤ q.maxBytes

/-- The queue is a linked list that holds `l`. -/
def DynRep (q : MpmcQueue) (l : List MpmcItem) : Prop := ∃ as, Chain q as l

section Heap

theorem Heap.get_of_node {heap : Heap} {a : ℕ} {n : MpmcNode} (h : heap.node a = some n) :
    heap.get a = n := by simp [Heap.get, h]

theorem Heap.node_store_self (heap : Heap) (a : ℕ) (n : MpmcNode) :
    (heap.store a n).node a = some n := by simp [Heap.store]

theorem Heap.node_store_of_ne (heap : Heap) {a b : ℕ} (n : MpmcNode) (h : b ≠ a) :
    (heap.store a n).node b = heap.node b := by simp [Heap.store, h]

theorem Heap.node_free_of_ne (heap : Heap) {a b : ℕ} (h : b ≠ a) :
    (heap.free a).node b = heap.node b := by simp [Heap.free, h]

end Heap

section Linked

variable {heap heap' : Heap} {prev : Option ℕ} {a : ℕ} {as : List ℕ} {l : List MpmcItem}
  {x : MpmcItem}

/-- Induction along the chain: the addresses and the items run out together. -/
@[elab_as_elim]
theorem Linked.induction {motive : ∀ prev as l, Linked heap prev as l → Prop}
    (nil : ∀ prev, motive prev [] [] trivial)
    (cons : ∀ prev a as x l n (hn : heap.node a = some n) (hprev : n.prev = prev)
      (hnext : n.next = as.head?) (hc : Carries n x) (hl : Linked heap (some a) as l),
      motive (some a) as l hl → motive prev (a :: as) (x :: l) ⟨⟨n, hn, hprev, hnext, hc⟩, hl⟩)
    {prev : Option ℕ} {as : List ℕ} {l : List MpmcItem} (h : Linked heap prev as l) :
    motive prev as l h := by
  induction as generalizing prev l with
  | nil =>
    cases l with
    | nil => exact nil prev
    | cons x l => exact absurd h id
  | cons a as ih =>
    cases l with
    | nil => exact absurd h id
    | cons x l =>
      obtain ⟨⟨n, hn, hprev, hnext, hc⟩, hl⟩ := h
      exact cons prev a as x l n hn hprev hnext hc hl (ih hl)

theorem Linked.length_eq (h : Linked heap prev as l) : as.length = l.length := by
  induction h using Linked.induction with
  | nil => rfl
  | cons prev a as x l n hn hprev hnext hc hl ih => rw [List.length_cons, List.length_cons, ih]

/-- Only the nodes at the addresses matter. -/
theorem Linked.congr (h : Linked heap prev as l)
    (heq : ∀ b ∈ as, heap'.node b = heap.node b) : Linked heap' prev as l := by
  induction h using Linked.induction with
  | nil => trivial
  | cons prev b as x l n hn hprev hnext hc hl ih =>
    refine ⟨⟨n, ?_, hprev, hnext, hc⟩, ih fun d hd => heq d (List.mem_cons_of_mem b hd)⟩
    rw [heq b List.mem_cons_self]
    exact hn

theorem Linked.exists_node (h : Linked heap prev as l) {b : ℕ} (hb : b ∈ as) :
    ∃ n, heap.node b = some n := by
  induction h using Linked.induction with
  | nil => exact absurd hb List.not_mem_nil
  | cons prev c as x l n hn hprev hnext hc hl ih =>
    rcases List.mem_cons.1 hb with rfl | hb
    · exact ⟨n, hn⟩
    · exact ih hb

/-- Redirecting the back pointer of the first node. -/
theorem Linked.setPrev (h : Linked heap prev (a :: as) (x :: l)) (ha : a ∉ as)
    (prev' : Option ℕ) :
    Linked (heap.store a { heap.get a with prev := prev' }) prev' (a :: as) (x :: l) := by
  obtain ⟨⟨n, hn, -, hnext, hc⟩, hl⟩ := h
  refine ⟨⟨_, Heap.node_store_self _ _ _, rfl, ?_, ?_⟩, ?_⟩
  · rw [Heap.get_of_node hn]; exact hnext
  · rw [Heap.get_of_node hn]; exact ⟨hc.item, hc.size⟩
  · exact hl.congr fun b hb => Heap.node_store_of_ne _ _ fun hba => ha (hba ▸ hb)

/-- Appending a node: the last node's forward pointer is redirected to it. -/
theorem Linked.snoc (h : Linked heap prev as l) (hnd : as.Nodup)
    (heq : ∀ b ∈ as, heap'.node b = (heap.node b).map fun n =>
      if as.getLast? = some b then { n with next := some a } else n)
    {n : MpmcNode} (hn : heap'.node a = some n) (hprev : n.prev = as.getLast?.or prev)
    (hnext : n.next = none) (hc : Carries n x) : Linked heap' prev (as ++ [a]) (l ++ [x]) := by
  induction as generalizing prev l with
  | nil =>
    cases l with
    | nil => exact ⟨⟨n, hn, by simpa using hprev, hnext, hc⟩, trivial⟩
    | cons y l => exact absurd h id
  | cons b as ih =>
    cases l with
    | nil => exact absurd h id
    | cons y l =>
      obtain ⟨⟨m, hm, hmp, hmn, hmc⟩, hl⟩ := h
      rw [List.nodup_cons] at hnd
      cases as with
      | nil =>
        cases l with
        | cons y' l => exact absurd hl id
        | nil =>
          have hb := heq b List.mem_cons_self
          rw [hm] at hb
          simp only [List.getLast?_singleton, Option.map_some, if_true] at hb
          exact ⟨⟨_, hb, hmp, rfl, ⟨hmc.item, hmc.size⟩⟩,
            ⟨n, hn, by simpa using hprev, hnext, hc⟩, trivial⟩
      | cons c as =>
        have hlast : (b :: c :: as).getLast? = (c :: as).getLast? := List.getLast?_cons_cons
        have hb := heq b List.mem_cons_self
        have hne : ¬ (c :: as).getLast? = some b := by
          intro hcb
          exact hnd.1 (List.mem_of_getLast? hcb)
        rw [hm, hlast] at hb
        simp only [Option.map_some, if_neg hne] at hb
        refine ⟨⟨m, hb, hmp, hmn, hmc⟩, ih hl hnd.2 (fun d hd => ?_) ?_⟩
        · rw [heq d (List.mem_cons_of_mem b hd), hlast]
        · rw [hprev, hlast]
          simp [List.getLast?_cons]

end Linked

section Chain

variable {q : MpmcQueue} {a : ℕ} {as : List ℕ} {l : List MpmcItem} {x : MpmcItem}

/-- Changing the drop counter does not touch the list. -/
theorem Chain.withDropped (hq : q.Chain as l) (n : ℕ) :
    ({ q with droppedCount := n } : MpmcQueue).Chain as l :=
  { mode := hq.mode, linked := hq.linked, nodup := hq.nodup, old := hq.old, head := hq.head,
    tail := hq.tail, count := hq.count, bytes := hq.bytes, bound := hq.bound }

/-- **Unlinking the head node.** -/
theorem Chain.unlinkHead (hq : q.Chain (a :: as) (x :: l)) :
    (q.unlinkHead a).Chain as l ∧ SameConfig q (q.unlinkHead a) ∧
      (q.unlinkHead a).droppedCount = q.droppedCount ∧
      (q.unlinkHead a).heap.brk = q.heap.brk ∧ itemOf (q.heap.get a) = x := by
  obtain ⟨⟨n, hn, -, hnext, hc⟩, hl⟩ := hq.linked
  have hget := Heap.get_of_node hn
  have hnd := List.nodup_cons.1 hq.nodup
  have hbytes := hq.bytes
  have hbound := hq.bound
  rw [Deque.total_cons] at hbytes hbound
  have hsub : q.currentBytes - (q.heap.get a).allocatedSize = Deque.total itemBytes l := by
    rw [hbytes, hget, hc.size]; omega
  have hcount : q.count - 1 = l.length := by rw [hq.count, List.length_cons]; omega
  have hold : ∀ b ∈ as, b < q.heap.brk := fun b hb => hq.old b (List.mem_cons_of_mem a hb)
  cases as with
  | nil =>
    have hl0 : l = [] := List.length_eq_zero_iff.1 (by simpa using hl.length_eq.symm)
    have hu : q.unlinkHead a = { q with
        nodeHead := none
        nodeTail := none
        currentBytes := q.currentBytes - (q.heap.get a).allocatedSize
        count := q.count - 1
        heap := q.heap.free a } := by
      rw [MpmcQueue.unlinkHead, hget, hnext]; rfl
    rw [hu]
    refine ⟨?_, ⟨rfl, rfl, rfl, rfl, rfl⟩, rfl, rfl, by rw [hget]; exact hc.item⟩
    exact
      { mode := hq.mode
        linked := by rw [hl0]; trivial
        nodup := List.nodup_nil
        old := hold
        head := rfl
        tail := rfl
        count := hcount
        bytes := hsub
        bound := by simp only; omega }
  | cons b as =>
    cases l with
    | nil => exact absurd hl id
    | cons y l =>
      have hu : q.unlinkHead a = { q with
          nodeHead := some b
          currentBytes := q.currentBytes - (q.heap.get a).allocatedSize
          count := q.count - 1
          heap := (q.heap.store b { q.heap.get b with prev := none }).free a } := by
        rw [MpmcQueue.unlinkHead, hget, hnext]; rfl
      rw [hu]
      refine ⟨?_, ⟨rfl, rfl, rfl, rfl, rfl⟩, rfl, rfl, by rw [hget]; exact hc.item⟩
      have hset := hl.setPrev (List.nodup_cons.1 hnd.2).1 none
      exact
        { mode := hq.mode
          linked := hset.congr fun c hc' => Heap.node_free_of_ne _ fun hca => hnd.1 (hca ▸ hc')
          nodup := hnd.2
          old := hold
          head := rfl
          tail := by rw [← List.getLast?_cons_cons (a := a)]; exact hq.tail
          count := hcount
          bytes := hsub
          bound := by simp only; omega }

/-- **The eviction loop under `dropLast`** removes the shortest prefix that makes the item fit. -/
theorem Chain.makeRoom_of_dropLast {needed : ℕ} (hpolicy : q.fullPolicy = .dropLast)
    (hneed : needed ≤ q.maxBytes) (fuel : ℕ) (hfuel : l.length < fuel) (hq : q.Chain as l) :
    ∃ q' as', q.makeRoom fuel needed = (true, q') ∧
      q'.Chain as' (Deque.evict itemBytes (q.maxBytes - needed) l) ∧ SameConfig q q' ∧
      q'.heap.brk = q.heap.brk ∧
      q'.count + q'.droppedCount = q.count + q.droppedCount := by
  -- each turn that evicts shortens the list, so the list bounds the fuel
  induction fuel generalizing q as l with
  | zero => omega
  | succ fuel ih =>
    by_cases hover : q.currentBytes + needed > q.maxBytes
    · cases l with
      | nil => have := hq.bytes; simp at this; omega
      | cons x l =>
        cases as with
        | nil => exact absurd hq.linked id
        | cons a as =>
          obtain ⟨h1, h2, h3, h4, -⟩ := hq.unlinkHead
          have hrun : q.makeRoom (fuel + 1) needed = makeRoom fuel needed
              { q.unlinkHead a with droppedCount := (q.unlinkHead a).droppedCount + 1 } := by
            have hh : q.nodeHead = some a := hq.head
            rw [makeRoom, if_pos hover]
            simp only [hpolicy, hh]
          obtain ⟨q', as', hrun', hc', hcfg, hbrk, hcnt⟩ :=
            @ih { q.unlinkHead a with droppedCount := (q.unlinkHead a).droppedCount + 1 } as l
              (h2.policy.trans hpolicy) (le_of_le_of_eq hneed h2.maxBytes.symm)
              (by rw [List.length_cons] at hfuel; omega) (h1.withDropped _)
          have hmax : (q.unlinkHead a).maxBytes = q.maxBytes := h2.maxBytes
          refine ⟨q', as', by rw [hrun, hrun'], ?_, ?_, hbrk.trans h4, ?_⟩
          · rw [Deque.evict_cons_of_lt (by rw [← hq.bytes]; omega), ← hmax]
            exact hc'
          · exact h2.trans ⟨hcfg.mode, hcfg.policy, hcfg.capacity, hcfg.maxBytes, hcfg.mallocOk⟩
          · have hcount := h1.count
            have hcount' := hq.count
            rw [List.length_cons] at hcount'
            rw [hcnt]
            show (q.unlinkHead a).count + ((q.unlinkHead a).droppedCount + 1) = _
            omega
    · have hrun : q.makeRoom (fuel + 1) needed = (true, q) := by rw [makeRoom, if_neg hover]
      refine ⟨q, as, hrun, ?_, SameConfig.refl q, rfl, rfl⟩
      rw [Deque.evict_of_le (by rw [← hq.bytes]; omega)]
      exact hq

theorem carries_nodeOf (x : MpmcItem) (prev next : Option ℕ) :
    Carries (nodeOf x prev next) x.trim :=
  ⟨by simp [itemOf, nodeOf, MpmcItem.trim], rfl⟩

theorem Chain.nil_of_nil (hq : q.Chain [] l) : l = [] :=
  List.length_eq_zero_iff.1 hq.linked.length_eq.symm

/-- The first node of an empty queue, which is linked in the same way at either end. -/
theorem Chain.linkFirst (hq : q.Chain [] []) (ha : a < q.heap.brk)
    (hfit : itemBytes x ≤ q.maxBytes) :
    ({ q with
        heap := q.heap.store a (nodeOf x none none)
        nodeHead := some a
        nodeTail := some a
        count := q.count + 1
        currentBytes := q.currentBytes + itemBytes x } : MpmcQueue).Chain [a] [x.trim] where
  mode := hq.mode
  linked := ⟨⟨_, Heap.node_store_self _ _ _, rfl, rfl, carries_nodeOf x none none⟩, trivial⟩
  nodup := List.nodup_singleton a
  old := fun b hb => by rw [List.mem_singleton.1 hb]; exact ha
  head := rfl
  tail := rfl
  count := by show q.count + 1 = _; rw [hq.count]; rfl
  bytes := by show q.currentBytes + itemBytes x = _; rw [hq.bytes]; exact Nat.add_comm _ _
  bound := hfit

/-- **Linking a node at the tail.** -/
theorem Chain.linkBack (hq : q.Chain as l) (hnew : a ∉ as) (ha : a < q.heap.brk)
    (hfit : Deque.total itemBytes l + itemBytes x ≤ q.maxBytes) :
    ((linkBack x q a).counted (itemBytes x)).Chain (as ++ [a]) (l ++ [x.trim]) := by
  have hold : ∀ b ∈ as ++ [a], b < q.heap.brk := by
    intro b hb
    rcases List.mem_append.1 hb with hb | hb
    · exact hq.old b hb
    · rw [List.mem_singleton.1 hb]; exact ha
  have hnd : (as ++ [a]).Nodup := by
    rw [List.nodup_append]
    exact ⟨hq.nodup, List.nodup_singleton a, fun b hb c hc hbc =>
      hnew (by rw [← List.mem_singleton.1 hc, ← hbc]; exact hb)⟩
  have htrim : itemBytes x.trim = itemBytes x := rfl
  have hbytes : q.currentBytes + itemBytes x = Deque.total itemBytes (l ++ [x.trim]) := by
    rw [hq.bytes, Deque.total_append, Deque.total_cons, Deque.total_nil, htrim, Nat.add_zero]
  have hbound : Deque.total itemBytes (l ++ [x.trim]) ≤ q.maxBytes := by
    rw [← hbytes, hq.bytes]; exact hfit
  cases htail : q.nodeTail with
  | none =>
    have has : as = [] := by
      rw [hq.tail] at htail
      exact List.getLast?_eq_none_iff.1 htail
    subst has
    obtain rfl := hq.nil_of_nil
    have hrun : (MpmcQueue.linkBack x q a).counted (itemBytes x) = { q with
        heap := q.heap.store a (nodeOf x none none)
        nodeHead := some a
        nodeTail := some a
        count := q.count + 1
        currentBytes := q.currentBytes + itemBytes x } := by
      simp only [MpmcQueue.linkBack, counted, htail]
    rw [hrun]
    exact hq.linkFirst ha hbound
  | some t =>
    have ht : as.getLast? = some t := by rw [← hq.tail]; exact htail
    have hta : t ≠ a := fun h => hnew (h ▸ List.mem_of_getLast? ht)
    set h₁ := q.heap.store a (nodeOf x (some t) none) with hh₁
    set h₂ := h₁.store t { h₁.get t with next := some a } with hh₂
    have hrun : (MpmcQueue.linkBack x q a).counted (itemBytes x) = { q with
        heap := h₂
        nodeTail := some a
        count := q.count + 1
        currentBytes := q.currentBytes + itemBytes x } := by
      simp only [MpmcQueue.linkBack, counted, htail]
      rfl
    have hane : as ≠ [] := by
      intro h0
      rw [h0] at ht
      exact absurd ht (by simp)
    rw [hrun]
    exact
      { mode := hq.mode
        linked := by
          refine hq.linked.snoc hq.nodup (fun b hb => ?_)
            ((Heap.node_store_of_ne _ _ hta.symm).trans (Heap.node_store_self _ _ _))
            (by rw [ht]; rfl) rfl (carries_nodeOf x _ _)
          have hba : b ≠ a := fun h => hnew (h ▸ hb)
          have hb₁ : h₁.node b = q.heap.node b := Heap.node_store_of_ne _ _ hba
          obtain ⟨m, hm⟩ := hq.linked.exists_node hb
          by_cases hbt : b = t
          · have hget : h₁.get t = m := Heap.get_of_node (hbt ▸ hb₁.trans hm)
            rw [hm, hbt, hh₂, Heap.node_store_self, hget]
            simp [ht]
          · rw [hh₂, Heap.node_store_of_ne _ _ hbt, hb₁, hm]
            simp [ht, Ne.symm hbt]
        nodup := hnd
        old := hold
        head := by rw [List.head?_append_of_ne_nil _ hane]; exact hq.head
        tail := by simp
        count := by show q.count + 1 = _; rw [hq.count]; simp
        bytes := hbytes
        bound := hbound }

/-- **Linking a node at the head.** -/
theorem Chain.linkFront (hq : q.Chain as l) (hnew : a ∉ as) (ha : a < q.heap.brk)
    (hfit : Deque.total itemBytes l + itemBytes x ≤ q.maxBytes) :
    ((linkFront x q a).counted (itemBytes x)).Chain (a :: as) (x.trim :: l) := by
  have hold : ∀ b ∈ a :: as, b < q.heap.brk := by
    intro b hb
    rcases List.mem_cons.1 hb with rfl | hb
    · exact ha
    · exact hq.old b hb
  have hnd : (a :: as).Nodup := List.nodup_cons.2 ⟨hnew, hq.nodup⟩
  have htrim : itemBytes x.trim = itemBytes x := rfl
  have hbytes : q.currentBytes + itemBytes x = Deque.total itemBytes (x.trim :: l) := by
    rw [hq.bytes, Deque.total_cons, htrim, Nat.add_comm]
  have hbound : Deque.total itemBytes (x.trim :: l) ≤ q.maxBytes := by
    rw [← hbytes, hq.bytes]; exact hfit
  have hcount : q.count + 1 = (x.trim :: l).length := by rw [hq.count, List.length_cons]
  cases hhead : q.nodeHead with
  | none =>
    have has : as = [] := by
      rw [hq.head] at hhead
      exact List.head?_eq_none_iff.1 hhead
    subst has
    obtain rfl := hq.nil_of_nil
    have hrun : (MpmcQueue.linkFront x q a).counted (itemBytes x) = { q with
        heap := q.heap.store a (nodeOf x none none)
        nodeHead := some a
        nodeTail := some a
        count := q.count + 1
        currentBytes := q.currentBytes + itemBytes x } := by
      simp only [MpmcQueue.linkFront, counted, hhead]
    rw [hrun]
    exact hq.linkFirst ha hbound
  | some b =>
    cases as with
    | nil => rw [hq.head] at hhead; exact absurd hhead (by simp)
    | cons c as =>
      cases l with
      | nil => exact absurd hq.linked id
      | cons y l =>
        have hbc : c = b := by
          rw [hq.head] at hhead
          exact Option.some.inj hhead
        subst hbc
        have hca : c ≠ a := fun h => hnew (h ▸ List.mem_cons_self)
        set h₁ := q.heap.store a (nodeOf x none (some c)) with hh₁
        have hrun : (MpmcQueue.linkFront x q a).counted (itemBytes x) = { q with
            heap := h₁.store c { h₁.get c with prev := some a }
            nodeHead := some a
            count := q.count + 1
            currentBytes := q.currentBytes + itemBytes x } := by
          simp only [MpmcQueue.linkFront, counted, hhead]
          rfl
        have hsame : ∀ d ∈ c :: as, h₁.node d = q.heap.node d := fun d hd =>
          Heap.node_store_of_ne _ _ fun h => hnew (h ▸ hd)
        rw [hrun]
        exact
          { mode := hq.mode
            linked := ⟨⟨_, (Heap.node_store_of_ne _ _ hca.symm).trans (Heap.node_store_self _ _ _),
              rfl, rfl, carries_nodeOf x none _⟩,
              (hq.linked.congr hsame).setPrev (List.nodup_cons.1 hq.nodup).1 (some a)⟩
            nodup := hnd
            old := hold
            head := rfl
            tail := by rw [List.getLast?_cons_cons]; exact hq.tail
            count := hcount
            bytes := hbytes
            bound := hbound }

/-- What both pushes do to the list: `place` is the list operation of the end they link. -/
def DynPush (q : MpmcQueue) (l : List MpmcItem) (x : MpmcItem)
    (place : List MpmcItem → List MpmcItem) (r : Bool × MpmcQueue) : Prop :=
  let spec := Deque.push itemBytes q.maxBytes (decide (q.fullPolicy = .dropLast))
    (q.heap.mallocOk q.heap.brk) place (itemBytes x) l
  r.1 = spec.1 ∧ r.2.DynRep spec.2 ∧ SameConfig q r.2 ∧
    r.2.count + r.2.droppedCount = q.count + q.droppedCount + 1 ∧
    r.2.heap.brk = q.heap.brk +
      if Deque.Admits itemBytes q.maxBytes (decide (q.fullPolicy = .dropLast)) (itemBytes x) l
      then 1 else 0

/-- With room made, the node is allocated and linked, or the allocation fails. -/
theorem Chain.alloc (hq : q.Chain as l)
    (place : List MpmcItem → List MpmcItem) (link : MpmcQueue → ℕ → MpmcQueue)
    (hlink : ∀ {q' a}, q'.Chain as l → a ∉ as → a < q'.heap.brk → q'.maxBytes = q.maxBytes →
      ((link q' a).counted (itemBytes x)).DynRep (place l) ∧ SameConfig q' (link q' a) ∧
        (link q' a).count = q'.count ∧ (link q' a).droppedCount = q'.droppedCount ∧
        (link q' a).heap.brk = q'.heap.brk)
    {r : Bool × MpmcQueue} (hr : r = q.allocNode (itemBytes x) link) :
    r.1 = q.heap.mallocOk q.heap.brk ∧
      r.2.DynRep (if q.heap.mallocOk q.heap.brk then place l else l) ∧ SameConfig q r.2 ∧
      r.2.count + r.2.droppedCount = q.count + q.droppedCount + 1 ∧
      r.2.heap.brk = q.heap.brk + 1 := by
  have hold : ∀ b ∈ as, b < q.heap.brk + 1 := fun b hb => by have := hq.old b hb; omega
  have hq' : ({ q with heap := { q.heap with brk := q.heap.brk + 1 } } : MpmcQueue).Chain as l :=
    { mode := hq.mode, linked := hq.linked.congr fun _ _ => rfl, nodup := hq.nodup, old := hold,
      head := hq.head, tail := hq.tail, count := hq.count, bytes := hq.bytes, bound := hq.bound }
  unfold allocNode Heap.malloc at hr
  cases hok : q.heap.mallocOk q.heap.brk with
  | false =>
    simp only [hok, Bool.false_eq_true, if_false] at hr
    rw [hr]
    exact ⟨rfl, ⟨as, hq'.withDropped _⟩, ⟨rfl, rfl, rfl, rfl, rfl⟩, by simp only; omega, rfl⟩
  | true =>
    simp only [hok, if_true] at hr
    have hnot : q.heap.brk ∉ as := fun h => by have := hq.old _ h; omega
    obtain ⟨h1, h2, h3, h4, h5⟩ := hlink hq' hnot (Nat.lt_succ_self _) rfl
    rw [hr]
    refine ⟨rfl, h1, ⟨h2.mode, h2.policy, h2.capacity, h2.maxBytes, h2.mallocOk⟩, ?_, h5⟩
    show (link _ _).count + 1 + (link _ _).droppedCount = _
    rw [h3, h4]
    simp only
    omega

/-- A push is a push on the list, once its link is known to be. -/
theorem DynRep.push (hq : q.DynRep l) (x : MpmcItem) (place : List MpmcItem → List MpmcItem)
    (link : MpmcQueue → ℕ → MpmcQueue)
    (hlink : ∀ {q' as' l' a}, q'.Chain as' l' → a ∉ as' → a < q'.heap.brk →
      Deque.total itemBytes l' + itemBytes x ≤ q'.maxBytes →
      ((link q' a).counted (itemBytes x)).DynRep (place l') ∧ SameConfig q' (link q' a) ∧
        (link q' a).count = q'.count ∧ (link q' a).droppedCount = q'.droppedCount ∧
        (link q' a).heap.brk = q'.heap.brk) :
    DynPush q l x place (q.pushNode (itemBytes x) link) := by
  obtain ⟨as, hq⟩ := hq
  unfold DynPush
  dsimp only
  by_cases hneed : itemBytes x ≤ q.maxBytes
  · by_cases hroom : q.fullPolicy = .dropLast ∨
        Deque.total itemBytes l + itemBytes x ≤ q.maxBytes
    · -- room can be made: by evicting, or because the item fits as it is
      obtain ⟨q', as', hrun, hc', hcfg, hbrk, hcnt⟩ :
          ∃ q' as', q.makeRoom (q.count + 1) (itemBytes x) = (true, q') ∧
            q'.Chain as' (Deque.evict itemBytes (q.maxBytes - itemBytes x) l) ∧
            SameConfig q q' ∧ q'.heap.brk = q.heap.brk ∧
            q'.count + q'.droppedCount = q.count + q.droppedCount := by
        by_cases hp : q.fullPolicy = .dropLast
        · exact hq.makeRoom_of_dropLast hp hneed (q.count + 1) (by rw [hq.count]; omega)
        · have hfit := hroom.resolve_left hp
          refine ⟨q, as, ?_, ?_, SameConfig.refl q, rfl, rfl⟩
          · rw [makeRoom, if_neg (by rw [hq.bytes]; omega)]
          · rw [Deque.evict_of_le (by omega)]; exact hq
      have hfit : Deque.total itemBytes (Deque.evict itemBytes (q.maxBytes - itemBytes x) l) +
          itemBytes x ≤ q'.maxBytes := by
        have hle : Deque.total itemBytes (Deque.evict itemBytes (q.maxBytes - itemBytes x) l) ≤
            q.maxBytes - itemBytes x := Deque.total_evict_le _ _
        rw [hcfg.maxBytes]
        omega
      have hpush : q.pushNode (itemBytes x) link = q'.allocNode (itemBytes x) link := by
        rw [pushNode, if_neg (not_lt.2 hneed), hrun]
      obtain ⟨h1, h2, h3, h4, h5⟩ := hc'.alloc place link
        (fun hq₁ hnew ha hmax => hlink hq₁ hnew ha (by rw [hmax]; exact hfit)) hpush
      rw [hcfg.mallocOk, hbrk] at h1 h2
      have hadm : Deque.Admits itemBytes q.maxBytes (decide (q.fullPolicy = .dropLast))
          (itemBytes x) l := ⟨hneed, hroom.imp_left decide_eq_true⟩
      rw [Deque.push, if_pos hadm, if_pos hadm]
      refine ⟨?_, ?_, hcfg.trans h3, by omega, by rw [h5, hbrk]⟩
      · rw [h1]; split_ifs with hok <;> simp [hok]
      · split_ifs at h2 ⊢ with hok <;> exact h2
    · -- `dropNew`, and the item does not fit
      have hover : q.currentBytes + itemBytes x > q.maxBytes := by
        rw [hq.bytes]
        exact not_le.1 (not_or.1 hroom).2
      have hrun : q.makeRoom (q.count + 1) (itemBytes x) =
          (false, { q with droppedCount := q.droppedCount + 1 }) := by
        rw [makeRoom, if_pos hover]
        split
        · next hp _ => exact absurd hp (not_or.1 hroom).1
        · rfl
      have hadm : ¬ Deque.Admits itemBytes q.maxBytes (decide (q.fullPolicy = .dropLast))
          (itemBytes x) l := fun h => hroom (h.2.imp_left of_decide_eq_true)
      rw [pushNode, if_neg (not_lt.2 hneed), hrun, Deque.push, if_neg hadm, if_neg hadm]
      exact ⟨rfl, ⟨as, hq.withDropped _⟩, ⟨rfl, rfl, rfl, rfl, rfl⟩, by simp only; omega, rfl⟩
  · have hadm : ¬ Deque.Admits itemBytes q.maxBytes (decide (q.fullPolicy = .dropLast))
        (itemBytes x) l := fun h => hneed h.1
    rw [pushNode, if_pos (not_le.1 hneed), Deque.push, if_neg hadm, if_neg hadm]
    exact ⟨rfl, ⟨as, hq.withDropped _⟩, ⟨rfl, rfl, rfl, rfl, rfl⟩, by simp only; omega, rfl⟩

theorem sameConfig_linkBack (x : MpmcItem) (q : MpmcQueue) (a : ℕ) :
    SameConfig q (linkBack x q a) ∧ (linkBack x q a).count = q.count ∧
      (linkBack x q a).droppedCount = q.droppedCount ∧
      (linkBack x q a).heap.brk = q.heap.brk := by
  unfold linkBack
  dsimp only
  split <;> exact ⟨⟨rfl, rfl, rfl, rfl, rfl⟩, rfl, rfl, rfl⟩

theorem sameConfig_linkFront (x : MpmcItem) (q : MpmcQueue) (a : ℕ) :
    SameConfig q (linkFront x q a) ∧ (linkFront x q a).count = q.count ∧
      (linkFront x q a).droppedCount = q.droppedCount ∧
      (linkFront x q a).heap.brk = q.heap.brk := by
  unfold linkFront
  dsimp only
  split <;> exact ⟨⟨rfl, rfl, rfl, rfl, rfl⟩, rfl, rfl, rfl⟩

/-- **`mpmc_push_back_locked` appends.** -/
theorem DynRep.pushBackLocked (hq : q.DynRep l) (hx : x.len.toNat ≤ maxPayloadSize) :
    DynPush q l x (· ++ [x.trim]) (q.pushBackLocked x) := by
  have hrun : q.pushBackLocked x = q.pushNode (itemBytes x) (linkBack x) := by
    obtain ⟨as, hq⟩ := hq
    simp only [MpmcQueue.pushBackLocked, if_neg (not_lt.2 hx), hq.mode]
  rw [hrun]
  exact hq.push x _ _ fun hc hnew ha hfit =>
    ⟨⟨_, hc.linkBack hnew ha hfit⟩, sameConfig_linkBack x _ _⟩

/-- **`mpmc_push_front_locked` prepends.** -/
theorem DynRep.pushFrontLocked (hq : q.DynRep l) (hx : x.len.toNat ≤ maxPayloadSize) :
    DynPush q l x (x.trim :: ·) (q.pushFrontLocked x) := by
  have hrun : q.pushFrontLocked x = q.pushNode (itemBytes x) (linkFront x) := by
    obtain ⟨as, hq⟩ := hq
    simp only [MpmcQueue.pushFrontLocked, if_neg (not_lt.2 hx), hq.mode]
  rw [hrun]
  exact hq.push x _ _ fun hc hnew ha hfit =>
    ⟨⟨_, hc.linkFront hnew ha hfit⟩, sameConfig_linkFront x _ _⟩

/-- **`mpmc_pop_head_locked` returns and removes the first element.** -/
theorem DynRep.popHeadLocked (hq : q.DynRep l) :
    q.popHeadLocked.1 = l.head? ∧ q.popHeadLocked.2.DynRep l.tail ∧
      SameConfig q q.popHeadLocked.2 ∧ q.popHeadLocked.2.droppedCount = q.droppedCount := by
  obtain ⟨as, hq⟩ := hq
  have hcount := hq.count
  cases l with
  | nil =>
    have hrun : q.popHeadLocked = (none, q) := if_pos hcount
    rw [hrun]
    exact ⟨rfl, ⟨as, hq⟩, SameConfig.refl q, rfl⟩
  | cons x l =>
    cases as with
    | nil => exact absurd hq.linked id
    | cons a as =>
      obtain ⟨h1, h2, h3, -, h5⟩ := hq.unlinkHead
      have hhead : q.nodeHead = some a := hq.head
      have hrun : q.popHeadLocked = (some (itemOf (q.heap.get a)), q.unlinkHead a) := by
        unfold MpmcQueue.popHeadLocked
        rw [if_neg (by rw [hcount, List.length_cons]; omega)]
        simp only [hq.mode, hhead]
      rw [hrun]
      exact ⟨congrArg some h5, ⟨as, h1⟩, h2, h3⟩

/-- A queue created in the dynamic mode is an empty list. -/
theorem init_dynamic {fullPolicy : QueueFullPolicy} {capacity maxBytes : ℕ} {mallocRing : Bool}
    {mallocOk : ℕ → Bool}
    (hinit : init .dynamic fullPolicy capacity maxBytes mallocRing mallocOk = some q) :
    q.DynRep [] ∧ q.fullPolicy = fullPolicy ∧ q.droppedCount = 0 := by
  simp only [init, Option.some.injEq] at hinit
  subst hinit
  exact
    ⟨⟨[], { mode := rfl, linked := trivial, nodup := List.nodup_nil, old := by simp, head := rfl,
            tail := rfl, count := rfl, bytes := rfl, bound := Nat.zero_le _ }⟩, rfl, rfl⟩

end Chain

end MpmcQueue

end Rel4u
