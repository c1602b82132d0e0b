import Rel4u.Wire.Packet

/-!
# The message queue (`rel4u_mpmc.h`, `rel4u_mpmc.c`)

Application threads and the worker exchange messages through a mutex-protected queue. Every
operation is a critical section of one mutex, so an operation is a function on the queue state
and a history of any number of threads is a sequence of operations.

The queue has two memory modes that share one record, as in the source:

* fixed: a ring `items` of `capacity` cells, read from `head`, written at `tail`;
* dynamic: a doubly linked list of heap nodes from `nodeHead` to `nodeTail`, each node sized to
  its message, bounded by `maxBytes`.

When a message does not fit, `fullPolicy` either refuses it (`dropNew`) or evicts messages from
the head until it fits (`dropLast`). The outcome of `malloc` is not the queue's to decide: the
heap carries an arbitrary stream of outcomes, consumed one per call.

`size_t` quantities are natural numbers: indices stay below `capacity`, and the byte counts below
`maxBytes` plus one node.
-/

namespace Rel4u

/-- `rel4u_mpmc_item_t`. -/
structure MpmcItem where
  clientId : UInt32
  mode : UInt8
  len : UInt16
  data : List UInt8
  deriving DecidableEq, Repr, Inhabited

/-- The part of an item a reader can see: its first `len` bytes. -/
def MpmcItem.trim (x : MpmcItem) : MpmcItem := { x with data := x.data.take x.len.toNat }

/-- `rel4u_mpmc_node_t`; pointers are heap addresses, `none` is `NULL`. -/
structure MpmcNode where
  clientId : UInt32
  mode : UInt8
  len : UInt16
  allocatedSize : ℕ
  prev : Option ℕ
  next : Option ℕ
  data : List UInt8
  deriving DecidableEq, Repr, Inhabited

/-- `sizeof(rel4u_mpmc_item_t)`. -/
def sizeofItem : ℕ := 9224

/-- `sizeof(rel4u_mpmc_node_t)`. -/
def sizeofNode : ℕ := 32

/-- The nodes of one queue on the heap, the next address `malloc` will hand out, and the outcome
of each call of `malloc`. -/
structure Heap where
  node : ℕ → Option MpmcNode
  brk : ℕ
  mallocOk : ℕ → Bool

namespace Heap

/-- A heap on which no call has been made. -/
def empty (mallocOk : ℕ → Bool) : Heap := ⟨fun _ => none, 0, mallocOk⟩

/-- `*a`. -/
def get (h : Heap) (a : ℕ) : MpmcNode := (h.node a).getD default

/-- `*a = n`. -/
def store (h : Heap) (a : ℕ) (n : MpmcNode) : Heap :=
  { h with node := Function.update h.node a (some n) }

/-- `malloc`: a fresh address, or `NULL`. -/
def malloc (h : Heap) : Option ℕ × Heap :=
  (if h.mallocOk h.brk then some h.brk else none, { h with brk := h.brk + 1 })

/-- `free(a)`. -/
def free (h : Heap) (a : ℕ) : Heap := { h with node := Function.update h.node a none }

end Heap

/-- `rel4u_memory_mode_t`. -/
inductive MemoryMode
  | fixed
  | dynamic
  deriving DecidableEq, Repr

/-- `rel4u_queue_full_policy_t`. -/
inductive QueueFullPolicy
  | dropNew
  | dropLast
  deriving DecidableEq, Repr

/-- `rel4u_mpmc_queue_t`, without the mutex, the condition variable and its wake-up counter. -/
structure MpmcQueue where
  mode : MemoryMode
  fullPolicy : QueueFullPolicy
  maxBytes : ℕ
  currentBytes : ℕ
  droppedCount : ℕ
  items : List MpmcItem
  capacity : ℕ
  head : ℕ
  tail : ℕ
  heap : Heap
  nodeHead : Option ℕ
  nodeTail : Option ℕ
  count : ℕ

namespace MpmcQueue

/-- `rel4u_mpmc_init`; `mallocRing` is the outcome of the allocation of the ring, and `mallocOk`
those of the later node allocations. `none` is the return code `-1`. -/
def init (mode : MemoryMode) (fullPolicy : QueueFullPolicy) (capacity maxBytes : ℕ)
    (mallocRing : Bool) (mallocOk : ℕ → Bool) : Option MpmcQueue :=
  let q : MpmcQueue :=
    { mode, fullPolicy, maxBytes := 0, currentBytes := 0, droppedCount := 0, items := [],
      capacity := 0, head := 0, tail := 0, heap := Heap.empty mallocOk, nodeHead := none,
      nodeTail := none, count := 0 }
  match mode with
  | .fixed =>
    if capacity < 2 then none
    else if !mallocRing then none
    else some { q with
      capacity := capacity
      items := List.replicate capacity default
      maxBytes := sizeofItem * capacity
      currentBytes := sizeofItem * capacity }
  | .dynamic =>
    some { q with maxBytes := if maxBytes = 0 then 1024 * 1024 else maxBytes }

/-! ### Removing the head node -/

/-- Unlink the head node `a`, account for its bytes, and free it. The same statements stand in
both eviction loops and in `mpmc_pop_head_locked`. -/
def unlinkHead (q : MpmcQueue) (a : ℕ) : MpmcQueue :=
  let victim := q.heap.get a
  let q := { q with nodeHead := victim.next }
  let q :=
    match q.nodeHead with
    | some b => { q with heap := q.heap.store b { q.heap.get b with prev := none } }
    | none => { q with nodeTail := none }
  { q with
    currentBytes := q.currentBytes - victim.allocatedSize
    count := q.count - 1
    heap := q.heap.free a }

/-- The eviction loop of the dynamic mode: drop head nodes until `needed` more bytes fit. The
boolean is `false` when the loop returned from the push. Each turn removes a node, so the loop
takes at most `count` turns. -/
def makeRoom : ℕ → ℕ → MpmcQueue → Bool × MpmcQueue
  | 0, _, q => (false, q)
  | fuel + 1, needed, q =>
    if q.currentBytes + needed > q.maxBytes then
      match q.fullPolicy, q.nodeHead with
      | .dropLast, some victim =>
        let q := q.unlinkHead victim
        makeRoom fuel needed { q with droppedCount := q.droppedCount + 1 }
      | _, _ => (false, { q with droppedCount := q.droppedCount + 1 })
    else (true, q)

/-- The fullness test of the fixed mode: evict the head cell or refuse. -/
def makeRoomFixed (q : MpmcQueue) : Bool × MpmcQueue :=
  if q.count ≥ q.capacity then
    match q.fullPolicy with
    | .dropLast =>
      (true, { q with
        head := (q.head + 1) % q.capacity
        count := q.count - 1
        droppedCount := q.droppedCount + 1 })
    | .dropNew => (false, { q with droppedCount := q.droppedCount + 1 })
  else (true, q)

/-- The node of an item, before it is linked. -/
def nodeOf (item : MpmcItem) (prev next : Option ℕ) : MpmcNode :=
  { clientId := item.clientId, mode := item.mode, len := item.len,
    allocatedSize := sizeofNode + item.len.toNat, prev, next,
    data := item.data.take item.len.toNat }

/-- `q->count++; q->current_bytes += needed;` -/
def counted (q : MpmcQueue) (needed : ℕ) : MpmcQueue :=
  { q with count := q.count + 1, currentBytes := q.currentBytes + needed }

/-- Allocate the node and link it. -/
def allocNode (q : MpmcQueue) (needed : ℕ) (link : MpmcQueue → ℕ → MpmcQueue) :
    Bool × MpmcQueue :=
  match q.heap.malloc with
  | (none, heap) => (false, { q with heap, droppedCount := q.droppedCount + 1 })
  | (some a, heap) => (true, (link { q with heap } a).counted needed)

/-- The dynamic path shared by the two pushes: refuse what can never fit, make room, allocate,
link. -/
def pushNode (q : MpmcQueue) (needed : ℕ) (link : MpmcQueue → ℕ → MpmcQueue) : Bool × MpmcQueue :=
  if needed > q.maxBytes then (false, { q with droppedCount := q.droppedCount + 1 })
  else
    match q.makeRoom (q.count + 1) needed with
    | (false, q) => (false, q)
    | (true, q) => q.allocNode needed link

/-- The size of an item's node: `sizeof(rel4u_mpmc_node_t) + item->len`. -/
def itemBytes (item : MpmcItem) : ℕ := sizeofNode + item.len.toNat

/-- Append the node at the tail of the list. -/
def linkBack (item : MpmcItem) (q : MpmcQueue) (a : ℕ) : MpmcQueue :=
  let q := { q with heap := q.heap.store a (nodeOf item q.nodeTail none) }
  let q :=
    match q.nodeTail with
    | some t => { q with heap := q.heap.store t { q.heap.get t with next := some a } }
    | none => { q with nodeHead := some a }
  { q with nodeTail := some a }

/-- Prepend the node at the head of the list. -/
def linkFront (item : MpmcItem) (q : MpmcQueue) (a : ℕ) : MpmcQueue :=
  let q := { q with heap := q.heap.store a (nodeOf item none q.nodeHead) }
  let q :=
    match q.nodeHead with
    | some b => { q with heap := q.heap.store b { q.heap.get b with prev := some a } }
    | none => { q with nodeTail := some a }
  { q with nodeHead := some a }

/-- `mpmc_push_back_locked`. -/
def pushBackLocked (q : MpmcQueue) (item : MpmcItem) : Bool × MpmcQueue :=
  if item.len.toNat > maxPayloadSize then (false, q)
  else
    match q.mode with
    | .fixed =>
      match q.makeRoomFixed with
      | (false, q) => (false, q)
      | (true, q) =>
        (true, { q with
          items := q.items.set q.tail item
          tail := (q.tail + 1) % q.capacity
          count := q.count + 1 })
    | .dynamic => q.pushNode (itemBytes item) (linkBack item)

/-- `mpmc_push_front_locked`. -/
def pushFrontLocked (q : MpmcQueue) (item : MpmcItem) : Bool × MpmcQueue :=
  if item.len.toNat > maxPayloadSize then (false, q)
  else
    match q.mode with
    | .fixed =>
      match q.makeRoomFixed with
      | (false, q) => (false, q)
      | (true, q) =>
        let head := if q.head = 0 then q.capacity - 1 else q.head - 1
        (true, { q with
          head := head
          items := q.items.set head item
          count := q.count + 1 })
    | .dynamic => q.pushNode (itemBytes item) (linkFront item)

/-- The item copied out of a node. -/
def itemOf (n : MpmcNode) : MpmcItem :=
  { clientId := n.clientId, mode := n.mode, len := n.len, data := n.data.take n.len.toNat }

/-- `mpmc_pop_head_locked`. -/
def popHeadLocked (q : MpmcQueue) : Option MpmcItem × MpmcQueue :=
  if q.count = 0 then (none, q)
  else
    match q.mode with
    | .fixed =>
      (some (q.items.getD q.head default),
        { q with head := (q.head + 1) % q.capacity, count := q.count - 1 })
    | .dynamic =>
      match q.nodeHead with
      | none => (none, q)
      | some a => (some (itemOf (q.heap.get a)), q.unlinkHead a)

/-! ### The operations -/

/-- `rel4u_mpmc_try_push`. -/
def tryPush (q : MpmcQueue) (item : MpmcItem) : Bool × MpmcQueue := q.pushBackLocked item

/-- `rel4u_mpmc_push_notify`: as `tryPush`, and signals the condition variable. -/
def pushNotify (q : MpmcQueue) (item : MpmcItem) : Bool × MpmcQueue := q.pushBackLocked item

/-- `rel4u_mpmc_push_front`. -/
def pushFront (q : MpmcQueue) (item : MpmcItem) : Bool × MpmcQueue := q.pushFrontLocked item

/-- `rel4u_mpmc_try_pop`. -/
def tryPop (q : MpmcQueue) : Option MpmcItem × MpmcQueue := q.popHeadLocked

/-- `rel4u_mpmc_pop_wait` from the moment it holds the mutex and has stopped waiting: with a
message in the queue it pops, without one it has timed out or been woken. -/
def popWait (q : MpmcQueue) : Option MpmcItem × MpmcQueue :=
  if q.count = 0 then (none, q) else q.popHeadLocked

/-! ### What the operations leave alone -/

/-- What no operation on a queue changes. -/
structure SameConfig (q q' : MpmcQueue) : Prop where
  mode : q'.mode = q.mode
  policy : q'.fullPolicy = q.fullPolicy
  capacity : q'.capacity = q.capacity
  maxBytes : q'.maxBytes = q.maxBytes
  mallocOk : q'.heap.mallocOk = q.heap.mallocOk

theorem SameConfig.refl (q : MpmcQueue) : SameConfig q q := ⟨rfl, rfl, rfl, rfl, rfl⟩

theorem SameConfig.trans {q q' q'' : MpmcQueue} (h : SameConfig q q') (h' : SameConfig q' q'') :
    SameConfig q q'' :=
  ⟨h'.mode.trans h.mode, h'.policy.trans h.policy, h'.capacity.trans h.capacity,
    h'.maxBytes.trans h.maxBytes, h'.mallocOk.trans h.mallocOk⟩

end MpmcQueue

end Rel4u
