import Rel4u.Lib.CondVar
import Rel4u.Queue.Run

/-!
# Waiting for a message

`rel4u_mpmc_pop_wait` sleeps on the queue's condition variable while the queue is empty. Here the
waiting itself is modelled: any number of threads, each in one call, whose steps are interleaved
arbitrarily. A step is what one thread does between taking the mutex and giving it back; a call that
finds nothing gives it back by going to sleep (`CondVar.Waiters.park`), and has it again in
`resume`. The scheduler chooses whom a signal wakes, sleepers may wake for no reason, and a timed
wait may time out at any moment.

* `no_lost_wakeup`: on a queue filled by signalling pushes, no message waits behind a sleeper.
* `wake_all_releases`: after `rel4u_mpmc_wake_all` no call in progress sleeps again.
* `pop_wait_fails_only_if`: a call fails only for one of the three reasons it has.
* `received_in_order`: the threads together receive the messages in the order of the pushes.
-/

namespace Rel4u

open CondVar

/-- A call of `rel4u_mpmc_pop_wait` that found the queue empty: its argument and its local `gen`.
`ticket` numbers the calls. -/
structure PopCall where
  ticket : ℕ
  timeoutMs : Int32
  gen : UInt32
  deriving DecidableEq, Repr

/-- A queue with the threads in it. `calls` is the number of calls of the two pops so far, and
`returned` what they returned, in the order of the returns, by ticket. -/
structure MpmcMonitor where
  queue : MpmcQueue
  wakeGeneration : UInt32
  waiters : Waiters PopCall
  calls : ℕ
  returned : List (ℕ × Option MpmcItem)

/-- A step of some thread, or of the scheduler. `pick` is the sleeper a signal would wake. -/
inductive MonitorEvent
  | tryPush (item : MpmcItem)
  | pushNotify (item : MpmcItem) (pick : PopCall)
  | pushFront (item : MpmcItem) (pick : PopCall)
  | tryPop
  | popWait (timeoutMs : Int32)
  | resume (c : PopCall) (signaled : Bool)
  | spurious (c : PopCall)
  | timeUp (c : PopCall)
  | wakeAll
  deriving DecidableEq

namespace MpmcMonitor

/-- A queue nobody uses yet. -/
def start (q : MpmcQueue) : MpmcMonitor :=
  { queue := q, wakeGeneration := 0, waiters := Waiters.empty, calls := 0, returned := [] }

/-- A push that signals if it succeeds. -/
def notify (s : MpmcMonitor) (r : Bool × MpmcQueue) (pick : PopCall) : Option MpmcMonitor :=
  if r.1 then (s.waiters.signal pick).map fun ws => { s with queue := r.2, waiters := ws }
  else some { s with queue := r.2 }

/-- A new call. -/
def enter (s : MpmcMonitor) : MpmcMonitor := { s with calls := s.calls + 1 }

/-- A call returns what it popped. -/
def answer (s : MpmcMonitor) (ticket : ℕ) (r : Option MpmcItem × MpmcQueue) : MpmcMonitor :=
  { s with queue := r.2, returned := s.returned ++ [(ticket, r.1)] }

/-- A call returns `false` without popping. -/
def giveUp (s : MpmcMonitor) (ticket : ℕ) : MpmcMonitor :=
  { s with returned := s.returned ++ [(ticket, none)] }

/-- A call goes to sleep. -/
def park (s : MpmcMonitor) (c : PopCall) : MpmcMonitor := { s with waiters := s.waiters.park c }

/-- A call has the mutex again. -/
def leave (s : MpmcMonitor) (x : PopCall × Bool) : MpmcMonitor :=
  { s with waiters := s.waiters.leave x }

/-- The test after the wait, when the queue is empty: the call is to return `false`. -/
def mustGiveUp (s : MpmcMonitor) (c : PopCall) (signaled : Bool) : Bool :=
  if c.timeoutMs < 0 then s.wakeGeneration != c.gen
  else !signaled || s.wakeGeneration != c.gen

/-- One step; `none` when it cannot be taken. -/
def exec (s : MpmcMonitor) : MonitorEvent → Option MpmcMonitor
  | .tryPush item => some { s with queue := (s.queue.tryPush item).2 }
  | .pushNotify item pick => s.notify (s.queue.pushNotify item) pick
  | .pushFront item pick => s.notify (s.queue.pushFront item) pick
  | .tryPop => some (s.enter.answer s.calls s.queue.tryPop)
  | .popWait timeoutMs =>
    if s.queue.count = 0 then
      if timeoutMs = 0 then some (s.enter.giveUp s.calls)
      else
        some (s.enter.park { ticket := s.calls, timeoutMs := timeoutMs, gen := s.wakeGeneration })
    else some (s.enter.answer s.calls s.queue.popHeadLocked)
  | .resume c signaled =>
    if (c, signaled) ∈ s.waiters.woken then
      if s.queue.count = 0 then
        if s.mustGiveUp c signaled then some ((s.leave (c, signaled)).giveUp c.ticket)
        else some ((s.leave (c, signaled)).park c)
      else some ((s.leave (c, signaled)).answer c.ticket s.queue.popHeadLocked)
    else none
  | .spurious c =>
    if c ∈ s.waiters.asleep then some { s with waiters := s.waiters.wake c true } else none
  | .timeUp c =>
    if c ∈ s.waiters.asleep ∧ 0 < c.timeoutMs then
      some { s with waiters := s.waiters.wake c false }
    else none
  | .wakeAll =>
    some { s with wakeGeneration := s.wakeGeneration + 1, waiters := s.waiters.broadcast }

/-- A sequence of steps. -/
def run (s : MpmcMonitor) (es : List MonitorEvent) : Option MpmcMonitor := es.foldlM exec s

/-! ### What a step can do -/

/-- A push at one of the two ends that signals, its outcome, and the sleeper to wake. -/
inductive Notifies (q : MpmcQueue) : MonitorEvent → Bool × MpmcQueue → PopCall → Prop
  | pushNotify (item : MpmcItem) (pick : PopCall) :
    Notifies q (.pushNotify item pick) (q.pushBackLocked item) pick
  | pushFront (item : MpmcItem) (pick : PopCall) :
    Notifies q (.pushFront item pick) (q.pushFront item) pick

/-- A sleeper wakes by itself, and what its wait reports. -/
inductive Rouses : MonitorEvent → PopCall → Bool → Prop
  | spurious (c : PopCall) : Rouses (.spurious c) c true
  | timeUp (c : PopCall) (h : 0 < c.timeoutMs) : Rouses (.timeUp c) c false

/-- **What a step can do.** -/
inductive Moves (s : MpmcMonitor) : MonitorEvent → MpmcMonitor → Prop
  | tryPush (item : MpmcItem) :
    Moves s (.tryPush item) { s with queue := (s.queue.pushBackLocked item).2 }
  | pushed (e : MonitorEvent) (r : Bool × MpmcQueue) (pick : PopCall) (ws : Waiters PopCall)
    (he : Notifies s.queue e r pick) (hr : r.1 = true) (hs : s.waiters.signal pick = some ws) :
    Moves s e { s with queue := r.2, waiters := ws }
  | refused (e : MonitorEvent) (r : Bool × MpmcQueue) (pick : PopCall)
    (he : Notifies s.queue e r pick) (hr : r.1 = false) : Moves s e { s with queue := r.2 }
  | tryPop : Moves s .tryPop (s.enter.answer s.calls s.queue.popHeadLocked)
  | foundEmpty (h0 : s.queue.count = 0) : Moves s (.popWait 0) (s.enter.giveUp s.calls)
  | slept (timeoutMs : Int32) (h0 : s.queue.count = 0) (ht : timeoutMs ≠ 0) :
    Moves s (.popWait timeoutMs)
      (s.enter.park { ticket := s.calls, timeoutMs := timeoutMs, gen := s.wakeGeneration })
  | took (timeoutMs : Int32) (h0 : s.queue.count ≠ 0) :
    Moves s (.popWait timeoutMs) (s.enter.answer s.calls s.queue.popHeadLocked)
  | gaveUp (c : PopCall) (signaled : Bool) (hc : (c, signaled) ∈ s.waiters.woken)
    (h0 : s.queue.count = 0) (hg : s.mustGiveUp c signaled = true) :
    Moves s (.resume c signaled) ((s.leave (c, signaled)).giveUp c.ticket)
  | sleptAgain (c : PopCall) (signaled : Bool) (hc : (c, signaled) ∈ s.waiters.woken)
    (h0 : s.queue.count = 0) (hg : s.mustGiveUp c signaled = false) :
    Moves s (.resume c signaled) ((s.leave (c, signaled)).park c)
  | tookLater (c : PopCall) (signaled : Bool) (hc : (c, signaled) ∈ s.waiters.woken)
    (h0 : s.queue.count ≠ 0) :
    Moves s (.resume c signaled) ((s.leave (c, signaled)).answer c.ticket s.queue.popHeadLocked)
  | roused (e : MonitorEvent) (c : PopCall) (signaled : Bool) (he : Rouses e c signaled)
    (hc : c ∈ s.waiters.asleep) : Moves s e { s with waiters := s.waiters.wake c signaled }
  | wakeAll : Moves s .wakeAll
      { s with wakeGeneration := s.wakeGeneration + 1, waiters := s.waiters.broadcast }

variable {s s' : MpmcMonitor} {e : MonitorEvent}

theorem moves_notify {r : Bool × MpmcQueue} {pick : PopCall} (he : Notifies s.queue e r pick)
    (h : s.notify r pick = some s') : Moves s e s' := by
  unfold notify at h
  split_ifs at h with hr
  · obtain ⟨ws, hws, rfl⟩ := Option.map_eq_some_iff.1 h
    exact .pushed e r pick ws he hr hws
  · rw [← Option.some.inj h]
    exact .refused e r pick he (Bool.eq_false_of_not_eq_true hr)

theorem moves_exec (h : s.exec e = some s') : Moves s e s' := by
  cases e with
  | tryPush item => rw [← Option.some.inj h]; exact .tryPush item
  | pushNotify item pick => exact moves_notify (.pushNotify item pick) h
  | pushFront item pick => exact moves_notify (.pushFront item pick) h
  | tryPop => rw [← Option.some.inj h]; exact .tryPop
  | popWait timeoutMs =>
    simp only [exec] at h
    split_ifs at h with h0 ht
    · rw [← Option.some.inj h, ht]
      exact .foundEmpty h0
    · rw [← Option.some.inj h]
      exact .slept timeoutMs h0 ht
    · rw [← Option.some.inj h]
      exact .took timeoutMs h0
  | resume c signaled =>
    simp only [exec] at h
    split_ifs at h with hc h0 hg
    · rw [← Option.some.inj h]
      exact .gaveUp c signaled hc h0 hg
    · rw [← Option.some.inj h]
      exact .sleptAgain c signaled hc h0 (Bool.eq_false_of_not_eq_true hg)
    · rw [← Option.some.inj h]
      exact .tookLater c signaled hc h0
  | spurious c =>
    simp only [exec] at h
    split_ifs at h with hc
    rw [← Option.some.inj h]
    exact .roused _ c true (.spurious c) hc
  | timeUp c =>
    simp only [exec] at h
    split_ifs at h with hc
    rw [← Option.some.inj h]
    exact .roused _ c false (.timeUp c hc.2) hc.1
  | wakeAll => rw [← Option.some.inj h]; exact .wakeAll

/-- **Induction over runs.** What is said of the steps so far and the state they lead to holds at
the beginning and is kept by every step. -/
theorem run_induction {P : List MonitorEvent → MpmcMonitor → Prop} {es : List MonitorEvent}
    (h0 : P [] s) (hstep : ∀ {es s e s'}, P es s → Moves s e s' → P (es ++ [e]) s')
    (h : s.run es = some s') : P es s' := by
  induction es using List.reverseRecOn generalizing s' with
  | nil => rw [← Option.some.inj h]; exact h0
  | append_singleton es e ih =>
    rw [run, List.foldlM_append] at h
    obtain ⟨s₁, hs₁, he⟩ := Option.bind_eq_some_iff.1 h
    rw [List.foldlM_cons] at he
    obtain ⟨s₂, hs₂, hnil⟩ := Option.bind_eq_some_iff.1 he
    rw [← Option.some.inj hnil]
    exact hstep (ih hs₁) (moves_exec hs₂)

@[simp] theorem run_cons (s : MpmcMonitor) (e : MonitorEvent) (es : List MonitorEvent) :
    s.run (e :: es) = (s.exec e).bind fun s₁ => s₁.run es := List.foldlM_cons

/-- A run on a created queue, known by what can be seen of its end. -/
theorem exists_run {α : Type*} {f : MpmcMonitor → α} {created : Option MpmcQueue}
    {es : List MonitorEvent} {a : α}
    (h : (created.bind fun q => (start q).run es).map f = some a) :
    ∃ q s, created = some q ∧ (start q).run es = some s ∧ f s = a := by
  obtain ⟨s, hs, hf⟩ := Option.map_eq_some_iff.1 h
  obtain ⟨q, hq, hrun⟩ := Option.bind_eq_some_iff.1 hs
  exact ⟨q, s, hq, hrun, hf⟩

/-! ### What the steps do to the queue -/

section Queue

variable {q : MpmcQueue} {l : List MpmcItem}

theorem count_notifies_le {r : Bool × MpmcQueue} {pick : PopCall} (hq : q.Rep l)
    (h : Notifies q e r pick) : (∃ l', r.2.Rep l') ∧ r.2.count ≤ q.count + r.1.toNat := by
  cases h with
  | pushNotify item => exact hq.count_pushBack_le item
  | pushFront item => exact hq.count_pushFront_le item

theorem count_pop (hq : q.Rep l) : q.popHeadLocked.2.count = q.count - 1 := by
  rw [hq.pop.2.1.count_eq, hq.count_eq, List.length_tail]

end Queue

/-! ### No message waits behind a sleeper -/

/-- The queue is well formed, and while a thread sleeps there is a woken one for each message. -/
def Attended (s : MpmcMonitor) : Prop :=
  (∃ l, s.queue.Rep l) ∧ s.waiters.Covered s.queue.count

/-- **Every step but the push that does not signal keeps it.** -/
theorem Attended.step (hs : s.Attended) (h : Moves s e s') (he : ∀ item, e ≠ .tryPush item) :
    s'.Attended := by
  obtain ⟨⟨l, hl⟩, hcov⟩ := hs
  have hpop := count_pop hl
  have hrep : ∃ l, s.queue.popHeadLocked.2.Rep l := ⟨_, hl.pop.2.1⟩
  cases h with
  | tryPush item => exact absurd rfl (he item)
  | pushed e r pick ws hn hr hsig =>
    obtain ⟨hrep', hle⟩ := count_notifies_le hl hn
    rw [hr, Bool.toNat_true] at hle
    exact ⟨hrep', (hcov.signal hsig).mono hle⟩
  | refused e r pick hn hr =>
    obtain ⟨hrep', hle⟩ := count_notifies_le hl hn
    rw [hr, Bool.toNat_false] at hle
    exact ⟨hrep', hcov.mono hle⟩
  | tryPop => exact ⟨hrep, hcov.mono (hpop.trans_le (Nat.sub_le _ _))⟩
  | foundEmpty h0 => exact ⟨⟨l, hl⟩, hcov⟩
  | slept timeoutMs h0 ht =>
    refine ⟨⟨l, hl⟩, ?_⟩
    show Waiters.Covered s.queue.count _
    rw [h0]
    exact Waiters.covered_zero _
  | took timeoutMs h0 => exact ⟨hrep, hcov.mono (hpop.trans_le (Nat.sub_le _ _))⟩
  | gaveUp c signaled hc h0 hg =>
    refine ⟨⟨l, hl⟩, ?_⟩
    show Waiters.Covered s.queue.count _
    rw [h0]
    exact Waiters.covered_zero _
  | sleptAgain c signaled hc h0 hg =>
    refine ⟨⟨l, hl⟩, ?_⟩
    show Waiters.Covered s.queue.count _
    rw [h0]
    exact Waiters.covered_zero _
  | tookLater c signaled hc h0 =>
    refine ⟨hrep, ?_⟩
    show Waiters.Covered s.queue.popHeadLocked.2.count _
    rw [hpop]
    exact (hcov.mono (by omega)).leave hc
  | roused e c signaled hr hc => exact ⟨⟨l, hl⟩, hcov.wake hc⟩
  | wakeAll => exact ⟨⟨l, hl⟩, Waiters.covered_broadcast _ _⟩

section Created

variable {q : MpmcQueue} {mode : MemoryMode} {fullPolicy : QueueFullPolicy}
  {capacity maxBytes : ℕ} {mallocRing : Bool} {mallocOk : ℕ → Bool} {es : List MonitorEvent}

/-- **No wake-up is lost.** On a queue that is filled by the signalling pushes only, as both receive
queues are, whatever the threads and the scheduler do: while some receiver sleeps, every message in
the queue has a receiver that is awake and on its way to the mutex. So when none is on its way,
either nobody sleeps or nothing is queued. -/
theorem no_lost_wakeup
    (hinit : MpmcQueue.init mode fullPolicy capacity maxBytes mallocRing mallocOk = some q)
    (hes : ∀ e ∈ es, ∀ item, e ≠ .tryPush item) (hrun : (start q).run es = some s) :
    (s.waiters.asleep ≠ [] → s.queue.count ≤ s.waiters.woken.length) ∧
      (s.waiters.woken = [] → s.waiters.asleep = [] ∨ s.queue.contents = []) := by
  have hstart : (start q).Attended :=
    ⟨⟨[], (MpmcQueue.init_rep hinit).1⟩, fun hne => absurd rfl hne⟩
  have hs : s.Attended := run_induction
    (P := fun es s => (∀ e ∈ es, ∀ item, e ≠ .tryPush item) → s.Attended) (fun _ => hstart)
    (fun {es s e s'} ih h hes => by
      rw [List.forall_mem_append, List.forall_mem_singleton] at hes
      exact (ih hes.1).step h hes.2) hrun hes
  obtain ⟨⟨l, hl⟩, hcov⟩ := hs
  refine ⟨hcov, fun hwoken => ?_⟩
  by_cases hasleep : s.waiters.asleep = []
  · exact Or.inl hasleep
  · right
    have hle := hcov hasleep
    rw [hwoken, hl.count_eq] at hle
    rw [hl.contents_eq]
    exact List.length_eq_zero_iff.1 (Nat.le_zero.1 hle)

theorem no_lost_wakeup_two_receivers : ∃ q s,
    MpmcQueue.init .fixed .dropNew 2 0 true (fun _ => true) = some q ∧
    (start q).run [.popWait (-1), .popWait (-1), .pushNotify default ⟨0, -1, 0⟩] = some s ∧
    s.queue.count = 1 ∧ s.waiters.asleep ≠ [] ∧ s.queue.count ≤ s.waiters.woken.length := by
  have hend : ((MpmcQueue.init .fixed .dropNew 2 0 true fun _ => true).bind fun q =>
      (start q).run [.popWait (-1), .popWait (-1), .pushNotify default ⟨0, -1, 0⟩]).map
        (fun s => (s.queue.count, s.waiters.asleep)) = some (1, [⟨1, -1, 0⟩]) := by
    decide +kernel
  obtain ⟨q, s, hq, hs, hf⟩ := exists_run hend
  rw [Prod.mk.injEq] at hf
  have hasleep : s.waiters.asleep ≠ [] := by
    rw [hf.2]
    exact List.cons_ne_nil _ _
  exact ⟨q, s, hq, hs, hf.1, hasleep, (no_lost_wakeup hq (by simp) hs).1 hasleep⟩

end Created

/-! ### Who waits, and with which generation -/

theorem mustGiveUp_of_ne {c : PopCall} {signaled : Bool} (h : c.gen ≠ s.wakeGeneration) :
    s.mustGiveUp c signaled = true := by
  have hne : (s.wakeGeneration != c.gen) = true := bne_iff_ne.2 (Ne.symm h)
  unfold mustGiveUp
  split_ifs
  · exact hne
  · rw [hne, Bool.or_true]

theorem gen_eq_of_sleptAgain {c : PopCall} {signaled : Bool}
    (h : s.mustGiveUp c signaled = false) : c.gen = s.wakeGeneration := by
  by_contra hne
  rw [mustGiveUp_of_ne hne] at h
  exact absurd h (by decide)

/-- Only a call that was signalled without a new generation, or that has no time limit, goes on. -/
theorem gaveUp_reason {c : PopCall} {signaled : Bool} (h : s.mustGiveUp c signaled = true) :
    c.gen ≠ s.wakeGeneration ∨ signaled = false := by
  by_contra hno
  rw [not_or, not_not, Bool.not_eq_false] at hno
  rw [mustGiveUp, hno.1, hno.2] at h
  simp at h

/-- Who waits after a step waited before, or has just called. -/
theorem waiting_of_moves {c : PopCall} (h : Moves s e s') (hc : Waiters.Mem c s'.waiters) :
    Waiters.Mem c s.waiters ∨ e = .popWait c.timeoutMs ∧ c.ticket = s.calls ∧
      c.gen = s.wakeGeneration ∧ s'.calls = s.calls + 1 := by
  cases h with
  | tryPush | refused | tryPop | foundEmpty | took => exact Or.inl hc
  | pushed e r pick ws hn hr hs => exact Or.inl (hc.of_signal hs)
  | slept timeoutMs h0 ht =>
    rcases hc.of_park with h' | rfl
    · exact Or.inl h'
    · exact Or.inr ⟨rfl, rfl, rfl, rfl⟩
  | gaveUp | tookLater => exact Or.inl hc.of_leave
  | sleptAgain c' signaled hmem h0 hg =>
    left
    rcases hc.of_park with h' | rfl
    · exact h'.of_leave
    · exact Or.inr ⟨signaled, hmem⟩
  | roused e c' signaled hr hmem => exact Or.inl (hc.of_wake hmem)
  | wakeAll => exact Or.inl hc.of_broadcast

/-- Who sleeps after a step slept before, or has just seen the generation, which is unchanged. -/
theorem asleep_of_moves {c : PopCall} (h : Moves s e s') (hc : c ∈ s'.waiters.asleep) :
    (c ∈ s.waiters.asleep ∨ c.gen = s.wakeGeneration) ∧ s'.wakeGeneration = s.wakeGeneration := by
  cases h with
  | tryPush | refused | tryPop | foundEmpty | took | gaveUp | tookLater => exact ⟨Or.inl hc, rfl⟩
  | pushed e r pick ws hn hr hs => exact ⟨Or.inl (Waiters.mem_asleep_signal hs hc), rfl⟩
  | slept timeoutMs h0 ht =>
    refine ⟨?_, rfl⟩
    rcases List.mem_append.1 hc with h' | h'
    · exact Or.inl h'
    · rw [List.mem_singleton.1 h']
      exact Or.inr rfl
  | sleptAgain c' signaled hmem h0 hg =>
    refine ⟨?_, rfl⟩
    rcases List.mem_append.1 hc with h' | h'
    · exact Or.inl h'
    · rw [List.mem_singleton.1 h']
      exact Or.inr (gen_eq_of_sleptAgain hg)
  | roused e c' signaled hr hmem => exact ⟨Or.inl (Waiters.mem_asleep_wake hc), rfl⟩
  | wakeAll => exact absurd hc List.not_mem_nil

theorem generation_of_moves (h : Moves s e s') :
    s'.wakeGeneration = s.wakeGeneration + if e = .wakeAll then 1 else 0 := by
  cases h with
  | pushed e r pick ws hn hr hs => cases hn <;> simp
  | refused e r pick hn hr => cases hn <;> simp
  | roused e c signaled hr hc => cases hr <;> simp
  | wakeAll => rfl
  | _ => simp [enter, giveUp, park, leave, answer]

theorem calls_of_moves (h : Moves s e s') : s.calls ≤ s'.calls := by
  cases h with
  | tryPop | foundEmpty | slept | took => exact Nat.le_succ _
  | _ => exact le_rfl

/-! ### `rel4u_mpmc_wake_all` -/

/-- After `g` calls of `rel4u_mpmc_wake_all`: the generation is their number, a sleeper has seen the
last of them, and a call that waits has seen those up to its beginning. The calls with a ticket
below `t` began before the last one. -/
structure Generations (t g : ℕ) (s : MpmcMonitor) : Prop where
  generation : s.wakeGeneration = UInt32.ofNat g
  asleep : ∀ c ∈ s.waiters.asleep, c.gen = s.wakeGeneration
  waiting : ∀ c, Waiters.Mem c s.waiters →
    ∃ k ≤ g, c.gen = UInt32.ofNat k ∧ (c.ticket < t → k < g)
  calls : t ≤ s.calls

theorem Generations.start (q : MpmcQueue) : Generations 0 0 (start q) where
  generation := rfl
  asleep := List.forall_mem_nil _
  waiting c hc := absurd hc (Waiters.not_mem_empty c)
  calls := le_rfl

theorem Generations.step {t g : ℕ} (hs : Generations t g s) (h : Moves s e s') :
    Generations t (g + [e].count .wakeAll) s' := by
  have hgen := generation_of_moves h
  simp only [List.count_singleton, beq_iff_eq]
  refine ⟨?_, fun c hc => ?_, fun c hc => ?_, hs.calls.trans (calls_of_moves h)⟩
  · rw [hgen, hs.generation]
    split_ifs <;> simp
  · obtain ⟨hc', heq⟩ := asleep_of_moves h hc
    rw [heq]
    exact hc'.elim (hs.asleep c) id
  · rcases waiting_of_moves h hc with hc' | ⟨rfl, hticket, hcgen, -⟩
    · obtain ⟨k, hk, hck, hlt⟩ := hs.waiting c hc'
      exact ⟨k, by omega, hck, fun ht => (hlt ht).trans_le (Nat.le_add_right _ _)⟩
    · refine ⟨g, Nat.le_add_right _ _, hcgen.trans hs.generation, fun ht => ?_⟩
      have hcalls := hs.calls
      omega

theorem Generations.run {t g : ℕ} {es : List MonitorEvent} (hs : Generations t g s)
    (h : s.run es = some s') : Generations t (g + es.count .wakeAll) s' := by
  refine run_induction (P := fun es s => Generations t (g + es.count .wakeAll) s) hs
    (fun {es s₁ e s₂} ih hmove => ?_) h
  rw [List.count_append, ← Nat.add_assoc]
  exact ih.step hmove

/-- Every call in progress began before the next `rel4u_mpmc_wake_all`. -/
theorem Generations.wakeAll {t g : ℕ} (hs : Generations t g s)
    (h : s.exec .wakeAll = some s') : Generations s.calls (g + 1) s' := by
  obtain rfl := Option.some.inj h
  exact
    { generation := by
        show s.wakeGeneration + 1 = UInt32.ofNat (g + 1)
        rw [hs.generation]
        simp
      asleep := List.forall_mem_nil _
      waiting := fun c hc => by
        obtain ⟨k, hk, hck, -⟩ := hs.waiting c hc.of_broadcast
        exact ⟨k, by omega, hck, fun _ => by omega⟩
      calls := le_rfl }

/-- A call that began before the last of fewer than 2³² generations has an older one. -/
theorem Generations.gen_ne {t g : ℕ} (hs : Generations t g s) (hg : g < 2 ^ 32) {c : PopCall}
    (hc : Waiters.Mem c s.waiters) (ht : c.ticket < t) : c.gen ≠ s.wakeGeneration := by
  obtain ⟨k, -, hck, hlt⟩ := hs.waiting c hc
  have hk := hlt ht
  rw [hck, hs.generation]
  intro heq
  have hnat := congrArg UInt32.toNat heq
  rw [UInt32.toNat_ofNat_of_lt' (hk.trans hg), UInt32.toNat_ofNat_of_lt' hg] at hnat
  omega

/-- **`rel4u_mpmc_wake_all` releases every waiter.** Of the calls in progress at the time, none ever
sleeps again, as long as there are fewer than 2³² such wake-ups: each that is still there is awake,
and returns at its next step. -/
theorem wake_all_releases {q : MpmcQueue} {es₁ es₂ : List MonitorEvent} {s₁ s₂ : MpmcMonitor}
    (h₁ : (start q).run es₁ = some s₁) (h₂ : s₁.run (.wakeAll :: es₂) = some s₂)
    (hwakes : es₁.count .wakeAll + es₂.count .wakeAll + 1 < 2 ^ 32) :
    (∀ c ∈ s₂.waiters.asleep, s₁.calls ≤ c.ticket) ∧
      ∀ c signaled, (c, signaled) ∈ s₂.waiters.woken → c.ticket < s₁.calls →
        ∃ s₃ r, s₂.exec (.resume c signaled) = some s₃ ∧
          s₃.returned = s₂.returned ++ [(c.ticket, r)] ∧ s₃.waiters.asleep = s₂.waiters.asleep := by
  have hg₁ := (Generations.start q).run h₁
  rw [run_cons] at h₂
  obtain ⟨s', hs', hrun⟩ := Option.bind_eq_some_iff.1 h₂
  have hg₂ := (hg₁.wakeAll hs').run hrun
  have hlt : 0 + es₁.count .wakeAll + 1 + es₂.count .wakeAll < 2 ^ 32 := by omega
  constructor
  · intro c hc
    by_contra hticket
    exact hg₂.gen_ne hlt (Or.inl hc) (not_le.1 hticket) (hg₂.asleep c hc)
  · intro c signaled hc hticket
    have hne := hg₂.gen_ne hlt (Or.inr ⟨signaled, hc⟩) hticket
    simp only [exec, if_pos hc, mustGiveUp_of_ne hne, if_true]
    split_ifs
    · exact ⟨_, none, rfl, rfl, rfl⟩
    · exact ⟨_, s₂.queue.popHeadLocked.1, rfl, rfl, rfl⟩

theorem wake_all_releases_two_receivers : ∃ q s₁ s₂,
    MpmcQueue.init .fixed .dropNew 2 0 true (fun _ => true) = some q ∧
    (start q).run [.popWait (-1), .popWait 5] = some s₁ ∧
    s₁.run [.wakeAll, .popWait (-1), .resume ⟨0, -1, 0⟩ true] = some s₂ ∧
    s₂.waiters.asleep ≠ [] ∧ ∀ c ∈ s₂.waiters.asleep, s₁.calls ≤ c.ticket := by
  have hend : ((MpmcQueue.init .fixed .dropNew 2 0 true fun _ => true).bind fun q =>
      (start q).run [.popWait (-1), .popWait 5]).map
        (fun s₁ => (s₁.run [.wakeAll, .popWait (-1), .resume ⟨0, -1, 0⟩ true]).map
          fun s₂ => s₂.waiters.asleep) = some (some [⟨2, -1, 1⟩]) := by
    decide +kernel
  obtain ⟨q, s₁, hq, h₁, hf⟩ := exists_run hend
  obtain ⟨s₂, h₂, hasleep⟩ := Option.map_eq_some_iff.1 hf
  refine ⟨q, s₁, s₂, hq, h₁, h₂, ?_, (wake_all_releases h₁ h₂ (by decide)).1⟩
  rw [hasleep]
  exact List.cons_ne_nil _ _

/-! ### Why a call fails -/

/-- Tickets are handed out in order. -/
structure Ticketed (s : MpmcMonitor) : Prop where
  rep : ∃ l, s.queue.Rep l
  waiting : ∀ c, Waiters.Mem c s.waiters → c.ticket < s.calls
  returned : ∀ k r, (k, r) ∈ s.returned → k < s.calls

theorem rep_of_moves (hs : ∃ l, s.queue.Rep l) (h : Moves s e s') : ∃ l, s'.queue.Rep l := by
  obtain ⟨l, hl⟩ := hs
  cases h with
  | tryPush item => exact (hl.count_pushBack_le item).1
  | pushed e r pick ws hn hr hsig => exact (count_notifies_le hl hn).1
  | refused e r pick hn hr => exact (count_notifies_le hl hn).1
  | tryPop | took | tookLater => exact ⟨_, hl.pop.2.1⟩
  | _ => exact ⟨l, hl⟩

/-- What has been returned after a step: what was before, the answer to a call just made, or that
to one that was awake. A call that waited and finds a message does not fail. -/
theorem returned_of_moves (hs : ∃ l, s.queue.Rep l) (h : Moves s e s') {k : ℕ}
    {r : Option MpmcItem} (hr : (k, r) ∈ s'.returned) :
    (k, r) ∈ s.returned ∨ k = s.calls ∧ s'.calls = s.calls + 1 ∨
      ∃ c signaled, (c, signaled) ∈ s.waiters.woken ∧ c.ticket = k ∧
        (r = none → s.mustGiveUp c signaled = true) := by
  have hanswer : ∀ {t : ℕ} {x : Option MpmcItem}, (k, r) ∈ s.returned ++ [(t, x)] →
      (k, r) ∈ s.returned ∨ k = t ∧ r = x := fun {t x} hmem => by
    rcases List.mem_append.1 hmem with h' | h'
    · exact Or.inl h'
    · rw [List.mem_singleton, Prod.mk.injEq] at h'
      exact Or.inr h'
  cases h with
  | tryPop | took | foundEmpty => exact (hanswer hr).imp_right fun h' => Or.inl ⟨h'.1, rfl⟩
  | gaveUp c signaled hc h0 hg =>
    exact (hanswer hr).imp_right fun h' => Or.inr ⟨c, signaled, hc, h'.1.symm, fun _ => hg⟩
  | tookLater c signaled hc h0 =>
    refine (hanswer hr).imp_right fun h' => Or.inr ⟨c, signaled, hc, h'.1.symm, fun hnone => ?_⟩
    obtain ⟨l, hl⟩ := hs
    rw [h'.2, hl.pop.1, List.head?_eq_none_iff] at hnone
    rw [hl.count_eq, hnone] at h0
    exact absurd rfl h0
  | _ => exact Or.inl hr

theorem Ticketed.step (hs : s.Ticketed) (h : Moves s e s') : s'.Ticketed := by
  have hle := calls_of_moves h
  refine ⟨rep_of_moves hs.rep h, fun c hc => ?_, fun k r hr => ?_⟩
  · rcases waiting_of_moves h hc with hc' | ⟨-, hticket, -, hcalls⟩
    · exact (hs.waiting c hc').trans_le hle
    · omega
  · rcases returned_of_moves hs.rep h hr with hr' | ⟨rfl, hcalls⟩ | ⟨c, signaled, hc, rfl, -⟩
    · exact (hs.returned k r hr').trans_le hle
    · omega
    · exact (hs.waiting c (Or.inr ⟨signaled, hc⟩)).trans_le hle

/-- Call number `k`, with time limit `timeoutMs`, has not failed and has no reason to. -/
structure Pending (k : ℕ) (timeoutMs : Int32) (s : MpmcMonitor) : Prop where
  rep : ∃ l, s.queue.Rep l
  called : k < s.calls
  waiting : ∀ c, Waiters.Mem c s.waiters → c.ticket = k →
    c.gen = s.wakeGeneration ∧ c.timeoutMs = timeoutMs
  inTime : ∀ c, (c, false) ∈ s.waiters.woken → c.ticket ≠ k
  returned : (k, none) ∉ s.returned

/-- A thread is woken too late only when its time is up. -/
theorem late_of_moves {c : PopCall} (h : Moves s e s') (hc : (c, false) ∈ s'.waiters.woken) :
    (c, false) ∈ s.waiters.woken ∨ e = .timeUp c ∧ 0 < c.timeoutMs ∧ c ∈ s.waiters.asleep := by
  have hwake : ∀ {c' : PopCall} {b : Bool}, (c, false) ∈ s.waiters.woken ++ [(c', b)] →
      (c, false) ∈ s.waiters.woken ∨ c = c' ∧ b = false := fun {c' b} hmem => by
    rcases List.mem_append.1 hmem with h' | h'
    · exact Or.inl h'
    · rw [List.mem_singleton, Prod.mk.injEq] at h'
      exact Or.inr ⟨h'.1, h'.2.symm⟩
  cases h with
  | pushed e r pick ws hn hr hs =>
    rcases Waiters.signal_cases hs with ⟨-, rfl⟩ | ⟨-, rfl⟩
    · exact Or.inl hc
    · exact (hwake hc).imp_right fun h' => absurd h'.2 (by decide)
  | gaveUp | tookLater => exact Or.inl (List.mem_of_mem_erase hc)
  | sleptAgain => exact Or.inl (List.mem_of_mem_erase hc)
  | roused e c' signaled hr hmem =>
    cases hr with
    | spurious => exact (hwake hc).imp_right fun h' => absurd h'.2 (by decide)
    | timeUp _ hpos =>
      rcases hwake hc with h' | ⟨rfl, -⟩
      · exact Or.inl h'
      · exact Or.inr ⟨rfl, hpos, hmem⟩
  | wakeAll =>
    rcases List.mem_append.1 hc with h' | h'
    · exact Or.inl h'
    · obtain ⟨c', -, heq⟩ := List.mem_map.1 h'
      exact absurd (Prod.mk.inj heq).2 (by decide)
  | _ => exact Or.inl hc

/-- **Until it is woken by `rel4u_mpmc_wake_all` or its time is up, a call does not fail.** -/
theorem Pending.step {k : ℕ} {timeoutMs : Int32} (hs : Pending k timeoutMs s) (h : Moves s e s') :
    e = .wakeAll ∨ (0 < timeoutMs ∧ ∃ c : PopCall, c.ticket = k ∧ e = .timeUp c) ∨
      Pending k timeoutMs s' := by
  have hcalled := hs.called
  by_cases hwake : e = .wakeAll
  · exact Or.inl hwake
  by_cases hlate : 0 < timeoutMs ∧ ∃ c : PopCall, c.ticket = k ∧ e = .timeUp c
  · exact Or.inr (Or.inl hlate)
  have hgen : s'.wakeGeneration = s.wakeGeneration := by
    rw [generation_of_moves h, if_neg hwake, UInt32.add_zero]
  refine Or.inr (Or.inr ⟨rep_of_moves hs.rep h, hcalled.trans_le (calls_of_moves h),
    fun c hc hk => ?_, fun c hc hk => ?_, fun hret => ?_⟩)
  · rcases waiting_of_moves h hc with hc' | ⟨-, hticket, -, -⟩
    · rw [hgen]
      exact hs.waiting c hc' hk
    · omega
  · rcases late_of_moves h hc with hc' | ⟨rfl, hpos, hmem⟩
    · exact hs.inTime c hc' hk
    · exact hlate ⟨(hs.waiting c (Or.inl hmem) hk).2 ▸ hpos, c, hk, rfl⟩
  · rcases returned_of_moves hs.rep h hret with hret' | ⟨rfl, -⟩ | ⟨c, signaled, hc, hk, hg⟩
    · exact hs.returned hret'
    · omega
    · rcases gaveUp_reason (hg rfl) with hne | rfl
      · exact hne (hs.waiting c (Or.inr ⟨signaled, hc⟩) hk).1
      · exact hs.inTime c hc hk

/-- A call that does not find the queue empty, or may wait, is pending after its first step. -/
theorem Ticketed.pending {timeoutMs : Int32} (hs : s.Ticketed)
    (ht : timeoutMs ≠ 0 ∨ s.queue.count ≠ 0) (h : Moves s (.popWait timeoutMs) s') :
    Pending s.calls timeoutMs s' := by
  have hwaiting : ∀ c, Waiters.Mem c s.waiters → c.ticket ≠ s.calls :=
    fun c hc => (hs.waiting c hc).ne
  have hnew : (s.calls, none) ∉ s.returned := fun hret => (hs.returned _ _ hret).ne rfl
  refine ⟨rep_of_moves hs.rep h, ?_, fun c hc hk => ?_, fun c hc => ?_, fun hret => ?_⟩
  · cases h with
    | foundEmpty | slept | took => exact Nat.lt_succ_self _
    | pushed _ _ _ _ hn | refused _ _ _ hn => cases hn
    | roused _ _ _ hr => cases hr
  · have hgen : s'.wakeGeneration = s.wakeGeneration := by
      rw [generation_of_moves h]
      simp
    rcases waiting_of_moves h hc with hc' | ⟨heq, -, hcgen, -⟩
    · exact absurd hk (hwaiting c hc')
    · rw [hgen]
      exact ⟨hcgen, (MonitorEvent.popWait.inj heq).symm⟩
  · rcases late_of_moves h hc with hc' | ⟨heq, -⟩
    · exact hwaiting c (Or.inr ⟨false, hc'⟩)
    · exact absurd heq (by simp)
  · cases h with
    | foundEmpty h0 => exact ht.elim (fun h => h rfl) fun h => h h0
    | slept timeoutMs h0 _ => exact hnew hret
    | took timeoutMs h0 =>
      rcases List.mem_append.1 hret with h' | h'
      · exact hnew h'
      · obtain ⟨l, hl⟩ := hs.rep
        rw [List.mem_singleton, Prod.mk.injEq, hl.pop.1] at h'
        rw [hl.count_eq, List.head?_eq_none_iff.1 h'.2.symm] at h0
        exact h0 rfl
    | pushed _ _ _ _ hn | refused _ _ _ hn => cases hn
    | roused _ _ _ hr => cases hr

/-! ### In which order the messages come out -/

/-- The item a step pushes. -/
def pushedBy : MonitorEvent → Option MpmcItem
  | .tryPush item | .pushNotify item _ | .pushFront item _ => some item
  | _ => none

/-- The messages received, in the order in which the calls returned. -/
def received (s : MpmcMonitor) : List MpmcItem := s.returned.filterMap Prod.snd

/-- A step that pushes at the back, if at all, an item that fits. -/
def AtBack : MonitorEvent → Prop
  | .tryPush item | .pushNotify item _ => item.len.toNat ≤ maxPayloadSize
  | .pushFront _ _ => False
  | _ => True

/-- The messages received and those still queued are among those pushed, in their order, and those
dropped make up the rest. -/
structure InLine (q : MpmcQueue) (pushed : List MpmcItem) (s : MpmcMonitor) : Prop where
  rep : s.queue.Rep s.queue.contents
  config : MpmcQueue.SameConfig q s.queue
  line : (s.received ++ s.queue.contents).Sublist (pushed.map q.stored)
  account : pushed.length = s.received.length + s.queue.count + s.queue.droppedCount

section InLine

variable {q : MpmcQueue} {pushed : List MpmcItem}

theorem InLine.push (hs : InLine q pushed s) {x : MpmcItem} (hx : x.len.toNat ≤ maxPayloadSize)
    (hret : s'.returned = s.returned) (hq : s'.queue = (s.queue.pushBackLocked x).2) :
    InLine q (pushed ++ [x]) s' := by
  obtain ⟨h1, h2, h3, h4⟩ := hs.rep.pushBack hx
  have hstored : s.queue.stored x = q.stored x := by
    rw [MpmcQueue.stored, MpmcQueue.stored, hs.config.mode]
  have hreceived : s'.received = s.received := by rw [received, hret, received]
  have hacc := hs.account
  rw [← hq] at h2 h3 h4
  refine ⟨h2.contents_eq.symm ▸ h2, hs.config.trans h3, ?_, ?_⟩
  · have hsuf : (s.queue.pushSpec x (· ++ [s.queue.stored x]) s.queue.contents).2 <:+
        if (s.queue.pushSpec x (· ++ [s.queue.stored x]) s.queue.contents).1 then
          s.queue.contents ++ [s.queue.stored x] else s.queue.contents :=
      Deque.push_back_suffix (s.queue.stored x) s.queue.contents
    have hsub : (s.queue.pushSpec x (· ++ [s.queue.stored x]) s.queue.contents).2.Sublist
        (s.queue.contents ++ [q.stored x]) := by
      rw [hstored] at hsuf ⊢
      split_ifs at hsuf
      · exact hsuf.sublist
      · exact hsuf.sublist.trans (List.sublist_append_left _ _)
    rw [hreceived, h2.contents_eq, List.map_append]
    refine ((List.Sublist.refl s.received).append hsub).trans ?_
    rw [← List.append_assoc]
    exact hs.line.append (List.Sublist.refl _)
  · rw [hreceived, List.length_append, List.length_singleton]
    omega

theorem InLine.pop (hs : InLine q pushed s) {k : ℕ}
    (hret : s'.returned = s.returned ++ [(k, s.queue.popHeadLocked.1)])
    (hq : s'.queue = s.queue.popHeadLocked.2) : InLine q pushed s' := by
  obtain ⟨h1, h2, h3, h4⟩ := hs.rep.pop
  have hline := hs.line
  have hacc := hs.account
  have hcount := hs.rep.count_eq
  have hcount' := h2.count_eq
  have hreceived : s'.received ++ s.queue.contents.tail = s.received ++ s.queue.contents := by
    rw [received, hret, List.filterMap_append, h1, received]
    cases s.queue.contents with
    | nil => simp
    | cons x l => simp
  have hlen := congrArg List.length hreceived
  rw [List.length_append, List.length_append] at hlen
  rw [← hq] at h2 h3 h4 hcount'
  refine ⟨h2.contents_eq.symm ▸ h2, hs.config.trans h3, ?_, ?_⟩
  · rw [h2.contents_eq, hreceived]
    exact hline
  · omega

/-- A step that leaves the queue alone, and returns a failure if anything. -/
theorem InLine.keep (hs : InLine q pushed s) (hret : s'.received = s.received)
    (hq : s'.queue = s.queue) : InLine q pushed s' := by
  refine ⟨?_, ?_, ?_, ?_⟩
  · rw [hq]; exact hs.rep
  · rw [hq]; exact hs.config
  · rw [hret, hq]; exact hs.line
  · rw [hret, hq]; exact hs.account

theorem received_giveUp (s : MpmcMonitor) (k : ℕ) : (s.giveUp k).received = s.received := by
  simp [received, giveUp]

theorem InLine.quiet (he : pushedBy e = none) (hs : InLine q pushed s) :
    InLine q (pushed ++ (pushedBy e).toList) s := by
  rw [he, Option.toList_none, List.append_nil]
  exact hs

theorem InLine.step (hs : InLine q pushed s) (h : Moves s e s') (he : AtBack e) :
    InLine q (pushed ++ (pushedBy e).toList) s' := by
  cases h with
  | tryPush item => exact hs.push he rfl rfl
  | pushed e r pick ws hn hr hsig =>
    cases hn with
    | pushNotify item => exact hs.push he rfl rfl
    | pushFront item => exact he.elim
  | refused e r pick hn hr =>
    cases hn with
    | pushNotify item => exact hs.push he rfl rfl
    | pushFront item => exact he.elim
  | tryPop | took | tookLater => exact .quiet rfl (hs.pop rfl rfl)
  | foundEmpty h0 => exact .quiet rfl (hs.keep (received_giveUp s.enter s.calls) rfl)
  | gaveUp c signaled hc h0 hg =>
    exact .quiet rfl (hs.keep (received_giveUp (s.leave (c, signaled)) c.ticket) rfl)
  | roused e c signaled hr hc =>
    cases hr with
    | spurious | timeUp => exact .quiet rfl (hs.keep rfl rfl)
  | slept | sleptAgain | wakeAll => exact .quiet rfl (hs.keep rfl rfl)

end InLine

section Created

variable {q : MpmcQueue} {mode : MemoryMode} {fullPolicy : QueueFullPolicy}
  {capacity maxBytes : ℕ} {mallocRing : Bool} {mallocOk : ℕ → Bool}

/-- **A blocking pop fails only for a reason.** A call that returns `false` was made with no time to
wait on an empty queue, or its time was up, or `rel4u_mpmc_wake_all` was called during it. -/
theorem pop_wait_fails_only_if
    (hinit : MpmcQueue.init mode fullPolicy capacity maxBytes mallocRing mallocOk = some q)
    {es₁ es₂ : List MonitorEvent} {timeoutMs : Int32} {s₁ s₂ : MpmcMonitor}
    (h₁ : (start q).run es₁ = some s₁) (h₂ : s₁.run (.popWait timeoutMs :: es₂) = some s₂)
    (hfail : (s₁.calls, none) ∈ s₂.returned) :
    (timeoutMs = 0 ∧ s₁.queue.contents = []) ∨
      (0 < timeoutMs ∧ ∃ c : PopCall, c.ticket = s₁.calls ∧ .timeUp c ∈ es₂) ∨
      .wakeAll ∈ es₂ := by
  have hstart : (start q).Ticketed :=
    ⟨⟨[], (MpmcQueue.init_rep hinit).1⟩, fun c hc => absurd hc (Waiters.not_mem_empty c),
      fun k r hr => absurd hr List.not_mem_nil⟩
  have hs₁ : s₁.Ticketed :=
    run_induction (P := fun _ s => s.Ticketed) hstart (fun ih h => ih.step h) h₁
  rw [run_cons] at h₂
  obtain ⟨s, hs, hrun⟩ := Option.bind_eq_some_iff.1 h₂
  by_cases ht : timeoutMs ≠ 0 ∨ s₁.queue.count ≠ 0
  · -- a reason has turned up among the steps so far, or the call is still pending
    have hpending : .wakeAll ∈ es₂ ∨
        (0 < timeoutMs ∧ ∃ c : PopCall, c.ticket = s₁.calls ∧ .timeUp c ∈ es₂) ∨
        Pending s₁.calls timeoutMs s₂ := by
      refine run_induction (P := fun es s => .wakeAll ∈ es ∨
        (0 < timeoutMs ∧ ∃ c : PopCall, c.ticket = s₁.calls ∧ .timeUp c ∈ es) ∨
        Pending s₁.calls timeoutMs s) (Or.inr (Or.inr (hs₁.pending ht (moves_exec hs))))
        (fun {es s e s'} ih hmove => ?_) hrun
      rcases ih with ih | ⟨hpos, c, hc, ih⟩ | ih
      · exact Or.inl (List.mem_append_left _ ih)
      · exact Or.inr (Or.inl ⟨hpos, c, hc, List.mem_append_left _ ih⟩)
      · rcases ih.step hmove with rfl | ⟨hpos, c, hc, rfl⟩ | ih'
        · exact Or.inl (List.mem_append_right _ List.mem_cons_self)
        · exact Or.inr (Or.inl ⟨hpos, c, hc, List.mem_append_right _ List.mem_cons_self⟩)
        · exact Or.inr (Or.inr ih')
    rcases hpending with h | h | h
    · exact Or.inr (Or.inr h)
    · exact Or.inr (Or.inl h)
    · exact absurd hfail h.returned
  · rw [not_or, not_not, not_not] at ht
    obtain ⟨l, hl⟩ := hs₁.rep
    refine Or.inl ⟨ht.1, ?_⟩
    rw [hl.contents_eq]
    exact List.length_eq_zero_iff.1 (hl.count_eq ▸ ht.2)

theorem pop_wait_fails_only_if_woken : ∃ q s₁ s₂,
    MpmcQueue.init .fixed .dropNew 2 0 true (fun _ => true) = some q ∧
    (start q).run [.tryPop] = some s₁ ∧
    s₁.run (.popWait (-1) :: [.wakeAll, .resume ⟨1, -1, 0⟩ true]) = some s₂ ∧
    (s₁.calls, none) ∈ s₂.returned ∧
    (((-1 : Int32) = 0 ∧ s₁.queue.contents = []) ∨
      (0 < (-1 : Int32) ∧ ∃ c : PopCall, c.ticket = s₁.calls ∧
        MonitorEvent.timeUp c ∈ [.wakeAll, .resume ⟨1, -1, 0⟩ true]) ∨
      MonitorEvent.wakeAll ∈ [.wakeAll, .resume ⟨1, -1, 0⟩ true]) := by
  have hend : ((MpmcQueue.init .fixed .dropNew 2 0 true fun _ => true).bind fun q =>
      (start q).run [.tryPop]).map
        (fun s₁ => (s₁.run (.popWait (-1) :: [.wakeAll, .resume ⟨1, -1, 0⟩ true])).map
          fun s₂ => decide ((s₁.calls, none) ∈ s₂.returned)) = some (some true) := by
    decide +kernel
  obtain ⟨q, s₁, hq, h₁, hf⟩ := exists_run hend
  obtain ⟨s₂, h₂, hret⟩ := Option.map_eq_some_iff.1 hf
  have hfail : (s₁.calls, none) ∈ s₂.returned := of_decide_eq_true hret
  exact ⟨q, s₁, s₂, hq, h₁, h₂, hfail, pop_wait_fails_only_if hq h₁ h₂ hfail⟩

/-- **The receivers together see one sequence.** Where all pushes are at the back, the messages the
calls returned, in the order of their returns, followed by those still queued, are messages that
were pushed, in the order of the pushes and none of them twice; those missing are counted as
dropped, so that with none dropped it is all of them. -/
theorem received_in_order
    (hinit : MpmcQueue.init mode fullPolicy capacity maxBytes mallocRing mallocOk = some q)
    {es : List MonitorEvent} (hes : ∀ e ∈ es, AtBack e) (hrun : (start q).run es = some s) :
    (s.received ++ s.queue.contents).Sublist ((es.filterMap pushedBy).map q.stored) ∧
      (es.filterMap pushedBy).length =
        s.received.length + s.queue.count + s.queue.droppedCount ∧
      (s.queue.droppedCount = 0 →
        s.received ++ s.queue.contents = (es.filterMap pushedBy).map q.stored) := by
  obtain ⟨hrep, hdropped⟩ := MpmcQueue.init_rep hinit
  have hcount := hrep.count_eq
  have hstart : InLine q [] (start q) :=
    ⟨hrep.contents_eq.symm ▸ hrep, MpmcQueue.SameConfig.refl q,
      by simp [received, start, hrep.contents_eq], by simp [received, start, hcount, hdropped]⟩
  have hs : InLine q (es.filterMap pushedBy) s := run_induction
    (P := fun es s => (∀ e ∈ es, AtBack e) → InLine q (es.filterMap pushedBy) s) (fun _ => hstart)
    (fun {es s e s'} ih h hes => by
      rw [List.forall_mem_append, List.forall_mem_singleton] at hes
      have hstep := (ih hes.1).step h hes.2
      rw [List.filterMap_append]
      cases he : pushedBy e with
      | none => simpa [he] using hstep
      | some x => simpa [he] using hstep) hrun hes
  refine ⟨hs.line, hs.account, fun h0 => hs.line.eq_of_length ?_⟩
  have hacc := hs.account
  rw [List.length_append, List.length_map, ← hs.rep.count_eq]
  omega

theorem received_in_order_two_receivers : ∃ q s,
    MpmcQueue.init .dynamic .dropLast 0 2000 true (fun _ => true) = some q ∧
    (start q).run [.popWait (-1), .tryPush ⟨7, 0, 0, []⟩, .spurious ⟨0, -1, 0⟩,
      .pushNotify ⟨8, 0, 0, []⟩ ⟨0, -1, 0⟩, .popWait 5, .resume ⟨0, -1, 0⟩ true] = some s ∧
    s.returned.map Prod.fst = [1, 0] ∧
    s.received ++ s.queue.contents =
      [(⟨7, 0, 0, []⟩ : MpmcItem), ⟨8, 0, 0, []⟩].map q.stored := by
  have hend : ((MpmcQueue.init .dynamic .dropLast 0 2000 true fun _ => true).bind fun q =>
      (start q).run [.popWait (-1), .tryPush ⟨7, 0, 0, []⟩, .spurious ⟨0, -1, 0⟩,
        .pushNotify ⟨8, 0, 0, []⟩ ⟨0, -1, 0⟩, .popWait 5, .resume ⟨0, -1, 0⟩ true]).map
      (fun s => (s.returned.map Prod.fst, s.queue.droppedCount)) = some ([1, 0], 0) := by
    decide +kernel
  obtain ⟨q, s, hq, hs, hf⟩ := exists_run hend
  rw [Prod.mk.injEq] at hf
  exact ⟨q, s, hq, hs, hf.1, (received_in_order hq (by simp [AtBack]) hs).2.2 hf.2⟩

end Created

end MpmcMonitor

end Rel4u
