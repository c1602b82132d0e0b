import Mathlib.Tactic

/-!
# Condition variables

The threads that wait on one condition variable: those asleep, and those that have been woken but
have not had the mutex since. A waiter leaves from the second list only. `signal` wakes one sleeper
of the scheduler's choice, and is lost where nobody sleeps; a sleeper may also wake by itself, or
because its time is up.

A thread sleeps while there is nothing for it to take. `Covered n ws` says of `n` things to be taken
that they do not wait behind sleepers: while anybody sleeps, there is a woken thread for each. It is
kept by every step, provided that each thing that is added is signalled.
-/

namespace CondVar

/-- The waiters of a condition variable. A woken one comes with what its wait reports: `false` when
the time was up. -/
structure Waiters (W : Type*) where
  asleep : List W
  woken : List (W × Bool)
  deriving DecidableEq, Repr, Inhabited

namespace Waiters

variable {W : Type*}

/-- Nobody waits. -/
def empty : Waiters W := { asleep := [], woken := [] }

/-- A thread goes to sleep. -/
def park (ws : Waiters W) (w : W) : Waiters W := { ws with asleep := ws.asleep ++ [w] }

/-- Wake all sleepers. -/
def broadcast (ws : Waiters W) : Waiters W :=
  { asleep := [], woken := ws.woken ++ ws.asleep.map (·, true) }

/-- A thread waits, asleep or woken. -/
def Mem (w : W) (ws : Waiters W) : Prop := w ∈ ws.asleep ∨ ∃ b, (w, b) ∈ ws.woken

/-- While anybody sleeps, there is a woken thread for each of the `n` things to be taken. -/
def Covered (n : ℕ) (ws : Waiters W) : Prop := ws.asleep ≠ [] → n ≤ ws.woken.length

section Basic

variable {ws : Waiters W} {w v : W} {n m : ℕ}

theorem not_mem_empty (v : W) : ¬ Mem v (empty : Waiters W) := by simp [Mem, empty]

theorem Mem.of_park (h : Mem v (ws.park w)) : Mem v ws ∨ v = w := by
  rcases h with h | h
  · rcases List.mem_append.1 h with h' | h'
    · exact Or.inl (Or.inl h')
    · exact Or.inr (List.mem_singleton.1 h')
  · exact Or.inl (Or.inr h)

theorem Mem.of_broadcast (h : Mem v ws.broadcast) : Mem v ws := by
  rcases h with h | ⟨c, h⟩
  · exact absurd h List.not_mem_nil
  · rcases List.mem_append.1 h with h' | h'
    · exact Or.inr ⟨c, h'⟩
    · obtain ⟨u, hu, heq⟩ := List.mem_map.1 h'
      rw [Prod.mk.injEq] at heq
      exact Or.inl (heq.1 ▸ hu)

theorem covered_zero (ws : Waiters W) : Covered 0 ws := fun _ => Nat.zero_le _

theorem covered_broadcast (n : ℕ) (ws : Waiters W) : Covered n ws.broadcast :=
  fun hne => absurd rfl hne

theorem Covered.mono (h : Covered n ws) (hmn : m ≤ n) : Covered m ws :=
  fun hne => hmn.trans (h hne)

end Basic

variable [DecidableEq W]

/-- A sleeper wakes. -/
def wake (ws : Waiters W) (w : W) (signaled : Bool) : Waiters W :=
  { asleep := ws.asleep.erase w, woken := ws.woken ++ [(w, signaled)] }

/-- Wake one sleeper, `pick`. A choice that is not asleep is none the scheduler can make. -/
def signal (ws : Waiters W) (pick : W) : Option (Waiters W) :=
  if ws.asleep = [] then some ws
  else if pick ∈ ws.asleep then some (ws.wake pick true)
  else none

/-- A woken thread has the mutex again. -/
def leave (ws : Waiters W) (w : W × Bool) : Waiters W := { ws with woken := ws.woken.erase w }

variable {ws ws' : Waiters W} {w v pick : W} {b : Bool} {x : W × Bool} {n : ℕ}

/-- A signal is lost, or it wakes a sleeper. -/
theorem signal_cases (h : ws.signal pick = some ws') :
    (ws.asleep = [] ∧ ws' = ws) ∨ (pick ∈ ws.asleep ∧ ws' = ws.wake pick true) := by
  unfold signal at h
  split_ifs at h with hnil hmem
  · exact Or.inl ⟨hnil, (Option.some.inj h).symm⟩
  · exact Or.inr ⟨hmem, (Option.some.inj h).symm⟩

theorem mem_asleep_wake (h : v ∈ (ws.wake w b).asleep) : v ∈ ws.asleep := List.mem_of_mem_erase h

theorem mem_asleep_signal (h : ws.signal pick = some ws') (hv : v ∈ ws'.asleep) :
    v ∈ ws.asleep := by
  rcases signal_cases h with ⟨-, rfl⟩ | ⟨-, rfl⟩
  · exact hv
  · exact mem_asleep_wake hv

/-! ### Who waits -/

theorem Mem.of_wake (hw : w ∈ ws.asleep) (h : Mem v (ws.wake w b)) : Mem v ws := by
  rcases h with h | ⟨c, h⟩
  · exact Or.inl (mem_asleep_wake h)
  · rcases List.mem_append.1 h with h' | h'
    · exact Or.inr ⟨c, h'⟩
    · rw [List.mem_singleton, Prod.mk.injEq] at h'
      exact Or.inl (h'.1 ▸ hw)

theorem Mem.of_signal (hs : ws.signal pick = some ws') (h : Mem v ws') : Mem v ws := by
  rcases signal_cases hs with ⟨-, rfl⟩ | ⟨hp, rfl⟩
  · exact h
  · exact h.of_wake hp

theorem Mem.of_leave (h : Mem v (ws.leave x)) : Mem v ws := by
  rcases h with h | ⟨c, h⟩
  · exact Or.inl h
  · exact Or.inr ⟨c, List.mem_of_mem_erase h⟩

/-! ### Nothing waits behind the sleepers -/

/-- **What is added is signalled.** -/
theorem Covered.signal (h : Covered n ws) (hs : ws.signal pick = some ws') :
    Covered (n + 1) ws' := by
  rcases signal_cases hs with ⟨hnil, rfl⟩ | ⟨hp, rfl⟩
  · exact fun hne => absurd hnil hne
  · intro _
    have hn : n ≤ ws.woken.length := h (List.ne_nil_of_mem hp)
    simp only [wake, List.length_append, List.length_singleton]
    omega

/-- A sleeper that wakes by itself is one more. -/
theorem Covered.wake (h : Covered n ws) (hw : w ∈ ws.asleep) : Covered n (ws.wake w b) := by
  intro _
  have hn : n ≤ ws.woken.length := h (List.ne_nil_of_mem hw)
  simp only [Waiters.wake, List.length_append, List.length_singleton]
  omega

/-- **A woken thread that leaves takes one with it.** -/
theorem Covered.leave (h : Covered (n + 1) ws) (hx : x ∈ ws.woken) :
    Covered n (ws.leave x) := by
  intro hne
  have hn : n + 1 ≤ ws.woken.length := h hne
  simp only [Waiters.leave, List.length_erase_of_mem hx]
  omega

end Waiters

end CondVar
