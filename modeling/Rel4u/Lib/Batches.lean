import Mathlib.Tactic

/-!
# Lists taken in batches

A list of which every turn takes the first `k` elements and leaves the rest. Batch `j` is what turn
`j` takes. The batches are disjoint pieces of the list in its order: the first `⌈n / k⌉` of them
make up the list (`flatMap_batch`) and the later ones are empty (`batch_eq_nil`).
-/

namespace Batches

variable {α : Type*}

/-- What turn `j` takes. -/
def batch (k : ℕ) (l : List α) (j : ℕ) : List α := (l.drop (j * k)).take k

/-- The number of turns that take something, for `k` at a time. -/
def turns (k n : ℕ) : ℕ := (n + k - 1) / k

theorem batch_map {β : Type*} (f : α → β) (k : ℕ) (l : List α) (j : ℕ) :
    batch k (l.map f) j = (batch k l j).map f := by
  rw [batch, batch, List.map_take, List.map_drop]

/-- What the first turns have taken. -/
theorem flatMap_batch_range (k : ℕ) (l : List α) (m : ℕ) :
    (List.range m).flatMap (batch k l) = l.take (m * k) := by
  induction m with
  | zero => simp
  | succ m ih =>
    rw [List.range_succ, List.flatMap_append, ih, List.flatMap_singleton, batch, Nat.succ_mul,
      List.take_add]

theorem le_turns_mul {k : ℕ} (hk : 1 ≤ k) (n : ℕ) : n ≤ turns k n * k := by
  have h : (n + k - 1) / k * k + k > n + k - 1 := Nat.lt_div_mul_add (by omega)
  rw [turns]
  omega

/-- **The batches make up the list.** -/
theorem flatMap_batch {k : ℕ} (hk : 1 ≤ k) (l : List α) :
    (List.range (turns k l.length)).flatMap (batch k l) = l := by
  rw [flatMap_batch_range, List.take_of_length_le (le_turns_mul hk l.length)]

/-- Nothing is left for the turns after that. -/
theorem batch_eq_nil {k : ℕ} (hk : 1 ≤ k) {l : List α} {j : ℕ} (hj : turns k l.length ≤ j) :
    batch k l j = [] := by
  have hle : l.length ≤ j * k :=
    (le_turns_mul hk l.length).trans (Nat.mul_le_mul_right k hj)
  rw [batch, List.drop_of_length_le hle, List.take_nil]

/-- What is left of a list without repetitions are the elements that were not taken. -/
theorem filter_notMem_take [DecidableEq α] {l : List α} (hl : l.Nodup) (k : ℕ) :
    l.filter (fun x => decide (x ∉ l.take k)) = l.drop k := by
  have hsplit : l.take k ++ l.drop k = l := List.take_append_drop k l
  have hdisjoint : ∀ x ∈ l.drop k, x ∉ l.take k := by
    rw [← hsplit] at hl
    intro x hx hx'
    exact (List.nodup_append.1 hl).2.2 x hx' x hx rfl
  conv_lhs =>
    arg 2
    rw [← hsplit]
  rw [List.filter_append, List.filter_eq_nil_iff.2 ?_, List.filter_eq_self.2 ?_, List.nil_append]
  · intro x hx
    exact decide_eq_true (hdisjoint x hx)
  · intro x hx
    simp [hx]

end Batches
