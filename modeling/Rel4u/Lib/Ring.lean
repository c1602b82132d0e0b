import Mathlib.Tactic

/-!
# Rings of cells indexed by positions

A list of `c` cells in which position `p` lives in cell `p % c`. Within any window of `c`
consecutive positions the cells are distinct (`eq_of_mod_eq`), so writing the cell of one position
leaves the cells of the others alone (`cell_put_of_ne`).
-/

namespace Ring

/-- Two positions of one window of `c` positions that share a cell are equal. -/
theorem eq_of_mod_eq {p q e c : ℕ} (h : p % c = q % c) (hp : e ≤ p) (hp' : p < e + c)
    (hq : e ≤ q) (hq' : q < e + c) : p = q := by
  rcases Nat.le_total p q with hle | hle
  · obtain ⟨k, hk⟩ := (Nat.modEq_iff_dvd' hle).1 h
    rcases Nat.eq_zero_or_pos k with rfl | hpos
    · omega
    · have := Nat.le_mul_of_pos_right c hpos
      omega
  · obtain ⟨k, hk⟩ := (Nat.modEq_iff_dvd' hle).1 h.symm
    rcases Nat.eq_zero_or_pos k with rfl | hpos
    · omega
    · have := Nat.le_mul_of_pos_right c hpos
      omega

theorem mod_ne {p q c : ℕ} (hpq : p ≠ q) (h1 : p < q + c) (h2 : q < p + c) : p % c ≠ q % c := by
  intro h
  rcases Nat.le_total p q with hle | hle
  · exact hpq (eq_of_mod_eq (e := p) h le_rfl (by omega) hle h2)
  · exact hpq (eq_of_mod_eq (e := q) h hle h1 le_rfl (by omega))

/-- Every cell of a window of `c` positions is the cell of some position. -/
theorem exists_pos_of_lt {i c : ℕ} (e : ℕ) (hi : i < c) : ∃ p, e ≤ p ∧ p < e + c ∧ p % c = i := by
  have hc : 0 < c := by omega
  have hm := Nat.mod_lt e hc
  by_cases h : e % c ≤ i
  · refine ⟨e + (i - e % c), by omega, by omega, ?_⟩
    rw [show e + (i - e % c) = i + c * (e / c) by have := Nat.div_add_mod e c; omega,
      Nat.add_mul_mod_self_left, Nat.mod_eq_of_lt hi]
  · refine ⟨e + (i + c - e % c), by omega, by omega, ?_⟩
    rw [show e + (i + c - e % c) = i + c * (e / c + 1) by
        have := Nat.div_add_mod e c; rw [Nat.mul_add]; omega,
      Nat.add_mul_mod_self_left, Nat.mod_eq_of_lt hi]

variable {α : Type*}

/-- Overwrite the cell of position `p`. -/
def put (l : List α) (p : ℕ) (x : α) : List α := l.set (p % l.length) x

@[simp] theorem length_put (l : List α) (p : ℕ) (x : α) : (put l p x).length = l.length := by
  simp [put]

variable [Inhabited α]

/-- The cell of position `p`. -/
def cell (l : List α) (p : ℕ) : α := l.getD (p % l.length) default

theorem cell_put_self {l : List α} (hl : 0 < l.length) (p : ℕ) (x : α) :
    cell (put l p x) p = x := by
  have h := Nat.mod_lt p hl
  simp [cell, put, h]

theorem cell_put_of_ne {l : List α} {p q : ℕ} (h : p % l.length ≠ q % l.length) (x : α) :
    cell (put l p x) q = cell l q := by
  simp [cell, put, List.getElem?_set_ne h]

theorem cell_put {l : List α} (hl : 0 < l.length) (p q : ℕ) (x : α) :
    cell (put l p x) q = if p % l.length = q % l.length then x else cell l q := by
  split_ifs with h
  · have hq : cell (put l p x) q = cell (put l p x) p := by simp [cell, h]
    rw [hq, cell_put_self hl]
  · exact cell_put_of_ne h x

/-- Positions of one window other than the one written keep their cells. -/
theorem cell_put_of_window {l : List α} {p q : ℕ} (x : α) (hpq : p ≠ q)
    (h1 : p < q + l.length) (h2 : q < p + l.length) : cell (put l p x) q = cell l q :=
  cell_put_of_ne (mod_ne hpq h1 h2) x

theorem cell_mem {l : List α} (hl : 0 < l.length) (p : ℕ) : cell l p ∈ l := by
  have h := Nat.mod_lt p hl
  simp [cell, h]

@[simp] theorem cell_replicate (n p : ℕ) : cell (List.replicate n (default : α)) p = default := by
  simp [cell, List.getElem?_replicate]; split_ifs <;> rfl

end Ring
