import Mathlib.Data.Nat.Bitwise
import Mathlib.Tactic

/-!
# Serial numbers: 32-bit counters that stand for unbounded positions

A counter of type `UInt32` that only ever moves by small steps stands for a position in `ℕ`, of
which it keeps the residue. `wrap p` is the counter of position `p`, and `diff a b` is the signed
32-bit reading of `a - b`. As long as two positions are less than `2 ^ 31` apart, the signed
reading of their counters is their true difference (`diff_wrap`), whatever the number of times
the counters have wrapped. Conversely a counter read as `d` ahead of position `e` is the counter
of position `e + d` (`eq_wrap_of_diff`).

Masking by `c - 1`, for a power of two `c`, reads off the residue of the position modulo `c`
(`wrap_and_mask`), so a ring of `c` cells indexed by masked counters is a ring indexed by
positions modulo `c`.
-/

namespace Serial

/-- The 32-bit counter of a position. -/
def wrap (p : ℕ) : UInt32 := UInt32.ofNat p

/-- The signed 32-bit reading of `a - b`. -/
def diff (a b : UInt32) : ℤ := (a - b).toInt32.toInt

@[simp] theorem wrap_toNat (p : ℕ) : (wrap p).toNat = p % 2 ^ 32 := by simp [wrap]

theorem wrap_eq_iff {a b : ℕ} : wrap a = wrap b ↔ a % 2 ^ 32 = b % 2 ^ 32 := by
  rw [← UInt32.toNat_inj]; simp

@[simp] theorem wrap_toNat_self (x : UInt32) : wrap x.toNat = x := by simp [wrap]

theorem wrap_add (a b : ℕ) : wrap (a + b) = wrap a + wrap b := UInt32.ofNat_add a b

theorem wrap_succ (a : ℕ) : wrap (a + 1) = wrap a + 1 := wrap_add a 1

theorem wrap_pred {a : ℕ} (h : 0 < a) : wrap a - 1 = wrap (a - 1) := by
  rw [show wrap a = wrap (a - 1) + 1 by rw [← wrap_succ]; congr 1; omega,
    UInt32.add_sub_cancel]

theorem wrap_inj {a b : ℕ} (h : wrap a = wrap b) (hab : a < b + 2 ^ 32) (hba : b < a + 2 ^ 32) :
    a = b := by
  rw [wrap_eq_iff] at h; omega

theorem wrap_sub_wrap {a b : ℕ} (h : b ≤ a) : wrap a - wrap b = wrap (a - b) :=
  (UInt32.ofNat_sub h).symm

/-- The unsigned distance between two counters is that of their positions. -/
theorem toNat_wrap_sub {a b : ℕ} (h : b ≤ a) (hlt : a < b + 2 ^ 32) :
    (wrap a - wrap b).toNat = a - b := by
  rw [wrap_sub_wrap h, wrap_toNat]; omega

theorem diff_eq_bmod (a b : UInt32) : diff a b = Int.bmod (a.toNat - b.toNat) (2 ^ 32) := by
  unfold diff
  rw [← Int32.toInt_toBitVec, UInt32.toBitVec_toInt32, UInt32.toBitVec_sub, BitVec.toInt_sub,
    BitVec.toInt_eq_toNat_bmod, BitVec.toInt_eq_toNat_bmod, Int.sub_bmod_bmod, Int.bmod_sub_bmod]
  rfl

/-- The reading as residue and sign. -/
theorem diff_cases (a b : UInt32) :
    ∃ r : ℤ, r = ((a.toNat : ℤ) - b.toNat) % 2 ^ 32 ∧
      ((r < 2 ^ 31 ∧ diff a b = r) ∨ (2 ^ 31 ≤ r ∧ diff a b = r - 2 ^ 32)) := by
  refine ⟨_, rfl, ?_⟩
  rw [diff_eq_bmod, Int.bmod_def]
  split_ifs with h
  · exact Or.inl ⟨by push_cast at h; omega, by push_cast; rfl⟩
  · exact Or.inr ⟨by push_cast at h; omega, by push_cast; rfl⟩

theorem diff_bounds (a b : UInt32) : -2 ^ 31 ≤ diff a b ∧ diff a b < 2 ^ 31 := by
  obtain ⟨r, hr, h⟩ := diff_cases a b
  omega

/-- A number in the signed range that is congruent to `a - b` is its reading. -/
theorem diff_eq_of_modEq {a b : UInt32} {d : ℤ} (h : ((a.toNat : ℤ) - b.toNat - d) % 2 ^ 32 = 0)
    (hlo : -2 ^ 31 ≤ d) (hhi : d < 2 ^ 31) : diff a b = d := by
  obtain ⟨r, hr, h'⟩ := diff_cases a b
  omega

/-- **Counters of nearby positions compare as the positions do.** -/
theorem diff_wrap {a b : ℕ} (hlo : b ≤ a + 2 ^ 31) (hhi : a < b + 2 ^ 31) :
    diff (wrap a) (wrap b) = (a : ℤ) - b := by
  apply diff_eq_of_modEq
  · simp only [wrap_toNat]; omega
  · omega
  · omega

/-- **Counters of a span shorter than `2 ^ 31` compare as their offsets in it do**, wherever the
span starts. -/
theorem diff_of_span {a b base : UInt32} (ha : (a - base).toNat < 2 ^ 31)
    (hb : (b - base).toNat < 2 ^ 31) : diff a b = ((a - base).toNat : ℤ) - (b - base).toNat := by
  apply diff_eq_of_modEq
  · simp only [UInt32.toNat_sub]; omega
  · omega
  · omega

/-- The reading against the counter just before a position. -/
theorem diff_wrap_pred {a b : ℕ} (hlo : b ≤ a + 2 ^ 31) (hhi : a + 1 < b + 2 ^ 31) :
    diff (wrap a) (wrap b - 1) = (a : ℤ) + 1 - b := by
  apply diff_eq_of_modEq
  · have h : (wrap b - 1).toNat = (2 ^ 32 - 1 + b) % 2 ^ 32 := by
      rw [UInt32.toNat_sub, wrap_toNat, show (1 : UInt32).toNat = 1 from rfl]; omega
    rw [h, wrap_toNat]; omega
  · omega
  · omega

theorem diff_self (a : UInt32) : diff a a = 0 := by rw [diff_eq_bmod]; simp

/-- A counter read as `d ≥ 0` ahead of position `e` is the counter of position `e + d`. -/
theorem eq_wrap_of_diff {x : UInt32} {e : ℕ} (h : 0 ≤ diff x (wrap e)) :
    x = wrap (e + (diff x (wrap e)).toNat) := by
  obtain ⟨r, hr, hd⟩ := diff_cases x (wrap e)
  rw [← UInt32.toNat_inj, wrap_toNat]
  have hx := x.toNat_lt
  rw [wrap_toNat] at hr
  omega

/-- Moving a counter one step up moves its reading one step up, short of the far end. -/
theorem diff_succ {a b : UInt32} (h : diff a b < 2 ^ 31 - 1) : diff (a + 1) b = diff a b + 1 := by
  obtain ⟨r, hr, hd⟩ := diff_cases a b
  have hs : (a + 1).toNat = (a.toNat + 1) % 2 ^ 32 := by rw [UInt32.toNat_add]; rfl
  apply diff_eq_of_modEq
  · rw [hs]; omega
  · omega
  · omega

/-! ### Powers of two as ring sizes -/

/-- A ring size: a power of two of at least two cells that divides the counter range. -/
def IsRingSize (c : UInt32) : Prop := ∃ k, 1 ≤ k ∧ c.toNat = 2 ^ k

theorem IsRingSize.pos {c : UInt32} (h : IsRingSize c) : 0 < c.toNat := by
  obtain ⟨k, -, hk⟩ := h; rw [hk]; positivity

theorem IsRingSize.ne_zero {c : UInt32} (h : IsRingSize c) : c ≠ 0 := by
  rintro rfl
  exact absurd h.pos (by decide)

theorem IsRingSize.two_le {c : UInt32} (h : IsRingSize c) : 2 ≤ c.toNat := by
  obtain ⟨k, h1, hk⟩ := h
  rw [hk]
  exact le_trans (by norm_num) (Nat.pow_le_pow_right (by norm_num : 0 < 2) h1)

theorem IsRingSize.dvd {c : UInt32} (h : IsRingSize c) : c.toNat ∣ 2 ^ 32 := by
  obtain ⟨k, -, hk⟩ := h
  have hlt : 2 ^ k < 2 ^ 32 := hk ▸ c.toNat_lt
  rw [hk]
  exact pow_dvd_pow 2 ((Nat.pow_lt_pow_iff_right (by norm_num)).1 hlt).le

/-- A ring size is at most a quarter of the counters, or it is half of them. -/
theorem IsRingSize.small_or_half {c : UInt32} (h : IsRingSize c) :
    c.toNat ≤ 2 ^ 30 ∨ c = 0x80000000 := by
  obtain ⟨k, -, hk⟩ := h
  have hlt : 2 ^ k < 2 ^ 32 := hk ▸ c.toNat_lt
  have hk32 : k < 32 := (Nat.pow_lt_pow_iff_right (by norm_num)).1 hlt
  rcases Nat.lt_or_ge k 31 with hk31 | hk31
  · left
    rw [hk]
    exact Nat.pow_le_pow_right (by norm_num) (by omega)
  · right
    have : k = 31 := by omega
    rw [← UInt32.toNat_inj, hk, this]
    rfl

/-- Masking a counter by a ring size less one gives its residue. -/
theorem and_mask {c : UInt32} (h : IsRingSize c) (x : UInt32) :
    (x &&& (c - 1)).toNat = x.toNat % c.toNat := by
  have h2 := h.two_le
  obtain ⟨k, -, hk⟩ := h
  have hc : (c - 1).toNat = 2 ^ k - 1 := by
    rw [UInt32.toNat_sub, show (1 : UInt32).toNat = 1 from rfl, ← hk]
    have := c.toNat_lt
    omega
  rw [UInt32.toNat_and, hc, Nat.and_two_pow_sub_one_eq_mod, hk]

/-- The bit test for a power of two, together with the lower bound, recognises ring sizes. -/
theorem isRingSize_iff (c : UInt32) : IsRingSize c ↔ 2 ≤ c ∧ c &&& (c - 1) = 0 := by
  constructor
  · intro h
    refine ⟨UInt32.le_iff_toNat_le.2 h.two_le, ?_⟩
    rw [← UInt32.toNat_inj, and_mask h, Nat.mod_self]
    rfl
  · rintro ⟨h2, h0⟩
    rw [UInt32.le_iff_toNat_le, show (2 : UInt32).toNat = 2 from rfl] at h2
    have hc : (c - 1).toNat = c.toNat - 1 :=
      UInt32.toNat_sub_of_le c 1 (UInt32.le_iff_toNat_le.2 (by
        rw [show (1 : UInt32).toNat = 1 from rfl]; omega))
    have hand : c.toNat &&& (c.toNat - 1) = 0 := by
      rw [← hc, ← UInt32.toNat_and, h0]; rfl
    obtain ⟨k, hk⟩ := (Nat.and_sub_one_eq_zero_iff_isPowerOfTwo (by omega)).1 hand
    refine ⟨k, ?_, hk⟩
    rcases Nat.eq_zero_or_pos k with rfl | hpos
    · omega
    · exact hpos

/-- The signed reading of a small word is the word. -/
theorem toInt_of_le {c : UInt32} (h : c.toNat < 2 ^ 31) : c.toInt32.toInt = c.toNat := by
  rw [← Int32.toInt_toBitVec, UInt32.toBitVec_toInt32, BitVec.toInt_eq_toNat_bmod, Int.bmod_def]
  simp only [UInt32.toNat_toBitVec]
  split_ifs <;> omega

/-- **A masked counter is its position modulo the ring size.** -/
theorem wrap_and_mask {c : UInt32} (h : IsRingSize c) (p : ℕ) :
    (wrap p &&& (c - 1)).toNat = p % c.toNat := by
  rw [and_mask h, wrap_toNat, Nat.mod_mod_of_dvd _ h.dvd]

/-! ### Masks of 32 flags -/

/-- A word with only bit `j` set. -/
theorem toNat_one_shiftLeft {j : ℕ} (hj : j < 32) :
    ((1 : UInt32) <<< UInt32.ofNat j).toNat = 2 ^ j := by
  have hlt : 2 ^ j < 2 ^ 32 := Nat.pow_lt_pow_right (by norm_num) hj
  rw [UInt32.toNat_shiftLeft, UInt32.toNat_ofNat_of_lt' (by simp [UInt32.size]; omega),
    show (1 : UInt32).toNat = 1 from rfl, Nat.shiftLeft_eq, Nat.mod_eq_of_lt hj, Nat.one_mul,
    Nat.mod_eq_of_lt hlt]

/-- The mask test of the source reads one bit. -/
theorem and_bit_ne_zero_iff {j : ℕ} (hj : j < 32) (x : UInt32) :
    x &&& ((1 : UInt32) <<< UInt32.ofNat j) ≠ 0 ↔ x.toNat.testBit j = true := by
  rw [Ne, ← UInt32.toNat_inj, UInt32.toNat_and, toNat_one_shiftLeft hj, Nat.and_two_pow,
    show (0 : UInt32).toNat = 0 from rfl]
  cases x.toNat.testBit j <;> simp

/-- A mask built by setting bit `i` for each `i` of a range with `f i`. -/
theorem testBit_foldl_or (f : ℕ → Bool) {k : ℕ} (hk : k ≤ 32) (j : ℕ) :
    ((List.range k).foldl (fun m i => if f i then m ||| ((1 : UInt32) <<< UInt32.ofNat i) else m)
      0).toNat.testBit j = (decide (j < k) && f j) := by
  induction k with
  | zero => simp
  | succ k ih =>
    rw [List.range_succ, List.foldl_append, List.foldl_cons, List.foldl_nil]
    by_cases hf : f k
    · rw [if_pos hf, UInt32.toNat_or, Nat.testBit_or, ih (by omega),
        toNat_one_shiftLeft (by omega), Nat.testBit_two_pow]
      by_cases hjk : k = j
      · subst hjk; simp [hf]
      · have : (j < k + 1) = (j < k) := by rw [eq_iff_iff]; omega
        simp [hjk, this]
    · rw [if_neg hf, ih (by omega)]
      by_cases hjk : k = j
      · subst hjk; simp [hf]
      · have : (j < k + 1) = (j < k) := by rw [eq_iff_iff]; omega
        simp [this]

end Serial
