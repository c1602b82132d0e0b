import Mathlib.Tactic

/-!
# Words and their bytes, most significant byte first

`word16 b₁ b₀` and `word32 b₃ b₂ b₁ b₀` are the words whose bytes are given from the most to the
least significant. Their values are positional (`toNat_word16`, `toNat_word32`), every word is the
word of its own bytes, and the byte swaps of a little-endian machine reverse the bytes.
-/

namespace BigEndian

/-- The 16-bit word with the given bytes. -/
def word16 (b₁ b₀ : UInt8) : UInt16 := b₁.toUInt16 <<< 8 ||| b₀.toUInt16

/-- The 32-bit word with the given bytes. -/
def word32 (b₃ b₂ b₁ b₀ : UInt8) : UInt32 :=
  b₃.toUInt32 <<< 24 ||| b₂.toUInt32 <<< 16 ||| b₁.toUInt32 <<< 8 ||| b₀.toUInt32

/-- A multiple of `2 ^ i` and a number below `2 ^ i` share no bit. -/
theorem mul_two_pow_or {a b i : ℕ} (h : b < 2 ^ i) : a * 2 ^ i ||| b = a * 2 ^ i + b := by
  rw [← Nat.shiftLeft_eq, Nat.shiftLeft_add_eq_or_of_lt h]

/-! ### 16 bits -/

theorem toNat_word16 (b₁ b₀ : UInt8) : (word16 b₁ b₀).toNat = b₁.toNat * 2 ^ 8 + b₀.toNat := by
  have h₀ := b₀.toNat_lt
  have h₁ := b₁.toNat_lt
  have hmod : b₁.toNat * 2 ^ 8 % 2 ^ 16 = b₁.toNat * 2 ^ 8 := Nat.mod_eq_of_lt (by omega)
  simp only [word16, UInt16.toNat_or, UInt16.toNat_shiftLeft, UInt8.toNat_toUInt16,
    UInt16.reduceToNat, Nat.reduceMod, Nat.shiftLeft_eq, hmod]
  exact mul_two_pow_or h₀

/-- A word is the word of its bytes. -/
theorem word16_bytes (x : UInt16) : word16 (x >>> 8).toUInt8 x.toUInt8 = x := by
  have hx := x.toNat_lt
  apply UInt16.toNat_inj.1
  rw [toNat_word16]
  simp only [UInt16.toNat_toUInt8, UInt16.toNat_shiftRight, UInt16.reduceToNat, Nat.reduceMod,
    Nat.shiftRight_eq_div_pow]
  omega

@[simp] theorem toUInt8_word16 (b₁ b₀ : UInt8) : (word16 b₁ b₀).toUInt8 = b₀ := by
  have h₀ := b₀.toNat_lt
  apply UInt8.toNat_inj.1
  rw [UInt16.toNat_toUInt8, toNat_word16]
  omega

@[simp] theorem toUInt8_word16_shiftRight (b₁ b₀ : UInt8) :
    (word16 b₁ b₀ >>> 8).toUInt8 = b₁ := by
  have h₀ := b₀.toNat_lt
  have h₁ := b₁.toNat_lt
  apply UInt8.toNat_inj.1
  simp only [UInt16.toNat_toUInt8, UInt16.toNat_shiftRight, UInt16.reduceToNat, Nat.reduceMod,
    Nat.shiftRight_eq_div_pow, toNat_word16]
  omega

/-- Two words with the same bytes are equal, and only those. -/
theorem word16_inj {a₁ a₀ b₁ b₀ : UInt8} :
    word16 a₁ a₀ = word16 b₁ b₀ ↔ a₁ = b₁ ∧ a₀ = b₀ := by
  constructor
  · intro h
    constructor
    · rw [← toUInt8_word16_shiftRight a₁ a₀, h, toUInt8_word16_shiftRight]
    · rw [← toUInt8_word16 a₁ a₀, h, toUInt8_word16]
  · rintro ⟨rfl, rfl⟩
    rfl

/-- The byte swap. -/
theorem swap_word16 (b₁ b₀ : UInt8) :
    word16 b₁ b₀ <<< 8 ||| word16 b₁ b₀ >>> 8 = word16 b₀ b₁ := by
  apply UInt16.eq_of_toBitVec_eq
  apply BitVec.eq_of_getLsbD_eq
  intro i hi
  interval_cases i <;> simp [word16]

/-! ### 32 bits -/

/-- Four bytes, each at its own place, share no bit. -/
theorem four_bytes_or {d c b a : ℕ} (hc : c < 2 ^ 8) (hb : b < 2 ^ 8) (ha : a < 2 ^ 8) :
    d * 2 ^ 24 ||| (c * 2 ^ 16 ||| (b * 2 ^ 8 ||| a)) =
      d * 2 ^ 24 + (c * 2 ^ 16 + (b * 2 ^ 8 + a)) := by
  rw [mul_two_pow_or ha, mul_two_pow_or (show b * 2 ^ 8 + a < 2 ^ 16 by omega),
    mul_two_pow_or (show c * 2 ^ 16 + (b * 2 ^ 8 + a) < 2 ^ 24 by omega)]

/-- The digits of a number written with four bytes. -/
theorem four_bytes_digits {n d c b a : ℕ} (hc : c < 2 ^ 8) (hb : b < 2 ^ 8) (ha : a < 2 ^ 8)
    (hn : n = d * 2 ^ 24 + (c * 2 ^ 16 + (b * 2 ^ 8 + a))) :
    n / 2 ^ 24 = d ∧ n / 2 ^ 16 % 2 ^ 8 = c ∧ n / 2 ^ 8 % 2 ^ 8 = b ∧ n % 2 ^ 8 = a := by
  refine ⟨?_, ?_, ?_, ?_⟩ <;> omega

/-- The mask `0xFF00` leaves the second byte in its place. -/
theorem and_second_byte (n : ℕ) : n &&& 0xFF00 = n / 2 ^ 8 % 2 ^ 8 * 2 ^ 8 := by
  have hmask : (0xFF00 : ℕ) = (2 ^ 8 - 1) <<< 8 := rfl
  rw [hmask, ← Nat.shiftLeft_eq]
  apply Nat.eq_of_testBit_eq
  intro i
  simp only [Nat.testBit_and, Nat.testBit_shiftLeft, Nat.testBit_mod_two_pow,
    Nat.testBit_div_two_pow, Nat.testBit_two_pow_sub_one]
  by_cases hi : 8 ≤ i
  · rw [Nat.sub_add_cancel hi]
    simp only [hi, decide_true, Bool.true_and]
    exact Bool.and_comm _ _
  · simp [hi]

theorem toNat_word32 (b₃ b₂ b₁ b₀ : UInt8) : (word32 b₃ b₂ b₁ b₀).toNat =
    b₃.toNat * 2 ^ 24 + (b₂.toNat * 2 ^ 16 + (b₁.toNat * 2 ^ 8 + b₀.toNat)) := by
  have h₀ := b₀.toNat_lt
  have h₁ := b₁.toNat_lt
  have h₂ := b₂.toNat_lt
  have h₃ := b₃.toNat_lt
  have m₁ : b₁.toNat * 2 ^ 8 % 2 ^ 32 = b₁.toNat * 2 ^ 8 := Nat.mod_eq_of_lt (by omega)
  have m₂ : b₂.toNat * 2 ^ 16 % 2 ^ 32 = b₂.toNat * 2 ^ 16 := Nat.mod_eq_of_lt (by omega)
  have m₃ : b₃.toNat * 2 ^ 24 % 2 ^ 32 = b₃.toNat * 2 ^ 24 := Nat.mod_eq_of_lt (by omega)
  simp only [word32, UInt32.toNat_or, UInt32.toNat_shiftLeft, UInt8.toNat_toUInt32,
    UInt32.reduceToNat, Nat.reduceMod, Nat.shiftLeft_eq, m₁, m₂, m₃, Nat.or_assoc]
  exact four_bytes_or h₂ h₁ h₀

/-- A word is the word of its bytes. -/
theorem word32_bytes (x : UInt32) :
    word32 (x >>> 24).toUInt8 (x >>> 16).toUInt8 (x >>> 8).toUInt8 x.toUInt8 = x := by
  have hx := x.toNat_lt
  apply UInt32.toNat_inj.1
  rw [toNat_word32]
  simp only [UInt32.toNat_toUInt8, UInt32.toNat_shiftRight, UInt32.reduceToNat, Nat.reduceMod,
    Nat.shiftRight_eq_div_pow]
  omega

/-- The bytes of a word are those it was made of. -/
theorem bytes_word32 (b₃ b₂ b₁ b₀ : UInt8) :
    (word32 b₃ b₂ b₁ b₀ >>> 24).toUInt8 = b₃ ∧ (word32 b₃ b₂ b₁ b₀ >>> 16).toUInt8 = b₂ ∧
    (word32 b₃ b₂ b₁ b₀ >>> 8).toUInt8 = b₁ ∧ (word32 b₃ b₂ b₁ b₀).toUInt8 = b₀ := by
  have h₀ := b₀.toNat_lt
  have h₁ := b₁.toNat_lt
  have h₂ := b₂.toNat_lt
  have h₃ := b₃.toNat_lt
  obtain ⟨d₃, d₂, d₁, d₀⟩ := four_bytes_digits h₂ h₁ h₀ (toNat_word32 b₃ b₂ b₁ b₀)
  simp only [← UInt8.toNat_inj, UInt32.toNat_toUInt8, UInt32.toNat_shiftRight, UInt32.reduceToNat,
    Nat.reduceMod, Nat.shiftRight_eq_div_pow]
  exact ⟨by rw [d₃, Nat.mod_eq_of_lt h₃], d₂, d₁, d₀⟩

/-- The byte reversal. -/
theorem swap_word32 (b₃ b₂ b₁ b₀ : UInt8) (x : UInt32) (hx : x = word32 b₃ b₂ b₁ b₀) :
    x <<< 24 ||| (x &&& (0xFF00 : UInt32)) <<< 8 ||| (x >>> 8 &&& (0xFF00 : UInt32)) |||
      x >>> 24 = word32 b₀ b₁ b₂ b₃ := by
  have h₀ := b₀.toNat_lt
  have h₁ := b₁.toNat_lt
  have h₂ := b₂.toNat_lt
  have h₃ := b₃.toNat_lt
  obtain ⟨d₃, d₂, d₁, d₀⟩ := four_bytes_digits h₂ h₁ h₀ (hx ▸ toNat_word32 b₃ b₂ b₁ b₀)
  -- the place to which each term of the disjunction moves its byte
  have t₀ : x.toNat * 2 ^ 24 % 2 ^ 32 = b₀.toNat * 2 ^ 24 := by
    rw [← d₀]; exact Nat.mul_mod_mul_right (2 ^ 24) x.toNat (2 ^ 8)
  have t₁ : b₁.toNat * 2 ^ 8 * 2 ^ 8 % 2 ^ 32 = b₁.toNat * 2 ^ 16 := by
    rw [Nat.mul_assoc]; exact Nat.mod_eq_of_lt (by omega)
  have t₂ : x.toNat / 2 ^ 8 / 2 ^ 8 % 2 ^ 8 = b₂.toNat := by
    rw [Nat.div_div_eq_div_mul]; exact d₂
  apply UInt32.toNat_inj.1
  simp only [toNat_word32, UInt32.toNat_or, UInt32.toNat_and, UInt32.toNat_shiftLeft,
    UInt32.toNat_shiftRight, UInt32.reduceToNat, Nat.reduceMod, Nat.shiftLeft_eq,
    Nat.shiftRight_eq_div_pow, and_second_byte, d₃, d₁, t₀, t₁, t₂, Nat.or_assoc]
  exact four_bytes_or h₁ h₂ h₃

end BigEndian
