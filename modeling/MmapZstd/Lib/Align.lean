import Mathlib.Algebra.Order.Floor.Div
import Mathlib.Data.Nat.Bitwise
import Mathlib.Order.Bounds.Basic

/-!
# Rounding to a multiple

`down a n` and `up a n` are the multiples of `a` next to `n`, below and above. `up a n` is the least
element of a set (`up_isLeast`), and counts the blocks of size `a` that cover `n` (`up_div`).
`land_compl_mask` says that masking out the low `k` bits of a `w`-bit word is `down (2 ^ k)`, the
form in which machine code computes it.
-/

namespace MmapZstd.Align

/-- The multiple of `a` next below `n`. -/
def down (a n : ℕ) : ℕ := n / a * a

/-- The multiple of `a` next above `n`. -/
def up (a n : ℕ) : ℕ := (n + a - 1) / a * a

/-- `down` is a multiple. -/
@[simp]
theorem dvd_down (a n : ℕ) : a ∣ down a n := Nat.dvd_mul_left a (n / a)

/-- `down` is below its argument. -/
theorem down_le (a n : ℕ) : down a n ≤ n := Nat.div_mul_le_self n a

/-- Below the modulus, `down` is zero. -/
theorem down_eq_zero {a n : ℕ} (h : n < a) : down a n = 0 := by
  rw [down, Nat.div_eq_of_lt h, Nat.zero_mul]

/-- `down` moves its argument by less than the modulus. -/
theorem lt_down_add {a : ℕ} (ha : 0 < a) (n : ℕ) : n < down a n + a := by
  have h := Nat.div_add_mod n a
  have hlt := Nat.mod_lt n ha
  rw [Nat.mul_comm] at h
  unfold down
  omega

/-- `down` is monotone. -/
theorem down_mono (a : ℕ) {m n : ℕ} (h : m ≤ n) : down a m ≤ down a n :=
  Nat.mul_le_mul_right a (Nat.div_le_div_right h)

/-- `up` is a multiple. -/
@[simp]
theorem dvd_up (a n : ℕ) : a ∣ up a n := Nat.dvd_mul_left a _

/-- `up` is above its argument. -/
theorem le_up {a : ℕ} (ha : 0 < a) (n : ℕ) : n ≤ up a n := by
  have h := lt_down_add ha (n + a - 1)
  unfold down at h
  unfold up
  omega

/-- `up a n` is the least multiple of `a` that is at least `n`. -/
theorem up_isLeast {a : ℕ} (ha : 0 < a) (n : ℕ) : IsLeast {m | a ∣ m ∧ n ≤ m} (up a n) := by
  refine ⟨⟨dvd_up a n, le_up ha n⟩, ?_⟩
  rintro m ⟨⟨q, rfl⟩, hm⟩
  have hq : (n + a - 1) / a ≤ q := by
    rw [Nat.div_le_iff_le_mul_add_pred ha]
    omega
  calc up a n ≤ q * a := Nat.mul_le_mul_right a hq
    _ = a * q := Nat.mul_comm q a

/-- The number of blocks in `up a n` is the number of blocks of size `a` that cover `n`. -/
theorem up_div {a : ℕ} (ha : 0 < a) (n : ℕ) : up a n / a = n ⌈/⌉ a := by
  rw [up, Nat.mul_div_cancel _ ha, Nat.ceilDiv_eq_add_pred_div]

/-- Rounding a number up past no multiple of `a` keeps it below that multiple. -/
theorem up_le_of_dvd {a m n : ℕ} (ha : 0 < a) (hm : a ∣ m) (h : n ≤ m) : up a n ≤ m :=
  (up_isLeast ha n).2 ⟨hm, h⟩

/-- A positive number that is at most `up a n` rounds up to at least one block of size `a`, and to
no more of them than cover `n`. -/
theorem up_blocks {a m n : ℕ} (ha : 0 < a) (hm : 0 < m) (h : m ≤ up a n) :
    1 ≤ up a m / a ∧ up a m / a ≤ n ⌈/⌉ a := by
  constructor
  · have hpos : 0 < up a m := lt_of_lt_of_le hm (le_up ha m)
    exact (Nat.one_le_div_iff ha).mpr (Nat.le_of_dvd hpos (dvd_up a m))
  · calc up a m / a ≤ up a n / a := Nat.div_le_div_right (up_le_of_dvd ha (dvd_up a n) h)
      _ = n ⌈/⌉ a := up_div ha n

/-- Taking a block away, or what is left when that is less, leaves one block fewer to cover the
rest. -/
theorem ceilDiv_sub_min {a n : ℕ} (ha : 0 < a) (hn : 0 < n) :
    (n - min n a) ⌈/⌉ a + 1 = n ⌈/⌉ a := by
  have hblocks : n ⌈/⌉ a = (n - 1) / a + 1 := by
    rw [Nat.ceilDiv_eq_add_pred_div, show n + a - 1 = n - 1 + a by omega, Nat.add_div_right _ ha]
  rw [hblocks, Nat.ceilDiv_eq_add_pred_div]
  rcases Nat.le_total n a with hle | hle
  · rw [Nat.min_eq_left hle, Nat.sub_self, Nat.div_eq_of_lt (by omega), Nat.div_eq_of_lt (by omega)]
  · rw [Nat.min_eq_right hle, Nat.sub_add_cancel hle]

/-- Masking out the low `k` bits of a `w`-bit word rounds it down to a multiple of `2 ^ k`. -/
theorem land_compl_mask {w k n : ℕ} (hk : k ≤ w) (hn : n < 2 ^ w) :
    n &&& (2 ^ w - 1 - (2 ^ k - 1)) = down (2 ^ k) n := by
  have hkw : 2 ^ k ≤ 2 ^ w := Nat.pow_le_pow_right (by omega) hk
  have hpos := Nat.two_pow_pos k
  have hsub : 2 ^ w - 1 - (2 ^ k - 1) = 2 ^ w - (2 ^ k - 1 + 1) := by omega
  -- Bit by bit: the mask has the bits from `k` to `w`, and `down` clears those below `k`.
  apply Nat.eq_of_testBit_eq
  intro i
  rw [hsub, Nat.testBit_and, Nat.testBit_two_pow_sub_succ (by omega),
    Nat.testBit_two_pow_sub_one, down, Nat.testBit_mul_two_pow, Nat.testBit_div_two_pow]
  by_cases hik : k ≤ i
  · by_cases hiw : i < w
    · simp [hik, hiw, Nat.not_lt.mpr hik]
    · -- Above the word, the argument has no bits.
      have hbit : n.testBit i = false :=
        Nat.testBit_lt_two_pow (lt_of_lt_of_le hn (Nat.pow_le_pow_right (by omega) (by omega)))
      simp [hik, hbit]
  · simp [hik, Nat.lt_of_not_le hik]

end MmapZstd.Align
