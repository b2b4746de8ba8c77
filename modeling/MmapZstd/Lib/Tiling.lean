import Mathlib.Data.List.Basic

/-!
# Tilings of an interval

A list of ranges, each an offset and a length, tiles `[a, b)` when the ranges are non-empty, the
first starts at `a`, each of the others starts where the one before it ends, and the last ends at
`b`. A tiling covers every point of the interval once and no other point (`Tiles.count`).
-/

namespace MmapZstd.Tiling

/-- The ranges tile `[a, b)`, in order. -/
def Tiles (a : ℕ) : List (ℕ × ℕ) → ℕ → Prop
  | [], b => a = b
  | (offset, len) :: rest, b => offset = a ∧ 0 < len ∧ Tiles (a + len) rest b

/-- The ranges that cover the point `x`. -/
def covering (x : ℕ) (ranges : List (ℕ × ℕ)) : List (ℕ × ℕ) :=
  ranges.filter fun r => r.1 ≤ x ∧ x < r.1 + r.2

/-- A tiling goes forward. -/
theorem Tiles.le {a b : ℕ} {ranges : List (ℕ × ℕ)} (h : Tiles a ranges b) : a ≤ b := by
  induction ranges generalizing a with
  | nil => exact Nat.le_of_eq h
  | cons r rest ih =>
    obtain ⟨-, -, hrest⟩ := h
    have := ih hrest
    omega

/-- One more range at the end of a tiling. -/
theorem Tiles.concat {a b len : ℕ} {ranges : List (ℕ × ℕ)} (h : Tiles a ranges b)
    (hlen : 0 < len) : Tiles a (ranges ++ [(b, len)]) (b + len) := by
  induction ranges generalizing a with
  | nil =>
    obtain rfl : a = b := h
    exact ⟨rfl, hlen, rfl⟩
  | cons r rest ih =>
    obtain ⟨ho, hr, hrest⟩ := h
    exact ⟨ho, hr, ih hrest⟩

/-- A tiling covers each point of its interval exactly once, and no point outside. -/
theorem Tiles.count {a b : ℕ} {ranges : List (ℕ × ℕ)} (h : Tiles a ranges b) (x : ℕ) :
    (covering x ranges).length = if a ≤ x ∧ x < b then 1 else 0 := by
  induction ranges generalizing a with
  | nil =>
    obtain rfl : a = b := h
    have : ¬ (a ≤ x ∧ x < a) := by omega
    simp [covering, this]
  | cons r rest ih =>
    obtain ⟨rfl, hr, hrest⟩ := h
    have hle := hrest.le
    have ih := ih hrest
    rw [covering, List.filter_cons]
    by_cases hx : r.1 ≤ x ∧ x < r.1 + r.2
    · -- The first range covers `x`, and the rest starts after it.
      have hout : ¬ (r.1 + r.2 ≤ x ∧ x < b) := by omega
      have hin : r.1 ≤ x ∧ x < b := by omega
      rw [if_neg hout] at ih
      simp only [hx, and_self, decide_true, if_true, List.length_cons, hin]
      rw [covering] at ih
      omega
    · -- The first range does not cover `x`, so `x` is in the interval when it is in the rest.
      have hiff : (r.1 + r.2 ≤ x ∧ x < b) ↔ (r.1 ≤ x ∧ x < b) := by omega
      rw [if_congr hiff rfl rfl] at ih
      simp only [hx, decide_false, Bool.false_eq_true, if_false]
      exact ih

end MmapZstd.Tiling
