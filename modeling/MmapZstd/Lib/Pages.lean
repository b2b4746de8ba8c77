import Mathlib.Algebra.Order.Group.Nat
import Mathlib.Data.Nat.Notation

/-!
# Pages that a range touches

A region of memory starts at the address `base`, which need not be aligned to the page size `P`. A
system call on the range `[offset, offset + len)` of the region acts on whole pages, so it reaches
every byte whose page holds a byte of the range. `Touches.lt` bounds how far past the range that
is: less than a page.
-/

namespace MmapZstd.Pages

/-- The byte `i` of a region at `base` is in a page of size `P` that holds a byte of the range
`[offset, offset + len)` of the region. -/
def Touches (P base offset len i : ℕ) : Prop :=
  ∃ j, offset ≤ j ∧ j < offset + len ∧ (base + j) / P = (base + i) / P

instance (P base offset len i : ℕ) : Decidable (Touches P base offset len i) :=
  decidable_of_iff (∃ j, j < offset + len ∧ offset ≤ j ∧ (base + j) / P = (base + i) / P)
    ⟨fun ⟨j, hlt, hle, hpage⟩ => ⟨j, hle, hlt, hpage⟩,
      fun ⟨j, hle, hlt, hpage⟩ => ⟨j, hlt, hle, hpage⟩⟩

/-- Two addresses of one page are less than a page apart. -/
theorem lt_add_of_div_eq {P x y : ℕ} (hP : 0 < P) (h : x / P = y / P) : y < x + P := by
  -- Both addresses are the start of the page and an offset into it, and the offset is below `P`.
  have hx := Nat.div_add_mod x P
  have hy := Nat.div_add_mod y P
  have hlt := Nat.mod_lt y hP
  rw [h] at hx
  omega

/-- A byte that a range touches is less than a page past the range's last byte. -/
theorem Touches.lt {P base offset len i : ℕ} (hP : 0 < P) (h : Touches P base offset len i) :
    i + 1 < offset + len + P := by
  obtain ⟨j, -, hj, hpage⟩ := h
  have := lt_add_of_div_eq hP hpage
  omega

end MmapZstd.Pages
