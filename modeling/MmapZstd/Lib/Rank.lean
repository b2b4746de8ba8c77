import Mathlib.Data.List.Sort

/-!
# Ranks in a sorted list

The entry at a place of a sorted list is the only one that has no more smaller entries than there
are places before it, and no more larger ones than there are places behind it. So what stands at a
place of a sorted list is a fact about the entries alone, whatever their order was before.
-/

namespace MmapZstd.Rank

variable {α : Type*} [LinearOrder α]

/-- The entry between `front` and `back`. -/
theorem eq_iff {front back : List α} {m x : α} (hs : (front ++ m :: back).Pairwise (· ≤ ·)) :
    m = x ↔ (front ++ m :: back).countP (· < x) ≤ front.length ∧
      (front ++ m :: back).countP (x < ·) ≤ back.length := by
  obtain ⟨-, hback, hcross⟩ := List.pairwise_append.mp hs
  have hfront : ∀ a ∈ front, a ≤ m := fun a ha => hcross a ha m List.mem_cons_self
  have hback : ∀ a ∈ back, m ≤ a := (List.pairwise_cons.mp hback).1
  rw [List.countP_append, List.countP_append]
  constructor
  · rintro rfl
    have hsmall : (m :: back).countP (· < m) = 0 := by
      rw [List.countP_eq_zero]
      intro a ha
      rcases List.mem_cons.mp ha with rfl | ha
      · simp
      · simpa using hback a ha
    have hlarge : front.countP (m < ·) = 0 := by
      rw [List.countP_eq_zero]
      intro a ha
      simpa using hfront a ha
    rw [hsmall, hlarge, List.countP_cons_of_neg (by simp), Nat.add_zero, Nat.zero_add]
    exact ⟨List.countP_le_length, List.countP_le_length⟩
  · rintro ⟨hsmall, hlarge⟩
    rcases lt_trichotomy m x with hlt | heq | hgt
    · have hall : front.countP (· < x) = front.length := by
        rw [List.countP_eq_length]
        intro a ha
        simpa using (hfront a ha).trans_lt hlt
      rw [hall, List.countP_cons_of_pos (by simpa using hlt)] at hsmall
      omega
    · exact heq
    · have hall : back.countP (x < ·) = back.length := by
        rw [List.countP_eq_length]
        intro a ha
        simpa using hgt.trans_le (hback a ha)
      rw [List.countP_cons_of_pos (by simpa using hgt), hall] at hlarge
      omega

/-- The entry at place `k` of a list after sorting. -/
theorem insertionSort_getElem?_eq_iff (v : List α) {k : ℕ} (hk : k < v.length) (x : α) :
    (v.insertionSort (· ≤ ·))[k]? = some x ↔
      v.countP (· < x) ≤ k ∧ v.countP (x < ·) + k < v.length := by
  have hperm := List.perm_insertionSort (· ≤ ·) v
  have hsorted := List.pairwise_insertionSort (· ≤ ·) v
  rw [← hperm.countP_eq, ← hperm.countP_eq]
  rw [← hperm.length_eq] at hk ⊢
  generalize v.insertionSort (· ≤ ·) = s at hk hsorted ⊢
  have hsplit : s.take k ++ s[k] :: s.drop (k + 1) = s := by
    rw [← List.drop_eq_getElem_cons hk, List.take_append_drop]
  have hiff := eq_iff (x := x) (hsplit ▸ hsorted)
  rw [hsplit, List.length_take, List.length_drop] at hiff
  rw [List.getElem?_eq_getElem hk, Option.some_inj, hiff]
  omega

end MmapZstd.Rank
