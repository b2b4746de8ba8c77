import Mathlib.Data.List.Basic
import Mathlib.Order.Nat

/-!
# Machines that stutter

A machine stutters on a step that does no work. `Bounded K s` says that no run from `s` has more
than `K` steps in a row that stutter. Work that every other step makes less is then done after a
bounded number of steps, whatever the inputs are: `Allows` is the invariant, which counts `K + 1`
steps for each unit of the work and fewer for the unit at hand, on which the machine may have
stuttered already (`Bounded.allows`, `Allows.step`).
-/

namespace MmapZstd.Stutter

variable {S I : Type*}

/-- A machine: where an input takes a state, and whether that step stutters. -/
structure Machine (S I : Type*) where
  next : S → I → S
  Stutters : S → I → Prop

/-- All steps of the run over `inputs` stutter. -/
def Machine.Stuttering (m : Machine S I) : S → List I → Prop
  | _, [] => True
  | s, i :: inputs => m.Stutters s i ∧ m.Stuttering (m.next s i) inputs

/-- A run from `s` starts with at most `n` steps that stutter. -/
def Machine.AtMost (m : Machine S I) (n : ℕ) (s : S) : Prop :=
  ∀ inputs, m.Stuttering s inputs → inputs.length ≤ n

/-- In a run from `s`, at most `K` steps in a row stutter. -/
def Machine.Bounded (m : Machine S I) (K : ℕ) (s : S) : Prop :=
  ∀ past : List I, m.AtMost K (past.foldl m.next s)

variable {m : Machine S I} {K n : ℕ} {s : S}

/-- A step that stutters leaves one stutter fewer. -/
theorem Machine.AtMost.stutter (h : m.AtMost n s) {i : I} (hi : m.Stutters s i) :
    0 < n ∧ m.AtMost (n - 1) (m.next s i) := by
  constructor
  · exact h [i] ⟨hi, trivial⟩
  · intro inputs hinputs
    have hlen := h (i :: inputs) ⟨hi, hinputs⟩
    rw [List.length_cons] at hlen
    omega

/-- The bound holds of a run's start. -/
theorem Machine.Bounded.atMost (h : m.Bounded K s) : m.AtMost K s := h []

/-- A step keeps the bound. -/
theorem Machine.Bounded.step (h : m.Bounded K s) (i : I) : m.Bounded K (m.next s i) :=
  fun past => h (i :: past)

/-- A machine that counts its stutters up to a limit is bounded. -/
theorem Machine.bounded_of_count (m : Machine S I) {limit : ℕ} (count : S → ℕ)
    (hcount : ∀ s i, m.Stutters s i → count s < limit ∧ count (m.next s i) = count s + 1) (s : S) :
    m.Bounded limit s := by
  have hle : ∀ inputs s, m.Stuttering s inputs → inputs.length ≤ limit - count s := by
    intro inputs
    induction inputs with
    | nil => exact fun s _ => Nat.zero_le _
    | cons i inputs ih =>
      rintro s ⟨hi, hinputs⟩
      obtain ⟨hlt, hnext⟩ := hcount s i hi
      have hrest := ih _ hinputs
      rw [List.length_cons]
      omega
  exact fun past inputs hinputs => (hle inputs _ hinputs).trans (Nat.sub_le _ _)

/-! ## Work -/

/-- The most steps for `left` units of work, when at most `patience` more of them stutter on the
unit at hand, and at most `K` on each of the others. -/
def steps (K left patience : ℕ) : ℕ :=
  if left = 0 then 0 else (K + 1) * (left - 1) + patience + 1

/-- There are at most `K + 1` steps for each unit. -/
theorem steps_le (K left : ℕ) : steps K left K ≤ (K + 1) * left := by
  unfold steps
  cases left with
  | zero => simp
  | succ left =>
    rw [if_neg (Nat.succ_ne_zero left), Nat.add_sub_cancel, Nat.mul_succ]
    exact le_rfl

/-- Doing a unit of work leaves fewer steps, with the patience restored. -/
theorem steps_progress {left left' : ℕ} (patience : ℕ) (hlt : left' < left) :
    steps K left' K < steps K left patience := by
  calc steps K left' K ≤ (K + 1) * left' := steps_le K left'
    _ ≤ (K + 1) * (left - 1) := Nat.mul_le_mul_left _ (by omega)
    _ < (K + 1) * (left - 1) + patience + 1 := by omega
    _ = steps K left patience := by rw [steps, if_neg (by omega)]

/-- From the state `s`, the machine makes at most `budget` steps on `left` units of work. -/
structure Machine.Allows (m : Machine S I) (K left budget : ℕ) (s : S) : Prop where
  bounded : m.Bounded K s
  covers : ∃ patience, m.AtMost patience s ∧ steps K left patience ≤ budget

/-- A bounded machine makes at most `K + 1` steps on each unit. -/
theorem Machine.Bounded.allows (h : m.Bounded K s) (left : ℕ) :
    m.Allows K left ((K + 1) * left) s :=
  ⟨h, K, h.atMost, steps_le K left⟩

/-- While work is left, so is a step. -/
theorem Machine.Allows.pos {left budget : ℕ} (h : m.Allows K left budget s) (hleft : 0 < left) :
    0 < budget := by
  obtain ⟨patience, -, hsteps⟩ := h.covers
  rw [steps, if_neg (by omega)] at hsteps
  omega

/-- A step on work that is left, which stutters or does some of it, takes one from the budget. -/
theorem Machine.Allows.step {left left' budget : ℕ} (h : m.Allows K left budget s)
    (hleft : 0 < left) {i : I} (hstep : (m.Stutters s i ∧ left' = left) ∨ left' < left) :
    m.Allows K left' (budget - 1) (m.next s i) := by
  obtain ⟨hbounded, patience, hatMost, hsteps⟩ := h
  refine ⟨hbounded.step i, ?_⟩
  rcases hstep with ⟨hstutters, rfl⟩ | hlt
  · obtain ⟨hpos, hatMost'⟩ := hatMost.stutter hstutters
    refine ⟨patience - 1, hatMost', ?_⟩
    unfold steps at hsteps ⊢
    rw [if_neg (by omega)] at hsteps ⊢
    omega
  · have hfewer := steps_progress (K := K) patience hlt
    exact ⟨K, (hbounded.step i).atMost, by omega⟩

end MmapZstd.Stutter
