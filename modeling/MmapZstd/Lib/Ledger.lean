import Mathlib.Algebra.Order.BigOperators.Group.List
import Mathlib.Data.Multiset.OrderedMonoid

/-!
# Ledgers of resources

A ledger lists, in order, the resources that a program acquired and those that it released. `held`
is the multiset of what is acquired and not released, and a ledger is `Sound` when it releases only
what is held, so nothing twice. An accounting system is one whose states say what they hold and
what their owners own. When every operation keeps the books, up to what it loses, the books of a
run balance after every operation exactly when no operation of the run loses anything
(`exact_iff`).
-/

namespace MmapZstd.Ledger

/-- An entry of a ledger. -/
inductive Entry (α : Type*)
  | acquire (r : α)
  | release (r : α)

variable {α : Type*}

section Held

variable [DecidableEq α]

/-- What is held after an entry. Releasing what is not held changes nothing. -/
def Entry.apply (held : Multiset α) : Entry α → Multiset α
  | .acquire r => r ::ₘ held
  | .release r => held.erase r

/-- What is held after the entries of a ledger, when `start` was held before. -/
def heldFrom (start : Multiset α) (log : List (Entry α)) : Multiset α := log.foldl Entry.apply start

/-- What is held after the entries of a whole ledger. -/
def held (log : List (Entry α)) : Multiset α := heldFrom 0 log

/-- Every release of the ledger is of something held. -/
def Sound (start : Multiset α) : List (Entry α) → Prop
  | [] => True
  | .acquire r :: log => Sound (r ::ₘ start) log
  | .release r :: log => r ∈ start ∧ Sound (start.erase r) log

@[simp]
theorem heldFrom_nil (start : Multiset α) : heldFrom start [] = start := rfl

@[simp]
theorem heldFrom_acquire (start : Multiset α) (r : α) (log : List (Entry α)) :
    heldFrom start (.acquire r :: log) = heldFrom (r ::ₘ start) log := rfl

@[simp]
theorem heldFrom_release (start : Multiset α) (r : α) (log : List (Entry α)) :
    heldFrom start (.release r :: log) = heldFrom (start.erase r) log := rfl

/-- More entries go on from what is held. -/
theorem heldFrom_append (start : Multiset α) (log log' : List (Entry α)) :
    heldFrom start (log ++ log') = heldFrom (heldFrom start log) log' := List.foldl_append

/-- The same from the start. -/
theorem held_append (log log' : List (Entry α)) :
    held (log ++ log') = heldFrom (held log) log' := heldFrom_append 0 log log'

@[simp]
theorem sound_nil (start : Multiset α) : Sound start [] := trivial

@[simp]
theorem sound_acquire (start : Multiset α) (r : α) (log : List (Entry α)) :
    Sound start (.acquire r :: log) ↔ Sound (r ::ₘ start) log := Iff.rfl

@[simp]
theorem sound_release (start : Multiset α) (r : α) (log : List (Entry α)) :
    Sound start (.release r :: log) ↔ r ∈ start ∧ Sound (start.erase r) log := Iff.rfl

/-- A ledger is sound when its parts are. -/
theorem sound_append (start : Multiset α) (log log' : List (Entry α)) :
    Sound start (log ++ log') ↔ Sound start log ∧ Sound (heldFrom start log) log' := by
  induction log generalizing start with
  | nil => simp
  | cons e log ih =>
    cases e with
    | acquire r => simp [ih]
    | release r => simp [ih, and_assoc]

/-- Releasing a list of resources that are held is sound. -/
theorem sound_releases (start : Multiset α) (rs : List α) (h : (rs : Multiset α) ≤ start) :
    Sound start (rs.map .release) := by
  induction rs generalizing start with
  | nil => simp
  | cons r rs ih =>
    rw [← Multiset.cons_coe] at h
    have hmem : r ∈ start := Multiset.mem_of_le h (Multiset.mem_cons_self _ _)
    rw [List.map_cons, sound_release]
    refine ⟨hmem, ih _ ?_⟩
    rw [← Multiset.cons_le_cons_iff r, Multiset.cons_erase hmem]
    exact h

/-- Releasing a list of resources takes them out. -/
theorem heldFrom_releases (start : Multiset α) (rs : List α) :
    heldFrom start (rs.map .release) = start - rs := by
  induction rs generalizing start with
  | nil => simp
  | cons r rs ih =>
    rw [List.map_cons, heldFrom_release, ih, ← Multiset.cons_coe, Multiset.sub_cons]

end Held

section System

variable {S Op : Type*} {step : S → Op → S} {holds owns : S → Multiset α} {lost : Op → Multiset α}

/-- What is held over a run is what is owned, with what was held besides before the run and what
its operations lose. -/
theorem run_eq (hstep : ∀ s op rest, holds s = owns s + rest →
      holds (step s op) = owns (step s op) + (rest + lost op))
    (ops : List Op) (s : S) (rest : Multiset α) (h : holds s = owns s + rest) :
    holds (ops.foldl step s) = owns (ops.foldl step s) + (rest + (ops.map lost).sum) := by
  -- On the run, with what is held besides as the accumulator.
  induction ops generalizing s rest with
  | nil => simpa using h
  | cons op ops ih =>
    calc holds ((op :: ops).foldl step s)
        = owns (ops.foldl step (step s op)) + (rest + lost op + (ops.map lost).sum) :=
          ih (step s op) (rest + lost op) (hstep s op rest h)
      _ = owns ((op :: ops).foldl step s) + (rest + ((op :: ops).map lost).sum) := by
          rw [List.foldl_cons, List.map_cons, List.sum_cons, add_assoc rest]

/-- The books of a run balance after every operation exactly when no operation loses anything. -/
theorem exact_iff (hstep : ∀ s op rest, holds s = owns s + rest →
      holds (step s op) = owns (step s op) + (rest + lost op))
    (ops : List Op) (s : S) (h : holds s = owns s) :
    (∀ past future, ops = past ++ future →
        holds (past.foldl step s) = owns (past.foldl step s)) ↔
      ∀ op ∈ ops, lost op = 0 := by
  have hrun := fun past => run_eq hstep past s 0 (by rw [h, add_zero])
  -- Losses add up and never cancel, so the books balance when each of them is nothing.
  have hzero : ∀ past : List Op, holds (past.foldl step s) = owns (past.foldl step s) ↔
      ∀ op ∈ past, lost op = 0 := by
    intro past
    rw [hrun past, zero_add, add_eq_left, List.sum_eq_zero_iff]
    simp
  constructor
  · intro hexact
    exact (hzero ops).mp (hexact ops [] (by simp))
  · rintro hlost past future rfl
    exact (hzero past).mpr fun op hop => hlost op (List.mem_append_left future hop)

end System

end MmapZstd.Ledger
