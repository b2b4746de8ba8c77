import Mathlib.Algebra.Order.BigOperators.Group.List
import Mathlib.Algebra.Order.Ring.Nat
import Mathlib.Tactic.Common

/-!
# A pool of units

A pool has a number of equal units. A client takes some of them at once, when so many are free, and
then keeps them, gives them back at once because it fails for another reason, or loses them. What it
keeps it gives back later, as a whole. `used_run_le` says that no order of requests uses more units
than there are, and `run_takes_iff` that a number of clients that keep what they take are all
granted exactly when their units together are no more than there are, whatever their order.

A system simulates a pool when each of its operations, in a state where the operation draws on the
units that are free, does what a request does (`run_simulates`).
-/

namespace MmapZstd

/-- What the clients of a pool hold: the units of each live client, and those that are lost. -/
structure Pool where
  live : List ℕ
  lost : ℕ

namespace Pool

/-- What a client does with the units that it is granted. -/
inductive Fate
  | kept
  | returned
  | lost
  deriving DecidableEq

/-- What a client that is granted `n` units keeps, as a list of at most one live client. -/
def Fate.live (n : ℕ) : Fate → List ℕ
  | kept => [n]
  | returned => []
  | lost => []

/-- What it loses. -/
def Fate.gone (n : ℕ) : Fate → ℕ
  | kept => 0
  | returned => 0
  | lost => n

/-- A request to a pool. -/
inductive Request
  /-- Nothing is taken or given back. -/
  | keep
  | take (n : ℕ) (fate : Fate)
  /-- The live client at an index gives back its units. -/
  | give (i : ℕ)
  deriving DecidableEq

/-- The units that are not free. -/
def used (p : Pool) : ℕ := p.live.sum + p.lost

/-- The pool after a client was granted `n` units. -/
def granted (p : Pool) (n : ℕ) (fate : Fate) : Pool :=
  ⟨p.live ++ fate.live n, p.lost + fate.gone n⟩

/-- The pool after a request, when it has `total` units. No units are refused, as are more than are
free. -/
def step (total : ℕ) (p : Pool) : Request → Pool
  | .keep => p
  | .take n fate => if 0 < n ∧ n ≤ total - p.used then p.granted n fate else p
  | .give i => { p with live := p.live.eraseIdx i }

/-- The pool after requests, from the start. -/
def run (total : ℕ) (rs : List Request) : Pool := rs.foldl (step total) ⟨[], 0⟩

variable {total : ℕ}

/-- Units that are free are granted. -/
theorem step_take {p : Pool} {n : ℕ} (h : 0 < n ∧ n ≤ total - p.used) (fate : Fate) :
    step total p (.take n fate) = p.granted n fate := if_pos h

/-- Other units are refused, and nothing changes. -/
theorem step_refuse {p : Pool} {n : ℕ} (h : ¬ (0 < n ∧ n ≤ total - p.used)) (fate : Fate) :
    step total p (.take n fate) = p := if_neg h

/-- A request that is granted uses no more than was asked for. -/
theorem used_granted_le (p : Pool) (n : ℕ) (fate : Fate) :
    (p.granted n fate).used ≤ p.used + n := by
  have hfate : (fate.live n).sum + fate.gone n ≤ n := by
    cases fate with
    | kept => simp [Fate.live, Fate.gone]
    | returned => simp [Fate.live, Fate.gone]
    | lost => simp [Fate.live, Fate.gone]
  simp only [granted, used, List.sum_append]
  omega

/-- A request keeps the pool within its units. -/
theorem used_step_le {p : Pool} (hp : p.used ≤ total) (r : Request) :
    (step total p r).used ≤ total := by
  cases r with
  | keep => exact hp
  | take n fate =>
    by_cases hfree : 0 < n ∧ n ≤ total - p.used
    · have hgranted := used_granted_le p n fate
      rw [step_take hfree]
      omega
    · rw [step_refuse hfree]
      exact hp
  | give i =>
    -- The rest of a list sums to no more than the list.
    have hsum : (p.live.eraseIdx i).sum ≤ p.live.sum :=
      (List.eraseIdx_sublist p.live i).sum_le_sum fun n _ => Nat.zero_le n
    simp only [step, used] at hp ⊢
    omega

/-- No order of requests uses more units than there are. -/
theorem used_run_le (total : ℕ) (rs : List Request) : (run total rs).used ≤ total := by
  suffices h : ∀ p : Pool, p.used ≤ total → (rs.foldl (step total) p).used ≤ total from
    h _ (Nat.zero_le _)
  induction rs with
  | nil => exact fun p hp => hp
  | cons r rs ih => exact fun p hp => ih _ (used_step_le hp r)

/-- Clients that keep what they take are all granted exactly when their units are free together. -/
theorem foldl_takes_iff {ns : List ℕ} (hns : ∀ n ∈ ns, 0 < n) (p : Pool) (hp : p.used ≤ total) :
    ((ns.map (Request.take · .kept)).foldl (step total) p).live.length ≤
        p.live.length + ns.length ∧
      (((ns.map (Request.take · .kept)).foldl (step total) p).live.length =
        p.live.length + ns.length ↔ p.used + ns.sum ≤ total) := by
  -- On the clients, with the pool that the first of them finds.
  induction ns generalizing p with
  | nil => simpa using hp
  | cons n ns ih =>
    have hpos := hns n List.mem_cons_self
    have hns' := fun m hm => hns m (List.mem_cons_of_mem n hm)
    simp only [List.map_cons, List.foldl_cons, List.length_cons, List.sum_cons]
    by_cases hfree : n ≤ total - p.used
    · have hused : (p.granted n .kept).used = p.used + n := by
        simp only [granted, used, Fate.live, Fate.gone, List.sum_append, List.sum_singleton]
        omega
      have hlength : (p.granted n .kept).live.length = p.live.length + 1 := by
        simp only [granted, Fate.live, List.length_append, List.length_singleton]
      obtain ⟨hle, hiff⟩ := ih hns' (p.granted n .kept) (by omega)
      rw [step_take ⟨hpos, hfree⟩]
      rw [hlength] at hle hiff
      rw [hused] at hiff
      constructor
      · omega
      · rw [← add_assoc p.used, ← hiff]
        omega
    · obtain ⟨hle, -⟩ := ih hns' p hp
      rw [step_refuse fun h => hfree h.2]
      constructor
      · omega
      · constructor
        · intro h
          omega
        · intro h
          omega

/-- The same from the start. -/
theorem run_takes_iff {ns : List ℕ} (hns : ∀ n ∈ ns, 0 < n) :
    (run total (ns.map (Request.take · .kept))).live.length = ns.length ↔ ns.sum ≤ total := by
  have h := (foldl_takes_iff hns ⟨[], 0⟩ (Nat.zero_le total)).2
  simp only [List.length_nil, used, List.sum_nil, Nat.zero_add] at h
  exact h

section System

variable {S Op : Type*}

/-- Each operation of a run draws on what is free in the state that it finds. -/
def Draws (step : S → Op → S) (P : S → Op → Prop) : S → List Op → Prop
  | _, [] => True
  | s, op :: ops => P s op ∧ Draws step P (step s op) ops

/-- A run simulates the pool when each of its operations does. -/
theorem run_simulates {step : S → Op → S} {P : S → Op → Prop} {R : S → Pool → Prop}
    {request : Op → Request} (hstep : ∀ s p op, R s p → P s op →
      R (step s op) (Pool.step total p (request op)))
    (ops : List Op) (s : S) (p : Pool) (h : R s p) (hdraws : Draws step P s ops) :
    R (ops.foldl step s) ((ops.map request).foldl (Pool.step total) p) := by
  induction ops generalizing s p with
  | nil => exact h
  | cons op ops ih => exact ih _ _ (hstep s p op h hdraws.1) hdraws.2

end System

end Pool

end MmapZstd
