import Mathlib.Data.List.Basic

/-!
# Loops

`run body fuel s` repeats `body` from the state `s` until it returns a result, for at most `fuel`
turns, and collects the events of the turns. The rules take what one turn does to what the loop
does: an invariant of the events so far and the state (`run_invariant`), a relation between two
loops (`run_lockstep`), a bound on the events of a kind by a potential that pays for them
(`run_countP_le`), and a bound on the turns by a rank that they lower (`run_ends`).
-/

namespace MmapZstd.Loop

variable {S S' E E' R : Type*}

/-- What a turn of a loop leaves: the state, the events that it caused, and the result, when the
loop returns one. -/
structure Turn (S E R : Type*) where
  state : S
  events : List E
  result : Option R

/-- A turn with more events before it. -/
def Turn.after (t : Turn S E R) (events : List E) : Turn S E R :=
  { t with events := events ++ t.events }

/-- The loop, for at most `fuel` turns. -/
def run (body : S → Turn S E R) : ℕ → S → Turn S E R
  | 0, s => ⟨s, [], none⟩
  | fuel + 1, s =>
    match (body s).result with
    | some _ => body s
    | none => (run body fuel (body s).state).after (body s).events

variable {body : S → Turn S E R}

/-- A turn that returns a result is the loop's last. -/
theorem run_of_some {s : S} {o : R} (h : (body s).result = some o) (fuel : ℕ) :
    run body (fuel + 1) s = body s := by
  rw [run, h]

/-- A turn that returns none is followed by the rest of the loop. -/
theorem run_of_none {s : S} (h : (body s).result = none) (fuel : ℕ) :
    run body (fuel + 1) s = (run body fuel (body s).state).after (body s).events := by
  rw [run, h]

variable (body)

/-- A property of the events so far and the state that every turn keeps, and a property of the
results that every turn's result has, hold of the loop. -/
theorem run_invariant (Q : List E → S → Prop) (Good : R → Prop)
    (hbody : ∀ log s, Q log s → Q (log ++ (body s).events) (body s).state ∧
      ∀ o ∈ (body s).result, Good o)
    (fuel : ℕ) (log : List E) (s : S) (h : Q log s) :
    Q (log ++ (run body fuel s).events) (run body fuel s).state ∧
      ∀ o ∈ (run body fuel s).result, Good o := by
  -- On the turns, with the log as the accumulator.
  induction fuel generalizing log s with
  | zero => simpa [run] using h
  | succ fuel ih =>
    obtain ⟨hQ, hgood⟩ := hbody log s h
    cases hresult : (body s).result with
    | some o =>
      rw [run_of_some hresult]
      exact ⟨hQ, hgood⟩
    | none =>
      rw [run_of_none hresult]
      simpa only [Turn.after, List.append_assoc] using ih _ _ hQ

/-- Two loops in lockstep: a relation between their states that every pair of turns keeps, with the
same result, is kept by the loops. -/
theorem run_lockstep (body' : S' → Turn S' E' R) (Rel : S → S' → Prop)
    (hbody : ∀ s s', Rel s s' → Rel (body s).state (body' s').state ∧
      (body s).result = (body' s').result)
    (fuel : ℕ) (s : S) (s' : S') (h : Rel s s') :
    Rel (run body fuel s).state (run body' fuel s').state ∧
      (run body fuel s).result = (run body' fuel s').result := by
  induction fuel generalizing s s' with
  | zero => exact ⟨h, rfl⟩
  | succ fuel ih =>
    obtain ⟨hrel, heq⟩ := hbody s s' h
    cases hresult : (body s).result with
    | some o =>
      rw [run_of_some hresult, run_of_some (heq ▸ hresult)]
      exact ⟨hrel, heq⟩
    | none =>
      rw [run_of_none hresult, run_of_none (heq ▸ hresult)]
      exact ih _ _ hrel

/-- The potential method. When every turn pays for its events of a kind out of a potential, the loop
has at most as many of them as the potential at its start. -/
theorem run_countP_le (I : ℕ → S → Prop) (kind : E → Bool)
    (hbody : ∀ p s, I p s → ∃ p', (body s).events.countP kind + p' ≤ p ∧
      ((body s).result = none → I p' (body s).state))
    (fuel : ℕ) (p : ℕ) (s : S) (h : I p s) : (run body fuel s).events.countP kind ≤ p := by
  induction fuel generalizing p s with
  | zero => exact Nat.zero_le p
  | succ fuel ih =>
    obtain ⟨p', hpay, hnext⟩ := hbody p s h
    cases hresult : (body s).result with
    | some o =>
      rw [run_of_some hresult]
      omega
    | none =>
      have hrest := ih p' _ (hnext hresult)
      rw [run_of_none hresult, Turn.after, List.countP_append]
      omega

/-- When every turn that returns no result lowers a rank, the loop returns one within more turns
than the rank at its start. -/
theorem run_ends (I : ℕ → S → Prop)
    (hbody : ∀ p s, I p s → (body s).result = none → ∃ p' < p, I p' (body s).state)
    {fuel p : ℕ} {s : S} (h : I p s) (hfuel : p < fuel) :
    ∃ o, (run body fuel s).result = some o := by
  induction fuel generalizing p s with
  | zero => omega
  | succ fuel ih =>
    cases hresult : (body s).result with
    | some o => exact ⟨o, by rw [run_of_some hresult, hresult]⟩
    | none =>
      obtain ⟨p', hlt, hnext⟩ := hbody p s h hresult
      rw [run_of_none hresult]
      exact ih hnext (by omega)

end MmapZstd.Loop
