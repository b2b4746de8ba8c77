import Mathlib.Data.List.Basic

/-!
# Properties of an event log

`Always P log` says that every event of a log satisfies `P` with respect to the events before it.
It is the form of a statement about each call that a run makes, as opposed to the states between
the calls. It holds of a log exactly when it holds of the log without its last event and `P` holds
of that event (`always_concat`), so an invariant proves it one event at a time.
-/

namespace MmapZstd.History

variable {ε : Type*} {P : List ε → ε → Prop}

/-- Every event of `log` satisfies `P` with respect to the events before it. -/
def Always (P : List ε → ε → Prop) (log : List ε) : Prop :=
  ∀ past e future, log = past ++ e :: future → P past e

/-- The empty log has no event. -/
@[simp]
theorem always_nil : Always P [] := by
  intro past e future h
  simp at h

/-- A log with one more event. -/
@[simp]
theorem always_concat {log : List ε} {e : ε} :
    Always P (log ++ [e]) ↔ Always P log ∧ P log e := by
  constructor
  · intro h
    refine ⟨?_, h log e [] rfl⟩
    rintro past e' future rfl
    exact h past e' (future ++ [e]) (by simp)
  · rintro ⟨hlog, he⟩ past e' future h
    rcases List.eq_nil_or_concat future with rfl | ⟨future', last, rfl⟩
    · -- The event in question is the last one.
      obtain ⟨rfl, h'⟩ := List.append_inj' h rfl
      obtain rfl : e = e' := by simpa using h'
      exact he
    · have h' : log ++ [e] = (past ++ e' :: future') ++ [last] := by rw [h]; simp
      obtain ⟨hl, -⟩ := List.append_inj' h' rfl
      exact hlog past e' future' hl

/-- A log with more events, of which `P` holds whatever came before them. -/
theorem always_append_iff {log events : List ε} (h : ∀ e ∈ events, ∀ past, P past e) :
    Always P (log ++ events) ↔ Always P log := by
  induction events generalizing log with
  | nil => rw [List.append_nil]
  | cons e events ih =>
    rw [List.append_cons, ih fun e' he' => h e' (List.mem_cons_of_mem e he'), always_concat]
    exact and_iff_left (h e List.mem_cons_self log)

end MmapZstd.History
