import Mathlib.Data.List.Basic

/-!
# Readers

A reader answers requests, one after the other, with bytes or with an error. A view of a reader says
what it has still to deliver: an answer takes its bytes from the front of that, and an error takes
nothing (`View`). So what a session has delivered, with what is left after it, is what was there at
the start (`session_left`).

`copy` reads to the first answer without bytes, and goes on after the errors that are to be retried.
A reader that answers no bytes only when nothing is left (`Prompt`) has then delivered everything
(`copy_all`).

`buffered` puts a buffer in front of a reader. It has a view when the reader has one
(`buffered_view`), and two readers that are the same buffered reader, seen through a relation that
every request keeps, have the same results (`results_lockstep`).
-/

namespace MmapZstd.Reader

variable {S B α E : Type*}

/-- What a request leaves: the reader, and the bytes that it has delivered or the error. -/
structure Answer (S α E : Type*) where
  state : S
  result : Except E (List α)

/-- The bytes that the results of some requests have delivered. -/
def delivered (results : List (Except E (List α))) : List α :=
  results.flatMap fun r => r.toOption.getD []

@[simp]
theorem delivered_nil : delivered ([] : List (Except E (List α))) = [] := rfl

@[simp]
theorem delivered_ok (data : List α) (results : List (Except E (List α))) :
    delivered (.ok data :: results) = data ++ delivered results := rfl

@[simp]
theorem delivered_error (e : E) (results : List (Except E (List α))) :
    delivered (.error e :: results) = delivered results := rfl

section Session

variable (read : S → B → Answer S α E)

/-- The reader after some requests. The caller goes on after an error. -/
def after (s : S) (requests : List B) : S := requests.foldl (fun s b => (read s b).state) s

/-- The results of some requests. -/
def results : S → List B → List (Except E (List α))
  | _, [] => []
  | s, b :: requests => (read s b).result :: results (read s b).state requests

/-- In the states of which `I` holds, `left` is what the reader has still to deliver. -/
structure View (I : S → Prop) (left : S → List α) : Prop where
  keep : ∀ s b, I s → I (read s b).state
  ok : ∀ s b data, I s → (read s b).result = .ok data → left s = data ++ left (read s b).state
  error : ∀ s b e, I s → (read s b).result = .error e → left (read s b).state = left s

/-- For the requests of which `Room` holds, the reader answers no bytes only when none are left. -/
def Prompt (I : S → Prop) (left : S → List α) (Room : B → Prop) : Prop :=
  ∀ s b, I s → Room b → (read s b).result = .ok [] → left s = []

variable {read} {I : S → Prop} {left : S → List α}

/-- What a session has delivered and what it has left are what was there before. -/
theorem session_left (h : View read I left) {s : S} (hs : I s) (requests : List B) :
    I (after read s requests) ∧
      left s = delivered (results read s requests) ++ left (after read s requests) := by
  induction requests generalizing s with
  | nil => exact ⟨hs, rfl⟩
  | cons b requests ih =>
    obtain ⟨hI, hleft⟩ := ih (h.keep s b hs)
    refine ⟨hI, ?_⟩
    unfold results
    cases hr : (read s b).result with
    | ok data =>
      rw [delivered_ok, List.append_assoc, h.ok s b data hs hr, hleft]
      rfl
    | error e =>
      rw [delivered_error, ← h.error s b e hs hr, hleft]
      rfl

end Session

section Lockstep

variable {S' : Type*} {read : S → B → Answer S α E} {read' : S' → B → Answer S' α E}

/-- Two readers in lockstep: a relation between their states that every request keeps, with the
same result, is kept by a session, and gives the same results. -/
theorem results_lockstep (Rel : S → S' → Prop)
    (hstep : ∀ s s' b, Rel s s' →
      Rel (read s b).state (read' s' b).state ∧ (read s b).result = (read' s' b).result)
    {s : S} {s' : S'} (h : Rel s s') (requests : List B) :
    Rel (after read s requests) (after read' s' requests) ∧
      results read s requests = results read' s' requests := by
  induction requests generalizing s s' with
  | nil => exact ⟨h, rfl⟩
  | cons b requests ih =>
    obtain ⟨hrel, hresult⟩ := hstep s s' b h
    obtain ⟨hafter, hresults⟩ := ih hrel
    refine ⟨hafter, ?_⟩
    rw [results, results, hresult, hresults]

end Lockstep

/-- What reading to the first answer without bytes leaves. -/
structure Copied (S α E : Type*) where
  state : S
  data : List α
  result : Except E Unit

section Copy

variable (read : S → B → Answer S α E) (retry : E → Bool)

/-- Requests until the first answer without bytes, or the first error that is not to be retried;
`none` when `fuel` requests are not enough. -/
def copy : ℕ → S → (ℕ → B) → Option (Copied S α E)
  | 0, _, _ => none
  | fuel + 1, s, requests =>
    let a := read s (requests 0)
    let rest := copy fuel a.state fun i => requests (i + 1)
    match a.result with
    | .ok [] => some ⟨a.state, [], .ok ()⟩
    | .ok (x :: data) => rest.map fun r => { r with data := x :: data ++ r.data }
    | .error e => if retry e then rest else some ⟨a.state, [], .error e⟩

/-- The reader fails finitely often, and only with errors that are to be retried: `failures` bounds
the failures still to come. -/
structure Falters (I : S → Prop) (failures : S → ℕ) : Prop where
  ok : ∀ s b data, I s → (read s b).result = .ok data → failures (read s b).state ≤ failures s
  error : ∀ s b e, I s → (read s b).result = .error e →
    retry e = true ∧ failures (read s b).state < failures s

variable {read retry} {I : S → Prop} {left : S → List α} {Room : B → Prop}

/-- However a copy ends, what it has delivered and what is left are what was there before; and when
it ends without an error, nothing is left. -/
theorem copy_left (h : View read I left) (hprompt : Prompt read I left Room) {fuel : ℕ} {s : S}
    {requests : ℕ → B} {r : Copied S α E} (hs : I s) (hroom : ∀ i, Room (requests i))
    (hr : copy read retry fuel s requests = some r) :
    left s = r.data ++ left r.state ∧ (r.result = .ok () → left r.state = []) := by
  induction fuel generalizing s requests r with
  | zero => cases hr
  | succ fuel ih =>
    have hkeep := h.keep s (requests 0) hs
    unfold copy at hr
    cases hresult : (read s (requests 0)).result with
    | ok data =>
      have hleft := h.ok s (requests 0) data hs hresult
      cases data with
      | nil =>
        -- The answer without bytes ends the copy, and is prompt.
        simp only [hresult, Option.some.injEq] at hr
        subst hr
        have hnil := hprompt s (requests 0) hs (hroom 0) hresult
        exact ⟨hleft, fun _ => (List.append_eq_nil_iff.mp (hleft.symm.trans hnil)).2⟩
      | cons x data =>
        simp only [hresult, Option.map_eq_some_iff] at hr
        obtain ⟨rest, hrest, rfl⟩ := hr
        obtain ⟨htotal, hend⟩ := ih hkeep (fun i => hroom (i + 1)) hrest
        refine ⟨?_, hend⟩
        rw [hleft, htotal, List.append_assoc]
    | error e =>
      have hleft := h.error s (requests 0) e hs hresult
      by_cases hretry : retry e
      · simp only [hresult, if_pos hretry] at hr
        obtain ⟨htotal, hend⟩ := ih hkeep (fun i => hroom (i + 1)) hr
        exact ⟨hleft ▸ htotal, hend⟩
      · simp only [hresult, if_neg hretry, Option.some.injEq] at hr
        subst hr
        exact ⟨hleft.symm, fun hok => by cases hok⟩

/-- A reader that falters is copied in full. -/
theorem copy_all (h : View read I left) (hprompt : Prompt read I left Room) {failures : S → ℕ}
    (hfalters : Falters read retry I failures) {fuel : ℕ} {s : S} {requests : ℕ → B} (hs : I s)
    (hroom : ∀ i, Room (requests i)) (hfuel : (left s).length + failures s < fuel) :
    ∃ r, copy read retry fuel s requests = some r ∧ r.data = left s ∧ r.result = .ok () := by
  -- Every request that does not end the copy delivers bytes or uses up a failure.
  have hends : ∃ r, copy read retry fuel s requests = some r ∧ r.result = .ok () := by
    induction fuel generalizing s requests with
    | zero => omega
    | succ fuel ih =>
      have hkeep := h.keep s (requests 0) hs
      cases hresult : (read s (requests 0)).result with
      | ok data =>
        have hlen := congrArg List.length (h.ok s (requests 0) data hs hresult)
        have hfail := hfalters.ok s (requests 0) data hs hresult
        cases data with
        | nil =>
          exact ⟨⟨(read s (requests 0)).state, [], .ok ()⟩, by simp only [copy, hresult], rfl⟩
        | cons x data =>
          rw [List.length_append, List.length_cons] at hlen
          have hless : (left (read s (requests 0)).state).length +
              failures (read s (requests 0)).state < fuel := by omega
          obtain ⟨r, hr, hend⟩ := ih hkeep (fun i => hroom (i + 1)) hless
          exact ⟨{ r with data := x :: data ++ r.data },
            by simp only [copy, hresult, hr, Option.map_some], hend⟩
      | error e =>
        obtain ⟨hretry, hfail⟩ := hfalters.error s (requests 0) e hs hresult
        have hless : (left (read s (requests 0)).state).length +
            failures (read s (requests 0)).state < fuel := by
          rw [h.error s (requests 0) e hs hresult]
          omega
        obtain ⟨r, hr, hend⟩ := ih hkeep (fun i => hroom (i + 1)) hless
        exact ⟨r, by simp only [copy, hresult, if_pos hretry, hr], hend⟩
  obtain ⟨r, hr, hend⟩ := hends
  obtain ⟨htotal, hnil⟩ := copy_left h hprompt hs hroom hr
  rw [hnil hend, List.append_nil] at htotal
  exact ⟨r, hr, htotal.symm, hend⟩

/-- Copies of two readers in lockstep get the same bytes and end in the same way. -/
theorem copy_lockstep {S' : Type*} {read' : S' → B → Answer S' α E} (Rel : S → S' → Prop)
    (hstep : ∀ s s' b, Rel s s' →
      Rel (read s b).state (read' s' b).state ∧ (read s b).result = (read' s' b).result)
    (fuel : ℕ) {s : S} {s' : S'} (h : Rel s s') (requests : ℕ → B) :
    (copy read retry fuel s requests).map (fun r => (r.data, r.result)) =
      (copy read' retry fuel s' requests).map fun r => (r.data, r.result) := by
  induction fuel generalizing s s' requests with
  | zero => rfl
  | succ fuel ih =>
    obtain ⟨hrel, hresult⟩ := hstep s s' (requests 0) h
    have hrest := ih hrel fun i => requests (i + 1)
    simp only [copy, ← hresult]
    cases (read s (requests 0)).result with
    | ok data =>
      cases data with
      | nil => rfl
      | cons x data =>
        have hcons := congrArg
          (Option.map fun p : List α × Except E Unit => (x :: data ++ p.1, p.2)) hrest
        simpa only [Option.map_map, Function.comp_def] using hcons
    | error e =>
      by_cases hretry : retry e
      · simpa only [if_pos hretry] using hrest
      · simp only [if_neg hretry, Option.map_some]

end Copy

section Buffered

variable {T C : Type*} (inner : T → C → Answer T α E) (ask : B → C) (room : B → ℕ)

/-- A reader with a buffer in front of it: a request for at most `room b` bytes is answered from the
buffer, which is filled by the request `ask b` when it is empty. -/
def buffered (s : T × List α) (b : B) : Answer (T × List α) α E :=
  match s.2 with
  | [] =>
    let a := inner s.1 (ask b)
    match a.result with
    | .ok data => ⟨(a.state, data.drop (room b)), .ok (data.take (room b))⟩
    | .error e => ⟨(a.state, []), .error e⟩
  | x :: data => ⟨(s.1, (x :: data).drop (room b)), .ok ((x :: data).take (room b))⟩

/-- What a request to a buffered reader does: it fails and leaves the buffer empty, or it delivers
from the front of a buffer, which is the one there was or a fresh one. -/
theorem buffered_cases (t : T) (w : List α) (b : B) :
    (∃ e, w = [] ∧ (inner t (ask b)).result = .error e ∧
        buffered inner ask room (t, w) b = ⟨((inner t (ask b)).state, []), .error e⟩) ∨
      (∃ data, w = [] ∧ (inner t (ask b)).result = .ok data ∧
        buffered inner ask room (t, w) b =
          ⟨((inner t (ask b)).state, data.drop (room b)), .ok (data.take (room b))⟩) ∨
      (w ≠ [] ∧ buffered inner ask room (t, w) b =
        ⟨(t, w.drop (room b)), .ok (w.take (room b))⟩) := by
  cases w with
  | nil =>
    cases hr : (inner t (ask b)).result with
    | ok data => exact .inr (.inl ⟨data, rfl, rfl, by simp only [buffered, hr]⟩)
    | error e => exact .inl ⟨e, rfl, rfl, by simp only [buffered, hr]⟩
  | cons x w => exact .inr (.inr ⟨by simp, rfl⟩)

variable {inner} {I : T → Prop} {left : T → List α}

/-- A buffered reader has still to deliver what is in its buffer, and then what its reader has. -/
theorem buffered_view (h : View inner I left) :
    View (buffered inner ask room) (fun s => I s.1) fun s => s.2 ++ left s.1 where
  keep := by
    rintro ⟨t, w⟩ b ht
    rcases buffered_cases inner ask room t w b with
      ⟨e, -, -, heq⟩ | ⟨data, -, -, heq⟩ | ⟨-, heq⟩
    · rw [heq]
      exact h.keep t (ask b) ht
    · rw [heq]
      exact h.keep t (ask b) ht
    · rw [heq]
      exact ht
  ok := by
    rintro ⟨t, w⟩ b data ht hdata
    rcases buffered_cases inner ask room t w b with
      ⟨e, -, -, heq⟩ | ⟨data', rfl, hdata', heq⟩ | ⟨-, heq⟩
    · rw [heq] at hdata
      cases hdata
    · -- A fresh buffer is the front of what the reader had left.
      rw [heq] at hdata ⊢
      cases hdata
      rw [← List.append_assoc, List.take_append_drop, List.nil_append]
      exact h.ok t (ask b) data' ht hdata'
    · rw [heq] at hdata ⊢
      cases hdata
      rw [← List.append_assoc, List.take_append_drop]
  error := by
    rintro ⟨t, w⟩ b e ht he
    rcases buffered_cases inner ask room t w b with
      ⟨e', rfl, he', heq⟩ | ⟨data, -, -, heq⟩ | ⟨-, heq⟩
    · rw [heq]
      exact h.error t (ask b) e' ht he'
    · rw [heq] at he
      cases he
    · rw [heq] at he
      cases he

/-- It is prompt when its reader is, for the requests that leave room for something. -/
theorem buffered_prompt {RoomT : C → Prop} (hprompt : Prompt inner I left RoomT) (Room : B → Prop)
    (hask : ∀ b, Room b → RoomT (ask b)) (hroom : ∀ b, Room b → 0 < room b) :
    Prompt (buffered inner ask room) (fun s => I s.1) (fun s => s.2 ++ left s.1) Room := by
  rintro ⟨t, w⟩ b ht hb hnil
  have hpos := hroom b hb
  have hempty : ∀ l : List α, l.take (room b) = [] → l = [] := by
    intro l hl
    rcases List.take_eq_nil_iff.mp hl with hzero | hl
    · omega
    · exact hl
  rcases buffered_cases inner ask room t w b with
    ⟨e, -, -, heq⟩ | ⟨data, rfl, hdata, heq⟩ | ⟨hw, heq⟩
  · rw [heq] at hnil
    cases hnil
  · -- The buffer was empty, and so was the answer that should have filled it.
    rw [heq] at hnil
    rw [hempty data (Except.ok.inj hnil)] at hdata
    exact hprompt t (ask b) ht (hask b hb) hdata
  · rw [heq] at hnil
    exact absurd (hempty w (Except.ok.inj hnil)) hw

/-- It falters when its reader does. -/
theorem buffered_falters {retry : E → Bool} {failures : T → ℕ}
    (h : Falters inner retry I failures) :
    Falters (buffered inner ask room) retry (fun s => I s.1) fun s => failures s.1 where
  ok := by
    rintro ⟨t, w⟩ b data ht hdata
    rcases buffered_cases inner ask room t w b with
      ⟨e, -, -, heq⟩ | ⟨data', -, hdata', heq⟩ | ⟨-, heq⟩
    · rw [heq] at hdata
      cases hdata
    · rw [heq]
      exact h.ok t (ask b) data' ht hdata'
    · simp [heq]
  error := by
    rintro ⟨t, w⟩ b e ht he
    rcases buffered_cases inner ask room t w b with
      ⟨e', -, he', heq⟩ | ⟨data, -, -, heq⟩ | ⟨-, heq⟩
    · rw [heq] at he ⊢
      cases he
      exact h.error t (ask b) _ ht he'
    · rw [heq] at he
      cases he
    · rw [heq] at he
      cases he

end Buffered

end MmapZstd.Reader
