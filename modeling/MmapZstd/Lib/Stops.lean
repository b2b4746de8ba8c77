import MmapZstd.Lib.Frames

/-!
# Calls that deliver nothing

A reader that takes a call without output for the end of the stream stops at the first one. This
module says where such a call leaves the decoder, for readers that offer all the input there is.

An eager decoder that was offered all the input goes on to the end of the frame once the content is
out (`Advance.unfinished`). So a call without output has either met a frame without content, or
has nothing left to deliver (`Advance.silent`). On a whole stream, the first kind of stop is early
exactly when more frames follow (`Advance.ends_iff`).

A reader that stops when its input is consumed, without another call, leaves nothing undelivered
when its buffers have room for what the input determines of the frame that it cuts
(`Advance.flushed`).
-/

namespace MmapZstd.Frames

variable {α β : Type*}

/-- A frame without content comes before the last frame of the stream. -/
def Hidden (fs : List (Frame α β)) : Prop := ∃ f ∈ fs.dropLast, f.content = []

@[simp]
theorem not_hidden_nil : ¬ Hidden ([] : List (Frame α β)) := by
  simp [Hidden]

/-- A frame hides nothing when it has content or is the last. -/
theorem hidden_cons {f : Frame α β} {rest : List (Frame α β)} :
    Hidden (f :: rest) ↔ (f.content = [] ∧ rest ≠ []) ∨ Hidden rest := by
  cases rest with
  | nil => simp [Hidden]
  | cons g rest => simp [Hidden]

/-- When input is left, the content of the first frame has not been delivered; so if all of it has,
it is empty. -/
def Cursor.Unfinished (c : Cursor α β) (left : ℕ) : Prop :=
  0 < left → ∀ f ∈ c.frames.head?, c.given = f.content.length → f.content = []

/-- Nothing is delivered at the start. -/
theorem Cursor.start_unfinished (fs : List (Frame α β)) (left : ℕ) :
    (Cursor.start fs).Unfinished left := by
  intro _ f _ hgiven
  exact List.eq_nil_of_length_eq_zero hgiven.symm

/-- What was consumed of the first frame determines nothing that is not delivered, or all that the
`left` symbols to come determine of the cut frame is delivered. -/
def Cursor.Flushed (c : Cursor α β) (left : ℕ) : Prop :=
  ∀ f ∈ c.frames.head?, c.given = f.determined c.taken ∨ c.cut left ≤ c.given

/-- Nothing is determined at the start. -/
theorem Cursor.start_flushed (fs : List (Frame α β)) (left : ℕ) :
    (Cursor.start fs).Flushed left :=
  fun f _ => .inl f.determined_zero.symm

/-- When the input is consumed, a flushed decoder has nothing to deliver. -/
theorem Cursor.Flushed.reach_eq {c : Cursor α β} (h : c.Flushed 0) : c.reach 0 = [] := by
  cases hf : c.frames with
  | nil => exact c.reach_of_frames hf 0
  | cons f rest =>
    have hlt := (c.inside_cons hf).1
    have hgiven := h f (by simp [hf])
    unfold Cursor.cut at hgiven
    unfold Cursor.reach
    rw [hf, cutSize, Nat.add_zero, if_pos hlt] at hgiven
    rw [hf, decodedBy, Nat.add_zero, if_pos hlt]
    apply List.drop_eq_nil_of_le
    rw [List.length_take]
    omega

section Advance

variable {c c' : Cursor α β} {left room remaining read written : ℕ}

/-- An eager decoder that is offered all the input leaves no frame with its content delivered and
its input unread. -/
theorem Advance.unfinished (h : Advance c left room remaining read written c') (hc : c'.Eager) :
    c'.Unfinished (left - read) := by
  intro hleft g hg hgiven
  cases h with
  | finished f rest _ _ _ _ _ _ next =>
    rw [next] at hgiven
    exact List.eq_nil_of_length_eq_zero hgiven.symm
  | starved f rest _ hr => omega
  | full f rest _ _ short _ _ _ hf' htaken howed _ =>
    -- Input is left, so some of the frame's is owed, and an eager decoder owes only for content.
    obtain rfl : f = g := by simpa [hf'] using hg
    have hlt := hc f hg (by omega)
    have hle := f.determined_le (c'.inside_cons hf').2.1
    omega
  | idle _ ho => omega

/-- A call without output has gone past a frame without content, or has left nothing in reach. -/
theorem Advance.silent (h : Advance c left room remaining read 0 c') (hroom : 0 < room)
    (hc : c.Unfinished left) :
    (∃ f rest, c.frames = f :: rest ∧ f.content = [] ∧ c' = Cursor.start rest) ∨
      c'.reach (left - read) = [] := by
  cases h with
  | finished f rest hf hr ends _ flushed _ next =>
    have hlt := (c.inside_cons hf).1
    exact .inl ⟨f, rest, hf, hc (by omega) f (by simp [hf]) (by omega), next⟩
  | starved f rest hf hr short _ flushed _ hf' htaken _ hgiven =>
    refine .inr ?_
    unfold Cursor.reach
    rw [hf', decodedBy, htaken, hgiven, flushed, hr, Nat.sub_self, Nat.add_zero,
      if_pos (by omega)]
    exact List.drop_eq_nil_of_le (List.length_take_le _ _)
  | full f rest _ _ _ hw => omega
  | idle hf _ _ _ _ next => exact .inr (next ▸ Cursor.reach_of_frames hf _)

/-- A call without progress was offered nothing, and has left nothing in reach. -/
theorem Advance.stalled (h : Advance c left room remaining 0 0 c') (hroom : 0 < room) :
    left = 0 ∧ c'.reach 0 = [] := by
  have hleft : left = 0 := by
    by_contra hpos
    have hprogress := h.progress (by omega) hroom
    omega
  refine ⟨hleft, ?_⟩
  -- With no input left, no frame is left unfinished with its content out.
  rcases h.silent hroom (fun hpos => absurd hpos (by omega)) with ⟨f, rest, hf, -, hc'⟩ | hreach
  · have hbytes := h.bytes_eq
    rw [hc', c.bytes_cons hf, List.drop_zero, Cursor.bytes_start] at hbytes
    have hlt := (c.inside_cons hf).1
    have hlen := congrArg List.length hbytes
    rw [List.length_append, List.length_drop] at hlen
    omega
  · rwa [hleft] at hreach

/-- On a whole stream, a call without output has come to its end unless a frame without content
hides others behind it. -/
theorem Advance.ends_iff (h : Advance c c.bytes.length room remaining read 0 c')
    (hroom : 0 < room) (hc : c.Unfinished c.bytes.length) :
    c'.frames = [] ↔ ¬ Hidden c.frames := by
  cases h with
  | finished f rest hf hr ends _ flushed _ next =>
    have hlt := (c.inside_cons hf).1
    have hempty := hc (by omega) f (by simp [hf]) (by omega)
    have hrest : Hidden rest → rest ≠ [] := by
      rintro hidden rfl
      exact not_hidden_nil hidden
    rw [next, hf, hidden_cons]
    simp only [Cursor.start]
    tauto
  | starved f rest hf hr short =>
    -- All the input of the frame was offered.
    rw [c.bytes_cons hf, List.length_append, List.length_drop] at hr
    omega
  | full f rest _ _ _ hw => omega
  | idle hf _ _ _ _ next => simp [next, hf]

/-- A call with output has met no frame without content, so it hides nothing and uncovers
nothing. -/
theorem Advance.hidden_iff (h : Advance c left room remaining read written c')
    (hw : 0 < written) : Hidden c'.frames ↔ Hidden c.frames := by
  cases h with
  | finished f rest hf _ _ _ flushed _ next =>
    have hne : f.content ≠ [] := List.ne_nil_of_length_pos (by omega)
    rw [next, hf, hidden_cons]
    simp [Cursor.start, hne]
  | starved f rest hf _ _ _ _ _ hf' => rw [hf, hf']
  | full f rest hf _ _ _ _ _ hf' => rw [hf, hf']
  | idle _ _ _ hw' => omega

/-- A call with room for what the input determines of the cut frame leaves the decoder flushed. -/
theorem Advance.flushed {offered : ℕ}
    (h : Advance c offered room remaining read written c') (hleft : offered ≤ left)
    (hroom : c.cut left ≤ room) : c'.Flushed (left - read) := by
  intro g hg
  have hcut := h.cut_eq hleft
  cases h with
  | finished f rest _ _ _ _ _ _ next =>
    rw [next]
    exact .inl g.determined_zero.symm
  | starved f rest _ _ _ _ flushed _ hf' htaken _ hgiven =>
    obtain rfl : f = g := by simpa [hf'] using hg
    exact .inl (by rw [hgiven, flushed, htaken])
  | full f rest _ _ _ hw _ _ _ _ _ hgiven => exact .inr (by omega)
  | idle hf _ _ _ _ next =>
    rw [next, hf] at hg
    cases hg

/-- A call that consumes the last of the input leaves nothing in reach exactly when it has room for
what was in reach. -/
theorem Advance.reach_last {offered : ℕ} (h : Advance c offered room remaining left written c')
    (hleft : offered ≤ left) : c'.reach 0 = [] ↔ (c.reach left).length ≤ room := by
  obtain ⟨-, hreach⟩ := h.reach_eq hleft
  have hw := h.written_le
  rw [Nat.sub_self] at hreach
  constructor
  · intro hnone
    rw [hreach, List.drop_eq_nil_iff] at hnone
    omega
  · intro hroom
    cases h with
    | finished f rest _ _ _ _ _ _ next => rw [next, Cursor.reach_start, decodedBy_zero]
    | starved f rest _ _ short _ flushed _ hf' htaken _ hgiven =>
      unfold Cursor.reach
      rw [hf', decodedBy, htaken, hgiven, flushed, Nat.add_zero, if_pos short]
      exact List.drop_eq_nil_of_le (List.length_take_le _ _)
    | full f rest _ _ _ hw =>
      rw [hreach, hw]
      exact List.drop_eq_nil_of_le hroom
    | idle hf _ _ _ _ next => exact next ▸ Cursor.reach_of_frames hf _

/-- A call finishes frames at the front of the stream, and adds none. -/
theorem Advance.frames_suffix {offered : ℕ}
    (h : Advance c offered room remaining read written c') : c'.frames <:+ c.frames := by
  cases h with
  | finished f rest hf _ _ _ _ _ next =>
    rw [next, hf]
    exact List.suffix_cons f rest
  | starved f rest hf _ _ _ _ _ hf' => rw [hf, hf']
  | full f rest hf _ _ _ _ _ hf' => rw [hf, hf']
  | idle _ _ _ _ _ next => rw [next]

end Advance

end MmapZstd.Frames
