import MmapZstd.Lib.Frames

/-!
# The greedy decoder

`greedy` is a step function that meets `Advance`: it delivers as much as the room holds of what the
offered input determines, finishes the frame when that is everything, and otherwise consumes all
the input it was offered, short of the frame's last symbol. So the calls that `Advance` allows
exist for every stream, and the decoders that read ahead of their output are among them.
-/

namespace MmapZstd.Frames

variable {α β : Type*}

/-- What a call reports, and where it leaves the decoder. -/
structure Step (α β : Type*) where
  remaining : ℕ
  read : ℕ
  written : ℕ
  cursor : Cursor α β

/-- A cursor inside the frame `f`. -/
def Cursor.within (f : Frame α β) (rest : List (Frame α β)) (taken owed given : ℕ)
    (h : taken < f.bytes.length ∧ taken + owed ≤ f.bytes.length ∧
      given ≤ f.determined (taken + owed)) : Cursor α β where
  frames := f :: rest
  taken := taken
  owed := owed
  given := given
  inside g hg := by
    obtain rfl : f = g := by simpa using hg
    exact h
  past h := by simp at h

/-- One call of the greedy decoder. -/
def greedy (c : Cursor α β) (offered room : ℕ) : Step α β :=
  match c.frames with
  | [] => ⟨1, 0, 0, c⟩
  | f :: rest =>
    -- The input seen of the frame, and the content that it determines and that is not delivered.
    let seen := min (c.taken + offered) f.bytes.length
    let waiting := f.determined seen - c.given
    if hfull : room < waiting then
      let taken := min seen (f.bytes.length - 1)
      have hseen : taken + (seen - taken) = seen := by omega
      ⟨1, taken - c.taken, room, .within f rest taken (seen - taken) (c.given + room)
        ⟨by have := f.length_pos; omega, by omega, by rw [hseen]; omega⟩⟩
    else if hshort : seen < f.bytes.length then
      ⟨1, offered, waiting, .within f rest seen 0 (f.determined seen)
        ⟨hshort, by omega, by simp⟩⟩
    else ⟨0, f.bytes.length - c.taken, waiting, .start rest⟩

/-- The greedy decoder makes a call that `Advance` allows, when it is offered again what it left
unread. -/
theorem greedy_advance (c : Cursor α β) (offered room : ℕ) (howed : c.owed ≤ offered)
    (hend : c.frames = [] → offered = 0) :
    Advance c offered room (greedy c offered room).remaining (greedy c offered room).read
      (greedy c offered room).written (greedy c offered room).cursor := by
  cases hf : c.frames with
  | nil =>
    simp only [greedy, hf]
    exact .idle hf (hend hf) rfl rfl Nat.one_ne_zero rfl
  | cons f rest =>
    obtain ⟨htaken, hle, hgiven⟩ := c.inside_cons hf
    have hmono : c.given ≤ f.determined (min (c.taken + offered) f.bytes.length) :=
      hgiven.trans (f.determined_mono (by omega))
    simp only [greedy, hf]
    -- The room is too small, or the input ends before the frame does, or the frame is finished.
    split_ifs with hfull hshort
    · exact .full f rest hf (by simp only; omega) (by simp only; omega) rfl
        (by simp only; omega) Nat.one_ne_zero rfl (by simp only [Cursor.within]; omega)
        (by simp only [Cursor.within]; omega) rfl
    · have hmin : min (c.taken + offered) f.bytes.length = c.taken + offered := by omega
      rw [hmin] at hmono
      refine .starved f rest hf rfl (by simp only; omega) (by simp only; omega)
        (by simp only [hmin]; omega) Nat.one_ne_zero rfl (by simp only [Cursor.within]; omega) rfl
        (by simp only [Cursor.within, hmin]; omega)
    · have hmin : min (c.taken + offered) f.bytes.length = f.bytes.length := by omega
      rw [hmin, f.determined_length] at hmono
      exact .finished f rest hf (by simp only; omega) (by simp only; omega) (by simp only; omega)
        (by simp only [hmin, f.determined_length]; omega) rfl rfl

/-- The greedy decoder keeps the bounds of a call, whatever it is offered. -/
theorem greedy_le (c : Cursor α β) (offered room : ℕ) :
    (greedy c offered room).read ≤ offered ∧ (greedy c offered room).written ≤ room := by
  cases hf : c.frames with
  | nil => simp [greedy, hf]
  | cons f rest =>
    have hlt := (c.inside_cons hf).1
    simp only [greedy, hf]
    split_ifs with hfull hshort
    · exact ⟨by simp only; omega, le_rfl⟩
    · exact ⟨le_rfl, by simp only; omega⟩
    · exact ⟨by simp only; omega, by simp only; omega⟩

/-- The greedy decoder is eager. -/
theorem greedy_eager (c : Cursor α β) (hc : c.Eager) (offered room : ℕ) :
    (greedy c offered room).cursor.Eager := by
  intro g hg howed
  cases hf : c.frames with
  | nil =>
    simp only [greedy, hf] at hg howed ⊢
    exact hc g (by rwa [hf]) howed
  | cons f rest =>
    simp only [greedy, hf] at hg howed ⊢
    split_ifs at hg howed ⊢ with hfull hshort
    · obtain rfl : f = g := by simpa [Cursor.within] using hg
      simp only [Cursor.within]
      rw [show ∀ x y : ℕ, min x y + (x - min x y) = x by omega]
      omega
    · simp [Cursor.within] at howed
    · simp [Cursor.start] at howed

/-- Output is held back at the end of the input: it is pending when the input is consumed, and
before that nothing of the cut frame is delivered. -/
def Cursor.Withholds (c : Cursor α β) (left : ℕ) : Prop :=
  if left = 0 then c.reach 0 ≠ []
  else ∀ f ∈ c.frames.head?, c.taken + left < f.bytes.length → c.given = 0

/-- Nothing is delivered at the start. -/
theorem Cursor.start_withholds (fs : List (Frame α β)) {left : ℕ} (hleft : 0 < left) :
    (Cursor.start fs).Withholds left := by
  unfold Cursor.Withholds
  rw [if_neg (by omega)]
  exact fun _ _ _ => rfl

/-- The greedy decoder consumes the rest of the input and holds output back, when there is no room
for what the input determines of the frame that it cuts. -/
theorem greedy_withholds (c : Cursor α β) {left room : ℕ} (h : c.Withholds left) (hleft : 0 < left)
    (hcut : room < c.cut left) :
    (greedy c left room).cursor.Withholds (left - (greedy c left room).read) := by
  unfold Cursor.Withholds at h
  unfold Cursor.cut at hcut
  rw [if_neg (by omega)] at h
  cases hf : c.frames with
  | nil =>
    rw [hf, cutSize] at hcut
    omega
  | cons f rest =>
    obtain ⟨htaken, howed, hgiven⟩ := c.inside_cons hf
    have h := h f (by simp [hf])
    rw [hf, cutSize] at hcut
    simp only [greedy, hf]
    split_ifs with hfull hshort
    · -- The room is filled. If that leaves input, the frame is not the one that is cut.
      simp only [Cursor.Withholds]
      split_ifs with hend
      · have hseen : min (min (c.taken + left) f.bytes.length) (f.bytes.length - 1) =
            min (c.taken + left) f.bytes.length := by omega
        have hle := f.determined_le (Nat.min_le_right (c.taken + left) f.bytes.length)
        apply List.ne_nil_of_length_pos
        simp only [Cursor.reach, Cursor.within, decodedBy, hseen, Nat.add_zero]
        rw [if_pos (by omega), List.length_drop, List.length_take]
        omega
      · intro g hg hshort
        obtain rfl : f = g := by simpa [Cursor.within] using hg
        simp only [Cursor.within] at hshort ⊢
        omega
    · -- Everything is delivered: not of the cut frame, for which there is no room.
      have hmin : min (c.taken + left) f.bytes.length = c.taken + left := by omega
      rw [hmin] at hfull hshort
      rw [if_pos hshort] at hcut
      have := h hshort
      omega
    · rw [if_neg (by omega)] at hcut
      rcases Nat.eq_zero_or_pos (left - (f.bytes.length - c.taken)) with hend | hmore
      · rw [show c.taken + left - f.bytes.length = 0 by omega, cutSize_zero] at hcut
        omega
      · exact Cursor.start_withholds rest hmore

end MmapZstd.Frames
