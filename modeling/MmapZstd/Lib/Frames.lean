import Mathlib.Data.List.Infix
import Mathlib.Order.Monotone.Basic

/-!
# Streams of frames and the calls that decode them

A stream is a concatenation of frames. A frame is a non-empty string of input symbols that stands
for a string of output symbols, its content. `determined k` says how much of the content the first
`k` input symbols determine: nothing of it at first, all of it at the end, and more with every
symbol in between, a block at a time in most formats.

A streaming decoder goes through a stream in calls. Each call is offered some input and some room
for output. `Cursor` is where the decoder stands between two calls, and `Advance` is what one call
may do. A call stops for one of three reasons: it has come to the end of a frame, it has used all
the input it was offered and delivered everything that this input determines, or it has filled the
room. The input that a call leaves unread is *owed*: the next call must be offered at least that
much again.

`Cursor.reach left` is the content that the decoder has still to deliver when only the next `left`
input symbols will ever be offered. A call takes its output from the front of the reach and leaves
the rest (`Advance.reach_eq`), so whatever a run of calls delivers is a prefix of the reach at its
start.
-/

namespace MmapZstd.Frames

/-- A complete frame. -/
structure Frame (α β : Type*) where
  /-- The input symbols of the frame. -/
  bytes : List α
  /-- The content that the frame stands for. It may be empty. -/
  content : List β
  /-- How many symbols of the content the first `k` input symbols determine. -/
  determined : ℕ → ℕ
  /-- A frame has at least its header. -/
  bytes_ne : bytes ≠ []
  /-- No input determines no content. -/
  determined_zero : determined 0 = 0
  /-- More input determines more content. -/
  determined_mono : Monotone determined
  /-- The whole frame determines the whole content. -/
  determined_length : determined bytes.length = content.length

variable {α β : Type*}

/-- A frame has input. -/
theorem Frame.length_pos (f : Frame α β) : 0 < f.bytes.length :=
  List.length_pos_of_ne_nil f.bytes_ne

/-- A prefix of a frame determines no more than its content. -/
theorem Frame.determined_le (f : Frame α β) {k : ℕ} (hk : k ≤ f.bytes.length) :
    f.determined k ≤ f.content.length :=
  f.determined_length ▸ f.determined_mono hk

/-- The input symbols of a stream. -/
def encoded (fs : List (Frame α β)) : List α := (fs.map Frame.bytes).flatten

/-- The content of a stream. -/
def decoded (fs : List (Frame α β)) : List β := (fs.map Frame.content).flatten

/-- The content that the first `n` input symbols of a stream determine: that of the frames that
they complete and the determined part of the frame that they cut. -/
def decodedBy : List (Frame α β) → ℕ → List β
  | [], _ => []
  | f :: rest, n =>
    if n < f.bytes.length then f.content.take (f.determined n)
    else f.content ++ decodedBy rest (n - f.bytes.length)

/-- How much content the first `n` input symbols determine of the frame that they cut; zero when
they cut no frame. -/
def cutSize : List (Frame α β) → ℕ → ℕ
  | [], _ => 0
  | f :: rest, n =>
    if n < f.bytes.length then f.determined n else cutSize rest (n - f.bytes.length)

@[simp]
theorem encoded_nil : encoded ([] : List (Frame α β)) = [] := rfl

@[simp]
theorem encoded_cons (f : Frame α β) (fs : List (Frame α β)) :
    encoded (f :: fs) = f.bytes ++ encoded fs := rfl

@[simp]
theorem decoded_cons (f : Frame α β) (fs : List (Frame α β)) :
    decoded (f :: fs) = f.content ++ decoded fs := rfl

/-- Streams one after the other. -/
theorem encoded_append (fs gs : List (Frame α β)) :
    encoded (fs ++ gs) = encoded fs ++ encoded gs := by
  simp [encoded]

/-- A stream that ends in its frame `f` is a prefix of the stream. -/
theorem encoded_take_isPrefix (before : List (Frame α β)) (f : Frame α β)
    (after : List (Frame α β)) (k : ℕ) :
    encoded before ++ f.bytes.take k <+: encoded (before ++ f :: after) := by
  rw [encoded_append, encoded_cons]
  exact (List.prefix_append_right_inj _).mpr
    ((List.take_prefix k f.bytes).trans (List.prefix_append _ _))

/-- What a prefix of a stream determines is a prefix of the stream's content. -/
theorem decodedBy_isPrefix (fs : List (Frame α β)) (n : ℕ) : decodedBy fs n <+: decoded fs := by
  induction fs generalizing n with
  | nil => simp [decodedBy]
  | cons f rest ih =>
    rw [decodedBy, decoded_cons]
    split_ifs
    · exact (List.take_prefix _ _).trans (List.prefix_append _ _)
    · exact (List.prefix_append_right_inj _).mpr (ih _)

/-- The whole stream determines its whole content. -/
theorem decodedBy_of_le {fs : List (Frame α β)} {n : ℕ} (h : (encoded fs).length ≤ n) :
    decodedBy fs n = decoded fs := by
  induction fs generalizing n with
  | nil => rfl
  | cons f rest ih =>
    rw [encoded_cons, List.length_append] at h
    rw [decodedBy, if_neg (by omega), ih (by omega), decoded_cons]

/-- No input determines nothing. -/
@[simp]
theorem decodedBy_zero (fs : List (Frame α β)) : decodedBy fs 0 = [] := by
  cases fs with
  | nil => rfl
  | cons f rest => rw [decodedBy, if_pos f.length_pos, f.determined_zero, List.take_zero]

/-- No input cuts no frame. -/
@[simp]
theorem cutSize_zero (fs : List (Frame α β)) : cutSize fs 0 = 0 := by
  cases fs with
  | nil => rfl
  | cons f rest => rw [cutSize, if_pos f.length_pos, f.determined_zero]

/-- Where a decoder stands in a stream between two calls. -/
structure Cursor (α β : Type*) where
  /-- The frames not yet finished; the first is the one being decoded. -/
  frames : List (Frame α β)
  /-- The input symbols of the first frame that were consumed. -/
  taken : ℕ
  /-- The input symbols of the first frame that were offered and left unread. -/
  owed : ℕ
  /-- The content of the first frame that was delivered. -/
  given : ℕ
  /-- The first frame is not finished, and what was delivered of it is determined by what was
  offered of it. -/
  inside : ∀ f ∈ frames.head?, taken < f.bytes.length ∧ taken + owed ≤ f.bytes.length ∧
    given ≤ f.determined (taken + owed)
  /-- Past the last frame nothing is pending. -/
  past : frames = [] → taken = 0 ∧ owed = 0 ∧ given = 0

/-- The start of a stream. -/
def Cursor.start (fs : List (Frame α β)) : Cursor α β where
  frames := fs
  taken := 0
  owed := 0
  given := 0
  inside f _ := ⟨f.length_pos, by simp, by simp⟩
  past _ := ⟨rfl, rfl, rfl⟩

/-- The input that is still to be consumed. -/
def Cursor.bytes (c : Cursor α β) : List α := (encoded c.frames).drop c.taken

/-- The content that is still to be delivered. -/
def Cursor.content (c : Cursor α β) : List β := (decoded c.frames).drop c.given

/-- The content that is still to be delivered when the input ends after the next `left` symbols. -/
def Cursor.reach (c : Cursor α β) (left : ℕ) : List β :=
  (decodedBy c.frames (c.taken + left)).drop c.given

/-- The size of the cut frame's determined content when the input ends after the next `left`
symbols. -/
def Cursor.cut (c : Cursor α β) (left : ℕ) : ℕ := cutSize c.frames (c.taken + left)

@[simp]
theorem Cursor.bytes_start (fs : List (Frame α β)) : (Cursor.start fs).bytes = encoded fs := rfl

@[simp]
theorem Cursor.reach_start (fs : List (Frame α β)) (left : ℕ) :
    (Cursor.start fs).reach left = decodedBy fs left := by
  simp [Cursor.reach, Cursor.start]

@[simp]
theorem Cursor.cut_start (fs : List (Frame α β)) (left : ℕ) :
    (Cursor.start fs).cut left = cutSize fs left := by
  simp [Cursor.cut, Cursor.start]

/-- What `inside` says of the first frame. -/
theorem Cursor.inside_cons (c : Cursor α β) {f : Frame α β} {rest : List (Frame α β)}
    (h : c.frames = f :: rest) : c.taken < f.bytes.length ∧ c.taken + c.owed ≤ f.bytes.length ∧
      c.given ≤ f.determined (c.taken + c.owed) :=
  c.inside f (by simp [h])

/-- The content delivered of a frame is part of its content. -/
theorem Cursor.given_le (c : Cursor α β) {f : Frame α β} {rest : List (Frame α β)}
    (h : c.frames = f :: rest) : c.given ≤ f.content.length := by
  obtain ⟨-, howed, hgiven⟩ := c.inside_cons h
  exact hgiven.trans (f.determined_le howed)

/-- A cursor inside a frame has input to come. -/
theorem Cursor.bytes_cons (c : Cursor α β) {f : Frame α β} {rest : List (Frame α β)}
    (h : c.frames = f :: rest) : c.bytes = f.bytes.drop c.taken ++ encoded rest := by
  have hlt := (c.inside_cons h).1
  unfold Cursor.bytes
  rw [h, encoded_cons, List.drop_append_of_le_length (by omega)]

/-- A decoder that has consumed the whole stream has finished every frame, and so has delivered
its content. -/
theorem Cursor.frames_of_bytes {c : Cursor α β} (h : c.bytes = []) : c.frames = [] := by
  cases hf : c.frames with
  | nil => rfl
  | cons f rest =>
    have hlt := (c.inside_cons hf).1
    have hlen := congrArg List.length h
    rw [c.bytes_cons hf] at hlen
    simp only [List.length_append, List.length_drop, List.length_nil] at hlen
    omega

/-- How much input is still to be consumed says where a cursor in a stream stands. -/
theorem Cursor.at_cut (c : Cursor α β) {before after : List (Frame α β)} {f : Frame α β} {k : ℕ}
    (hframes : c.frames <:+ before ++ f :: after) (hk : k < f.bytes.length)
    (hbytes : c.bytes.length = f.bytes.length - k + (encoded after).length) :
    c.frames = f :: after ∧ c.taken = k := by
  have hle : c.bytes.length ≤ (encoded c.frames).length := by
    unfold Cursor.bytes
    rw [List.length_drop]
    omega
  rcases List.suffix_or_suffix_of_suffix hframes (List.suffix_append before (f :: after)) with
    hshort | ⟨first, hlong⟩
  · rcases List.suffix_cons_iff.mp hshort with hf | ⟨first, hlater⟩
    · rw [c.bytes_cons hf, List.length_append, List.length_drop] at hbytes
      have hlt := (c.inside_cons hf).1
      exact ⟨hf, by omega⟩
    · -- Past the frame, less input is left.
      have hlen := congrArg (fun fs => (encoded fs).length) hlater
      simp only [encoded_append, List.length_append] at hlen
      omega
  · cases first with
    | nil =>
      have hf : c.frames = f :: after := hlong.symm
      rw [c.bytes_cons hf, List.length_append, List.length_drop] at hbytes
      have hlt := (c.inside_cons hf).1
      exact ⟨hf, by omega⟩
    | cons g first =>
      -- Before the frame, more is left.
      have hf : c.frames = g :: (first ++ f :: after) := hlong.symm
      have hlt := (c.inside_cons hf).1
      rw [c.bytes_cons hf, encoded_append, encoded_cons] at hbytes
      simp only [List.length_append, List.length_drop] at hbytes
      omega

/-- Nothing is in reach past the last frame. -/
theorem Cursor.reach_of_frames {c : Cursor α β} (h : c.frames = []) (left : ℕ) :
    c.reach left = [] := by
  simp [Cursor.reach, h, decodedBy]

/-- What is in reach is a prefix of the content to come. -/
theorem Cursor.reach_prefix (c : Cursor α β) (left : ℕ) : c.reach left <+: c.content :=
  (decodedBy_isPrefix c.frames (c.taken + left)).drop c.given

/-- With all the input to come, all the content to come is in reach. -/
theorem Cursor.reach_of_le {c : Cursor α β} {left : ℕ} (h : c.bytes.length ≤ left) :
    c.reach left = c.content := by
  have hlen : (encoded c.frames).length ≤ c.taken + left := by
    unfold Cursor.bytes at h
    rw [List.length_drop] at h
    omega
  unfold Cursor.reach Cursor.content
  rw [decodedBy_of_le hlen]

/-- An eager decoder leaves offered input unread only while content that this input determines is
waiting for room. -/
def Cursor.Eager (c : Cursor α β) : Prop :=
  ∀ f ∈ c.frames.head?, 0 < c.owed → c.given < f.determined (c.taken + c.owed)

/-- What one call of a streaming decoder may do at the cursor `c`, offered `offered` input symbols
and room for `room` output symbols: it consumes `read` symbols, delivers `written`, and goes to the
cursor `c'`. `remaining` is the decoder's own report, zero when a frame has just been finished. -/
inductive Advance (c : Cursor α β) (offered room remaining read written : ℕ)
    (c' : Cursor α β) : Prop
  /-- The call finished the frame: the last input symbol of a frame is consumed by a call that has
  delivered its whole content, and no call goes on into the next frame. -/
  | finished (f : Frame α β) (rest : List (Frame α β)) (frames : c.frames = f :: rest)
      (read_le : read ≤ offered) (ends : c.taken + read = f.bytes.length)
      (written_le : written ≤ room) (flushed : c.given + written = f.content.length)
      (reported : remaining = 0) (next : c' = Cursor.start rest)
  /-- The call used all the input, short of the end of the frame, and delivered everything that
  this input determines. -/
  | starved (f : Frame α β) (rest : List (Frame α β)) (frames : c.frames = f :: rest)
      (read_all : read = offered) (short : c.taken + read < f.bytes.length)
      (written_le : written ≤ room) (flushed : c.given + written = f.determined (c.taken + read))
      (reported : remaining ≠ 0) (frames' : c'.frames = f :: rest)
      (taken' : c'.taken = c.taken + read) (owed' : c'.owed = 0)
      (given' : c'.given = c.given + written)
  /-- The call filled the room, short of the end of the frame. -/
  | full (f : Frame α β) (rest : List (Frame α β)) (frames : c.frames = f :: rest)
      (read_le : read ≤ offered) (short : c.taken + read < f.bytes.length)
      (written_all : written = room)
      (decided : c.given + written ≤ f.determined (min (c.taken + offered) f.bytes.length))
      (reported : remaining ≠ 0) (frames' : c'.frames = f :: rest)
      (taken' : c'.taken = c.taken + read)
      (owed' : c'.taken + c'.owed = min (c.taken + offered) f.bytes.length)
      (given' : c'.given = c.given + written)
  /-- The stream is over: there is nothing to offer and nothing to deliver. -/
  | idle (frames : c.frames = []) (no_offer : offered = 0) (no_read : read = 0)
      (no_write : written = 0) (reported : remaining ≠ 0) (next : c' = c)

section Advance

variable {c c' : Cursor α β} {offered room remaining read written left : ℕ}
  (h : Advance c offered room remaining read written c')
include h

/-- A call consumes a prefix of what it was offered. -/
theorem Advance.read_le : read ≤ offered := by
  cases h with
  | finished f rest _ hr => exact hr
  | starved f rest _ hr => omega
  | full f rest _ hr => exact hr
  | idle _ _ hr => omega

/-- A call delivers no more than it has room for. -/
theorem Advance.written_le : written ≤ room := by
  cases h with
  | finished f rest _ _ _ hw => exact hw
  | starved f rest _ _ _ hw => exact hw
  | full f rest _ _ _ hw => omega
  | idle _ _ _ hw => omega

/-- A call owes no more than it was offered and left unread. -/
theorem Advance.owed_le : c'.owed + read ≤ offered := by
  cases h with
  | finished f rest _ hr _ _ _ _ next =>
    subst next
    simpa [Cursor.start] using hr
  | starved f rest _ hr _ _ _ _ _ _ howed => omega
  | full f rest _ hr _ _ _ _ _ htaken howed => omega
  | idle frames ho hr _ _ next =>
    subst next
    have := (c'.past frames).2.1
    omega

/-- A call that is offered input and has room makes progress. -/
theorem Advance.progress (ho : 0 < offered) (hroom : 0 < room) : 0 < read ∨ 0 < written := by
  cases h with
  | finished f rest hf _ ends =>
    have := (c.inside_cons hf).1
    omega
  | starved f rest _ hr => omega
  | full f rest _ _ _ hw => omega
  | idle _ h0 => omega

/-- The input that a call leaves is the input there was without what it consumed. -/
theorem Advance.bytes_eq : c'.bytes = c.bytes.drop read := by
  have step : ∀ f rest, c.frames = f :: rest → c'.frames = f :: rest →
      c'.taken = c.taken + read → c'.bytes = c.bytes.drop read := by
    intro f rest hf hf' htaken
    unfold Cursor.bytes
    rw [hf, hf', htaken, List.drop_drop]
  cases h with
  | finished f rest hf _ ends _ _ _ next =>
    rw [next, c.bytes_cons hf, Cursor.bytes_start, List.drop_append,
      List.drop_eq_nil_of_le (by simp only [List.length_drop]; omega), List.length_drop,
      show read - (f.bytes.length - c.taken) = 0 by omega]
    simp
  | starved f rest hf _ _ _ _ _ hf' htaken => exact step f rest hf hf' htaken
  | full f rest hf _ _ _ _ _ hf' htaken => exact step f rest hf hf' htaken
  | idle _ _ hr _ _ next => rw [next, hr, List.drop_zero]

/-- When the input ends after `left` symbols, of which `offered` are offered, a call takes its
output from the front of the reach and leaves the rest in reach. -/
theorem Advance.reach_eq (hleft : offered ≤ left) :
    written ≤ (c.reach left).length ∧ c'.reach (left - read) = (c.reach left).drop written := by
  have hread := h.read_le
  -- Short of the end of the frame only the counters move.
  have step : ∀ f rest, c.frames = f :: rest → c'.frames = f :: rest →
      c'.taken = c.taken + read → c'.given = c.given + written →
      c'.reach (left - read) = (c.reach left).drop written := by
    intro f rest hf hf' htaken hgiven
    unfold Cursor.reach
    rw [hf, hf', htaken, hgiven, List.drop_drop,
      show c.taken + read + (left - read) = c.taken + left by omega]
  -- The output is determined by what was offered, so it is in reach.
  have bound : ∀ f rest, c.frames = f :: rest →
      c.given + written ≤ f.determined (min (c.taken + offered) f.bytes.length) →
      written ≤ (c.reach left).length := by
    intro f rest hf hw
    unfold Cursor.reach
    rw [hf, decodedBy, List.length_drop]
    split_ifs with hcut
    · have hmono : f.determined (min (c.taken + offered) f.bytes.length) ≤
          f.determined (c.taken + left) := f.determined_mono (by omega)
      have hle := f.determined_le hcut.le
      rw [List.length_take]
      omega
    · have hle := f.determined_le (Nat.min_le_right (c.taken + offered) f.bytes.length)
      rw [List.length_append]
      omega
  cases h with
  | finished f rest hf _ ends _ flushed _ next =>
    have hreach : c.reach left =
        f.content.drop c.given ++ decodedBy rest (c.taken + left - f.bytes.length) := by
      have hgiven := c.given_le hf
      unfold Cursor.reach
      rw [hf, decodedBy, if_neg (by omega), List.drop_append_of_le_length hgiven]
    have hlen : (f.content.drop c.given).length = written := by
      rw [List.length_drop]
      omega
    refine ⟨by rw [hreach, List.length_append]; omega, ?_⟩
    rw [next, Cursor.reach_start, hreach, List.drop_append, List.drop_eq_nil_of_le (by omega),
      hlen, show c.taken + left - f.bytes.length = left - read by omega]
    simp
  | starved f rest hf hr short _ flushed _ hf' htaken _ hgiven =>
    refine ⟨bound f rest hf ?_, step f rest hf hf' htaken hgiven⟩
    rw [← hr, Nat.min_eq_left short.le]
    omega
  | full f rest hf _ _ _ decided _ hf' htaken _ hgiven =>
    exact ⟨bound f rest hf decided, step f rest hf hf' htaken hgiven⟩
  | idle hf _ hr hw _ next =>
    refine ⟨by omega, ?_⟩
    rw [next, hr, hw, List.drop_zero, Nat.sub_zero]

/-- The output of a call, the next symbols of the content, is the front of the reach. -/
theorem Advance.take_eq (hleft : offered ≤ left) :
    c.content.take written = (c.reach left).take written := by
  obtain ⟨t, ht⟩ := c.reach_prefix left
  rw [← ht, List.take_append_of_le_length (h.reach_eq hleft).1]

/-- A call does not change which frame the end of the input cuts, nor where. -/
theorem Advance.cut_eq (hleft : offered ≤ left) : c'.cut (left - read) = c.cut left := by
  have hread := h.read_le
  have step : ∀ f rest, c.frames = f :: rest → c'.frames = f :: rest →
      c'.taken = c.taken + read → c'.cut (left - read) = c.cut left := by
    intro f rest hf hf' htaken
    unfold Cursor.cut
    rw [hf, hf', htaken, show c.taken + read + (left - read) = c.taken + left by omega]
  cases h with
  | finished f rest hf _ ends _ _ _ next =>
    rw [next, Cursor.cut_start, Cursor.cut, hf, cutSize, if_neg (by omega),
      show c.taken + left - f.bytes.length = left - read by omega]
  | starved f rest hf _ _ _ _ _ hf' htaken => exact step f rest hf hf' htaken
  | full f rest hf _ _ _ _ _ hf' htaken => exact step f rest hf hf' htaken
  | idle _ _ hr _ _ next => rw [next, hr, Nat.sub_zero]

end Advance

end MmapZstd.Frames
