import MmapZstd.Delivery
import MmapZstd.Lib.History

/-!
# The scratch window

The streaming variant copies the source into the scratch one window at a time. `Positions` is the
invariant of its cursors and `Window` that of its bytes: when `c` bytes have been consumed, the
scratch holds the bytes of the source from `c` to `src_pos`. Both are kept by a refill, which moves
no byte in or out of the decoder's sight, and by a call of zstd, which moves `c` past what it has
consumed.

`scratch_refines_source` draws the conclusion for sessions of reads with any decoder: the input
offered to zstd is always the source's next bytes, and what zstd has consumed is a prefix of the
source. The inputs in the log are those that zstd receives (`calls_session`).
-/

namespace MmapZstd

open Frames History

/-- The bytes that the event reports consumed. -/
def Event.read : Event → ℕ
  | .call _ _ _ (.ok status) => status.bytes_read
  | _ => 0

/-- The piece of input that the event reports consumed. -/
def Event.piece : Event → List UInt8
  | .call _ input _ (.ok status) => input.take status.bytes_read
  | _ => []

/-- The sum of all `bytes_read` reported by successful calls. -/
def consumed (log : List Event) : ℕ := (log.map Event.read).sum

/-- The concatenation of the pieces consumed by successful calls. -/
def pieces (log : List Event) : List UInt8 := (log.map Event.piece).flatten

@[simp]
theorem consumed_nil : consumed [] = 0 := rfl

@[simp]
theorem consumed_append (log log' : List Event) :
    consumed (log ++ log') = consumed log + consumed log' := by
  simp [consumed]

@[simp]
theorem consumed_cons (e : Event) (log : List Event) :
    consumed (e :: log) = e.read + consumed log := by
  simp [consumed]

@[simp]
theorem pieces_append (log log' : List Event) :
    pieces (log ++ log') = pieces log ++ pieces log' := by
  simp [pieces]

@[simp]
theorem pieces_cons (e : Event) (log : List Event) : pieces (e :: log) = e.piece ++ pieces log := by
  simp [pieces]

@[simp]
theorem pieces_nil : pieces [] = [] := rfl

/-! ## The cursors -/

/-- The cursors of the streaming variant over a source of `n` bytes and a scratch of `W`, when `c`
bytes have been consumed. -/
structure Positions (n W c : ℕ) (state : StreamingState) : Prop where
  src_len : state.src_mmap.len = n
  capacity : state.scratch.capacity = W
  deref_len : state.scratch.len = W
  in_pos_le : state.scratch_in_pos ≤ state.scratch_len
  scratch_len_le : state.scratch_len ≤ W
  scratch_le_src : state.scratch_len ≤ state.src_pos
  src_pos_le : state.src_pos ≤ n
  /-- What was copied and is not in the scratch any more has been consumed. -/
  consumed : c + (state.scratch_len - state.scratch_in_pos) = state.src_pos
  /-- A scratch that holds the whole source is filled once. -/
  once : n ≤ W → state.src_pos = 0 ∨ state.src_pos = n

section Positions

variable {n W c : ℕ} {state : StreamingState}

/-- The cursors at the start. -/
theorem Positions.new (m : Mmap) (ptr : ℕ) (mem : List UInt8) :
    Positions m.len mem.length 0 (.new m (.scratch ptr mem)) where
  src_len := rfl
  capacity := rfl
  deref_len := rfl
  in_pos_le := le_rfl
  scratch_len_le := Nat.zero_le _
  scratch_le_src := le_rfl
  src_pos_le := Nat.zero_le _
  consumed := rfl
  once _ := .inl rfl

/-- Replacing the source by one of the same length, or moving `retire_pos`, keeps the cursors. -/
theorem Positions.frame (h : Positions n W c state) {m : Mmap} (hm : m.len = state.src_mmap.len)
    (r : ℕ) : Positions n W c { state with src_mmap := m, retire_pos := r } where
  src_len := hm.trans h.src_len
  capacity := h.capacity
  deref_len := h.deref_len
  in_pos_le := h.in_pos_le
  scratch_len_le := h.scratch_len_le
  scratch_le_src := h.scratch_le_src
  src_pos_le := h.src_pos_le
  consumed := h.consumed
  once := h.once

/-- The copy of a refill keeps the cursors, and leaves input in the scratch. -/
theorem Positions.load (h : Positions n W c state) (hW : 0 < W)
    (hempty : state.scratch_in_pos = state.scratch_len) (hmore : state.src_pos < n) :
    Positions n W c (load state) ∧ (load state).scratch_in_pos < (load state).scratch_len := by
  obtain ⟨hn, hcap, hlen, hin, -, -, -, hc, honce⟩ := h
  have hchunk : (MmapZstd.load state).scratch_len = min (n - state.src_pos) W := by
    rw [MmapZstd.load, hn, hcap]
  have hpos : (MmapZstd.load state).src_pos = state.src_pos + min (n - state.src_pos) W := by
    rw [MmapZstd.load, hn, hcap]
  have hzero : (MmapZstd.load state).scratch_in_pos = 0 := rfl
  exact ⟨⟨hn, hcap, hlen, by omega, by omega, by omega, by omega, by omega, by omega⟩, by omega⟩

/-- A call that consumes `r` bytes of the scratch moves the cursor and `c`. -/
theorem Positions.advance (h : Positions n W c state) {r : ℕ}
    (hr : r ≤ state.scratch_len - state.scratch_in_pos) :
    Positions n W (c + r) { state with scratch_in_pos := state.scratch_in_pos + r } := by
  obtain ⟨hn, hcap, hlen, hin, hW, hsrc, hle, hc, honce⟩ := h
  exact ⟨hn, hcap, hlen, by simp only; omega, hW, hsrc, hle, by simp only; omega, honce⟩

/-- At the end of the source everything has been consumed. -/
theorem Positions.at_end (h : Positions n W c state)
    (hempty : state.scratch_in_pos = state.scratch_len)
    (hend : state.src_mmap.len ≤ state.src_pos) : c = n := by
  have := h.src_len
  have := h.src_pos_le
  have := h.consumed
  omega

/-- What is left in the scratch is a slice that can be taken. -/
theorem Positions.slice_eq (h : Positions n W c state) :
    slice state.scratch.deref state.scratch_in_pos state.scratch_len =
      .ok ((state.scratch.mem.take state.scratch_len).drop state.scratch_in_pos) := by
  have hmem := state.scratch.mem_length
  have hlen := h.scratch_len_le
  have hcap := h.capacity
  have hderef := h.deref_len
  have htake : state.scratch.deref = state.scratch.mem :=
    List.take_of_length_le (by omega)
  rw [htake]
  exact slice_of_le h.in_pos_le (by omega)

/-- The input that a call is offered. -/
theorem Positions.input (h : Positions n W c state) :
    ∃ input, slice state.scratch.deref state.scratch_in_pos state.scratch_len = .ok input ∧
      input.length = state.scratch_len - state.scratch_in_pos := by
  refine ⟨_, h.slice_eq, ?_⟩
  have hmem := state.scratch.mem_length
  have hcap := h.capacity
  have hlen := h.scratch_len_le
  rw [List.length_drop, List.length_take]
  omega

end Positions

/-! ## The bytes -/

/-- The streaming variant over the source `src` and a scratch of `W` bytes, when `c` bytes have
been consumed: the scratch holds what comes next. -/
structure Window (src : List UInt8) (W c : ℕ) (state : StreamingState) : Prop where
  positions : Positions src.length W c state
  source : state.src_mmap.bytes = src
  holds : (state.scratch.mem.take state.scratch_len).drop state.scratch_in_pos =
    (src.take state.src_pos).drop c

section Window

variable {src : List UInt8} {W c : ℕ} {state : StreamingState}

/-- The window at the start is empty. -/
theorem Window.new (m : Mmap) (ptr : ℕ) (mem : List UInt8) :
    Window m.bytes mem.length 0 (.new m (.scratch ptr mem)) where
  positions := .new m ptr mem
  source := rfl
  holds := by simp [StreamingState.new]

/-- The input that the window offers next: not longer than what is left of the source, and at the
front of it. -/
theorem Window.offer (h : Window src W c state) :
    (src.take state.src_pos).drop c <+: src.drop c ∧
      ((src.take state.src_pos).drop c).length = state.scratch_len - state.scratch_in_pos := by
  have hle := h.positions.src_pos_le
  have hc := h.positions.consumed
  constructor
  · exact (List.take_prefix _ _).drop c
  · rw [List.length_drop, List.length_take]
    omega

/-- The copy of a refill fills the window with what comes next. -/
theorem Window.load (h : Window src W c state) (hW : 0 < W)
    (hempty : state.scratch_in_pos = state.scratch_len) (hmore : state.src_pos < src.length) :
    Window src W c (load state) ∧ (load state).scratch_in_pos < (load state).scratch_len := by
  obtain ⟨hpos, hlt⟩ := h.positions.load hW hempty hmore
  refine ⟨⟨hpos, h.source, ?_⟩, hlt⟩
  -- The scratch is exhausted, so everything that was copied has been consumed.
  have hc : c = state.src_pos := by
    have := h.positions.consumed
    omega
  have hcap := h.positions.capacity
  have hn := h.positions.src_len
  have hmem := state.scratch.mem_length
  have hlen : ((state.src_mmap.bytes.drop state.src_pos).take
      (min (state.src_mmap.len - state.src_pos) state.scratch.capacity)).length =
        min (state.src_mmap.len - state.src_pos) state.scratch.capacity := by
    rw [List.length_take, List.length_drop, h.source]
    omega
  have hcopy := take_overwrite state.scratch.mem
    ((state.src_mmap.bytes.drop state.src_pos).take
      (min (state.src_mmap.len - state.src_pos) state.scratch.capacity)) (by omega)
  rw [hlen] at hcopy
  simp only [MmapZstd.load, HugepageBuf.copyFrom, hcopy, List.drop_zero]
  rw [h.source, hc, List.take_add, List.drop_append_of_le_length (by simp; omega)]
  simp

/-- Moving `retire_pos` keeps the window. -/
theorem Window.retire (h : Window src W c state) (r : ℕ) :
    Window src W c { state with retire_pos := r } :=
  ⟨h.positions.frame rfl r, h.source, h.holds⟩

/-- A call that consumes `r` bytes of the window moves it past them. -/
theorem Window.advance (h : Window src W c state) {r : ℕ}
    (hr : r ≤ state.scratch_len - state.scratch_in_pos) :
    Window src W (c + r) { state with scratch_in_pos := state.scratch_in_pos + r } := by
  refine ⟨h.positions.advance hr, h.source, ?_⟩
  simp only
  rw [← List.drop_drop, h.holds, List.drop_drop]

/-- An iteration's first half on a window: the end of the source with everything consumed, or a
window that is not empty, with the same bytes consumed. -/
theorem Window.refill {σ : Type} (h : Window src W c state) (hW : 0 < W) :
    (refill (Retirement.madvise σ .file) state = .eof ∧ c = src.length ∧
        state.scratch_in_pos = state.scratch_len ∧ state.src_pos = src.length) ∨
      ∃ state' events, refill (Retirement.madvise σ .file) state = .ready state' events ∧
        Window src W c state' ∧ state'.scratch_in_pos < state'.scratch_len ∧
        state.scratch_len - state.scratch_in_pos ≤ state'.scratch_len - state'.scratch_in_pos ∧
        ∀ e ∈ events, (∃ l r, e = .refill l r) ∨ ∃ offset len, e = .advise offset len := by
  have hn := h.positions.src_len
  rcases refill_cases (Retirement.madvise σ .file) state with
    ⟨heq, hempty, hend⟩ | ⟨heq, hne⟩ | ⟨heq, hempty, hmore⟩
  · have := h.positions.src_pos_le
    exact .inl ⟨heq, h.positions.at_end hempty hend, hempty, by omega⟩
  · have := h.positions.in_pos_le
    exact .inr ⟨state, [], heq, h, by omega, le_rfl, by simp⟩
  · obtain ⟨hload, hlt⟩ := h.load hW hempty (by omega)
    obtain ⟨r, hr⟩ := retireSrc_file (MmapZstd.load state)
    refine .inr ⟨_, _, heq, ?_, ?_, by omega, ?_⟩
    · exact hr ▸ hload.retire r
    · exact hr ▸ hlt
    · rintro e (_ | ⟨_, he⟩)
      · exact .inl ⟨_, _, rfl⟩
      · exact .inr (retireSrc_events .file (MmapZstd.load state) e he)

end Window

/-! ## Sessions -/

/-- At a call, the window has input, and what is offered is the source's next bytes. -/
def OffersNext (src : List UInt8) (W : ℕ) (past : List Event) (e : Event) : Prop :=
  ∀ site input room result, e = .call site input room result →
    ∃ state, site = .streaming state ∧ Window src W (consumed past) state ∧ input ≠ [] ∧
      input = (src.take state.src_pos).drop (consumed past)

/-- The invariant of a session on the streaming variant: the window, what every call was offered,
and what the calls have consumed. -/
structure Refines (src : List UInt8) (W : ℕ) (log : List Event) (state : StreamingState) :
    Prop where
  window : Window src W (consumed log) state
  offers : Always (OffersNext src W) log
  consumes : pieces log = src.take (consumed log)

section Refines

variable {src : List UInt8} {W : ℕ} {log : List Event} {state : StreamingState}

/-- A refill's events keep the invariant, over a window with the same bytes consumed. -/
theorem Refines.quiet (h : Refines src W log state) {events : List Event} {state' : StreamingState}
    (hwindow : Window src W (consumed log) state')
    (hevents : ∀ e ∈ events, (∃ l r, e = .refill l r) ∨ ∃ offset len, e = .advise offset len) :
    Refines src W (log ++ events) state' := by
  -- One event at a time: none of them consumes anything or offers anything.
  induction events generalizing log state with
  | nil => simpa using ⟨hwindow, h.offers, h.consumes⟩
  | cons e events ih =>
    have hread : e.read = 0 ∧ e.piece = [] ∧ OffersNext src W log e := by
      rcases hevents e (by simp) with ⟨l, r, rfl⟩ | ⟨offset, len, rfl⟩
      · exact ⟨rfl, rfl, by rintro _ _ _ _ ⟨⟩⟩
      · exact ⟨rfl, rfl, by rintro _ _ _ _ ⟨⟩⟩
    have hlog : consumed (log ++ [e]) = consumed log := by simp [hread.1]
    have step : Refines src W (log ++ [e]) state' :=
      ⟨by rwa [hlog], always_concat.mpr ⟨h.offers, hread.2.2⟩, by
        rw [hlog, pieces_append, h.consumes]
        simp [hread.2.1]⟩
    have := ih step (by rwa [hlog]) fun e' he' => hevents e' (by simp [he'])
    rwa [List.append_assoc, List.singleton_append] at this

/-- A call of zstd on the window keeps the invariant, whatever zstd answers within its bounds, and
does not panic. -/
theorem Refines.feed {σ : Type} {z : RawDecoder σ} (hz : z.Lawful)
    (h : Refines src W log state) (hlt : state.scratch_in_pos < state.scratch_len) (zstd : σ)
    (buf : List UInt8) :
    Refines src W (log ++ (feed z state zstd buf).events) (feed z state zstd buf).state.1 ∧
      ∀ o ∈ (feed z state zstd buf).outcome, o ≠ .panic := by
  have hslice := h.window.positions.slice_eq
  rw [h.window.holds] at hslice
  obtain ⟨-, hlen⟩ := h.window.offer
  have hoffer : ∀ room result, OffersNext src W log (.call (.streaming state)
      ((src.take state.src_pos).drop (consumed log)) room result) := by
    rintro room result site input room' result' ⟨⟩
    exact ⟨state, rfl, h.window, List.ne_nil_of_length_pos (by omega), rfl⟩
  cases hcall : (z.run_on_buffers zstd ((src.take state.src_pos).drop (consumed log)) buf).result
    with
  | error e =>
    rw [feed_error hslice hcall]
    refine ⟨⟨?_, always_concat.mpr ⟨h.offers, hoffer _ _⟩, ?_⟩, by simp⟩
    · simpa [Event.read] using h.window
    · simpa [Event.read, Event.piece] using h.consumes
  | ok status =>
    have hread := hz.read_le _ _ _ _ hcall
    rw [feed_ok hslice hcall]
    refine ⟨⟨?_, always_concat.mpr ⟨h.offers, hoffer _ _⟩, ?_⟩, ?_⟩
    · simpa [Event.read] using h.window.advance (r := status.bytes_read) (by omega)
    · -- The piece consumed is the source's next `bytes_read` bytes.
      have hsub : status.bytes_read ≤ state.src_pos - consumed log := by
        rw [List.length_drop, List.length_take] at hread
        omega
      simp only [pieces_append, pieces_cons, pieces_nil, consumed_append, consumed_cons,
        consumed_nil, Event.read, Event.piece, List.append_nil, Nat.add_zero, h.consumes]
      rw [List.take_add, List.drop_take, List.take_take, Nat.min_eq_left hsub]
    · split_ifs <;> simp

/-- One iteration of the loop keeps the invariant and does not panic. -/
theorem Refines.body {σ : Type} {z : RawDecoder σ} (hz : z.Lawful) (hW : 0 < W)
    (h : Refines src W log state) (zstd : σ) (buf : List UInt8) :
    Refines src W
        (log ++ (readStreamingBody z (.madvise σ .file) state zstd buf).events)
        (readStreamingBody z (.madvise σ .file) state zstd buf).state.1 ∧
      ∀ o ∈ (readStreamingBody z (.madvise σ .file) state zstd buf).outcome, o ≠ .panic := by
  rcases h.window.refill (σ := σ) hW with ⟨heq, -⟩ | ⟨state', events, heq, hwindow, hlt, -, hevents⟩
  · simp only [readStreamingBody, heq]
    exact ⟨by simpa using h, by simp⟩
  · simp only [readStreamingBody, heq, Reading.after, ← List.append_assoc]
    exact (h.quiet hwindow hevents).feed hz hlt zstd buf

end Refines

/-- The scratch window refines the source. In a session of reads on the streaming variant, over
any source and scratch and with any lawful decoder, the scratch holds the bytes that come after
those consumed, each call that zstd receives is offered exactly the source's next bytes and at least
one of them, no read panics, and the pieces consumed are a prefix of the source. -/
theorem scratch_refines_source {σ : Type} (z : RawDecoder σ) (hz : z.Lawful) (src : Mmap)
    (ptr : ℕ) (mem : List UInt8) (hW : 0 < mem.length) (zstd : σ)
    (reads : List (ℕ × List UInt8)) :
    let s := session z (.madvise σ .file) reads
      (.new (.streaming (.new src (.scratch ptr mem))) zstd)
    (∃ state, s.decoder.buf = .streaming state ∧
        Window src.bytes mem.length (consumed s.events) state) ∧
      Always (OffersNext src.bytes mem.length) s.events ∧
      (∀ r ∈ s.results, r.1 ≠ some .panic) ∧
      pieces s.events = src.bytes.take (consumed s.events) ∧
      calls s.events =
        received z .file reads (.new (.streaming (.new src (.scratch ptr mem))) zstd) := by
  have hstart : Refines src.bytes mem.length [] (.new src (.scratch ptr mem)) :=
    ⟨.new src ptr mem, always_nil, by simp⟩
  obtain ⟨⟨state, hbuf, hrefines⟩, hgood⟩ := session_streaming_rule (z := z)
    (R := .madvise σ .file) (Q := fun log state _ => Refines src.bytes mem.length log state)
    (fun o => o ≠ .panic) (by simp) (fun log state zstd buf _ h => h.body hz hW zstd buf) reads []
    (.new (.streaming (.new src (.scratch ptr mem))) zstd) _ rfl hstart
  refine ⟨⟨state, hbuf, by simpa using hrefines.window⟩, by simpa using hrefines.offers, ?_,
    by simpa using hrefines.consumes, calls_session z .file reads _⟩
  intro r hr hpanic
  exact hgood r hr .panic (by simp [hpanic]) rfl

/-- A session of two reads, with a scratch that is smaller than the source. -/
theorem scratch_refines_hello :
    let d := Decoder.new
      (.streaming (.new ⟨0, encoded [rawFrame hello], by decide⟩ (.scratch 0 [0, 0, 0, 0])))
      (RefState.start [rawFrame hello])
    let s := session reference (.madvise RefState .file) [(5, [0, 0]), (5, [0, 0, 0])] d
    (∃ state, s.decoder.buf = .streaming state ∧
        Window (encoded [rawFrame hello]) 4 (consumed s.events) state) ∧
      Always (OffersNext (encoded [rawFrame hello]) 4) s.events ∧
      (∀ r ∈ s.results, r.1 ≠ some .panic) ∧
      pieces s.events = (encoded [rawFrame hello]).take (consumed s.events) ∧
      calls s.events = received reference .file [(5, [0, 0]), (5, [0, 0, 0])] d :=
  scratch_refines_source reference reference_lawful ⟨0, encoded [rawFrame hello], by decide⟩ 0
    [0, 0, 0, 0] (by decide) (.start [rawFrame hello]) [(5, [0, 0]), (5, [0, 0, 0])]

end MmapZstd
