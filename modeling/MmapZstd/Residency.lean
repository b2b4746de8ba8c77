import MmapZstd.Lib.Tiling
import MmapZstd.Window

/-!
# Retirement tiles the consumed prefix

Both variants that map the source retire it behind their cursor, in whole pages of 4096 bytes: the
`Mmap` variant 4 MiB behind `in_pos` after every read, and the streaming variant one scratch
capacity behind `src_pos` after every refill. Over a run, the ranges passed to `madvise` tile
`[0, retire_pos)`, and what is mapped and not yet retired is bounded by the lag, whatever the
length of the source.
-/

namespace MmapZstd

open Frames History Tiling

/-- The range that the event passes to `madvise`. -/
def Event.range : Event → Option (ℕ × ℕ)
  | .advise offset len => some (offset, len)
  | _ => none

/-- The ranges passed to `madvise`, in order. -/
def advised (log : List Event) : List (ℕ × ℕ) := log.filterMap Event.range

@[simp]
theorem advised_append (log log' : List Event) :
    advised (log ++ log') = advised log ++ advised log' := by
  simp [advised]

/-- The ranges passed to `madvise` on a source of `n` bytes, up to `retire_pos`: each starts where
the one before it ended, and starts and ends at a multiple of 4096 inside the source. -/
structure Tiled (n : ℕ) (log : List Event) (retire_pos : ℕ) : Prop where
  tiles : Tiles 0 (advised log) retire_pos
  aligned : ∀ r ∈ advised log, 4096 ∣ r.1 ∧ 4096 ∣ r.1 + r.2
  inside : ∀ r ∈ advised log, r.1 + r.2 ≤ n

section Tiled

variable {n a : ℕ} {log : List Event}

/-- Nothing was retired at the start. -/
theorem Tiled.nil (n : ℕ) : Tiled n [] 0 := ⟨rfl, by simp [advised], by simp [advised]⟩

/-- Events that advise nothing change nothing. -/
theorem Tiled.quiet (h : Tiled n log a) {events : List Event} (hevents : advised events = []) :
    Tiled n (log ++ events) a := by
  obtain ⟨ht, ha, hi⟩ := h
  refine ⟨?_, ?_, ?_⟩ <;> rwa [advised_append, hevents, List.append_nil]

/-- Advising the range up to the next frontier. -/
theorem Tiled.advise (h : Tiled n log a) {b : ℕ} (hab : a < b) (ha : 4096 ∣ a) (hb : 4096 ∣ b)
    (hn : b ≤ n) : Tiled n (log ++ [.advise a (b - a)]) b := by
  have hadvised : advised (log ++ [.advise a (b - a)]) = advised log ++ [(a, b - a)] := by
    rw [advised_append]
    rfl
  have hend : a + (b - a) = b := by omega
  obtain ⟨htiles, haligned, hinside⟩ := h
  refine ⟨?_, ?_, ?_⟩
  · have htiles' := htiles.concat (Nat.sub_pos_of_lt hab)
    rwa [hend, ← hadvised] at htiles'
  · rw [hadvised]
    intro r hr
    rcases List.mem_append.mp hr with hr | hr
    · exact haligned r hr
    · obtain rfl : r = (a, b - a) := by simpa using hr
      exact ⟨ha, by rwa [hend]⟩
  · rw [hadvised]
    intro r hr
    rcases List.mem_append.mp hr with hr | hr
    · exact hinside r hr
    · obtain rfl : r = (a, b - a) := by simpa using hr
      simpa [hend] using hn

end Tiled

/-- The frontier behind a position of a buffer, rounded down to a page. -/
theorem frontier_eq {pos n : ℕ} (lag : ℕ) (hpos : pos ≤ n) (hn : n ≤ isizeMax) :
    (pos - lag) &&& usizeNot (4096 - 1) = Align.down 4096 (pos - lag) :=
  land_usizeNot (k := 12) (by omega) (by unfold usizeSize; unfold isizeMax at hn; omega)

/-- A position is less than the lag and a page past its frontier. -/
theorem lt_frontier_add (pos lag : ℕ) : pos < Align.down 4096 (pos - lag) + (lag + 4096) := by
  have := Align.lt_down_add (a := 4096) (by omega) (pos - lag)
  omega

/-- A position at most a lag past another is less than twice the lag and a page past the other's
frontier. -/
theorem lt_frontier_add_two {pos pos' lag : ℕ} (h : pos' ≤ pos + lag) :
    pos' < Align.down 4096 (pos - lag) + (2 * lag + 4096) := by
  have := lt_frontier_add pos lag
  omega

/-! ## The `Mmap` variant -/

/-- The invariant of the `Mmap` variant over a mapping of `n` bytes. -/
structure MmapRetired {σ : Type} (n : ℕ) (log : List Event) (d : Decoder σ) : Prop where
  mapping : ∃ m, d.buf = .mmap m ∧ m.len = n
  in_pos_le : d.in_pos ≤ n
  frontier : d.retire_pos = Align.down 4096 (d.in_pos - retireWindow)
  tiled : Tiled n log d.retire_pos

section Mmap

variable {σ : Type} {n : ℕ} {log : List Event} {d : Decoder σ}

/-- `maybe_retire` restores the invariant after `in_pos` has moved on. -/
theorem MmapRetired.retire (k : Kernel) (hn : n ≤ isizeMax) (h : MmapRetired n log d) {pos : ℕ}
    (hpos : d.in_pos ≤ pos) (hle : pos ≤ n) (zstd : σ) :
    MmapRetired n (log ++ (maybeRetire k { d with zstd := zstd, in_pos := pos }).2)
      (maybeRetire k { d with zstd := zstd, in_pos := pos }).1 := by
  obtain ⟨⟨m, hd, hm⟩, -, hfrontier, htiled⟩ := h
  have hmono : Align.down 4096 (d.in_pos - retireWindow) ≤
      Align.down 4096 (pos - retireWindow) := Align.down_mono _ (by omega)
  have hdown := Align.down_le 4096 (pos - retireWindow)
  rcases maybeRetire_cases k { d with zstd := zstd, in_pos := pos } hd _
    (frontier_eq retireWindow hle hn).symm with ⟨heq, hge⟩ | ⟨heq, hlt⟩
  · rw [heq]
    simp only at hge
    exact ⟨⟨m, hd, hm⟩, hle, by simp only; omega, by simpa using htiled⟩
  · rw [heq]
    refine ⟨⟨_, rfl, (k.len_eq _ _ _).trans hm⟩, hle, rfl, ?_⟩
    exact htiled.advise hlt (hfrontier ▸ Align.dvd_down _ _) (Align.dvd_down _ _) (by omega)

/-- A read keeps the invariant, also a read that fails. -/
theorem MmapRetired.read {z : RawDecoder σ} (hz : z.Lawful) (k : Kernel) (hn : n ≤ isizeMax)
    (h : MmapRetired n log d) (fuel : ℕ) (buf : List UInt8) :
    MmapRetired n (log ++ (d.read z (.madvise σ k) fuel buf).events)
      (d.read z (.madvise σ k) fuel buf).state := by
  rcases eq_or_ne buf [] with rfl | hbuf
  · rwa [read_nil, List.append_nil]
  obtain ⟨m, hd, hm⟩ := h.mapping
  have hderef : d.buf.deref = .ok m.bytes := by rw [hd]; rfl
  have hpos : d.in_pos ≤ m.bytes.length := by
    have := h.in_pos_le
    unfold Mmap.len at hm
    omega
  rw [read_whole hderef hbuf]
  cases hcall : (z.run_on_buffers d.zstd (m.bytes.drop d.in_pos) buf).result with
  | error e =>
    -- The read returns before the retirement; neither cursor has moved.
    rw [readWhole_error hderef hpos hcall]
    exact ⟨h.mapping, h.in_pos_le, h.frontier, h.tiled.quiet rfl⟩
  | ok status =>
    have hread := hz.read_le _ _ _ _ hcall
    rw [List.length_drop] at hread
    have hquiet : MmapRetired n
        (log ++ [.call d.buf (m.bytes.drop d.in_pos) buf.length (.ok status)]) d :=
      ⟨h.mapping, h.in_pos_le, h.frontier, h.tiled.quiet rfl⟩
    have := hquiet.retire k hn (Nat.le_add_right d.in_pos status.bytes_read)
      (by unfold Mmap.len at hm; omega)
      (z.run_on_buffers d.zstd (m.bytes.drop d.in_pos) buf).zstd
    rw [readWhole_ok hderef hpos hcall rfl]
    rwa [List.append_assoc, List.singleton_append] at this

end Mmap

/-! ## The streaming variant -/

/-- A refill ends with `retire_pos` at its frontier, and between its copy and its retirement at
most one more window of the source is resident. -/
def BoundsResidency (W : ℕ) (_past : List Event) (e : Event) : Prop :=
  ∀ loaded retired, e = .refill loaded retired →
    retired.retire_pos = Align.down 4096 (retired.src_pos - W) ∧
      retired.src_pos < retired.retire_pos + (W + 4096) ∧
      loaded.src_pos < loaded.retire_pos + (2 * W + 4096)

/-- What is advised has been reported consumed. -/
def AdvisesConsumed (past : List Event) (e : Event) : Prop :=
  ∀ offset len, e = .advise offset len → offset + len ≤ consumed past

/-- The invariant of the streaming variant over a source of `n` bytes and a scratch of `W`. -/
structure StreamRetired (n W : ℕ) (log : List Event) (state : StreamingState) : Prop where
  positions : Positions n W (consumed log) state
  frontier : state.retire_pos = Align.down 4096 (state.src_pos - W)
  tiled : Tiled n log state.retire_pos
  bounds : Always (BoundsResidency W) log
  behind : Always AdvisesConsumed log

section Streaming

variable {n W : ℕ} {log : List Event} {state : StreamingState}

/-- A refill keeps the invariant: its frontier is at most where the source stood before the copy,
and everything up to there has been consumed. -/
theorem StreamRetired.refill (k : Kernel) (hn : n ≤ isizeMax) (hW : 0 < W)
    (h : StreamRetired n W log state) (hempty : state.scratch_in_pos = state.scratch_len)
    (hmore : state.src_pos < n) :
    StreamRetired n W (log ++ .refill (load state) (retireSrc k (load state)).1 ::
        (retireSrc k (load state)).2) (retireSrc k (load state)).1 ∧
      (retireSrc k (load state)).1.scratch_in_pos <
        (retireSrc k (load state)).1.scratch_len := by
  obtain ⟨hpos, hfrontier, htiled, hbounds, hbehind⟩ := h
  obtain ⟨hload, hlt⟩ := hpos.load hW hempty hmore
  have hcap := hpos.capacity
  have hlen := hpos.src_len
  have hconsumed := hpos.consumed
  have hsrc : (load state).src_pos = state.src_pos + min (n - state.src_pos) W := by
    rw [load, hlen, hcap]
  have hold : (load state).retire_pos = state.retire_pos := rfl
  have hmono : Align.down 4096 (state.src_pos - W) ≤ Align.down 4096 ((load state).src_pos - W) :=
    Align.down_mono _ (by omega)
  have hdown := Align.down_le 4096 ((load state).src_pos - W)
  have hbefore : (load state).src_pos < (load state).retire_pos + (2 * W + 4096) := by
    rw [show (load state).retire_pos = _ from hfrontier]
    exact lt_frontier_add_two (hsrc ▸ Nat.add_le_add_left (Nat.min_le_right _ _) _)
  have hfeq : Align.down 4096 ((load state).src_pos - W) =
      ((load state).src_pos - (load state).scratch.capacity) &&& usizeNot (4096 - 1) := by
    rw [hload.capacity, frontier_eq W hload.src_pos_le hn]
  rcases retireSrc_cases k (load state) _ hfeq with ⟨heq, hge⟩ | ⟨heq, hgt⟩
  · -- The frontier has not moved, as no whole page was added behind it.
    rw [heq]
    have hsame : (load state).retire_pos = Align.down 4096 ((load state).src_pos - W) := by omega
    have hnear : (load state).src_pos < (load state).retire_pos + (W + 4096) := by
      rw [hsame]
      exact lt_frontier_add _ _
    refine ⟨⟨?_, hsame, ?_, ?_, ?_⟩, hlt⟩
    · simpa [Event.read] using hload
    · rw [hold]
      exact htiled.quiet rfl
    · refine always_concat.mpr ⟨hbounds, ?_⟩
      rintro _ _ ⟨⟩
      exact ⟨hsame, hnear, hbefore⟩
    · refine always_concat.mpr ⟨hbehind, ?_⟩
      rintro _ _ ⟨⟩
  · have hsrc_le := hload.src_pos_le
    rw [heq, List.append_cons]
    refine ⟨⟨?_, rfl, ?_, ?_, ?_⟩, hlt⟩
    · simpa [Event.read] using hload.frame (k.len_eq _ _ _) _
    · refine (htiled.quiet rfl).advise hgt ?_ (Align.dvd_down _ _) (by omega)
      rw [hfrontier]
      exact Align.dvd_down _ _
    · refine always_concat.mpr ⟨always_concat.mpr ⟨hbounds, ?_⟩, ?_⟩
      · rintro _ _ ⟨⟩
        exact ⟨rfl, lt_frontier_add _ _, hbefore⟩
      · rintro _ _ ⟨⟩
    · refine always_concat.mpr ⟨always_concat.mpr ⟨hbehind, ?_⟩, ?_⟩
      · rintro _ _ ⟨⟩
      · rintro _ _ ⟨⟩
        simp only [consumed_append, consumed_cons, consumed_nil, Event.read]
        omega

/-- A call of zstd retires nothing, so it keeps the invariant. -/
theorem StreamRetired.feed {σ : Type} {z : RawDecoder σ} (hz : z.Lawful)
    (h : StreamRetired n W log state) (zstd : σ) (buf : List UInt8) :
    StreamRetired n W (log ++ (feed z state zstd buf).events) (feed z state zstd buf).state.1 := by
  obtain ⟨hpos, hfrontier, htiled, hbounds, hbehind⟩ := h
  obtain ⟨input, hslice, hinput_len⟩ := hpos.input
  cases hcall : (z.run_on_buffers zstd input buf).result with
  | error e =>
    rw [feed_error hslice hcall]
    refine ⟨by simpa [Event.read] using hpos, hfrontier, htiled.quiet rfl,
      always_concat.mpr ⟨hbounds, ?_⟩, always_concat.mpr ⟨hbehind, ?_⟩⟩
    · rintro _ _ ⟨⟩
    · rintro _ _ ⟨⟩
  | ok status =>
    have hread := hz.read_le _ _ _ _ hcall
    rw [feed_ok hslice hcall]
    refine ⟨?_, hfrontier, htiled.quiet rfl, always_concat.mpr ⟨hbounds, ?_⟩,
      always_concat.mpr ⟨hbehind, ?_⟩⟩
    · simpa [Event.read] using hpos.advance (r := status.bytes_read) (by omega)
    · rintro _ _ ⟨⟩
    · rintro _ _ ⟨⟩

/-- One iteration of the loop keeps the invariant. -/
theorem StreamRetired.body {σ : Type} {z : RawDecoder σ} (hz : z.Lawful) (k : Kernel)
    (hn : n ≤ isizeMax) (hW : 0 < W) (h : StreamRetired n W log state) (zstd : σ)
    (buf : List UInt8) :
    StreamRetired n W (log ++ (readStreamingBody z (.madvise σ k) state zstd buf).events)
      (readStreamingBody z (.madvise σ k) state zstd buf).state.1 := by
  have hlen := h.positions.src_len
  rcases refill_cases (Retirement.madvise σ k) state with
    ⟨heq, -⟩ | ⟨heq, -⟩ | ⟨heq, hempty, hmore⟩
  · simpa only [readStreamingBody, heq, List.append_nil] using h
  · simpa only [readStreamingBody, heq, Reading.after, List.nil_append] using h.feed hz zstd buf
  · simp only [readStreamingBody, heq, Reading.after, ← List.append_assoc]
    exact (h.refill k hn hW hempty (by omega)).1.feed hz zstd buf

end Streaming

/-! ## Runs -/

/-- What the retirement of the `Mmap` variant amounts to after a session over a mapping of `n`
bytes. -/
structure MmapResidency {σ : Type} (n : ℕ) (s : Session σ) : Prop where
  /-- `retire_pos` is 4 MiB behind `in_pos`, rounded down to a page. -/
  frontier : s.decoder.retire_pos = Align.down 4096 (s.decoder.in_pos - retireWindow)
  /-- So what is mapped and not retired is bounded. -/
  resident : s.decoder.in_pos < s.decoder.retire_pos + (retireWindow + 4096)
  tiled : Tiled n s.events s.decoder.retire_pos
  /-- Every byte before `retire_pos` was advised once, and no other. -/
  once : ∀ x, (covering x (advised s.events)).length = if x < s.decoder.retire_pos then 1 else 0

/-- What the retirement of the streaming variant amounts to after a session over a source of `n`
bytes with a scratch of `W`. -/
structure StreamingResidency {σ : Type} (n W : ℕ) (s : Session σ) : Prop where
  /-- Every refill bounds what is resident. -/
  refills : Always (BoundsResidency W) s.events
  /-- Every range was consumed before it was advised. -/
  behind : Always AdvisesConsumed s.events
  /-- `retire_pos` is a scratch behind `src_pos`, rounded down to a page, which bounds what is
  resident. The ranges tile what is before it. -/
  tiled : ∃ state, s.decoder.buf = .streaming state ∧
    state.retire_pos = Align.down 4096 (state.src_pos - W) ∧
    state.src_pos < state.retire_pos + (W + 4096) ∧ Tiled n s.events state.retire_pos ∧
    ∀ x, (covering x (advised s.events)).length = if x < state.retire_pos then 1 else 0

/-- A tiling from zero covers each byte before its end once. -/
theorem Tiled.once {n a : ℕ} {log : List Event} (h : Tiled n log a) (x : ℕ) :
    (covering x (advised log)).length = if x < a then 1 else 0 := by
  simpa using h.tiles.count x

/-- A session over a mapping of any length. -/
theorem mmap_residency {σ : Type} {z : RawDecoder σ} (hz : z.Lawful) (k : Kernel) (src : Mmap)
    (zstd : σ) (reads : List (ℕ × List UInt8)) :
    MmapResidency src.len (session z (.madvise σ k) reads (.new (.mmap src) zstd)) := by
  have hstart : MmapRetired src.len [] (Decoder.new (.mmap src) zstd) :=
    ⟨⟨src, rfl, rfl⟩, Nat.zero_le _, by simp [Decoder.new, Align.down], .nil _⟩
  obtain ⟨h, -⟩ := session_rule (fun _ => True)
    (fun log d fuel buf h => ⟨h.read hz k src.length_le fuel buf, fun _ _ => trivial⟩) reads []
    (.new (.mmap src) zstd) hstart
  rw [List.nil_append] at h
  refine ⟨h.frontier, ?_, h.tiled, h.tiled.once⟩
  rw [h.frontier]
  exact lt_frontier_add _ _

/-- A session with any scratch. -/
theorem streaming_residency {σ : Type} {z : RawDecoder σ} (hz : z.Lawful) (k : Kernel) (src : Mmap)
    (ptr : ℕ) {mem : List UInt8} (hW : 0 < mem.length) (zstd : σ)
    (reads : List (ℕ × List UInt8)) :
    StreamingResidency src.len mem.length (session z (.madvise σ k) reads
      (.new (.streaming (.new src (.scratch ptr mem))) zstd)) := by
  have hstart : StreamRetired src.len mem.length [] (.new src (.scratch ptr mem)) :=
    ⟨.new src ptr mem, by simp [StreamingState.new, Align.down], .nil _, always_nil, always_nil⟩
  obtain ⟨⟨state, hbuf, h⟩, -⟩ := session_streaming_rule (z := z) (R := .madvise σ k)
    (Q := fun log state _ => StreamRetired src.len mem.length log state) (fun _ => True) trivial
    (fun log state zstd buf _ h => ⟨h.body hz k src.length_le hW zstd buf, fun _ _ => trivial⟩)
    reads [] (.new (.streaming (.new src (.scratch ptr mem))) zstd) _ rfl hstart
  rw [List.nil_append] at h
  refine ⟨h.bounds, h.behind, state, hbuf, h.frontier, ?_, h.tiled, h.tiled.once⟩
  rw [h.frontier]
  exact lt_frontier_add _ _

/-- Retirement tiles the consumed prefix and bounds what is resident, in sessions of reads with
any lawful decoder, on any kernel: over a mapping of any length, for the `Mmap` variant, and with
any scratch, for the streaming variant. -/
theorem retirement_tiles {σ : Type} (z : RawDecoder σ) (hz : z.Lawful) (k : Kernel) (src : Mmap)
    (ptr : ℕ) (mem : List UInt8) (hW : 0 < mem.length) (zstd : σ)
    (reads : List (ℕ × List UInt8)) :
    MmapResidency src.len (session z (.madvise σ k) reads (.new (.mmap src) zstd)) ∧
      StreamingResidency src.len mem.length (session z (.madvise σ k) reads
        (.new (.streaming (.new src (.scratch ptr mem))) zstd)) :=
  ⟨mmap_residency hz k src zstd reads, streaming_residency hz k src ptr hW zstd reads⟩

/-! ## A source longer than the lags -/

/-- A decoder that consumes all that it is offered, and writes one byte when it has room. -/
def swallow : RawDecoder Unit where
  run_on_buffers _ input buf := ⟨(), buf, .ok ⟨1, input.length, min 1 buf.length⟩⟩
  buf_length _ _ _ := rfl

/-- It keeps the bounds on an answer. -/
theorem swallow_lawful : swallow.Lawful where
  read_le s input buf status h := by
    cases h
    exact le_rfl
  written_le s input buf status h := by
    cases h
    exact Nat.min_le_right _ _

/-- A read over a mapping consumes all of it. -/
theorem swallow_read_mmap (k : Kernel) {d : Decoder Unit} {m : Mmap} (hd : d.buf = .mmap m)
    (hpos : d.in_pos ≤ m.len) (fuel : ℕ) :
    (d.read swallow (.madvise Unit k) fuel [0]).outcome = some (.ok 1) ∧
      (d.read swallow (.madvise Unit k) fuel [0]).state.in_pos = m.len ∧
      ∃ m', (d.read swallow (.madvise Unit k) fuel [0]).state.buf = .mmap m' ∧ m'.len = m.len := by
  have hderef : d.buf.deref = .ok m.bytes := congrArg DecoderBuf.deref hd
  have hall : d.in_pos + (m.bytes.drop d.in_pos).length = m.len := by
    unfold Mmap.len at hpos ⊢
    rw [List.length_drop]
    omega
  have hnext : ({ d with in_pos := m.len } : Decoder Unit) =
      { d with zstd := (), in_pos := d.in_pos + (m.bytes.drop d.in_pos).length } := by
    rw [hall]
  rw [read_whole hderef (by simp), readWhole_ok hderef hpos rfl hnext]
  rcases maybeRetire_cases k ({ d with in_pos := m.len } : Decoder Unit) hd _ rfl with
    ⟨heq, -⟩ | ⟨heq, -⟩
  · simp only [Retirement.madvise, heq]
    exact ⟨rfl, trivial, m, hd, rfl⟩
  · simp only [Retirement.madvise, heq]
    exact ⟨rfl, trivial, _, rfl, k.len_eq _ _ _⟩

/-- So two reads consume all of it. -/
theorem swallow_mmap (k : Kernel) (src : Mmap) :
    (session swallow (.madvise Unit k) [(1, [0]), (1, [0])] (.new (.mmap src) ())).decoder.in_pos =
      src.len := by
  obtain ⟨hout, hpos, m, hd, hlen⟩ :=
    swallow_read_mmap k (d := .new (.mmap src) ()) rfl (Nat.zero_le _) 1
  obtain ⟨hout', hpos', -⟩ := swallow_read_mmap k hd (by rw [hpos, hlen]) 1
  rw [(session_cons_ok hout _).2, (session_cons_ok hout' _).2, session_nil_decoder, hpos', hlen]

/-- A read through an exhausted scratch consumes what one refill copies. -/
theorem swallow_read_streaming (k : Kernel) {n W c : ℕ} {d : Decoder Unit} {state : StreamingState}
    (hd : d.buf = .streaming state) (h : Positions n W c state) (hW : 0 < W)
    (hempty : state.scratch_in_pos = state.scratch_len) (hmore : state.src_pos < n) (fuel : ℕ) :
    (d.read swallow (.madvise Unit k) (fuel + 1) [0]).outcome = some (.ok 1) ∧
      ∃ state' c', (d.read swallow (.madvise Unit k) (fuel + 1) [0]).state.buf =
          .streaming state' ∧
        Positions n W c' state' ∧ state'.scratch_in_pos = state'.scratch_len ∧
        state'.src_pos = state.src_pos + min (n - state.src_pos) W := by
  have hlen := h.src_len
  have hcap := h.capacity
  obtain ⟨hload, hlt⟩ := h.load hW hempty hmore
  obtain ⟨m, r, hframe, -, hm⟩ := retireSrc_frame k (load state)
  have hretired := hload.frame hm r
  rw [← hframe] at hretired
  rw [read_streaming hd (by simp)]
  rcases refill_cases (Retirement.madvise Unit k) state with ⟨-, -, hend⟩ | ⟨-, hne⟩ | ⟨heq, -⟩
  · omega
  · exact absurd hempty hne
  obtain ⟨input, hslice, hinput⟩ := hretired.input
  have hcall : (swallow.run_on_buffers () input [0]).result = .ok ⟨1, input.length, 1⟩ := rfl
  have hfeed := feed_ok hslice hcall
  have hbody : readStreaming swallow (.madvise Unit k) (fuel + 1) state d.zstd [0] =
      (feed swallow (retireSrc k (load state)).1 () [0]).after
        (.refill (load state) (retireSrc k (load state)).1 :: (retireSrc k (load state)).2) := by
    simp only [readStreaming, readStreamingBody, heq]
    rw [Retirement.madvise]
    simp only [hfeed]
    rfl
  simp only [hbody, hfeed, Reading.after]
  refine ⟨rfl, _, _, rfl, hretired.advance (r := input.length) hinput.le, ?_, ?_⟩
  · have hin := hretired.in_pos_le
    simp only
    omega
  · exact (congrArg StreamingState.src_pos hframe).trans (by rw [load, hlen, hcap])

/-- So two reads consume a source that is not longer than two scratches. -/
theorem swallow_streaming (k : Kernel) (src : Mmap) (ptr : ℕ) (mem : List UInt8)
    (hlt : mem.length < src.len) (hle : src.len ≤ 2 * mem.length) :
    ∃ state, (session swallow (.madvise Unit k) [(1, [0]), (1, [0])]
        (.new (.streaming (.new src (.scratch ptr mem))) ())).decoder.buf = .streaming state ∧
      state.src_pos = src.len := by
  obtain ⟨hout, state, c, hd, hpos, hempty, hsrc⟩ := swallow_read_streaming k
    (d := .new (.streaming (.new src (.scratch ptr mem))) ()) rfl (.new src ptr mem) (by omega) rfl
    (by simp only [StreamingState.new]; omega) 0
  simp only [StreamingState.new] at hsrc
  obtain ⟨hout', state', c', hd', -, -, hsrc'⟩ :=
    swallow_read_streaming k hd hpos (by omega) hempty (by omega) 0
  refine ⟨state', ?_, by omega⟩
  rw [(session_cons_ok hout _).2, (session_cons_ok hout' _).2, session_nil_decoder, hd']

/-- 5 MiB are not too many for a mapping. -/
theorem longSource_le : (List.replicate (5 * 1024 * 1024) (0 : UInt8)).length ≤ isizeMax := by
  rw [List.length_replicate]
  decide

/-- A mapping of 5 MiB of zeros, at an odd address. -/
def longSource : Mmap := ⟨4097, .replicate (5 * 1024 * 1024) 0, longSource_le⟩

/-- A scratch of 4 MiB. -/
def longScratch : List UInt8 := .replicate (4 * 1024 * 1024) 0

/-- The length of the source. -/
theorem longSource_len : longSource.len = 5 * 1024 * 1024 := by
  rw [longSource, Mmap.len, List.length_replicate]

/-- The length of the scratch. -/
theorem longScratch_length : longScratch.length = 4 * 1024 * 1024 := by
  rw [longScratch, List.length_replicate]

/-- Both variants retire the first of the 5 MiB. -/
theorem swallow_retires (k : Kernel) :
    (session swallow (.madvise Unit k) [(1, [0]), (1, [0])]
        (.new (.mmap longSource) ())).decoder.retire_pos = 1024 * 1024 ∧
      ∃ state, (session swallow (.madvise Unit k) [(1, [0]), (1, [0])] (.new (.streaming
          (.new longSource (.scratch 0 longScratch))) ())).decoder.buf = .streaming state ∧
        state.retire_pos = 1024 * 1024 := by
  have hsrc := longSource_len
  have hmem := longScratch_length
  constructor
  · have hfrontier := (mmap_residency swallow_lawful k longSource () [(1, [0]), (1, [0])]).frontier
    rw [swallow_mmap, hsrc] at hfrontier
    exact hfrontier
  · have hW : 0 < longScratch.length := by omega
    obtain ⟨state, hd, hfrontier, -⟩ :=
      (streaming_residency swallow_lawful k longSource 0 hW () [(1, [0]), (1, [0])]).tiled
    obtain ⟨state', hd', hpos⟩ :=
      swallow_streaming k longSource 0 longScratch (by omega) (by omega)
    obtain rfl : state = state' := DecoderBuf.streaming.inj (hd.symm.trans hd')
    rw [hpos, hsrc, hmem] at hfrontier
    exact ⟨state, hd, hfrontier⟩

/-- A source of 5 MiB, over a mapping and through a scratch of 4 MiB: both variants retire its first
MiB. -/
theorem retirement_tiles_long :
    let s := session swallow (.madvise Unit .file) [(1, [0]), (1, [0])] (.new (.mmap longSource) ())
    let s' := session swallow (.madvise Unit .file) [(1, [0]), (1, [0])]
      (.new (.streaming (.new longSource (.scratch 0 longScratch))) ())
    (MmapResidency longSource.len s ∧ StreamingResidency longSource.len longScratch.length s') ∧
      s.decoder.retire_pos = 1024 * 1024 ∧
      ∃ state, s'.decoder.buf = .streaming state ∧ state.retire_pos = 1024 * 1024 :=
  ⟨retirement_tiles swallow swallow_lawful .file longSource 0 longScratch
    (longScratch_length ▸ by decide) () [(1, [0]), (1, [0])], swallow_retires .file⟩

end MmapZstd
