import MmapZstd.Delivery
import MmapZstd.Sliding
import MmapZstd.WholeBuffer

/-!
# Sessions on a prefix of a stream

The theorems about runs follow a reader that stops at the first `Ok(0)`. Here the caller makes any
reads at all, into buffers of any sizes, empty ones among them, and goes on after `Ok(0)`.

On a source that is a prefix of a stream, no read of a streaming session fails, and what the session
has delivered is a prefix of what the source determines; an `Ok(0)` into a buffer with room means
that the source is consumed, and every later read answers `Ok(0)` as well (`streaming_session`).

A session on a whole buffer delivers a prefix in the same way (`whole_session`), but its `Ok(0)` is
not final. Each read is a call of zstd, and inside a frame zstd fails the sixteenth in a row without
progress. So on a buffer that ends there, a caller that goes on reading comes to an error
(`whole_session_fails`). Between two frames and in a frame header zstd fails no such call.
-/

namespace MmapZstd

open Frames

variable {σ : Type} {z : RawDecoder σ} {R : Retirement σ}

/-- A read that tells its caller that the end is reached: `Ok(0)` into a buffer with room. -/
def endOfFile (r : Option (Outcome ℕ) × List UInt8) : Bool := r.1 = some (.ok 0) ∧ r.2 ≠ []

/-- A read that returned a count within its buffer. -/
def Returned (r : Option (Outcome ℕ) × List UInt8) : Prop :=
  ∃ n, r.1 = some (.ok n) ∧ n ≤ r.2.length

@[simp]
theorem endOfFile_iff (r : Option (Outcome ℕ) × List UInt8) :
    endOfFile r = true ↔ r.1 = some (.ok 0) ∧ r.2 ≠ [] := by
  simp [endOfFile]

/-- What sessions have delivered, one after the other. -/
theorem delivered_append (results results' : List (Option (Outcome ℕ) × List UInt8)) :
    delivered (results ++ results') = delivered results ++ delivered results' :=
  List.flatMap_append

/-- A session all of whose reads return is complete. -/
theorem session_length {reads : List (ℕ × List UInt8)} {d : Decoder σ}
    (h : ∀ r ∈ (session z R reads d).results, Returned r) :
    (session z R reads d).results.length = reads.length := by
  induction reads generalizing d with
  | nil => rfl
  | cons read reads ih =>
    obtain ⟨fuel, buf⟩ := read
    obtain ⟨rest, hresults, -⟩ := session_results_cons z R fuel buf reads d
    obtain ⟨n, hn, -⟩ := h ((d.read z R fuel buf).outcome, (d.read z R fuel buf).buf)
      (by simp [hresults])
    rw [(session_cons_ok hn reads).1] at h ⊢
    rw [List.length_cons, List.length_cons, ih fun r hr => h r (List.mem_cons_of_mem _ hr)]

/-! ## Through the scratch window -/

/-- The invariant of a session on the streaming variant, when the source is a prefix of the stream
`fs`. -/
structure StreamSession (D : Decoding z) (fs : List ZstdFrame) (src : List UInt8) (W : ℕ)
    (results : List (Option (Outcome ℕ) × List UInt8)) (d : Decoder σ) : Prop where
  place : ∃ state c, d.buf = .streaming state ∧ StreamAt D fs src W c state d.zstd ∧
    decodedBy fs src.length = delivered results ++ (D.cursor d.zstd).reach (src.length - c) ∧
    (results.any endOfFile → c = src.length ∧ state.src_pos = src.length ∧
      state.scratch_in_pos = state.scratch_len)
  returned : ∀ r ∈ results, Returned r
  final : results.Pairwise fun r r' => endOfFile r → r'.1 = some (.ok 0)

section Streaming

variable {D : Decoding z} {fs : List ZstdFrame} {src : List UInt8} {W : ℕ}

/-- When the source and the scratch are exhausted, a read answers `Ok(0)` without calling zstd. -/
theorem readStreaming_end {state : StreamingState} (hsrc : state.src_mmap.len ≤ state.src_pos)
    (hempty : state.scratch_in_pos = state.scratch_len) (fuel : ℕ) (zstd : σ)
    (buf : List UInt8) :
    readStreaming z R (fuel + 1) state zstd buf = ⟨(state, zstd), buf, some (.ok 0), []⟩ := by
  have hrefill : refill R state = .eof := by
    unfold refill
    rw [if_pos hempty, if_pos hsrc]
  simp only [readStreaming, readStreamingBody, hrefill]

/-- A session starts at a decoder over a fresh window. -/
theorem StreamSession.new (src : Mmap) (ptr : ℕ) (mem : List UInt8) {zstd : σ}
    (hs : D.cursor zstd = Cursor.start fs) (hstalls : D.stalls zstd = 0) :
    StreamSession D fs src.bytes mem.length []
      (.new (.streaming (.new src (.scratch ptr mem))) zstd) := by
  refine ⟨⟨_, 0, rfl, ⟨.new src ptr mem, ?_, ?_, hstalls⟩, ?_, by simp⟩, by simp, by simp⟩
  · simp [Decoder.new, hs]
  · simp [Decoder.new, hs, Cursor.start]
  · simp [Decoder.new, hs]

/-- A read keeps the invariant. -/
theorem StreamSession.read (hsrc : src <+: encoded fs) (hW : 0 < W)
    {results : List (Option (Outcome ℕ) × List UInt8)} {d : Decoder σ}
    (h : StreamSession D fs src W results d) {fuel : ℕ} (hfuel : src.length < fuel)
    (buf : List UInt8) :
    StreamSession D fs src W
      (results ++ [((d.read z (.madvise σ .file) fuel buf).outcome,
        (d.read z (.madvise σ .file) fuel buf).buf)])
      (d.read z (.madvise σ .file) fuel buf).state := by
  obtain ⟨⟨state, c, hd, hat, hdelivered, hend⟩, hreturned, hfinal⟩ := h
  rcases eq_or_ne buf [] with rfl | hbuf
  · -- A read into an empty buffer does nothing.
    rw [read_nil]
    refine ⟨⟨state, c, hd, hat, ?_, ?_⟩, ?_, ?_⟩
    · simpa [delivered_append, deliveredBy] using hdelivered
    · simpa using hend
    · rw [List.forall_mem_append]
      exact ⟨hreturned, by simp [Returned]⟩
    · rw [List.pairwise_append]
      exact ⟨hfinal, by simp, by simp⟩
  obtain ⟨state', zstd', buf', c', written, events, hrun, hat', -, hlen, hw, -, hreach, hstop⟩ :=
    readStreaming_spec hsrc (keptByCalls_true D src.length W) hW hat trivial hbuf trivial
      (Nat.lt_of_le_of_lt (Nat.sub_le _ _) hfuel)
  have hread : d.read z (.madvise σ .file) fuel buf =
      ⟨{ d with buf := .streaming state', zstd := zstd' }, buf', some (.ok written), events⟩ := by
    rw [read_streaming hd hbuf, hrun]
  -- After an end of file, the source is exhausted, and the read finds the end again.
  have hagain : results.any endOfFile → written = 0 := by
    intro hany
    obtain ⟨-, hpos, hempty⟩ := hend hany
    have hlen : state.src_mmap.len ≤ state.src_pos := by
      unfold Mmap.len
      rw [hat.window.source, hpos]
    obtain ⟨n, rfl⟩ := Nat.exists_eq_add_of_lt hfuel
    have hlast := readStreaming_end (z := z) (R := .madvise σ .file) hlen hempty
      (src.length + n) d.zstd buf
    have houtcome := congrArg Reading.outcome (hlast.symm.trans hrun)
    exact (Outcome.ok.inj (Option.some.inj houtcome)).symm
  rw [hread]
  refine ⟨⟨state', c', rfl, hat', ?_, ?_⟩, ?_, ?_⟩
  · rw [delivered_append, hdelivered, hreach]
    simp [deliveredBy]
  · intro hany
    rw [List.any_append, Bool.or_eq_true] at hany
    apply hstop
    rcases hany with hany | hlast
    · exact hagain hany
    · simp only [List.any_cons, List.any_nil, Bool.or_false, endOfFile_iff, Option.some.injEq,
        Outcome.ok.injEq] at hlast
      exact hlast.1
  · rw [List.forall_mem_append]
    refine ⟨hreturned, ?_⟩
    rw [List.forall_mem_singleton]
    exact ⟨written, rfl, hlen ▸ hw⟩
  · rw [List.pairwise_append]
    refine ⟨hfinal, by simp, ?_⟩
    intro r hr r' hr' hend
    rw [List.mem_singleton.mp hr', hagain (List.any_eq_true.mpr ⟨r, hr, hend⟩)]

/-- On a whole stream, an end of file means that all is delivered. -/
theorem StreamSession.complete {results : List (Option (Outcome ℕ) × List UInt8)} {d : Decoder σ}
    (h : StreamSession D fs (encoded fs) W results d) (hany : results.any endOfFile) :
    delivered results = decoded fs := by
  obtain ⟨⟨state, c, -, hat, hdelivered, hend⟩, -, -⟩ := h
  -- All of the stream is consumed, so every frame is finished.
  obtain ⟨rfl, -, -⟩ := hend hany
  have hbytes := hat.bytes_eq
  rw [List.drop_length] at hbytes
  rw [Cursor.reach_of_frames (Cursor.frames_of_bytes hbytes), List.append_nil,
    decodedBy_of_le le_rfl] at hdelivered
  exact hdelivered.symm

end Streaming

/-- A session on the streaming variant over a prefix of a stream, with any window, any decoder that
decodes the stream, and any reads whose bound exceeds the length of the source. Every read returns a
count within its buffer; what was delivered is a prefix of what the source determines; after an end
of file every read answers `Ok(0)`; and when the source is the whole stream, an end of file means
that its whole content was delivered. -/
theorem streaming_session (z : RawDecoder σ) (fs : List ZstdFrame) (src : Mmap)
    (hsrc : src.bytes <+: encoded fs) (ptr : ℕ) (mem : List UInt8) (hW : 0 < mem.length) (zstd : σ)
    (hz : Decodes z zstd fs) (reads : List (ℕ × List UInt8))
    (hreads : ∀ read ∈ reads, src.len < read.1) :
    let s := session z (.madvise σ .file) reads
      (.new (.streaming (.new src (.scratch ptr mem))) zstd)
    s.results.length = reads.length ∧ (∀ r ∈ s.results, Returned r) ∧
      delivered s.results <+: decodedBy fs src.len ∧
      s.results.Pairwise (fun r r' => endOfFile r → r'.1 = some (.ok 0)) ∧
      (src.bytes = encoded fs → s.results.any endOfFile → delivered s.results = decoded fs) := by
  intro s
  obtain ⟨D, hs, hstalls⟩ := hz
  have hsession := session_results_rule (z := z) (R := .madvise σ .file)
    (fun fuel _ => src.len < fuel)
    (P := fun _ results d => StreamSession D fs src.bytes mem.length results d)
    (fun _ _ _ _ _ hfuel h => h.read hsrc hW hfuel _) reads hreads [] [] _
    (.new src ptr mem hs hstalls)
  rw [List.nil_append] at hsession
  refine ⟨session_length hsession.returned, hsession.returned, ?_, hsession.final, ?_⟩
  · obtain ⟨state, c, -, -, hdelivered, -⟩ := hsession.place
    exact ⟨_, hdelivered.symm⟩
  · intro hwhole
    rw [hwhole] at hsession
    exact hsession.complete

/-- The reference decoder through a window of four bytes, with reads that go on after the end. -/
theorem streaming_session_hello :
    let s := session reference (.madvise RefState .file)
      [(15, [0, 0]), (15, []), (15, [0, 0, 0, 0]), (15, [0]), (15, [0, 0])]
      (.new (.streaming (.new ⟨0, encoded [rawFrame hello], by decide⟩ (.scratch 0 [0, 0, 0, 0])))
        (.start [rawFrame hello]))
    s.results.length = 5 ∧ (s.results.any endOfFile → delivered s.results = hello) := by
  obtain ⟨hlength, -, -, -, hwhole⟩ := streaming_session reference [rawFrame hello]
    ⟨0, encoded [rawFrame hello], by decide⟩ (List.prefix_refl _) 0 [0, 0, 0, 0] (by decide) _
    (reference_decodes _).decodes
    [(15, [0, 0]), (15, []), (15, [0, 0, 0, 0]), (15, [0]), (15, [0, 0])] (by decide)
  exact ⟨hlength, hwhole rfl⟩

/-! ## On a whole buffer -/

section Whole

variable {D : Decoding z} {fs : List ZstdFrame} {src : List UInt8} {d : Decoder σ}

/-- A read on a whole buffer leaves zstd where its call leaves it. -/
theorem WholeAt.read_zstd (h : WholeAt D fs src d) {buf : List UInt8} (hbuf : buf ≠ [])
    (fuel : ℕ) : (d.read z (.madvise σ .file) fuel buf).state.zstd =
      (z.run_on_buffers d.zstd (src.drop d.in_pos) buf).zstd := by
  rw [read_whole h.deref hbuf]
  rcases readWhole_ways z (.madvise σ .file) h.deref buf with ⟨hpos, -⟩ | ⟨e, -, -, heq⟩ |
    ⟨status, d', -, -, rfl, heq⟩
  · exact absurd h.in_pos_le (Nat.not_le.mpr hpos)
  · rw [heq]
  · obtain ⟨r, hr⟩ := maybeRetire_file { d with
      zstd := (z.run_on_buffers d.zstd (src.drop d.in_pos) buf).zstd
      in_pos := d.in_pos + status.bytes_read }
    rw [heq]
    simp only [Retirement.madvise, hr]

/-- A read on a whole buffer counts as at most one call without progress, when neither `in_pos` nor
the output has moved, and else as none. -/
theorem WholeAt.read_stalls (h : WholeAt D fs src d) (hsrc : src <+: encoded fs)
    (hstalls : D.stalls d.zstd + 1 < stallLimit) {buf : List UInt8} (hbuf : buf ≠ []) (fuel : ℕ) :
    D.stalls (d.read z (.madvise σ .file) fuel buf).state.zstd ≤
      if (d.read z (.madvise σ .file) fuel buf).state.in_pos = d.in_pos ∧
        (d.read z (.madvise σ .file) fuel buf).outcome = some (.ok 0)
      then D.stalls d.zstd + 1 else 0 := by
  obtain ⟨hderef, hpos, hbytes, howed⟩ := h
  have hlen : (src.drop d.in_pos).length = src.length - d.in_pos := List.length_drop
  obtain ⟨status, hcall, -, -, -, hcount⟩ :=
    D.call hsrc hbytes (List.prefix_refl _) (howed.trans_eq hlen.symm) hbuf hstalls
  obtain ⟨r, hr⟩ := maybeRetire_file { d with
    zstd := (z.run_on_buffers d.zstd (src.drop d.in_pos) buf).zstd
    in_pos := d.in_pos + status.bytes_read }
  rw [read_whole hderef hbuf, readWhole_ok hderef hpos hcall rfl]
  simpa only [Retirement.madvise, hr, Nat.add_eq_left, Option.some.injEq, Outcome.ok.injEq]
    using hcount

/-- The invariant of a session on a whole buffer. -/
structure WholeSession (D : Decoding z) (fs : List ZstdFrame) (src : List UInt8)
    (results : List (Option (Outcome ℕ) × List UInt8)) (d : Decoder σ) : Prop where
  place : WholeAt D fs src d
  stalls_le : D.stalls d.zstd ≤ results.countP endOfFile
  delivered_eq : decodedBy fs src.length = delivered results ++ WholeAt.rest D src d
  returned : ∀ r ∈ results, Returned r

/-- A session starts at a decoder that a constructor returns. -/
theorem WholeSession.new {buf : DecoderBuf} (hbuf : buf.deref = .ok src) {zstd : σ}
    (hs : D.cursor zstd = Cursor.start fs) (hstalls : D.stalls zstd = 0) :
    WholeSession D fs src [] (.new buf zstd) := by
  refine ⟨.new hbuf hs, hstalls.le, ?_, by simp⟩
  simp [WholeAt.rest, Decoder.new, hs]

/-- A read keeps the invariant, while not too many reads have answered `Ok(0)`. -/
theorem WholeSession.read {results : List (Option (Outcome ℕ) × List UInt8)}
    (h : WholeSession D fs src results d) (hsrc : src <+: encoded fs)
    (hends : results.countP endOfFile + 1 < stallLimit) (fuel : ℕ) (buf : List UInt8) :
    WholeSession D fs src
      (results ++ [((d.read z (.madvise σ .file) fuel buf).outcome,
        (d.read z (.madvise σ .file) fuel buf).buf)])
      (d.read z (.madvise σ .file) fuel buf).state := by
  obtain ⟨hplace, hstalls, hdelivered, hreturned⟩ := h
  rcases eq_or_ne buf [] with rfl | hbuf
  · rw [read_nil]
    refine ⟨hplace, ?_, ?_, ?_⟩
    · simpa using hstalls
    · simpa [delivered_append, deliveredBy] using hdelivered
    · rw [List.forall_mem_append]
      exact ⟨hreturned, by simp [Returned]⟩
  obtain ⟨status, d', hstate, hout, hlen, hplace', hpos, hadv, hrest, -⟩ :=
    hplace.read hsrc (by omega) hbuf fuel
  have hcount := hplace.read_stalls hsrc (by omega) hbuf fuel
  rw [hstate, hout] at hcount ⊢
  generalize (d.read z (.madvise σ .file) fuel buf).buf = buf' at hlen hrest ⊢
  have hbuf' : buf' ≠ [] := List.ne_nil_of_length_pos (by
    have := List.length_pos_of_ne_nil hbuf
    omega)
  refine ⟨hplace', ?_, ?_, ?_⟩
  · -- A call without progress has answered `Ok(0)`, which the results count.
    rw [List.countP_append]
    split_ifs at hcount with hzero
    · rw [List.countP_singleton, if_pos ((endOfFile_iff _).mpr ⟨hzero.2, hbuf'⟩)]
      omega
    · omega
  · rw [delivered_append, hdelivered, hrest]
    simp [deliveredBy]
  · rw [List.forall_mem_append]
    refine ⟨hreturned, ?_⟩
    rw [List.forall_mem_singleton]
    exact ⟨_, rfl, hlen ▸ hadv.written_le⟩

end Whole

/-- A session on a whole buffer that holds a prefix of a stream, with any decoder that decodes the
stream: in any reads of which fewer than fifteen end with `Ok(0)`, every read returns a count within
its buffer, and what was delivered is a prefix of what the buffer determines. -/
theorem whole_session (z : RawDecoder σ) (fs : List ZstdFrame) (src : List UInt8)
    (hsrc : src <+: encoded fs) (buf : DecoderBuf) (hbuf : buf.deref = .ok src) (zstd : σ)
    (hz : Decodes z zstd fs) (reads : List (ℕ × List UInt8)) :
    let s := session z (.madvise σ .file) reads (.new buf zstd)
    s.results.countP endOfFile + 1 < stallLimit →
      s.results.length = reads.length ∧ (∀ r ∈ s.results, Returned r) ∧
        delivered s.results <+: decodedBy fs src.length := by
  intro s hends
  obtain ⟨D, hs, hstalls⟩ := hz
  -- A session with too many ends of file is none of this theorem's.
  have hrule := session_results_rule (z := z) (R := .madvise σ .file) (fun _ _ => True)
    (P := fun _ results d => results.countP endOfFile + 1 < stallLimit →
      WholeSession D fs src results d)
    (fun _ results _ fuel buf _ h hends => by
      have hle : results.countP endOfFile + 1 < stallLimit := by
        rw [List.countP_append] at hends
        omega
      exact (h hle).read hsrc hle fuel buf)
    reads (by simp) [] [] _ fun _ => .new hbuf hs hstalls
  obtain ⟨-, -, hdelivered, hreturned⟩ := hrule (by simpa using hends)
  rw [List.nil_append] at hdelivered hreturned
  exact ⟨session_length hreturned, hreturned, ⟨_, hdelivered.symm⟩⟩

/-- A slice, and reads that go on after the end. -/
theorem whole_session_hello :
    let s := session reference (.madvise RefState .file) [(0, [0, 0]), (0, [0, 0, 0, 0]), (0, [0])]
      (.new (.slice (encoded [rawFrame hello])) (.start [rawFrame hello]))
    s.results.length = 3 :=
  (whole_session reference [rawFrame hello] (encoded [rawFrame hello]) (List.prefix_refl _)
    (.slice (encoded [rawFrame hello])) rfl (.start [rawFrame hello])
    (reference_decodes _).decodes [(0, [0, 0]), (0, [0, 0, 0, 0]), (0, [0])] (by decide)).1

/-! ## Past the end of a whole buffer -/

/-- zstd waits for input inside a frame, past the frame's header: nothing is owed to it, and nothing
is pending. -/
structure Decoding.Waits (D : Decoding z) (header : ZstdFrame → ℕ) (s : σ) : Prop where
  past : ∃ f ∈ (D.cursor s).frames.head?, header f ≤ (D.cursor s).taken
  owed : (D.cursor s).owed = 0
  reach : (D.cursor s).reach 0 = []

/-- zstd gives up inside a frame, past the frame's header. `header f` is the size of the header. -/
structure Decoding.GivesUp (D : Decoding z) (header : ZstdFrame → ℕ) : Prop where
  /-- A call that is offered nothing there is counted as one without progress. -/
  counts : ∀ s buf, D.Waits header s → buf ≠ [] → D.stalls s + 1 < stallLimit →
    D.stalls (z.run_on_buffers s [] buf).zstd = D.stalls s + 1
  /-- It fails, when fifteen in a row were counted before it. -/
  fails : ∀ s buf, D.Waits header s → buf ≠ [] → D.stalls s + 1 = stallLimit →
    ∃ e, (z.run_on_buffers s [] buf).result = .error e

/-- The reference decoder gives up, and does not look at the header for it. -/
theorem reference_givesUp (header : ZstdFrame → ℕ) : referenceDecoding.GivesUp header := by
  have hnone : ∀ (s : RefState) (buf : List UInt8), referenceDecoding.Waits header s →
      (greedy s.cursor ([] : List UInt8).length buf.length).read = 0 ∧
        (greedy s.cursor ([] : List UInt8).length buf.length).written = 0 := by
    intro s buf hwaits
    have hadv := greedy_advance s.cursor 0 buf.length hwaits.owed.le (fun _ => rfl)
    have hread := hadv.read_le
    have hwritten := (hadv.reach_eq le_rfl).1
    rw [show s.cursor.reach 0 = [] from hwaits.reach, List.length_nil] at hwritten
    exact ⟨Nat.le_zero.mp hread, Nat.le_zero.mp hwritten⟩
  constructor
  · intro s buf hwaits _ hstalls
    have hfew : s.stalls + 1 < stallLimit := hstalls
    simp only [referenceDecoding, reference, if_pos (hnone s buf hwaits), if_pos hfew]
  · intro s buf hwaits _ hstalls
    have hfull : ¬ s.stalls + 1 < stallLimit := Nat.not_lt.mpr hstalls.ge
    refine ⟨⟨.other, "Operation made no progress over multiple calls"⟩, ?_⟩
    simp only [reference, if_pos (hnone s buf hwaits), if_neg hfull]

/-- The bytes `src` are a stream that ends inside a frame, past the frame's header. -/
def CutPastHeader (header : ZstdFrame → ℕ) (fs : List ZstdFrame) (src : List UInt8) : Prop :=
  ∃ before f after k, fs = before ++ f :: after ∧ header f ≤ k ∧ k < f.bytes.length ∧
    src = encoded before ++ f.bytes.take k

section Fails

variable {D : Decoding z} {header : ZstdFrame → ℕ} {fs : List ZstdFrame} {src : List UInt8}

/-- A stream that is cut past a header is a prefix. -/
theorem CutPastHeader.isPrefix (h : CutPastHeader header fs src) : src <+: encoded fs := by
  obtain ⟨before, f, after, k, rfl, -, -, rfl⟩ := h
  exact encoded_take_isPrefix before f after k

/-- What is left to a decoder on a whole buffer: the input to consume, the content to deliver, and
the calls without progress that zstd still accepts. -/
def patience (D : Decoding z) (src : List UInt8) (d : Decoder σ) : ℕ :=
  stallLimit * (src.length - d.in_pos + (WholeAt.rest D src d).length) +
    (stallLimit - D.stalls d.zstd)

/-- A decoder whose last call made no progress is at the end of its buffer, with nothing pending. -/
structure Stalled (D : Decoding z) (fs : List ZstdFrame) (src : List UInt8) (d : Decoder σ) :
    Prop where
  place : WholeAt D fs src d
  frames : (D.cursor d.zstd).frames <:+ fs
  stalls_lt : D.stalls d.zstd < stallLimit
  at_end : 0 < D.stalls d.zstd → d.in_pos = src.length ∧ WholeAt.rest D src d = []

/-- At the end of a buffer that ends past a header, with nothing pending, zstd waits there. -/
theorem Stalled.waits {d : Decoder σ} (h : Stalled D fs src d) (hcut : CutPastHeader header fs src)
    (hend : d.in_pos = src.length) (hrest : WholeAt.rest D src d = []) :
    D.Waits header d.zstd := by
  have howed := h.place.owed_le
  have hbytes := congrArg List.length h.place.bytes_eq
  have hframes := h.frames
  unfold WholeAt.rest at hrest
  rw [hend, Nat.sub_self] at howed hrest
  obtain ⟨before, f, after, k, rfl, hheader, hk, rfl⟩ := hcut
  rw [hend, encoded_append, encoded_cons] at hbytes
  simp only [List.length_drop, List.length_append, List.length_take] at hbytes
  obtain ⟨hf, htaken⟩ := (D.cursor d.zstd).at_cut hframes hk (by omega)
  exact ⟨⟨f, by simp [hf], by omega⟩, Nat.le_zero.mp howed, hrest⟩

/-- A read returns and uses up patience, or it fails. -/
theorem Stalled.read {d : Decoder σ} (h : Stalled D fs src d) (hD : D.GivesUp header)
    (hcut : CutPastHeader header fs src) {buf : List UInt8} (hbuf : buf ≠ []) (fuel : ℕ) :
    (∃ n, (d.read z (.madvise σ .file) fuel buf).outcome = some (.ok n) ∧
        Stalled D fs src (d.read z (.madvise σ .file) fuel buf).state ∧
        patience D src (d.read z (.madvise σ .file) fuel buf).state < patience D src d) ∨
      ∃ e, (d.read z (.madvise σ .file) fuel buf).outcome = some (.err e) ∧
        e.kind = .invalidData := by
  have hsrc := hcut.isPrefix
  obtain ⟨hplace, hframes, hlt, hend⟩ := id h
  by_cases hlast : D.stalls d.zstd + 1 < stallLimit
  · refine .inl ?_
    obtain ⟨status, d', hstate, hout, hlen, hplace', hpos, hadv, hrest, -⟩ :=
      hplace.read hsrc hlast hbuf fuel
    have hcount := hplace.read_stalls hsrc hlast hbuf fuel
    have hread := hadv.read_le
    have hwritten := hadv.written_le
    have hframes' := hadv.frames_suffix.trans hframes
    have htotal := congrArg List.length hrest
    rw [List.length_append, List.length_take, hlen, Nat.min_eq_left hwritten] at htotal
    have hin := hplace'.in_pos_le
    by_cases hzero : status.bytes_read = 0 ∧ status.bytes_written = 0
    · -- The call made no progress, so zstd waits, and it counts the call.
      obtain ⟨hread0, hwritten0⟩ := hzero
      rw [hread0, hwritten0] at hadv
      obtain ⟨hleft, hreach⟩ := hadv.stalled (List.length_pos_of_ne_nil hbuf)
      have hdone : d.in_pos = src.length := by
        have := hplace.in_pos_le
        omega
      have hrest' : WholeAt.rest D src d' = [] := by
        unfold WholeAt.rest
        rw [show src.length - d'.in_pos = 0 by omega, hreach]
      rw [hwritten0, hrest', List.take_zero, List.nil_append] at hrest
      have hcounts := hD.counts d.zstd buf (h.waits hcut hdone hrest) hbuf hlast
      have hzstd := hplace.read_zstd hbuf fuel
      rw [hstate, hdone, List.drop_length] at hzstd
      rw [← hzstd] at hcounts
      rw [hstate, hout]
      refine ⟨_, rfl, ⟨hplace', hframes', by omega, fun _ => ⟨by omega, hrest'⟩⟩, ?_⟩
      unfold patience stallLimit
      unfold stallLimit at hlast
      omega
    · -- The call made progress, and the count starts again.
      rw [hstate, hout] at hcount ⊢
      rw [if_neg (by simp only [Option.some.injEq, Outcome.ok.injEq]; omega)] at hcount
      have hnone : D.stalls d'.zstd = 0 := Nat.le_zero.mp hcount
      refine ⟨_, rfl, ⟨hplace', hframes', by rw [hnone]; decide, by omega⟩, ?_⟩
      unfold patience stallLimit
      unfold stallLimit at hlt
      omega
  · -- zstd gives up.
    obtain ⟨hpos, hrest⟩ := hend (by unfold stallLimit at hlast; omega)
    obtain ⟨e, he⟩ := hD.fails d.zstd buf (h.waits hcut hpos hrest) hbuf (by omega)
    have hcall : (z.run_on_buffers d.zstd (src.drop d.in_pos) buf).result = .error e := by
      rw [hpos, List.drop_length, he]
    rw [read_whole hplace.deref hbuf, readWhole_error hplace.deref hplace.in_pos_le hcall]
    exact .inr ⟨_, rfl, rfl⟩

/-- A session with more reads than patience comes to an error. -/
theorem Stalled.session {reads : List (ℕ × List UInt8)} {d : Decoder σ}
    (h : Stalled D fs src d) (hD : D.GivesUp header) (hcut : CutPastHeader header fs src)
    (hreads : ∀ read ∈ reads, read.2 ≠ []) (hlong : patience D src d ≤ reads.length) :
    ∃ r ∈ (session z (.madvise σ .file) reads d).results, ∃ e, r.1 = some (.err e) ∧
      e.kind = .invalidData := by
  -- On the reads, each of which uses up patience until one fails.
  induction reads generalizing d with
  | nil =>
    have hlt := h.stalls_lt
    unfold patience at hlong
    rw [List.length_nil] at hlong
    omega
  | cons read reads ih =>
    obtain ⟨fuel, buf⟩ := read
    obtain ⟨hbuf, hothers⟩ := List.forall_mem_cons.mp hreads
    rcases h.read hD hcut hbuf fuel with ⟨n, hout, h', hless⟩ | ⟨e, hout, hkind⟩
    · rw [List.length_cons] at hlong
      obtain ⟨r, hr, he⟩ := ih h' hothers (by omega)
      rw [(session_cons_ok hout reads).1]
      exact ⟨r, List.mem_cons_of_mem _ hr, he⟩
    · obtain ⟨rest, hresults, -⟩ := session_results_cons z (.madvise σ .file) fuel buf reads d
      rw [hresults]
      exact ⟨_, List.mem_cons_self, e, hout, hkind⟩

end Fails

/-- The end of a truncated buffer is not final. With any decoder that decodes the stream and gives
up inside frames, on any stream that ends inside a frame, past the frame's header, a caller that
goes on reading comes to an error of the kind `InvalidData`: after sixteen reads for every byte of
the buffer and of the content that it determines, and sixteen more, at the latest. -/
theorem whole_session_fails (z : RawDecoder σ) (D : Decoding z) (header : ZstdFrame → ℕ)
    (hD : D.GivesUp header) (fs : List ZstdFrame) (src : List UInt8)
    (hcut : CutPastHeader header fs src) (buf : DecoderBuf) (hbuf : buf.deref = .ok src) (zstd : σ)
    (hs : D.cursor zstd = Cursor.start fs) (hstalls : D.stalls zstd = 0)
    (reads : List (ℕ × List UInt8)) (hreads : ∀ read ∈ reads, read.2 ≠ [])
    (hlong : stallLimit * (src.length + (decodedBy fs src.length).length + 1) ≤ reads.length) :
    ∃ r ∈ (session z (.madvise σ .file) reads (.new buf zstd)).results,
      ∃ e, r.1 = some (.err e) ∧ e.kind = .invalidData := by
  have hstart : Stalled D fs src (Decoder.new buf zstd) := by
    refine ⟨.new hbuf hs, ?_, ?_, ?_⟩
    · simp [Decoder.new, hs, Cursor.start]
    · simp [Decoder.new, hstalls, stallLimit]
    · simp [Decoder.new, hstalls]
  apply hstart.session hD hcut hreads
  have hrest : WholeAt.rest D src (Decoder.new buf zstd) = decodedBy fs src.length := by
    simp [WholeAt.rest, Decoder.new, hs]
  unfold patience
  rw [hrest]
  simp only [Decoder.new, hstalls]
  unfold stallLimit at hlong ⊢
  omega

/-- The first twelve bytes of the frame, which end past its header of six, read 256 times. -/
theorem whole_session_fails_hello :
    ∃ r ∈ (session reference (.madvise RefState .file) (.replicate 256 (0, [0]))
      (.new (.slice ((rawFrame hello).bytes.take 12)) (.start [rawFrame hello]))).results,
      ∃ e, r.1 = some (.err e) ∧ e.kind = .invalidData :=
  whole_session_fails reference referenceDecoding (fun _ => 6) (reference_givesUp _)
    [rawFrame hello] ((rawFrame hello).bytes.take 12)
    ⟨[], rawFrame hello, [], 12, rfl, by decide, by decide, rfl⟩
    (.slice ((rawFrame hello).bytes.take 12)) rfl (.start [rawFrame hello]) rfl rfl
    (.replicate 256 (0, [0])) (fun read hread => by simp [List.eq_of_mem_replicate hread])
    (by rw [List.length_replicate]; decide)

end MmapZstd
