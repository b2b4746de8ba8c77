import MmapZstd.Decoder
import MmapZstd.Lib.Loop

/-!
# Runs of reads

`session` makes a list of reads on one decoder, going on after a read that returned an error, and
collects the results and the events.

The rules of this module take a property through a run. One iteration of the loop of
`read_streaming` is a refill (`refill_cases`) and a call of zstd (`feed_ok`), and the loop is one of
those of `Lib/Loop.lean` (`readStreaming_eq`); a property that every iteration keeps is kept by the
loop (`readStreaming_rule`), by a read, and by a session (`session_rule`).
-/

namespace MmapZstd

open Loop

variable {σ : Type} (z : RawDecoder σ) (R : Retirement σ)

/-- What a session of reads leaves. -/
structure Session (σ : Type) where
  decoder : Decoder σ
  /-- How each read ended, and the caller's buffer after it. -/
  results : List (Option (Outcome ℕ) × List UInt8)
  events : List Event

/-- Reads one after the other, each with a bound for its loop and a buffer. The session ends early
at a read that panics or does not end within its bound. -/
def session : List (ℕ × List UInt8) → Decoder σ → Session σ
  | [], d => ⟨d, [], []⟩
  | (fuel, buf) :: reads, d =>
    let r := d.read z R fuel buf
    match r.outcome with
    | none | some .panic => ⟨r.state, [(r.outcome, r.buf)], r.events⟩
    | some (.ok _) | some (.err _) =>
      let s := session reads r.state
      ⟨s.decoder, (r.outcome, r.buf) :: s.results, r.events ++ s.events⟩

/-! ## Initial states -/

/-- The scratch over a fresh mapping: `HugepageBuf { ptr, len: window, capacity: window }`. -/
def HugepageBuf.scratch (ptr : ℕ) (mem : List UInt8) : HugepageBuf :=
  ⟨ptr, mem, mem.length, mem.length, rfl⟩

/-- The state that `open_hugepage_streaming` starts from. -/
def StreamingState.new (src_mmap : Mmap) (scratch : HugepageBuf) : StreamingState where
  src_mmap := src_mmap
  scratch := scratch
  src_pos := 0
  scratch_in_pos := 0
  scratch_len := 0
  retire_pos := 0

/-- The decoder that every constructor returns, over the buffer that it has built. -/
def Decoder.new (buf : DecoderBuf) (zstd : σ) : Decoder σ := ⟨buf, 0, 0, zstd⟩

/-! ## One iteration of the loop -/

/-- The state after a refill's copy. -/
def load (state : StreamingState) : StreamingState :=
  let chunk := min (state.src_mmap.len - state.src_pos) state.scratch.capacity
  { state with
    scratch := state.scratch.copyFrom ((state.src_mmap.bytes.drop state.src_pos).take chunk)
    src_pos := state.src_pos + chunk
    scratch_len := chunk
    scratch_in_pos := 0 }

/-- What the first half of an iteration does. It never panics. -/
theorem refill_cases (state : StreamingState) :
    (refill R state = .eof ∧ state.scratch_in_pos = state.scratch_len ∧
        state.src_mmap.len ≤ state.src_pos) ∨
      (refill R state = .ready state [] ∧ state.scratch_in_pos ≠ state.scratch_len) ∨
      (refill R state = .ready (R.retireSrc (load state)).1
          (.refill (load state) (R.retireSrc (load state)).1 :: (R.retireSrc (load state)).2) ∧
        state.scratch_in_pos = state.scratch_len ∧ state.src_pos < state.src_mmap.len) := by
  unfold refill
  by_cases hempty : state.scratch_in_pos = state.scratch_len
  · by_cases hend : state.src_pos ≥ state.src_mmap.len
    · exact .inl ⟨by rw [if_pos hempty, if_pos hend], hempty, hend⟩
    · have hsub : Build.debug.sub state.src_mmap.len state.src_pos =
          .ok (state.src_mmap.len - state.src_pos) := if_pos (by omega)
      have hslice := @sliceFrom_of_le _ state.src_mmap.bytes state.src_pos
        (by unfold Mmap.len at hend; omega)
      refine .inr (.inr ⟨?_, hempty, by omega⟩)
      rw [if_pos hempty, if_neg hend, hsub, hslice]
      rfl
  · exact .inr (.inl ⟨if_neg hempty, hempty⟩)

variable {z R}

/-- What the second half of an iteration does, when zstd answers. -/
theorem feed_ok {state : StreamingState} {zstd : σ} {buf input : List UInt8} {status : Status}
    (hslice : slice state.scratch.deref state.scratch_in_pos state.scratch_len = .ok input)
    (hcall : (z.run_on_buffers zstd input buf).result = .ok status) :
    feed z state zstd buf =
      ⟨({ state with scratch_in_pos := state.scratch_in_pos + status.bytes_read },
          (z.run_on_buffers zstd input buf).zstd),
        (z.run_on_buffers zstd input buf).buf,
        if status.bytes_written > 0 then some (.ok status.bytes_written) else none,
        [.call (.streaming state) input buf.length (.ok status)]⟩ := by
  simp only [feed, hslice, hcall]
  split_ifs <;> rfl

/-- What the second half of an iteration does, when zstd fails. -/
theorem feed_error {state : StreamingState} {zstd : σ} {buf input : List UInt8} {e : IoError}
    (hslice : slice state.scratch.deref state.scratch_in_pos state.scratch_len = .ok input)
    (hcall : (z.run_on_buffers zstd input buf).result = .error e) :
    feed z state zstd buf =
      ⟨(state, (z.run_on_buffers zstd input buf).zstd), (z.run_on_buffers zstd input buf).buf,
        some (.err (.wrap .invalidData e)),
        [.call (.streaming state) input buf.length (.error e)]⟩ := by
  simp only [feed, hslice, hcall]

/-! ## One read -/

/-- A read into an empty buffer does nothing, on every variant. -/
theorem read_nil (d : Decoder σ) (fuel : ℕ) :
    d.read z R fuel [] = ⟨d, [], some (.ok 0), []⟩ := rfl

/-- A read on the streaming variant, into a buffer that is not empty. -/
theorem read_streaming {d : Decoder σ} {state : StreamingState} {buf : List UInt8}
    (hd : d.buf = .streaming state) (hbuf : buf ≠ []) (fuel : ℕ) :
    d.read z R fuel buf =
      ⟨{ d with
          buf := .streaming (readStreaming z R fuel state d.zstd buf).state.1
          zstd := (readStreaming z R fuel state d.zstd buf).state.2 },
        (readStreaming z R fuel state d.zstd buf).buf,
        (readStreaming z R fuel state d.zstd buf).outcome,
        (readStreaming z R fuel state d.zstd buf).events⟩ := by
  unfold Decoder.read
  rw [if_neg (by simpa using hbuf), hd]

/-- A read on a whole-buffer variant, into a buffer that is not empty. -/
theorem read_whole {d : Decoder σ} {bytes buf : List UInt8} (hd : d.buf.deref = .ok bytes)
    (hbuf : buf ≠ []) (fuel : ℕ) : d.read z R fuel buf = readWhole z R d buf := by
  unfold Decoder.read
  rw [if_neg (by simpa using hbuf)]
  cases hb : d.buf with
  | streaming state => rw [hb] at hd; cases hd
  | mmap m => rfl
  | slice s => rfl
  | hugepage h => rfl

/-- What it does, when zstd answers. -/
theorem readWhole_ok {d : Decoder σ} {bytes buf : List UInt8} {status : Status}
    (hd : d.buf.deref = .ok bytes) (hpos : d.in_pos ≤ bytes.length)
    (hcall : (z.run_on_buffers d.zstd (bytes.drop d.in_pos) buf).result = .ok status)
    {d' : Decoder σ} (hd' : d' = { d with
      zstd := (z.run_on_buffers d.zstd (bytes.drop d.in_pos) buf).zstd
      in_pos := d.in_pos + status.bytes_read }) :
    readWhole z R d buf =
      ⟨(R.maybeRetire d').1, (z.run_on_buffers d.zstd (bytes.drop d.in_pos) buf).buf,
        some (.ok status.bytes_written),
        .call d.buf (bytes.drop d.in_pos) buf.length (.ok status) :: (R.maybeRetire d').2⟩ := by
  subst hd'
  simp only [readWhole, hd, Outcome.bind, sliceFrom_of_le hpos, hcall]

/-- What it does, when zstd fails. -/
theorem readWhole_error {d : Decoder σ} {bytes buf : List UInt8} {e : IoError}
    (hd : d.buf.deref = .ok bytes) (hpos : d.in_pos ≤ bytes.length)
    (hcall : (z.run_on_buffers d.zstd (bytes.drop d.in_pos) buf).result = .error e) :
    readWhole z R d buf =
      ⟨{ d with zstd := (z.run_on_buffers d.zstd (bytes.drop d.in_pos) buf).zstd },
        (z.run_on_buffers d.zstd (bytes.drop d.in_pos) buf).buf,
        some (.err (.wrap .invalidData e)),
        [.call d.buf (bytes.drop d.in_pos) buf.length (.error e)]⟩ := by
  simp only [readWhole, hd, Outcome.bind, sliceFrom_of_le hpos, hcall]

/-- The ways of a read: into an empty buffer, on the streaming variant, or on a buffer that
dereferences. -/
theorem read_ways (z : RawDecoder σ) (R : Retirement σ) (d : Decoder σ) (fuel : ℕ)
    (buf : List UInt8) :
    (buf = [] ∧ d.read z R fuel buf = ⟨d, [], some (.ok 0), []⟩) ∨
      (∃ state, d.buf = .streaming state ∧ buf ≠ [] ∧ d.read z R fuel buf =
        ⟨{ d with
            buf := .streaming (readStreaming z R fuel state d.zstd buf).state.1
            zstd := (readStreaming z R fuel state d.zstd buf).state.2 },
          (readStreaming z R fuel state d.zstd buf).buf,
          (readStreaming z R fuel state d.zstd buf).outcome,
          (readStreaming z R fuel state d.zstd buf).events⟩) ∨
      ∃ bytes, d.buf.deref = .ok bytes ∧ buf ≠ [] ∧ d.read z R fuel buf = readWhole z R d buf := by
  rcases eq_or_ne buf [] with rfl | hbuf
  · exact .inl ⟨rfl, rfl⟩
  cases hd : d.buf with
  | streaming state => exact .inr (.inl ⟨state, rfl, hbuf, read_streaming hd hbuf fuel⟩)
  | mmap m => exact .inr (.inr ⟨_, rfl, hbuf, read_whole (congrArg DecoderBuf.deref hd) hbuf fuel⟩)
  | slice s => exact .inr (.inr ⟨_, rfl, hbuf, read_whole (congrArg DecoderBuf.deref hd) hbuf fuel⟩)
  | hugepage h =>
    exact .inr (.inr ⟨_, rfl, hbuf, read_whole (congrArg DecoderBuf.deref hd) hbuf fuel⟩)

/-- The ways of a read on a buffer that dereferences: `in_pos` is out of bounds, or zstd fails, or
it answers. -/
theorem readWhole_ways (z : RawDecoder σ) (R : Retirement σ) {d : Decoder σ} {bytes : List UInt8}
    (hd : d.buf.deref = .ok bytes) (buf : List UInt8) :
    (bytes.length < d.in_pos ∧ readWhole z R d buf = ⟨d, buf, some .panic, []⟩) ∨
      (∃ e, d.in_pos ≤ bytes.length ∧
        (z.run_on_buffers d.zstd (bytes.drop d.in_pos) buf).result = .error e ∧
        readWhole z R d buf =
          ⟨{ d with zstd := (z.run_on_buffers d.zstd (bytes.drop d.in_pos) buf).zstd },
            (z.run_on_buffers d.zstd (bytes.drop d.in_pos) buf).buf,
            some (.err (.wrap .invalidData e)),
            [.call d.buf (bytes.drop d.in_pos) buf.length (.error e)]⟩) ∨
      ∃ status d', d.in_pos ≤ bytes.length ∧
        (z.run_on_buffers d.zstd (bytes.drop d.in_pos) buf).result = .ok status ∧
        d' = { d with
          zstd := (z.run_on_buffers d.zstd (bytes.drop d.in_pos) buf).zstd
          in_pos := d.in_pos + status.bytes_read } ∧
        readWhole z R d buf =
          ⟨(R.maybeRetire d').1, (z.run_on_buffers d.zstd (bytes.drop d.in_pos) buf).buf,
            some (.ok status.bytes_written),
            .call d.buf (bytes.drop d.in_pos) buf.length (.ok status) ::
              (R.maybeRetire d').2⟩ := by
  by_cases hpos : d.in_pos ≤ bytes.length
  · cases hcall : (z.run_on_buffers d.zstd (bytes.drop d.in_pos) buf).result with
    | error e => exact .inr (.inl ⟨e, hpos, rfl, readWhole_error hd hpos hcall⟩)
    | ok status => exact .inr (.inr ⟨status, _, hpos, rfl, rfl, readWhole_ok hd hpos hcall rfl⟩)
  · refine .inl ⟨Nat.lt_of_not_le hpos, ?_⟩
    simp only [readWhole, hd, Outcome.bind, sliceFrom, if_neg hpos]

/-- A session of no reads leaves the decoder as it is. -/
theorem session_nil_decoder (d : Decoder σ) : (session z R [] d).decoder = d := rfl

/-- A session goes on after a read that returned a count. -/
theorem session_cons_ok {d : Decoder σ} {fuel n : ℕ} {buf : List UInt8}
    (h : (d.read z R fuel buf).outcome = some (.ok n)) (reads : List (ℕ × List UInt8)) :
    (session z R ((fuel, buf) :: reads) d).results =
        (some (.ok n), (d.read z R fuel buf).buf) ::
          (session z R reads (d.read z R fuel buf).state).results ∧
      (session z R ((fuel, buf) :: reads) d).decoder =
        (session z R reads (d.read z R fuel buf).state).decoder := by
  rw [session]
  simp only [h, and_self]

/-! ## The loop -/

variable (z R)

/-- One iteration of the loop of `read_streaming`, as a turn. Its state is that of the two decoders
and the caller's buffer. -/
def turn (s : (StreamingState × σ) × List UInt8) :
    Turn ((StreamingState × σ) × List UInt8) Event (Outcome ℕ) :=
  let r := readStreamingBody z R s.1.1 s.1.2 s.2
  ⟨(r.state, r.buf), r.events, r.outcome⟩

/-- What a read leaves, when its loop leaves `t`. -/
def Reading.ofTurn {τ : Type} (t : Turn (τ × List UInt8) Event (Outcome ℕ)) : Reading τ :=
  ⟨t.state.1, t.state.2, t.result, t.events⟩

/-- `read_streaming` is the loop of its iterations. -/
theorem readStreaming_eq (fuel : ℕ) (state : StreamingState) (zstd : σ) (buf : List UInt8) :
    readStreaming z R fuel state zstd buf =
      .ofTurn (run (turn z R) fuel ((state, zstd), buf)) := by
  induction fuel generalizing state zstd buf with
  | zero => rfl
  | succ fuel ih =>
    rw [readStreaming]
    cases ho : (readStreamingBody z R state zstd buf).outcome with
    | some o => rw [run_of_some (by exact ho)]; rfl
    | none => rw [run_of_none (by exact ho), ih]; rfl

variable {z R}

/-! ## Rules for runs -/

/-- An iteration keeps the length of the caller's buffer. -/
theorem readStreamingBody_length (state : StreamingState) (zstd : σ) (buf : List UInt8) :
    (readStreamingBody z R state zstd buf).buf.length = buf.length := by
  have hfeed : ∀ state, (feed z state zstd buf).buf.length = buf.length := by
    intro state
    cases hslice : slice state.scratch.deref state.scratch_in_pos state.scratch_len with
    | ok input =>
      cases hcall : (z.run_on_buffers zstd input buf).result with
      | error e =>
        rw [feed_error hslice hcall]
        exact z.buf_length _ _ _
      | ok status =>
        rw [feed_ok hslice hcall]
        exact z.buf_length _ _ _
    | err e => simp only [feed, hslice]
    | panic => simp only [feed, hslice]
  unfold readStreamingBody
  cases refill R state with
  | eof => rfl
  | panic => rfl
  | ready state events => exact hfeed state

/-- So a buffer with room stays one. -/
theorem turn_ne_nil {s : (StreamingState × σ) × List UInt8} (h : s.2 ≠ []) :
    (turn z R s).state.2 ≠ [] := by
  have hlen := readStreamingBody_length (z := z) (R := R) s.1.1 s.1.2 s.2
  exact List.ne_nil_of_length_pos (hlen ▸ List.length_pos_of_ne_nil h)

/-- A property of the log and the two decoders' states that every iteration keeps, and a property
of the results that every iteration's result has, hold of the whole loop. The caller's buffer is not
empty in any iteration. -/
theorem readStreaming_rule {Q : List Event → StreamingState → σ → Prop} (Good : Outcome ℕ → Prop)
    (hbody : ∀ log state zstd buf, buf ≠ [] → Q log state zstd →
      Q (log ++ (readStreamingBody z R state zstd buf).events)
          (readStreamingBody z R state zstd buf).state.1
          (readStreamingBody z R state zstd buf).state.2 ∧
        ∀ o ∈ (readStreamingBody z R state zstd buf).outcome, Good o)
    (fuel : ℕ) (log : List Event) (state : StreamingState) (zstd : σ) {buf : List UInt8}
    (hbuf : buf ≠ []) (h : Q log state zstd) :
    Q (log ++ (readStreaming z R fuel state zstd buf).events)
        (readStreaming z R fuel state zstd buf).state.1
        (readStreaming z R fuel state zstd buf).state.2 ∧
      ∀ o ∈ (readStreaming z R fuel state zstd buf).outcome, Good o := by
  rw [readStreaming_eq]
  have hrun := run_invariant (turn z R) (fun log s => Q log s.1.1 s.1.2 ∧ s.2 ≠ []) Good ?_ fuel log
    ((state, zstd), buf) ⟨h, hbuf⟩
  · exact ⟨hrun.1.1, hrun.2⟩
  · rintro log s ⟨hQ, hbuf⟩
    obtain ⟨hQ', hgood⟩ := hbody log s.1.1 s.1.2 s.2 hbuf hQ
    exact ⟨⟨hQ', turn_ne_nil hbuf⟩, hgood⟩

/-- A property of the log and the decoder that every read keeps, and a property of the results that
every read's result has, hold of a session. -/
theorem session_rule {P : List Event → Decoder σ → Prop} (Good : Outcome ℕ → Prop)
    (hread : ∀ log d fuel buf, P log d →
      P (log ++ (d.read z R fuel buf).events) (d.read z R fuel buf).state ∧
        ∀ o ∈ (d.read z R fuel buf).outcome, Good o)
    (reads : List (ℕ × List UInt8)) (log : List Event) (d : Decoder σ) (h : P log d) :
    P (log ++ (session z R reads d).events) (session z R reads d).decoder ∧
      ∀ r ∈ (session z R reads d).results, ∀ o ∈ r.1, Good o := by
  induction reads generalizing log d with
  | nil => exact ⟨by simpa [session] using h, by simp [session]⟩
  | cons read reads ih =>
    obtain ⟨fuel, buf⟩ := read
    obtain ⟨hP, hgood⟩ := hread log d fuel buf h
    have hnext := ih _ _ hP
    rw [session]
    cases ho : (d.read z R fuel buf).outcome with
    | none => exact ⟨hP, by simp⟩
    | some o =>
      have ho' := hgood o (by simp [ho])
      cases o with
      | panic => exact ⟨hP, by simpa using ho'⟩
      | ok n =>
        simp only [← List.append_assoc, List.mem_cons, forall_eq_or_imp]
        exact ⟨hnext.1, by simpa using ho', hnext.2⟩
      | err e =>
        simp only [← List.append_assoc, List.mem_cons, forall_eq_or_imp]
        exact ⟨hnext.1, by simpa using ho', hnext.2⟩

/-- The same for a session of reads on a streaming decoder, by what an iteration does. -/
theorem session_streaming_rule {Q : List Event → StreamingState → σ → Prop}
    (Good : Outcome ℕ → Prop) (hempty : Good (.ok 0))
    (hbody : ∀ log state zstd buf, buf ≠ [] → Q log state zstd →
      Q (log ++ (readStreamingBody z R state zstd buf).events)
          (readStreamingBody z R state zstd buf).state.1
          (readStreamingBody z R state zstd buf).state.2 ∧
        ∀ o ∈ (readStreamingBody z R state zstd buf).outcome, Good o)
    (reads : List (ℕ × List UInt8)) (log : List Event) (d : Decoder σ) (state : StreamingState)
    (hd : d.buf = .streaming state) (h : Q log state d.zstd) :
    (∃ state', (session z R reads d).decoder.buf = .streaming state' ∧
        Q (log ++ (session z R reads d).events) state' (session z R reads d).decoder.zstd) ∧
      ∀ r ∈ (session z R reads d).results, ∀ o ∈ r.1, Good o := by
  let P (log : List Event) (d : Decoder σ) : Prop :=
    ∃ state, d.buf = .streaming state ∧ Q log state d.zstd
  have hstart : P log d := ⟨state, hd, h⟩
  refine session_rule (P := P) Good ?_ reads log d hstart
  rintro log d fuel buf ⟨state, hd, hQ⟩
  rcases eq_or_ne buf [] with rfl | hbuf
  · rw [read_nil, List.append_nil]
    exact ⟨⟨state, hd, hQ⟩, by simpa using hempty⟩
  · obtain ⟨hQ', hgood⟩ := readStreaming_rule Good hbody fuel log state d.zstd hbuf hQ
    rw [read_streaming hd hbuf]
    exact ⟨⟨_, rfl, hQ'⟩, hgood⟩

/-! ## Rules for two runs -/

/-- Two readings agree: their states are related, and they return the same result and leave the
same bytes in the caller's buffer. -/
structure Agree {τ : Type} (Rel : τ → τ → Prop) (r r' : Reading τ) : Prop where
  state : Rel r.state r'.state
  outcome : r.outcome = r'.outcome
  buf : r.buf = r'.buf

/-- Events do not matter for agreement. -/
theorem Agree.after {τ : Type} {Rel : τ → τ → Prop} {r r' : Reading τ} (h : Agree Rel r r')
    (events events' : List Event) : Agree Rel (r.after events) (r'.after events') :=
  ⟨h.state, h.outcome, h.buf⟩

variable {S : Retirement σ}

/-- Two loops in lockstep, with two retirements: a relation between the states that every iteration
keeps in agreement is kept by the loops. -/
theorem readStreaming_lockstep {Rel : StreamingState → StreamingState → Prop}
    (hbody : ∀ s t zstd buf, Rel s t →
      Agree (fun p q => Rel p.1 q.1 ∧ p.2 = q.2) (readStreamingBody z R s zstd buf)
        (readStreamingBody z S t zstd buf))
    (fuel : ℕ) (s t : StreamingState) (zstd : σ) (buf : List UInt8) (h : Rel s t) :
    Agree (fun p q => Rel p.1 q.1 ∧ p.2 = q.2) (readStreaming z R fuel s zstd buf)
      (readStreaming z S fuel t zstd buf) := by
  rw [readStreaming_eq, readStreaming_eq]
  have hturn : ∀ p q : (StreamingState × σ) × List UInt8,
      (Rel p.1.1 q.1.1 ∧ p.1.2 = q.1.2 ∧ p.2 = q.2) →
        (Rel (turn z R p).state.1.1 (turn z S q).state.1.1 ∧
          (turn z R p).state.1.2 = (turn z S q).state.1.2 ∧
          (turn z R p).state.2 = (turn z S q).state.2) ∧
        (turn z R p).result = (turn z S q).result := by
    rintro ⟨⟨s, zstd⟩, buf⟩ ⟨⟨t, _⟩, _⟩ ⟨hst, rfl, rfl⟩
    obtain ⟨⟨hrel, hzstd⟩, houtcome, hbuf⟩ := hbody s t zstd buf hst
    exact ⟨⟨hrel, hzstd, hbuf⟩, houtcome⟩
  obtain ⟨⟨hrel, hzstd, hbuf⟩, houtcome⟩ := run_lockstep (turn z R) (turn z S) _ hturn fuel
    ((s, zstd), buf) ((t, zstd), buf) ⟨h, rfl, rfl⟩
  exact ⟨⟨hrel, hzstd⟩, houtcome, hbuf⟩

/-- Two sessions of the same reads in lockstep: a relation between the decoders that every read
keeps in agreement gives the same results. -/
theorem session_lockstep {Rel : Decoder σ → Decoder σ → Prop}
    (hread : ∀ d d' fuel buf, Rel d d' → Agree Rel (d.read z R fuel buf) (d'.read z S fuel buf))
    (reads : List (ℕ × List UInt8)) (d d' : Decoder σ) (h : Rel d d') :
    (session z R reads d).results = (session z S reads d').results := by
  induction reads generalizing d d' with
  | nil => rfl
  | cons read reads ih =>
    obtain ⟨fuel, buf⟩ := read
    obtain ⟨hrel, houtcome, hbuf⟩ := hread d d' fuel buf h
    have hnext := ih _ _ hrel
    rw [session, session, ← houtcome, ← hbuf]
    cases ho : (d.read z R fuel buf).outcome with
    | none => rfl
    | some o =>
      cases o with
      | panic => rfl
      | ok n => simp only [hnext]
      | err e => simp only [hnext]

/-- The same for two streaming decoders whose states are related and whose zstd states are equal. -/
theorem session_streaming_lockstep (Rel : StreamingState → StreamingState → Prop)
    (hbody : ∀ s t zstd buf, Rel s t →
      Agree (fun p q => Rel p.1 q.1 ∧ p.2 = q.2) (readStreamingBody z R s zstd buf)
        (readStreamingBody z S t zstd buf))
    (reads : List (ℕ × List UInt8)) (s t : StreamingState) (zstd : σ) (h : Rel s t) :
    (session z R reads (.new (.streaming s) zstd)).results =
      (session z S reads (.new (.streaming t) zstd)).results := by
  let RelDecoder (d d' : Decoder σ) : Prop :=
    ∃ s t, d.buf = .streaming s ∧ d'.buf = .streaming t ∧ Rel s t ∧ d.zstd = d'.zstd
  have hstart : RelDecoder (.new (.streaming s) zstd) (.new (.streaming t) zstd) :=
    ⟨s, t, rfl, rfl, h, rfl⟩
  refine session_lockstep ?_ reads _ _ hstart
  rintro d d' fuel buf ⟨s, t, hd, hd', hrel, hzstd⟩
  rcases eq_or_ne buf [] with rfl | hbuf
  · rw [read_nil, read_nil]
    exact ⟨⟨s, t, hd, hd', hrel, hzstd⟩, rfl, rfl⟩
  · obtain ⟨⟨hrel', hzstd'⟩, houtcome, hbuf'⟩ :=
      readStreaming_lockstep hbody fuel s t d.zstd buf hrel
    rw [read_streaming hd hbuf, read_streaming hd' hbuf, ← hzstd]
    exact ⟨⟨_, _, rfl, rfl, hrel', hzstd'⟩, houtcome, hbuf'⟩

end MmapZstd
