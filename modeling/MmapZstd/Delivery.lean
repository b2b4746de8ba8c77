import MmapZstd.Reference
import MmapZstd.Retirement

/-!
# What reads deliver

zstd writes into the caller's buffer, and a read says how many bytes of it to take. The decoder
`recording` is zstd with a record of all that it has written. It cannot be told apart from zstd
(`Simulates.session`), so its record says what zstd wrote in a run of the crate; and in every
session, with any decoder, on every variant, what the reads have delivered is exactly the record
(`session_conserves`): no byte is lost between two calls or at a failed read, and none is delivered
twice.

`session_contract` is the rest of the contract of `io::Read`: what a read may return and how it may
leave the caller's buffer.
-/

namespace MmapZstd

open Frames

variable {σ τ : Type}

/-- The bytes that one read delivers: the first `n` of its buffer when it returned `Ok(n)`. -/
def deliveredBy (outcome : Option (Outcome ℕ)) (buf : List UInt8) : List UInt8 :=
  match outcome with
  | some (.ok n) => buf.take n
  | _ => []

/-- The bytes that the reads of a session have delivered. -/
def delivered (results : List (Option (Outcome ℕ) × List UInt8)) : List UInt8 :=
  results.flatMap fun r => deliveredBy r.1 r.2

@[simp]
theorem delivered_nil : delivered [] = [] := rfl

@[simp]
theorem delivered_cons (r : Option (Outcome ℕ) × List UInt8)
    (results : List (Option (Outcome ℕ) × List UInt8)) :
    delivered (r :: results) = deliveredBy r.1 r.2 ++ delivered results := rfl

/-! ## A rule for results -/

/-- A property of the events, of the results and of the decoder that every read keeps, with a bound
and a buffer of which `Fits` holds, holds of a session of such reads. -/
theorem session_results_rule {z : RawDecoder σ} {R : Retirement σ} (Fits : ℕ → List UInt8 → Prop)
    {P : List Event → List (Option (Outcome ℕ) × List UInt8) → Decoder σ → Prop}
    (hread : ∀ log results d fuel buf, Fits fuel buf → P log results d →
      P (log ++ (d.read z R fuel buf).events)
        (results ++ [((d.read z R fuel buf).outcome, (d.read z R fuel buf).buf)])
        (d.read z R fuel buf).state)
    (reads : List (ℕ × List UInt8)) (hfits : ∀ read ∈ reads, Fits read.1 read.2)
    (log : List Event) (results : List (Option (Outcome ℕ) × List UInt8)) (d : Decoder σ)
    (h : P log results d) :
    P (log ++ (session z R reads d).events) (results ++ (session z R reads d).results)
      (session z R reads d).decoder := by
  induction reads generalizing log results d with
  | nil => simpa [session] using h
  | cons read reads ih =>
    obtain ⟨fuel, buf⟩ := read
    obtain ⟨hfirst, hothers⟩ := List.forall_mem_cons.mp hfits
    have hstep := hread log results d fuel buf hfirst h
    have hnext := ih hothers _ _ _ hstep
    rw [session]
    cases ho : (d.read z R fuel buf).outcome with
    | none =>
      rw [ho] at hstep
      exact hstep
    | some o =>
      rw [ho] at hstep hnext
      cases o with
      | panic => exact hstep
      | ok n => simpa only [List.append_assoc, List.singleton_append] using hnext
      | err e => simpa only [List.append_assoc, List.singleton_append] using hnext

/-- A session has the result of its first read, and then none or those of the session of the
others. -/
theorem session_results_cons (z : RawDecoder σ) (R : Retirement σ) (fuel : ℕ) (buf : List UInt8)
    (reads : List (ℕ × List UInt8)) (d : Decoder σ) :
    ∃ rest, (session z R ((fuel, buf) :: reads) d).results =
        ((d.read z R fuel buf).outcome, (d.read z R fuel buf).buf) :: rest ∧
      (rest = [] ∨ rest = (session z R reads (d.read z R fuel buf).state).results) := by
  rw [session]
  obtain ⟨d', buf', outcome, events⟩ := d.read z R fuel buf
  cases outcome with
  | none => exact ⟨[], rfl, .inl rfl⟩
  | some o =>
    cases o with
    | panic => exact ⟨[], rfl, .inl rfl⟩
    | ok n => exact ⟨_, rfl, .inr rfl⟩
    | err e => exact ⟨_, rfl, .inr rfl⟩

/-! ## Decoders that cannot be told apart -/

/-- `z'` does what `z` does, on states seen through `f`. -/
structure Simulates (z' : RawDecoder τ) (z : RawDecoder σ) (f : τ → σ) : Prop where
  zstd : ∀ s input buf,
    f (z'.run_on_buffers s input buf).zstd = (z.run_on_buffers (f s) input buf).zstd
  buf : ∀ s input buf,
    (z'.run_on_buffers s input buf).buf = (z.run_on_buffers (f s) input buf).buf
  result : ∀ s input buf,
    (z'.run_on_buffers s input buf).result = (z.run_on_buffers (f s) input buf).result

/-- A decoder with its zstd state seen through `f`. -/
def Decoder.map (f : τ → σ) (d : Decoder τ) : Decoder σ := ⟨d.buf, d.in_pos, d.retire_pos, f d.zstd⟩

/-- A reading with its state seen through `g`. -/
def Reading.map {α β : Type} (g : α → β) (r : Reading α) : Reading β :=
  ⟨g r.state, r.buf, r.outcome, r.events⟩

/-- The retirement does not look at zstd. -/
theorem maybeRetire_map (k : Kernel) (f : τ → σ) (d : Decoder τ) :
    maybeRetire k (d.map f) = ((maybeRetire k d).1.map f, (maybeRetire k d).2) := by
  obtain ⟨buf, in_pos, retire_pos, zstd⟩ := d
  cases buf with
  | mmap m =>
    unfold maybeRetire Decoder.map
    by_cases hlt : (in_pos - retireWindow) &&& usizeNot (4096 - 1) > retire_pos
    · simp only [if_pos hlt]
    · simp only [if_neg hlt]
  | slice s => rfl
  | hugepage h => rfl
  | streaming s => rfl

/-- It leaves `in_pos` and zstd alone. -/
theorem maybeRetire_frame (k : Kernel) (d : Decoder σ) :
    ∃ buf r, (maybeRetire k d).1 = { d with buf := buf, retire_pos := r } := by
  obtain ⟨buf, in_pos, retire_pos, zstd⟩ := d
  cases buf with
  | mmap m =>
    rcases maybeRetire_cases k ⟨.mmap m, in_pos, retire_pos, zstd⟩ rfl _ rfl with
      ⟨heq, -⟩ | ⟨heq, -⟩
    · exact ⟨_, _, by rw [heq]⟩
    · exact ⟨_, _, by rw [heq]⟩
  | slice s => exact ⟨_, _, rfl⟩
  | hugepage h => exact ⟨_, _, rfl⟩
  | streaming s => exact ⟨_, _, rfl⟩

section Simulation

variable {z' : RawDecoder τ} {z : RawDecoder σ} {f : τ → σ} (h : Simulates z' z f) (k : Kernel)

include h

/-- The two decoders are fed in the same way. -/
theorem Simulates.feed (state : StreamingState) (s : τ) (buf : List UInt8) :
    feed z state (f s) buf = (MmapZstd.feed z' state s buf).map (Prod.map id f) := by
  cases hslice : slice state.scratch.deref state.scratch_in_pos state.scratch_len with
  | ok input =>
    cases hcall : (z'.run_on_buffers s input buf).result with
    | error e =>
      rw [feed_error hslice hcall, feed_error hslice ((h.result s input buf).symm.trans hcall),
        ← h.zstd, ← h.buf]
      rfl
    | ok status =>
      rw [feed_ok hslice hcall, feed_ok hslice ((h.result s input buf).symm.trans hcall),
        ← h.zstd, ← h.buf]
      rfl
  | err e =>
    simp only [MmapZstd.feed, hslice]
    rfl
  | panic =>
    simp only [MmapZstd.feed, hslice]
    rfl

/-- An iteration of the loop does the same with both. -/
theorem Simulates.body (state : StreamingState) (s : τ) (buf : List UInt8) :
    readStreamingBody z (.madvise σ k) state (f s) buf =
      (readStreamingBody z' (.madvise τ k) state s buf).map (Prod.map id f) := by
  have hrefill : refill (Retirement.madvise σ k) state = refill (Retirement.madvise τ k) state :=
    rfl
  unfold readStreamingBody
  rw [hrefill]
  cases refill (Retirement.madvise τ k) state with
  | eof => rfl
  | panic => rfl
  | ready state events =>
    simp only [h.feed]
    rfl

/-- So does the loop. -/
theorem Simulates.readStreaming (fuel : ℕ) (state : StreamingState) (s : τ) (buf : List UInt8) :
    readStreaming z (.madvise σ k) fuel state (f s) buf =
      (MmapZstd.readStreaming z' (.madvise τ k) fuel state s buf).map (Prod.map id f) := by
  induction fuel generalizing state s buf with
  | zero => rfl
  | succ fuel ih =>
    rw [MmapZstd.readStreaming, MmapZstd.readStreaming, h.body k]
    obtain ⟨next, buf', outcome, events⟩ := readStreamingBody z' (.madvise τ k) state s buf
    cases outcome with
    | some o => rfl
    | none =>
      simp only [Reading.map, Prod.map_fst, Prod.map_snd, id, ih]
      rfl

/-- So does a read. -/
theorem Simulates.read (fuel : ℕ) (d : Decoder τ) (buf : List UInt8) :
    (d.map f).read z (.madvise σ k) fuel buf =
      (d.read z' (.madvise τ k) fuel buf).map (Decoder.map f) := by
  rcases read_ways z' (.madvise τ k) d fuel buf with ⟨rfl, -⟩ | ⟨state, hd, hbuf, heq⟩ |
    ⟨bytes, hd, hbuf, heq⟩
  · rfl
  · have hd' : (d.map f).buf = .streaming state := hd
    have hloop := h.readStreaming k fuel state d.zstd buf
    rw [heq, read_streaming hd' hbuf]
    simp only [Decoder.map, hloop]
    rfl
  · have hd' : (d.map f).buf.deref = .ok bytes := hd
    have hzstd := h.zstd d.zstd (bytes.drop d.in_pos) buf
    have hcopy := h.buf d.zstd (bytes.drop d.in_pos) buf
    have hresult := h.result d.zstd (bytes.drop d.in_pos) buf
    rw [heq, read_whole hd' hbuf]
    rcases readWhole_ways z' (.madvise τ k) hd buf with ⟨hpos, heq⟩ | ⟨e, hpos, hcall, heq⟩ |
      ⟨status, next, hpos, hcall, rfl, heq⟩
    · have hpos' : ¬ (d.map f).in_pos ≤ bytes.length := Nat.not_le.mpr hpos
      rw [heq]
      simp only [readWhole, hd', Outcome.bind, sliceFrom, if_neg hpos']
      rfl
    · have hcall' : (z.run_on_buffers (d.map f).zstd (bytes.drop (d.map f).in_pos) buf).result =
          .error e := hresult.symm.trans hcall
      rw [heq, readWhole_error hd' hpos hcall']
      simp only [Reading.map, Decoder.map, hzstd, hcopy]
    · have hcall' : (z.run_on_buffers (d.map f).zstd (bytes.drop (d.map f).in_pos) buf).result =
          .ok status := hresult.symm.trans hcall
      have hretire := maybeRetire_map k f { d with
        zstd := (z'.run_on_buffers d.zstd (bytes.drop d.in_pos) buf).zstd
        in_pos := d.in_pos + status.bytes_read }
      simp only [Decoder.map, hzstd] at hretire
      rw [heq, readWhole_ok hd' hpos hcall' rfl]
      simp only [Reading.map, Decoder.map, Retirement.madvise, hretire, hcopy]

/-- So does a session: it has the same results and the same events. -/
theorem Simulates.session (reads : List (ℕ × List UInt8)) (d : Decoder τ) :
    session z (.madvise σ k) reads (d.map f) =
      ⟨(MmapZstd.session z' (.madvise τ k) reads d).decoder.map f,
        (MmapZstd.session z' (.madvise τ k) reads d).results,
        (MmapZstd.session z' (.madvise τ k) reads d).events⟩ := by
  induction reads generalizing d with
  | nil => rfl
  | cons read reads ih =>
    obtain ⟨fuel, buf⟩ := read
    rw [MmapZstd.session, MmapZstd.session, h.read k]
    obtain ⟨next, buf', outcome, events⟩ := d.read z' (.madvise τ k) fuel buf
    cases outcome with
    | none => rfl
    | some o =>
      cases o with
      | ok n => simp only [Reading.map, ih]
      | err e => simp only [Reading.map, ih]
      | panic => rfl

end Simulation

/-! ## The record -/

/-- What a call has written, by its answer. -/
def Call.output (call : Call σ) : List UInt8 :=
  match call.result with
  | .ok status => call.buf.take status.bytes_written
  | .error _ => []

/-- zstd with a record of all that it has written. -/
def RawDecoder.recording (z : RawDecoder σ) : RawDecoder (σ × List UInt8) where
  run_on_buffers s input buf :=
    let call := z.run_on_buffers s.1 input buf
    ⟨(call.zstd, s.2 ++ call.output), call.buf, call.result⟩
  buf_length s input buf := z.buf_length s.1 input buf

/-- It cannot be told apart from zstd. -/
theorem RawDecoder.recording_simulates (z : RawDecoder σ) :
    Simulates z.recording z Prod.fst where
  zstd _ _ _ := rfl
  buf _ _ _ := rfl
  result _ _ _ := rfl

section Record

variable {z : RawDecoder σ} {s : σ × List UInt8} {input buf : List UInt8}

/-- A call that succeeds records what it has written. -/
theorem RawDecoder.recording_ok {status : Status}
    (h : (z.recording.run_on_buffers s input buf).result = .ok status) :
    (z.recording.run_on_buffers s input buf).zstd.2 =
      s.2 ++ (z.recording.run_on_buffers s input buf).buf.take status.bytes_written := by
  have hresult : (z.run_on_buffers s.1 input buf).result = .ok status := h
  simp only [RawDecoder.recording, Call.output, hresult]

/-- A call that fails records nothing. -/
theorem RawDecoder.recording_error {e : IoError}
    (h : (z.recording.run_on_buffers s input buf).result = .error e) :
    (z.recording.run_on_buffers s input buf).zstd.2 = s.2 := by
  have hresult : (z.run_on_buffers s.1 input buf).result = .error e := h
  simp only [RawDecoder.recording, Call.output, hresult, List.append_nil]

variable (z) (k : Kernel)

/-- A call on the scratch delivers what it writes, and goes on when it writes nothing. -/
theorem feed_record (state : StreamingState) (s : σ × List UInt8) (buf : List UInt8) :
    (feed z.recording state s buf).state.2.2 =
      s.2 ++ deliveredBy (feed z.recording state s buf).outcome
        (feed z.recording state s buf).buf := by
  cases hslice : slice state.scratch.deref state.scratch_in_pos state.scratch_len with
  | ok input =>
    cases hcall : (z.recording.run_on_buffers s input buf).result with
    | error e =>
      rw [feed_error hslice hcall]
      simp only [RawDecoder.recording_error hcall, deliveredBy, List.append_nil]
    | ok status =>
      rw [feed_ok hslice hcall]
      simp only [RawDecoder.recording_ok hcall]
      by_cases hpos : status.bytes_written > 0
      · rw [if_pos hpos]
        rfl
      · -- The loop goes on, and the call has written nothing.
        have hzero : status.bytes_written = 0 := by omega
        rw [if_neg hpos, hzero]
        rfl
  | err e => simp only [feed, hslice, deliveredBy, List.append_nil]
  | panic => simp only [feed, hslice, deliveredBy, List.append_nil]

/-- A read of the streaming variant delivers what its calls write: all but the last write
nothing. -/
theorem readStreaming_record (fuel : ℕ) (state : StreamingState) (s : σ × List UInt8)
    (buf : List UInt8) :
    (readStreaming z.recording (.madvise _ k) fuel state s buf).state.2.2 =
      s.2 ++ deliveredBy (readStreaming z.recording (.madvise _ k) fuel state s buf).outcome
        (readStreaming z.recording (.madvise _ k) fuel state s buf).buf := by
  have hbody : ∀ state s buf,
      (readStreamingBody z.recording (.madvise _ k) state s buf).state.2.2 =
        s.2 ++ deliveredBy (readStreamingBody z.recording (.madvise _ k) state s buf).outcome
          (readStreamingBody z.recording (.madvise _ k) state s buf).buf := by
    intro state s buf
    unfold readStreamingBody
    cases refill (Retirement.madvise (σ × List UInt8) k) state with
    | eof => simp only [deliveredBy, List.take_zero, List.append_nil]
    | panic => simp only [deliveredBy, List.append_nil]
    | ready state events => exact feed_record z state s buf
  induction fuel generalizing state s buf with
  | zero => simp only [readStreaming, deliveredBy, List.append_nil]
  | succ fuel ih =>
    have hturn := hbody state s buf
    rw [readStreaming]
    generalize readStreamingBody z.recording (.madvise _ k) state s buf = r at hturn ⊢
    obtain ⟨⟨state', s'⟩, buf', outcome, events⟩ := r
    cases outcome with
    | some o => exact hturn
    | none =>
      simp only [deliveredBy, List.append_nil] at hturn
      simp only [Reading.after, ih, hturn]

/-- A read delivers what its calls write. -/
theorem read_record (fuel : ℕ) (d : Decoder (σ × List UInt8)) (buf : List UInt8) :
    (d.read z.recording (.madvise _ k) fuel buf).state.zstd.2 =
      d.zstd.2 ++ deliveredBy (d.read z.recording (.madvise _ k) fuel buf).outcome
        (d.read z.recording (.madvise _ k) fuel buf).buf := by
  rcases read_ways z.recording (.madvise _ k) d fuel buf with ⟨-, heq⟩ | ⟨state, -, -, heq⟩ |
    ⟨bytes, hd, -, heq⟩
  · rw [heq]
    simp only [deliveredBy, List.take_nil, List.append_nil]
  · rw [heq]
    exact readStreaming_record z k fuel state d.zstd buf
  · rw [heq]
    rcases readWhole_ways z.recording (.madvise _ k) hd buf with ⟨-, heq⟩ | ⟨e, -, hcall, heq⟩ |
      ⟨status, next, -, hcall, rfl, heq⟩
    · rw [heq]
      simp only [deliveredBy, List.append_nil]
    · rw [heq]
      simp only [deliveredBy, RawDecoder.recording_error hcall, List.append_nil]
    · obtain ⟨buf', r, hretire⟩ := maybeRetire_frame k { d with
        zstd := (z.recording.run_on_buffers d.zstd (bytes.drop d.in_pos) buf).zstd
        in_pos := d.in_pos + status.bytes_read }
      rw [heq]
      simp only [deliveredBy, Retirement.madvise, hretire, RawDecoder.recording_ok hcall]

end Record

/-- No output is lost, and none is delivered twice. In every session of reads, from any decoder on
any variant, under any kernel and with any answers of zstd: the bytes delivered by the reads are
those that zstd wrote, in order. The session is the same, read for read and event for event, without
the record. -/
theorem session_conserves (z : RawDecoder σ) (k : Kernel) (reads : List (ℕ × List UInt8))
    (d : Decoder σ) :
    let s := session z.recording (.madvise _ k) reads ⟨d.buf, d.in_pos, d.retire_pos, (d.zstd, [])⟩
    s.results = (session z (.madvise σ k) reads d).results ∧
      s.events = (session z (.madvise σ k) reads d).events ∧
      delivered s.results = s.decoder.zstd.2 := by
  intro s
  -- Without its record the session is the one on `z`; with it, each read delivers what it records.
  have hsame := z.recording_simulates.session k reads
    ⟨d.buf, d.in_pos, d.retire_pos, (d.zstd, [])⟩
  have hrecord : (session z.recording (.madvise _ k) reads
      ⟨d.buf, d.in_pos, d.retire_pos, (d.zstd, [])⟩).decoder.zstd.2 = delivered s.results := by
    have hrule := session_results_rule (z := z.recording) (R := .madvise _ k)
      (fun _ _ => True) (P := fun _ results d => d.zstd.2 = delivered results) ?_ reads (by simp) []
      [] ⟨d.buf, d.in_pos, d.retire_pos, (d.zstd, [])⟩ rfl
    · simpa using hrule
    · intro log results d fuel buf _ h
      rw [read_record, h]
      simp [delivered]
  refine ⟨?_, ?_, hrecord.symm⟩
  · exact (congrArg Session.results hsame).symm
  · exact (congrArg Session.events hsame).symm

/-! ## The calls -/

/-- What a call of `run_on_buffers` is given, the input and the length of the output buffer, and
what it answers. -/
structure Received where
  input : List UInt8
  room : ℕ
  result : Except IoError Status

/-- The call that the event reports. -/
def Event.received : Event → Option Received
  | .call _ input room result => some ⟨input, room, result⟩
  | _ => none

/-- The calls that a log reports. -/
def calls (log : List Event) : List Received := log.filterMap Event.received

@[simp]
theorem calls_append (log log' : List Event) : calls (log ++ log') = calls log ++ calls log' :=
  List.filterMap_append

/-- The ranges of retirements are not calls. -/
theorem calls_advise {events : List Event}
    (h : ∀ e ∈ events, ∃ offset len, e = .advise offset len) : calls events = [] := by
  rw [calls, List.filterMap_eq_nil_iff]
  intro e he
  obtain ⟨offset, len, rfl⟩ := h e he
  rfl

/-- zstd with a record of the calls that it receives. -/
def RawDecoder.receiving (z : RawDecoder σ) : RawDecoder (σ × List Received) where
  run_on_buffers s input buf :=
    let call := z.run_on_buffers s.1 input buf
    ⟨(call.zstd, s.2 ++ [⟨input, buf.length, call.result⟩]), call.buf, call.result⟩
  buf_length s input buf := z.buf_length s.1 input buf

/-- It cannot be told apart from zstd. -/
theorem RawDecoder.receiving_simulates (z : RawDecoder σ) : Simulates z.receiving z Prod.fst where
  zstd _ _ _ := rfl
  buf _ _ _ := rfl
  result _ _ _ := rfl

/-- The calls that zstd receives in a session of reads. -/
def received (z : RawDecoder σ) (k : Kernel) (reads : List (ℕ × List UInt8)) (d : Decoder σ) :
    List Received :=
  (session z.receiving (.madvise _ k) reads
    ⟨d.buf, d.in_pos, d.retire_pos, (d.zstd, [])⟩).decoder.zstd.2

section Calls

variable (z : RawDecoder σ) (k : Kernel)

/-- A call on the scratch is reported as zstd receives it. -/
theorem feed_received (state : StreamingState) (s : σ × List Received) (buf : List UInt8) :
    (feed z.receiving state s buf).state.2.2 =
      s.2 ++ calls (feed z.receiving state s buf).events := by
  cases hslice : slice state.scratch.deref state.scratch_in_pos state.scratch_len with
  | ok input =>
    cases hcall : (z.receiving.run_on_buffers s input buf).result with
    | error e =>
      have hresult : (z.run_on_buffers s.1 input buf).result = .error e := hcall
      rw [feed_error hslice hcall]
      simp only [RawDecoder.receiving, hresult]
      rfl
    | ok status =>
      have hresult : (z.run_on_buffers s.1 input buf).result = .ok status := hcall
      rw [feed_ok hslice hcall]
      simp only [RawDecoder.receiving, hresult]
      rfl
  | err e =>
    simp only [feed, hslice]
    exact (List.append_nil _).symm
  | panic =>
    simp only [feed, hslice]
    exact (List.append_nil _).symm

/-- So are the calls of a read. -/
theorem read_received (fuel : ℕ) (d : Decoder (σ × List Received)) (buf : List UInt8) :
    (d.read z.receiving (.madvise _ k) fuel buf).state.zstd.2 =
      d.zstd.2 ++ calls (d.read z.receiving (.madvise _ k) fuel buf).events := by
  rcases read_ways z.receiving (.madvise _ k) d fuel buf with ⟨-, heq⟩ | ⟨state, -, hbuf, heq⟩ |
    ⟨bytes, hd, -, heq⟩
  · rw [heq]
    exact (List.append_nil _).symm
  · rw [heq]
    have hloop := readStreaming_rule (z := z.receiving) (R := .madvise _ k)
      (Q := fun log _ s => s.2 = d.zstd.2 ++ calls log) (fun _ => True) ?_ fuel [] state d.zstd hbuf
      (List.append_nil _).symm
    · exact hloop.1
    · intro log state s buf _ hs
      refine ⟨?_, fun _ _ => trivial⟩
      unfold readStreamingBody
      rcases refill_cases (Retirement.madvise (σ × List Received) k) state with
        ⟨hrefill, -⟩ | ⟨hrefill, -⟩ | ⟨hrefill, -⟩
      · simp only [hrefill, List.append_nil]
        exact hs
      · simp only [hrefill, Reading.after, List.nil_append, feed_received, calls_append, hs,
          List.append_assoc]
      · -- A refill is no call.
        have hquiet : ∀ loaded retired, calls (.refill loaded retired ::
            ((Retirement.madvise (σ × List Received) k).retireSrc (load state)).2) = [] :=
          fun _ _ => (calls_advise (retireSrc_events k (load state)) :)
        simp only [hrefill, Reading.after, feed_received, calls_append, hquiet, hs,
          List.append_assoc, List.nil_append]
  · rw [heq]
    rcases readWhole_ways z.receiving (.madvise _ k) hd buf with ⟨-, heq⟩ | ⟨e, -, hcall, heq⟩ |
      ⟨status, next, -, hcall, rfl, heq⟩
    · rw [heq]
      exact (List.append_nil _).symm
    · have hresult : (z.run_on_buffers d.zstd.1 (bytes.drop d.in_pos) buf).result = .error e :=
        hcall
      rw [heq]
      simp only [RawDecoder.receiving, hresult]
      rfl
    · have hresult : (z.run_on_buffers d.zstd.1 (bytes.drop d.in_pos) buf).result = .ok status :=
        hcall
      obtain ⟨buf', r, hretire⟩ := maybeRetire_frame k { d with
        zstd := (z.receiving.run_on_buffers d.zstd (bytes.drop d.in_pos) buf).zstd
        in_pos := d.in_pos + status.bytes_read }
      have hquiet : calls (maybeRetire k { d with
          zstd := (z.receiving.run_on_buffers d.zstd (bytes.drop d.in_pos) buf).zstd
          in_pos := d.in_pos + status.bytes_read }).2 = [] := by
        rcases maybeRetire_events k _ with hnone | ⟨offset, len, hrange⟩
        · rw [hnone]
          rfl
        · rw [hrange]
          rfl
      rw [heq]
      simp only [Retirement.madvise, hretire]
      rw [← List.singleton_append, calls_append, hquiet, List.append_nil]
      simp only [RawDecoder.receiving, hresult]
      rfl

/-- The log of a session reports the calls that zstd receives, and no others: each call with the
input and the room that zstd is given and with its answer. -/
theorem calls_session (reads : List (ℕ × List UInt8)) (d : Decoder σ) :
    calls (session z (.madvise σ k) reads d).events = received z k reads d := by
  -- The session is the same, event for event, without the record.
  have hsame := z.receiving_simulates.session k reads
    ⟨d.buf, d.in_pos, d.retire_pos, (d.zstd, [])⟩
  have hrule := session_rule (z := z.receiving) (R := .madvise _ k)
    (P := fun log d => d.zstd.2 = calls log) (fun _ => True)
    (fun log d fuel buf hd => ⟨by rw [read_received, hd, calls_append], fun _ _ => trivial⟩)
    reads [] ⟨d.buf, d.in_pos, d.retire_pos, (d.zstd, [])⟩ rfl
  have hevents := congrArg Session.events hsame
  unfold received
  rw [hrule.1, List.nil_append]
  exact congrArg calls hevents

end Calls

/-! ## The contract of `io::Read` -/

/-- What a read into a buffer of `len` bytes may leave: a buffer of that length, and a count within
it or an error of the kind `InvalidData`. -/
structure Contract {α : Type} (len : ℕ) (r : Reading α) : Prop where
  buf_length : r.buf.length = len
  ok_le : ∀ n, r.outcome = some (.ok n) → n ≤ len
  err_kind : ∀ e, r.outcome = some (.err e) → e.kind = .invalidData

section Contract

variable {z : RawDecoder σ} (hz : z.Lawful)

include hz

/-- A call on the scratch keeps the contract. -/
theorem feed_contract (state : StreamingState) (zstd : σ) (buf : List UInt8) :
    Contract buf.length (feed z state zstd buf) := by
  cases hslice : slice state.scratch.deref state.scratch_in_pos state.scratch_len with
  | ok input =>
    cases hcall : (z.run_on_buffers zstd input buf).result with
    | error e =>
      rw [feed_error hslice hcall]
      refine ⟨z.buf_length _ _ _, by simp, ?_⟩
      rintro e' ⟨⟩
      rfl
    | ok status =>
      have hle := hz.written_le _ _ _ _ hcall
      rw [feed_ok hslice hcall]
      refine ⟨z.buf_length _ _ _, ?_, ?_⟩
      · intro n hn
        simp only at hn
        split_ifs at hn
        cases hn
        exact hle
      · intro e he
        simp only at he
        split_ifs at he
        cases he
  | err e => exact ⟨by simp only [feed, hslice], by simp [feed, hslice], by simp [feed, hslice]⟩
  | panic => exact ⟨by simp only [feed, hslice], by simp [feed, hslice], by simp [feed, hslice]⟩

/-- The loop of the streaming variant keeps it. -/
theorem readStreaming_contract (R : Retirement σ) (fuel : ℕ) (state : StreamingState) (zstd : σ)
    (buf : List UInt8) : Contract buf.length (readStreaming z R fuel state zstd buf) := by
  have hbody : ∀ state zstd buf,
      Contract (List.length buf) (readStreamingBody z R state zstd buf) := by
    intro state zstd buf
    unfold readStreamingBody
    cases refill R state with
    | eof => exact ⟨rfl, by rintro n ⟨⟩; exact Nat.zero_le _, by rintro e ⟨⟩⟩
    | panic => exact ⟨rfl, by rintro n ⟨⟩, by rintro e ⟨⟩⟩
    | ready state events =>
      obtain ⟨hlen, hok, herr⟩ := feed_contract hz state zstd buf
      exact ⟨hlen, hok, herr⟩
  induction fuel generalizing state zstd buf with
  | zero => exact ⟨rfl, by rintro n ⟨⟩, by rintro e ⟨⟩⟩
  | succ fuel ih =>
    have hturn := hbody state zstd buf
    rw [readStreaming]
    generalize readStreamingBody z R state zstd buf = r at hturn ⊢
    obtain ⟨⟨state', zstd'⟩, buf', outcome, events⟩ := r
    cases outcome with
    | some o => exact hturn
    | none =>
      -- The next iteration gets a buffer of the same length.
      obtain ⟨hlen, hok, herr⟩ := ih state' zstd' buf'
      have hsame : buf'.length = buf.length := hturn.buf_length
      rw [hsame] at hlen hok
      exact ⟨hlen, hok, herr⟩

/-- Every read keeps it. -/
theorem read_contract (R : Retirement σ) (fuel : ℕ) (d : Decoder σ) (buf : List UInt8) :
    Contract buf.length (d.read z R fuel buf) := by
  rcases read_ways z R d fuel buf with ⟨rfl, heq⟩ | ⟨state, -, -, heq⟩ | ⟨bytes, hd, -, heq⟩
  · rw [heq]
    exact ⟨rfl, by rintro n ⟨⟩; exact Nat.zero_le _, by rintro e ⟨⟩⟩
  · obtain ⟨hlen, hok, herr⟩ := readStreaming_contract hz R fuel state d.zstd buf
    rw [heq]
    exact ⟨hlen, hok, herr⟩
  · rw [heq]
    rcases readWhole_ways z R hd buf with ⟨-, heq⟩ | ⟨e, -, -, heq⟩ | ⟨status, d', -, hcall, -, heq⟩
    · rw [heq]
      exact ⟨rfl, by rintro n ⟨⟩, by rintro e ⟨⟩⟩
    · rw [heq]
      refine ⟨z.buf_length _ _ _, by rintro n ⟨⟩, ?_⟩
      rintro e' ⟨⟩
      rfl
    · have hle := hz.written_le _ _ _ _ hcall
      rw [heq]
      refine ⟨z.buf_length _ _ _, ?_, by rintro e ⟨⟩⟩
      rintro n ⟨⟩
      exact hle

end Contract

/-- The contract of `io::Read`, in every session of reads on any variant with a decoder that keeps
its bounds: each read leaves the caller's buffer at its length and returns a count within it, and
every error is of the kind `InvalidData`. -/
theorem session_contract (z : RawDecoder σ) (hz : z.Lawful) (R : Retirement σ)
    (reads : List (ℕ × List UInt8)) (d : Decoder σ) :
    (session z R reads d).results.map (fun r => r.2.length) <+: reads.map (fun r => r.2.length) ∧
      ∀ r ∈ (session z R reads d).results,
        (∀ n, r.1 = some (.ok n) → n ≤ r.2.length) ∧
          ∀ e, r.1 = some (.err e) → e.kind = .invalidData := by
  induction reads generalizing d with
  | nil => exact ⟨List.prefix_rfl, by simp [session]⟩
  | cons read reads ih =>
    obtain ⟨fuel, buf⟩ := read
    obtain ⟨hlen, hok, herr⟩ := read_contract hz R fuel d buf
    obtain ⟨hfront, hlater⟩ := ih (d.read z R fuel buf).state
    obtain ⟨rest, hresults, hrest⟩ := session_results_cons z R fuel buf reads d
    have hfirst : (∀ n, (d.read z R fuel buf).outcome = some (.ok n) →
        n ≤ (d.read z R fuel buf).buf.length) ∧
        ∀ e, (d.read z R fuel buf).outcome = some (.err e) → e.kind = .invalidData :=
      ⟨fun n hn => (hok n hn).trans_eq hlen.symm, herr⟩
    rw [hresults, List.map_cons, List.map_cons, hlen, List.cons_prefix_cons, List.forall_mem_cons]
    rcases hrest with rfl | rfl
    · exact ⟨⟨rfl, List.nil_prefix⟩, hfirst, by simp⟩
    · exact ⟨⟨rfl, hfront⟩, hfirst, hlater⟩

/-- The reference decoder, through a window of four bytes. -/
theorem session_contract_hello :
    let s := session reference (.madvise RefState .file) [(5, [0, 0]), (5, [0, 0, 0])]
      (.new (.streaming (.new ⟨0, encoded [rawFrame hello], by decide⟩ (.scratch 0 [0, 0, 0, 0])))
        (.start [rawFrame hello]))
    s.results.map (fun r => r.2.length) <+: [2, 3] :=
  (session_contract reference reference_lawful (.madvise RefState .file)
    [(5, [0, 0]), (5, [0, 0, 0])] (.new (.streaming (.new ⟨0, encoded [rawFrame hello], by decide⟩
      (.scratch 0 [0, 0, 0, 0]))) (.start [rawFrame hello]))).1

end MmapZstd
