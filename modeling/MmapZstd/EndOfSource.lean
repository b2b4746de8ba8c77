import MmapZstd.Sliding
import MmapZstd.WholeBuffer

/-!
# The end of the source

When the source and the scratch are consumed, the streaming read answers `Ok(0)` without another
call of zstd, while the whole-buffer read calls zstd once more with no input. On an input that ends
inside a frame the two differ when zstd has consumed the input and still holds output for which the
caller's buffer had no room.

`LastCallFits` says of the call that consumes the last byte of the source that its buffer has room
for all that is left of the output. `Counted` follows the calls of a run: the bytes that zstd has
written and those that are in its reach are what the source determines, so zstd holds nothing back
at the end exactly when that call had room. So for each decoder, each window and each schedule of
buffers, the two paths agree exactly when it had (`end_of_source_iff`).

The input alone says when they agree with all decoders, windows and schedules: when the smallest
buffer has room for what the input determines of the frame that it cuts (`same_bytes_for_all_iff`).
-/

namespace MmapZstd

open Frames History

variable {σ : Type}

/-- The bytes that the event reports written. -/
def Event.written : Event → ℕ
  | .call _ _ _ (.ok status) => status.bytes_written
  | _ => 0

/-- The sum of all `bytes_written` reported by successful calls. -/
def produced (log : List Event) : ℕ := (log.map Event.written).sum

@[simp]
theorem produced_nil : produced [] = 0 := rfl

@[simp]
theorem produced_cons (e : Event) (log : List Event) :
    produced (e :: log) = e.written + produced log := by
  simp [produced]

@[simp]
theorem produced_append (log log' : List Event) :
    produced (log ++ log') = produced log + produced log' := by
  simp [produced]

/-- A call that consumes the last of `n` bytes of input has room for what the calls before it have
not written of `total` bytes of output. -/
def LastCallFits (n total : ℕ) (past : List Event) (e : Event) : Prop :=
  ∀ site input room status, e = .call site input room (.ok status) →
    consumed past + status.bytes_read = n → total ≤ produced past + room

/-- zstd holds output: a call without input delivers some. -/
def HoldsOutput (z : RawDecoder σ) (zstd : σ) : Prop :=
  ∃ status, (z.run_on_buffers zstd [] [0]).result = .ok status ∧ 0 < status.bytes_written

/-! ## What the calls have written -/

/-- The events of a refill count for nothing. -/
theorem counts_quiet {events : List Event}
    (h : ∀ e ∈ events, (∃ l r, e = .refill l r) ∨ ∃ offset len, e = .advise offset len)
    (n total : ℕ) : consumed events = 0 ∧ produced events = 0 ∧
      ∀ e ∈ events, ∀ past, LastCallFits n total past e := by
  refine ⟨?_, ?_, ?_⟩
  · rw [consumed, List.sum_eq_zero_iff_forall_eq_nat, List.forall_mem_map]
    intro e he
    rcases h e he with ⟨l, r, rfl⟩ | ⟨offset, len, rfl⟩ <;> rfl
  · rw [produced, List.sum_eq_zero_iff_forall_eq_nat, List.forall_mem_map]
    intro e he
    rcases h e he with ⟨l, r, rfl⟩ | ⟨offset, len, rfl⟩ <;> rfl
  · rintro e he past site input room status rfl
    rcases h _ he with ⟨l, r, hcall⟩ | ⟨offset, len, hcall⟩ <;> cases hcall

/-- The streaming variant after the events of `log`: what zstd has written and what is in its reach
are as much as the source determines; and when the source is consumed, nothing is left in reach
exactly when the last call had room. -/
structure Counted {z : RawDecoder σ} (D : Decoding z) (fs : List ZstdFrame) (src : List UInt8)
    (W : ℕ) (log : List Event) (state : StreamingState) (zstd : σ) : Prop where
  place : StreamAt D fs src W (consumed log) state zstd
  total : produced log + ((D.cursor zstd).reach (src.length - consumed log)).length =
    (decodedBy fs src.length).length
  fits_iff : Always (LastCallFits src.length (decodedBy fs src.length).length) log ↔
    (consumed log = src.length → (D.cursor zstd).reach 0 = [])

section Counted

variable {z : RawDecoder σ} {D : Decoding z} {fs : List ZstdFrame} {src : List UInt8} {W : ℕ}
  {log : List Event} {state : StreamingState} {zstd : σ}

/-- At the start nothing is written. -/
theorem Counted.new (m : Mmap) (ptr : ℕ) (mem : List UInt8) (hs : D.cursor zstd = Cursor.start fs)
    (hstalls : D.stalls zstd = 0) :
    Counted D fs m.bytes mem.length [] (.new m (.scratch ptr mem)) zstd := by
  refine ⟨⟨.new m ptr mem, ?_, ?_, hstalls⟩, ?_, ?_⟩
  · simp [hs]
  · simp [hs, Cursor.start]
  · simp [hs]
  · simp [hs]

/-- A refill's events keep the counts, over a window with the same bytes consumed. -/
theorem Counted.quiet (h : Counted D fs src W log state zstd) {state' : StreamingState}
    (hplace : StreamAt D fs src W (consumed log) state' zstd) {events : List Event}
    (hevents : ∀ e ∈ events, (∃ l r, e = .refill l r) ∨ ∃ offset len, e = .advise offset len) :
    Counted D fs src W (log ++ events) state' zstd := by
  obtain ⟨hread, hwritten, hfits⟩ :=
    counts_quiet hevents src.length (decodedBy fs src.length).length
  have hconsumed : consumed (log ++ events) = consumed log := by
    rw [consumed_append, hread, Nat.add_zero]
  have hproduced : produced (log ++ events) = produced log := by
    rw [produced_append, hwritten, Nat.add_zero]
  refine ⟨hconsumed ▸ hplace, ?_, ?_⟩
  · rw [hconsumed, hproduced, h.total]
  · rw [hconsumed, always_append_iff hfits, h.fits_iff]

/-- A call of zstd keeps the counts. If it consumes the last byte of the source, it leaves nothing
in reach exactly when it has room. -/
theorem Counted.feed (h : Counted D fs src W log state zstd) (hsrc : src <+: encoded fs)
    (hlt : state.scratch_in_pos < state.scratch_len) {buf : List UInt8} (hbuf : buf ≠ []) :
    Counted D fs src W (log ++ (feed z state zstd buf).events) (feed z state zstd buf).state.1
      (feed z state zstd buf).state.2 := by
  have hpos := h.place.window.positions
  have hin := hpos.consumed
  have hle := hpos.src_pos_le
  obtain ⟨status, state', zstd', buf', events, hfeed, hplace, -, hlen, hw, -, hc, hreach, hadv,
    input, rfl⟩ := h.place.feed hsrc (keptByCalls_true D src.length W) trivial hlt hbuf trivial
  have htotal := h.total
  have hbefore : Always (LastCallFits src.length (decodedBy fs src.length).length) log :=
    h.fits_iff.mpr fun hend => by omega
  have hconsumed : consumed (log ++ [.call (.streaming state) input buf.length (.ok status)]) =
      consumed log + status.bytes_read := by
    simp [Event.read]
  have hlast : LastCallFits src.length (decodedBy fs src.length).length log
      (.call (.streaming state) input buf.length (.ok status)) ↔
        (consumed log + status.bytes_read = src.length → (D.cursor zstd').reach 0 = []) := by
    have hlast_iff : consumed log + status.bytes_read = src.length →
        ((D.cursor zstd').reach 0 = [] ↔
          (decodedBy fs src.length).length ≤ produced log + buf.length) := by
      intro hend
      have hread : status.bytes_read = src.length - consumed log := by omega
      rw [hread] at hadv
      rw [hadv.reach_last (by omega)]
      omega
    constructor
    · intro hfits hend
      exact (hlast_iff hend).mpr (hfits _ _ _ _ rfl hend)
    · rintro hnone site input' room status' ⟨⟩ hend
      exact (hlast_iff hend).mp (hnone hend)
  rw [hfeed]
  refine ⟨hconsumed ▸ hplace, ?_, ?_⟩
  · have hlength := congrArg List.length hreach
    rw [List.length_append, List.length_take, hlen, Nat.min_eq_left hw] at hlength
    rw [hconsumed, produced_append]
    simp only [produced_cons, produced_nil, Event.written]
    omega
  · rw [always_concat, hconsumed, ← hlast]
    exact and_iff_right hbefore

/-- So does an iteration of the loop. -/
theorem Counted.body (h : Counted D fs src W log state zstd) (hsrc : src <+: encoded fs)
    (hW : 0 < W) {buf : List UInt8} (hbuf : buf ≠ []) :
    Counted D fs src W (log ++ (readStreamingBody z (.madvise σ .file) state zstd buf).events)
      (readStreamingBody z (.madvise σ .file) state zstd buf).state.1
      (readStreamingBody z (.madvise σ .file) state zstd buf).state.2 := by
  obtain ⟨hwindow, hbytes, howed, hstalls⟩ := h.place
  rcases hwindow.refill (σ := σ) hW with ⟨heq, -⟩ | ⟨state', events, heq, hwindow', hlt, hkeeps,
    hevents⟩
  · simpa only [readStreamingBody, heq, List.append_nil] using h
  · have h' := h.quiet ⟨hwindow', hbytes, howed.trans hkeeps, hstalls⟩ hevents
    simp only [readStreamingBody, heq, Reading.after, ← List.append_assoc]
    exact h'.feed hsrc hlt hbuf

/-- So does a read. -/
theorem Counted.read (hsrc : src <+: encoded fs) (hW : 0 < W) {d : Decoder σ}
    (hd : d.buf = .streaming state) (h : Counted D fs src W log state d.zstd) (fuel : ℕ)
    {buf : List UInt8} (hbuf : buf ≠ []) :
    ∃ state', (d.read z (.madvise σ .file) fuel buf).state.buf = .streaming state' ∧
      Counted D fs src W (log ++ (d.read z (.madvise σ .file) fuel buf).events) state'
        (d.read z (.madvise σ .file) fuel buf).state.zstd := by
  rw [read_streaming hd hbuf]
  have hloop := readStreaming_rule (z := z) (R := .madvise σ .file) (Q := Counted D fs src W)
    (fun _ => True) (fun log state zstd buf hbuf h => ⟨h.body hsrc hW hbuf, fun _ _ => trivial⟩)
    fuel log state d.zstd hbuf h
  exact ⟨_, rfl, hloop.1⟩

/-- When the source and the scratch are exhausted, zstd holds output exactly when some is in its
reach. -/
theorem StreamAt.holdsOutput_iff {c : ℕ} (h : StreamAt D fs src W c state zstd)
    (hsrc : src <+: encoded fs) (hend : c = src.length)
    (hempty : state.scratch_in_pos = state.scratch_len) :
    HoldsOutput z zstd ↔ (D.cursor zstd).reach 0 ≠ [] := by
  have howed : (D.cursor zstd).owed ≤ ([] : List UInt8).length := by
    have := h.owed_le
    rw [List.length_nil]
    omega
  have hroom : ([0] : List UInt8) ≠ [] := List.cons_ne_nil _ _
  obtain ⟨status, hcall, hadv, -, hreach, -⟩ := D.call hsrc h.bytes_eq List.nil_prefix howed hroom
    (by rw [h.stalls]; decide)
  have hread : status.bytes_read = 0 := Nat.le_zero.mp hadv.read_le
  have hwritten := hadv.written_le
  rw [hend, hread, Nat.add_zero, Nat.sub_self] at hreach
  rw [hread] at hadv
  constructor
  · rintro ⟨status', hcall', hpos⟩
    obtain rfl : status = status' := Except.ok.inj (hcall.symm.trans hcall')
    apply List.ne_nil_of_length_pos
    rw [hreach, List.length_append, List.length_take, z.buf_length]
    omega
  · intro hne
    refine ⟨status, hcall, Nat.pos_of_ne_zero fun hzero => hne ?_⟩
    -- A call that makes no progress has left nothing in reach.
    rw [hzero] at hadv hreach
    rw [hreach, (hadv.stalled Nat.one_pos).2]
    rfl

end Counted

/-- A run of the streaming variant ends with `Ok(0)`. Then zstd holds output, and not all that the
source determines is delivered, unless the call that consumed the last byte of the source had
room. -/
theorem streaming_ends {z : RawDecoder σ} {fs : List ZstdFrame} {src : Mmap}
    (hsrc : src.bytes <+: encoded fs) {zstd : σ} (hz : Decodes z zstd fs) (ptr : ℕ)
    {mem : List UInt8} (hW : 0 < mem.length) {bufs : ℕ → List UInt8} (hbufs : ∀ i, bufs i ≠ []) :
    DrainsTo z (.madvise σ .file) (.new (.streaming (.new src (.scratch ptr mem))) zstd) bufs
      fun r => r.last = .ok 0 ∧
        (r.delivered = decodedBy fs src.len ↔
          Always (LastCallFits src.len (decodedBy fs src.len).length) r.events) ∧
        (¬ HoldsOutput z r.decoder.zstd ↔
          Always (LastCallFits src.len (decodedBy fs src.len).length) r.events) := by
  obtain ⟨D, hs, hstalls⟩ := hz
  have hstart : ∃ state,
      (Decoder.new (.streaming (.new src (.scratch ptr mem))) zstd).buf = .streaming state ∧
        Counted D fs src.bytes mem.length [] state zstd :=
    ⟨_, rfl, .new src ptr mem hs hstalls⟩
  have hrun := (streaming_drains D src hsrc ptr hW (keptByCalls_true D _ _) hs hstalls trivial hbufs
    fun _ => trivial).invariant (fun buf => buf ≠ [])
    (P := fun log d => ∃ state, d.buf = .streaming state ∧
      Counted D fs src.bytes mem.length log state d.zstd)
    (fun log d fuel buf h hbuf => by
      obtain ⟨state, hd, hcounted⟩ := h
      exact hcounted.read hsrc hW hd fuel hbuf) hbufs hstart
  refine hrun.mono ?_
  rintro r ⟨⟨hlast, rest, htotal, ⟨state, hd, hpos, hempty⟩, -, -, hrest⟩, state', hd', hcounted⟩
  obtain rfl : state = state' := DecoderBuf.streaming.inj (hd.symm.trans hd')
  have hend : consumed r.events = src.bytes.length := by
    have := hcounted.place.window.positions.consumed
    omega
  have hfits : Always (LastCallFits src.len (decodedBy fs src.len).length) r.events ↔
      rest = [] := by
    rw [hrest]
    exact hcounted.fits_iff.trans ⟨fun h => h hend, fun h _ => h⟩
  refine ⟨hlast, ?_, ?_⟩
  · rw [hfits, htotal]
    exact List.self_eq_append_right
  · rw [hfits, hrest, hcounted.place.holdsOutput_iff hsrc hend hempty, not_not]

/-! ## Agreement -/

/-- Two decoders deliver the same bytes before their first `Ok(0)`. -/
def SameBytes (z : RawDecoder σ) (d d' : Decoder σ) (bufs : ℕ → List UInt8) : Prop :=
  ∃ bytes, DrainsTo z (.madvise σ .file) d bufs (fun r => r.last = .ok 0 ∧ r.delivered = bytes) ∧
    DrainsTo z (.madvise σ .file) d' bufs fun r => r.last = .ok 0 ∧ r.delivered = bytes

/-- A whole-buffer decoder delivers all that its buffer determines, when every frame has content. -/
theorem whole_delivers {z : RawDecoder σ} {fs : List ZstdFrame} (hfs : ∀ f ∈ fs, f.content ≠ [])
    {src : List UInt8} (hsrc : src <+: encoded fs) (buf : DecoderBuf) (hbuf : buf.deref = .ok src)
    {zstd : σ} (hz : DecodesEagerly z zstd fs) (bufs : ℕ → List UInt8)
    (hbufs : ∀ i, bufs i ≠ []) :
    DrainsTo z (.madvise σ .file) (.new buf zstd) bufs fun r =>
      r.last = .ok 0 ∧ r.delivered = decodedBy fs src.length := by
  obtain ⟨D, heager, hs, hstalls⟩ := hz
  have hrun := whole_drains (D := D)
    (Y := fun c left => c.Unfinished left ∧ ∀ f ∈ c.frames, f.content ≠ []) hsrc
    (fun s s' left room remaining read written hy _ hadv =>
      ⟨hadv.unfinished (heager s'), fun f hf => hy.2 f (hadv.frames_suffix.subset hf)⟩)
    (.new hbuf hs) hstalls ⟨hs ▸ Cursor.start_unfinished fs _, hs ▸ hfs⟩ hbufs
  refine hrun.mono ?_
  rintro r ⟨hlast, rest, htotal, -, hrest, c, left, room, remaining, read, ⟨hunfinished, hcontent⟩,
    hroom, hadv, hleft⟩
  -- The call without output met no frame without content, as there is none.
  have hempty : rest = [] := by
    rcases hadv.silent hroom hunfinished with ⟨f, rest', hf, hnone, -⟩ | hreach
    · exact absurd hnone (hcontent f (by simp [hf]))
    · rw [hrest, WholeAt.rest, ← hleft, hreach]
  rw [hempty, List.append_nil, WholeAt.rest] at htotal
  refine ⟨hlast, htotal.symm.trans ?_⟩
  simp [Decoder.new, hs]

/-- For each decoder, each window and each schedule of buffers, the streaming variant agrees with
the whole-buffer variant up to the end of an input of frames with content, cut at any byte, exactly
when the call that consumes the last byte of the source has room for all that the source determines
and that is not delivered before. In the same case, and in no other, zstd holds no output when the
streaming variant stops. -/
theorem end_of_source_iff (z : RawDecoder σ) (fs : List ZstdFrame)
    (hfs : ∀ f ∈ fs, f.content ≠ []) (src : Mmap) (hsrc : src.bytes <+: encoded fs)
    (buf : DecoderBuf) (hbuf : buf.deref = .ok src.bytes) (zstd : σ)
    (hz : DecodesEagerly z zstd fs) (ptr : ℕ) (mem : List UInt8) (hW : 0 < mem.length)
    (bufs : ℕ → List UInt8) (hbufs : ∀ i, bufs i ≠ []) :
    let d := Decoder.new (.streaming (.new src (.scratch ptr mem))) zstd
    let fits := DrainsTo z (.madvise σ .file) d bufs fun r =>
      Always (LastCallFits src.len (decodedBy fs src.len).length) r.events
    (SameBytes z d (.new buf zstd) bufs ↔ fits) ∧
      (DrainsTo z (.madvise σ .file) d bufs (fun r => ¬ HoldsOutput z r.decoder.zstd) ↔ fits) := by
  intro d fits
  have hstream := streaming_ends hsrc hz.decodes ptr hW hbufs
  have hwhole := whole_delivers hfs hsrc buf hbuf hz bufs hbufs
  refine ⟨⟨?_, ?_⟩, ?_, ?_⟩
  · -- The whole-buffer variant delivers all that the source determines.
    rintro ⟨bytes, hsame, hsame'⟩
    obtain ⟨r', ⟨-, hbytes⟩, -, hall⟩ := (hsame'.and hwhole).exists
    refine (hsame.and hstream).mono ?_
    rintro r ⟨⟨-, hdelivered⟩, -, hfits, -⟩
    exact hfits.mp (hdelivered.trans (hbytes.symm.trans hall))
  · intro hfits
    refine ⟨_, (hfits.and hstream).mono ?_, hwhole⟩
    rintro r ⟨hroom, hlast, hdelivered, -⟩
    exact ⟨hlast, hdelivered.mpr hroom⟩
  · intro hnone
    refine (hnone.and hstream).mono ?_
    rintro r ⟨hholds, -, -, hfits⟩
    exact hfits.mp hholds
  · intro hfits
    refine (hfits.and hstream).mono ?_
    rintro r ⟨hroom, -, -, hholds⟩
    exact hholds.mpr hroom

/-- The first twelve bytes of the frame, with a buffer of three bytes and then buffers of one: the
first call consumes all of them and has room for the three bytes that they determine. -/
theorem end_of_source_hello :
    SameBytes reference (.new (.streaming (.new ⟨0, (rawFrame hello).bytes.take 12, by decide⟩
      (.scratch 0 (.replicate 16 0)))) (.start [rawFrame hello]))
      (.new (.slice ((rawFrame hello).bytes.take 12)) (.start [rawFrame hello]))
      (fun i => if i = 0 then [0, 0, 0] else [0]) := by
  refine (end_of_source_iff reference [rawFrame hello] (by simp [rawFrame, hello])
    ⟨0, (rawFrame hello).bytes.take 12, by decide⟩ ⟨[0x6C, 0x6F], rfl⟩
    (.slice ((rawFrame hello).bytes.take 12)) rfl (.start [rawFrame hello]) (reference_decodes _) 0
    (.replicate 16 0) (by decide) _ (fun i => by split_ifs <;> simp)).1.mpr
    ⟨2, fun fuel hfuel => ?_⟩
  obtain ⟨k, rfl⟩ : ∃ k, fuel = k + 3 := ⟨fuel - 3, by omega⟩
  -- A refill and a call, which has room; the second read makes no call.
  refine ⟨⟨[0x68, 0x65, 0x6C], .ok 0, _, [] ++ [.refill _ _] ++ [.call _ _ 3 (.ok ⟨1, 12, 3⟩)]⟩,
    rfl, always_concat.mpr ⟨always_concat.mpr ⟨always_nil, ?_⟩, ?_⟩⟩
  · rintro _ _ _ _ ⟨⟩
  · rintro _ _ _ _ ⟨⟩ -
    decide

/-- With a scratch that holds the whole source and buffers too small for what the source determines
of the cut frame, the streaming variant over the reference decoder stops with output pending. -/
theorem streaming_withholds {fs : List ZstdFrame} (src : Mmap) (hsrc : src.bytes <+: encoded fs)
    {room : ℕ} (hpos : 0 < room) (hcut : room < cutSize fs src.len) (ptr : ℕ) (mem : List UInt8)
    (hW : 0 < mem.length) (hmem : src.len ≤ mem.length) (bufs : ℕ → List UInt8)
    (hbufs : ∀ i, (bufs i).length = room) :
    DrainsTo reference (.madvise RefState .file)
      (.new (.streaming (.new src (.scratch ptr mem))) (.start fs)) bufs
      fun r => r.last = .ok 0 ∧ r.delivered ≠ decodedBy fs src.len := by
  have hkept : KeptByCalls referenceDecoding src.len mem.length (fun n => n = room)
      fun s left => s.cursor.Withholds left ∧ s.cursor.cut left = cutSize fs src.len := by
    rintro s input buf status left ⟨hwithholds, hcuts⟩ hroom hinput hleft honce hresult hadv
    have hall := honce hmem
    refine ⟨?_, (hadv.cut_eq hleft).trans hcuts⟩
    have hgreedy := greedy_withholds s.cursor hwithholds (by omega) (hcuts ▸ hcut)
    rwa [reference_cursor, reference_read hresult, hall, hroom]
  have hlen : 0 < src.len := by
    rcases Nat.eq_zero_or_pos src.len with h0 | hlen
    · rw [h0, cutSize_zero] at hcut
      omega
    · exact hlen
  have hs : referenceDecoding.cursor (.start fs) = Cursor.start fs := rfl
  have hrun := streaming_drains referenceDecoding src hsrc ptr hW hkept hs rfl
    ⟨Cursor.start_withholds fs hlen, Cursor.cut_start fs src.len⟩
    (fun i => List.ne_nil_of_length_pos (by rw [hbufs i]; exact hpos)) hbufs
  refine hrun.mono ?_
  rintro r ⟨hlast, rest, htotal, -, -, ⟨hwithholds, -⟩, hrest⟩
  refine ⟨hlast, fun hdelivered => ?_⟩
  -- What is pending is not empty, so what was delivered is not everything.
  unfold Cursor.Withholds at hwithholds
  rw [if_pos rfl] at hwithholds
  rw [hdelivered, List.self_eq_append_right, hrest] at htotal
  exact hwithholds htotal

/-- With buffers of one byte, the streaming variant drops two bytes that the whole-buffer variant
delivers. -/
theorem end_of_source_drops :
    ¬ SameBytes reference (.new (.streaming (.new ⟨0, (rawFrame hello).bytes.take 12, by decide⟩
        (.scratch 0 (.replicate hugepage 0)))) (.start [rawFrame hello]))
        (.new (.slice ((rawFrame hello).bytes.take 12)) (.start [rawFrame hello]))
        (fun _ => [0]) := by
  rintro ⟨bytes, hstream, hwhole⟩
  have hsrc : (rawFrame hello).bytes.take 12 <+: encoded [rawFrame hello] := ⟨[0x6C, 0x6F], rfl⟩
  have hcut : 1 < cutSize [rawFrame hello] 12 := by decide
  have hstream' := streaming_withholds ⟨0, (rawFrame hello).bytes.take 12, by decide⟩ hsrc
    Nat.one_pos hcut 0 (.replicate hugepage 0) (by rw [List.length_replicate]; decide)
    (by rw [List.length_replicate]; decide) (fun _ => [0]) fun _ => rfl
  have hwhole' := whole_delivers (by simp [rawFrame, hello]) hsrc
    (.slice ((rawFrame hello).bytes.take 12)) rfl (reference_decodes [rawFrame hello])
    (fun _ => [0]) (by simp)
  obtain ⟨r, ⟨-, hr⟩, -, hne⟩ := (hstream.and hstream').exists
  obtain ⟨r', ⟨-, hr'⟩, -, heq⟩ := (hwhole.and hwhole').exists
  exact hne (hr.trans (hr'.symm.trans heq))

/-! ## Agreement with all decoders, windows and schedules -/

/-- The streaming variant delivers all that its source determines, when the buffers have room for
what it determines of the cut frame. -/
theorem streaming_delivers {z : RawDecoder σ} {fs : List ZstdFrame} {src : Mmap}
    (hsrc : src.bytes <+: encoded fs) {zstd : σ} (hz : Decodes z zstd fs) (ptr : ℕ)
    {mem : List UInt8} (hW : 0 < mem.length) {bufs : ℕ → List UInt8} (hbufs : ∀ i, bufs i ≠ [])
    (hroom : ∀ i, cutSize fs src.len ≤ (bufs i).length) :
    DrainsTo z (.madvise σ .file) (.new (.streaming (.new src (.scratch ptr mem))) zstd) bufs
      fun r => r.last = .ok 0 ∧ r.delivered = decodedBy fs src.len := by
  obtain ⟨D, hs, hstalls⟩ := hz
  have hkept : KeptByCalls D src.len mem.length (fun n => cutSize fs src.len ≤ n) fun s left =>
      (D.cursor s).Flushed left ∧ (D.cursor s).cut left = cutSize fs src.len := by
    rintro s input buf status left ⟨-, hcut⟩ hroom - hleft - - hadv
    exact ⟨hadv.flushed hleft (hcut ▸ hroom), (hadv.cut_eq hleft).trans hcut⟩
  have hrun := streaming_drains D src hsrc ptr hW hkept hs hstalls
    ⟨hs ▸ Cursor.start_flushed fs _, by simp [hs]⟩ hbufs hroom
  refine hrun.mono ?_
  rintro r ⟨hlast, rest, htotal, -, -, ⟨hflushed, -⟩, hrest⟩
  rw [hrest, hflushed.reach_eq, List.append_nil] at htotal
  exact ⟨hlast, htotal.symm⟩

/-- The streaming variant agrees with the whole-buffer variant up to the end of an input of frames
with content, cut at any byte, with every decoder, every window and every schedule of buffers of at
least `room` bytes, exactly when `room` is enough for what the input determines of the frame that it
cuts. -/
theorem same_bytes_for_all_iff (fs : List ZstdFrame) (hfs : ∀ f ∈ fs, f.content ≠ []) (src : Mmap)
    (hsrc : src.bytes <+: encoded fs) (buf : DecoderBuf) (hbuf : buf.deref = .ok src.bytes)
    {room : ℕ} (hroom : 0 < room) :
    (∀ (σ : Type) (z : RawDecoder σ) (zstd : σ), DecodesEagerly z zstd fs →
        ∀ (ptr : ℕ) (mem : List UInt8), hugepage ∣ mem.length → 0 < mem.length →
          ∀ bufs : ℕ → List UInt8, (∀ i, room ≤ (bufs i).length) →
            SameBytes z (.new (.streaming (.new src (.scratch ptr mem))) zstd) (.new buf zstd)
              bufs) ↔
      cutSize fs src.len ≤ room := by
  constructor
  · intro hsame
    by_contra hcut
    -- A scratch for the whole source, and buffers that are all of the smallest size.
    let mem : List UInt8 := List.replicate (Align.up hugepage (src.len + 1)) 0
    have hmem : mem.length = Align.up hugepage (src.len + 1) := List.length_replicate
    have hle := Align.le_up (a := hugepage) (by decide) (src.len + 1)
    let bufs : ℕ → List UInt8 := fun _ => List.replicate room 0
    have hbufs : ∀ i, (bufs i).length = room := fun _ => List.length_replicate
    obtain ⟨bytes, hstream, hwhole⟩ := hsame RefState reference (.start fs) (reference_decodes fs) 0
      mem (hmem ▸ Align.dvd_up _ _) (by omega) bufs fun i => (hbufs i).ge
    have hstream' := streaming_withholds src hsrc hroom (by omega) 0 mem (by omega) (by omega) bufs
      hbufs
    have hwhole' := whole_delivers hfs hsrc buf hbuf (reference_decodes fs) bufs fun i =>
      List.ne_nil_of_length_pos (by rw [hbufs i]; exact hroom)
    obtain ⟨r, ⟨-, hr⟩, -, hne⟩ := (hstream.and hstream').exists
    obtain ⟨r', ⟨-, hr'⟩, -, heq⟩ := (hwhole.and hwhole').exists
    exact hne (hr.trans (hr'.symm.trans heq))
  · intro hcut σ z zstd hz ptr mem _ hW bufs hbufs
    have hne : ∀ i, bufs i ≠ [] := fun i => List.ne_nil_of_length_pos (by
      have := hbufs i
      omega)
    exact ⟨_, streaming_delivers hsrc hz.decodes ptr hW hne fun i => hcut.trans (hbufs i),
      whole_delivers hfs hsrc buf hbuf hz bufs hne⟩

/-- The first twelve bytes of the frame determine three bytes, so buffers of three bytes are
enough. -/
theorem same_bytes_for_all_hello :
    SameBytes reference (.new (.streaming (.new ⟨0, (rawFrame hello).bytes.take 12, by decide⟩
      (.scratch 0 (.replicate hugepage 0)))) (.start [rawFrame hello]))
      (.new (.slice ((rawFrame hello).bytes.take 12)) (.start [rawFrame hello]))
      (fun _ => [0, 0, 0]) :=
  (same_bytes_for_all_iff [rawFrame hello] (by simp [rawFrame, hello])
    ⟨0, (rawFrame hello).bytes.take 12, by decide⟩ ⟨[0x6C, 0x6F], rfl⟩
    (.slice ((rawFrame hello).bytes.take 12)) rfl (by decide)).mpr (by decide) RefState reference
    (.start [rawFrame hello]) (reference_decodes _) 0 (.replicate hugepage 0)
    (by rw [List.length_replicate]) (by rw [List.length_replicate]; decide) (fun _ => [0, 0, 0])
    (fun _ => le_rfl)

end MmapZstd
