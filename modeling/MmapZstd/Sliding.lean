import MmapZstd.Drain
import MmapZstd.Window

/-!
# Reading through the scratch window

`StreamAt` ties the scratch window to zstd's place in the stream: what zstd has consumed of the
stream is what the window says is consumed of the source, and the window still holds what zstd left
unread. `readStreaming_spec` says what one read does, and `streaming_drains` follows a run to its
end: the run stops when the source is exhausted, and what it has delivered is the front of what the
source determines.

For a source that is a whole stream, everything is delivered by then (`streaming_decodes`), since a
frame's last byte is consumed by a call that has delivered its content.
-/

namespace MmapZstd

open Frames

variable {σ : Type} {z : RawDecoder σ}

/-- The streaming variant over `src`, a prefix of the stream `fs`, when `c` bytes are consumed. -/
structure StreamAt (D : Decoding z) (fs : List ZstdFrame) (src : List UInt8) (W c : ℕ)
    (state : StreamingState) (zstd : σ) : Prop where
  window : Window src W c state
  bytes_eq : (D.cursor zstd).bytes = (encoded fs).drop c
  owed_le : (D.cursor zstd).owed ≤ state.scratch_len - state.scratch_in_pos
  stalls : D.stalls zstd = 0

/-- A property of zstd's state and of the input left that the calls of a run keep. A call is offered
some of the input that is left, and all of it when the scratch holds the whole source. -/
def KeptByCalls (D : Decoding z) (n W : ℕ) (Room : ℕ → Prop) (X : σ → ℕ → Prop) : Prop :=
  ∀ s input buf status left, X s left → Room buf.length → 0 < input.length →
    input.length ≤ left → (n ≤ W → input.length = left) →
    (z.run_on_buffers s input buf).result = .ok status →
    Advance (D.cursor s) input.length buf.length status.remaining status.bytes_read
      status.bytes_written (D.cursor (z.run_on_buffers s input buf).zstd) →
    X (z.run_on_buffers s input buf).zstd (left - status.bytes_read)

/-- The property that holds of everything is kept. -/
theorem keptByCalls_true (D : Decoding z) (n W : ℕ) :
    KeptByCalls D n W (fun _ => True) fun _ _ => True :=
  fun _ _ _ _ _ _ _ _ _ _ _ _ => trivial

section Loop

variable {D : Decoding z} {fs : List ZstdFrame} {src : List UInt8} {W : ℕ} {Room : ℕ → Prop}
  {X : σ → ℕ → Prop}

/-- A call of zstd on a window that is not empty. -/
theorem StreamAt.feed (hsrc : src <+: encoded fs) (hX : KeptByCalls D src.length W Room X) {c : ℕ}
    {state : StreamingState} {zstd : σ} (h : StreamAt D fs src W c state zstd)
    (hx : X zstd (src.length - c)) (hlt : state.scratch_in_pos < state.scratch_len)
    {buf : List UInt8} (hbuf : buf ≠ []) (hroom : Room buf.length) :
    ∃ (status : Status) (state' : StreamingState) (zstd' : σ) (buf' : List UInt8)
      (events : List Event), feed z state zstd buf = ⟨(state', zstd'), buf',
        if status.bytes_written > 0 then some (.ok status.bytes_written) else none, events⟩ ∧
      StreamAt D fs src W (c + status.bytes_read) state' zstd' ∧
      X zstd' (src.length - (c + status.bytes_read)) ∧ buf'.length = buf.length ∧
      status.bytes_written ≤ buf.length ∧ (0 < status.bytes_read ∨ 0 < status.bytes_written) ∧
      c + status.bytes_read ≤ src.length ∧
      (D.cursor zstd).reach (src.length - c) = buf'.take status.bytes_written ++
        (D.cursor zstd').reach (src.length - (c + status.bytes_read)) ∧
      Advance (D.cursor zstd) (state.scratch_len - state.scratch_in_pos) buf.length
        status.remaining status.bytes_read status.bytes_written (D.cursor zstd') ∧
      ∃ input, events = [.call (.streaming state) input buf.length (.ok status)] := by
  obtain ⟨hwindow, hbytes, howed, hstalls⟩ := h
  obtain ⟨hoffer, hlen⟩ := hwindow.offer
  have hslice := hwindow.positions.slice_eq
  rw [hwindow.holds] at hslice
  have hconsumed := hwindow.positions.consumed
  have hle := hwindow.positions.src_pos_le
  have honce := hwindow.positions.once
  have hpos := List.length_pos_of_ne_nil hbuf
  obtain ⟨status, hcall, hadv, hbytes', hreach, hstalls'⟩ :=
    D.call hsrc hbytes hoffer (howed.trans_eq hlen.symm) hbuf (by rw [hstalls]; decide)
  have hread := hadv.read_le
  have howed' := hadv.owed_le
  have hprogress := hadv.progress (by omega) hpos
  have hx' := hX _ _ _ status _ hx hroom (by omega) (by omega) (by omega) hcall hadv
  rw [Nat.sub_sub] at hx'
  refine ⟨status, _, _, _, _, feed_ok hslice hcall, ⟨?_, hbytes', ?_, ?_⟩, hx', z.buf_length _ _ _,
    hadv.written_le, hprogress, by omega, hreach, hlen ▸ hadv, _, rfl⟩
  · exact hwindow.advance (by omega)
  · simp only
    omega
  · rw [if_neg (by omega)] at hstalls'
    omega

/-- One read: it ends with output, from the front of the content still to come, or at the end of
the source. Every iteration of its loop without output consumes input, so the loop ends. -/
theorem readStreaming_spec (hsrc : src <+: encoded fs) (hX : KeptByCalls D src.length W Room X)
    (hW : 0 < W) {c fuel : ℕ} {state : StreamingState} {zstd : σ}
    (h : StreamAt D fs src W c state zstd) (hx : X zstd (src.length - c)) {buf : List UInt8}
    (hbuf : buf ≠ []) (hroom : Room buf.length) (hfuel : src.length - c < fuel) :
    ∃ (state' : StreamingState) (zstd' : σ) (buf' : List UInt8) (c' written : ℕ)
      (events : List Event), readStreaming z (.madvise σ .file) fuel state zstd buf =
        ⟨(state', zstd'), buf', some (.ok written), events⟩ ∧
      StreamAt D fs src W c' state' zstd' ∧ X zstd' (src.length - c') ∧
      buf'.length = buf.length ∧ written ≤ buf.length ∧ c ≤ c' ∧
      (D.cursor zstd).reach (src.length - c) =
        buf'.take written ++ (D.cursor zstd').reach (src.length - c') ∧
      (written = 0 → c' = src.length ∧ state'.src_pos = src.length ∧
        state'.scratch_in_pos = state'.scratch_len) := by
  -- On the bound of the loop, which is more than what is left of the source.
  induction fuel generalizing c state zstd buf with
  | zero => omega
  | succ fuel ih =>
    rcases h.window.refill (σ := σ) hW with
      ⟨heq, hc, hempty, hend⟩ | ⟨state₁, events₁, heq, hwindow, hlt, hkeeps, -⟩
    · refine ⟨state, zstd, buf, c, 0, [], ?_, h, hx, rfl, Nat.zero_le _, le_rfl, by simp,
        fun _ => ⟨hc, hend, hempty⟩⟩
      simp only [readStreaming, readStreamingBody, heq]
    · have h₁ : StreamAt D fs src W c state₁ zstd :=
        ⟨hwindow, h.bytes_eq, h.owed_le.trans hkeeps, h.stalls⟩
      obtain ⟨status, state₂, zstd₂, buf₂, events₂, hfeed, h₂, hx₂, hlen, hw, hprogress, hc,
        hreach, -⟩ := h₁.feed hsrc hX hx hlt hbuf hroom
      by_cases hpos : status.bytes_written > 0
      · refine ⟨state₂, zstd₂, buf₂, c + status.bytes_read, status.bytes_written,
          events₁ ++ events₂, ?_, h₂, hx₂, hlen, hw, Nat.le_add_right _ _, hreach, by omega⟩
        simp only [readStreaming, readStreamingBody, heq, hfeed, Reading.after, if_pos hpos]
      · -- No output: the loop goes on with less input left.
        have hzero : status.bytes_written = 0 := by omega
        obtain ⟨state', zstd', buf', c', written, events, hrun, h', hx', hlen', hw', hle, hreach',
          hend⟩ := ih h₂ hx₂ (List.ne_nil_of_length_pos (by
            have := List.length_pos_of_ne_nil hbuf
            omega)) (hlen ▸ hroom) (by omega)
        refine ⟨state', zstd', buf', c', written, events₁ ++ events₂ ++ events, ?_, h', hx',
          hlen'.trans hlen, by omega, by omega, ?_, hend⟩
        · simp only [readStreaming, readStreamingBody, heq, hfeed, Reading.after, if_neg hpos, hrun]
        · rw [hreach, hzero, List.take_zero, List.nil_append, hreach']

/-- Where a run through the scratch window stops: at the end of the source. -/
structure StreamStop (D : Decoding z) (fs : List ZstdFrame) (src : List UInt8) (X : σ → ℕ → Prop)
    (d : Decoder σ) (rest : List UInt8) : Prop where
  state : ∃ state, d.buf = .streaming state ∧ state.src_pos = src.length ∧
    state.scratch_in_pos = state.scratch_len
  bytes_eq : (D.cursor d.zstd).bytes = (encoded fs).drop src.length
  kept : X d.zstd 0
  rest_eq : rest = (D.cursor d.zstd).reach 0

end Loop

/-- A run through the scratch window ends with `Ok(0)` at the end of the source, for any window. -/
theorem streaming_drains (D : Decoding z) {fs : List ZstdFrame} (src : Mmap)
    (hsrc : src.bytes <+: encoded fs) (ptr : ℕ) {mem : List UInt8} (hW : 0 < mem.length)
    {Room : ℕ → Prop} {X : σ → ℕ → Prop} (hX : KeptByCalls D src.len mem.length Room X) {zstd : σ}
    (hs : D.cursor zstd = Cursor.start fs) (hstalls : D.stalls zstd = 0) (hx : X zstd src.len)
    {bufs : ℕ → List UInt8} (hbufs : ∀ i, bufs i ≠ []) (hroom : ∀ i, Room (bufs i).length) :
    DrainsTo z (.madvise σ .file) (.new (.streaming (.new src (.scratch ptr mem))) zstd) bufs
      fun r => r.last = .ok 0 ∧ ∃ rest, decodedBy fs src.len = r.delivered ++ rest ∧
        StreamStop D fs src.bytes X r.decoder rest := by
  have hstart : StreamAt D fs src.bytes mem.length 0 (.new src (.scratch ptr mem)) zstd :=
    ⟨.new src ptr mem, by simp [hs], by simp [hs, Cursor.start], hstalls⟩
  refine drain_rule (fun buf => buf ≠ [] ∧ Room buf.length) (fun left d rest =>
    ∃ state c, d.buf = .streaming state ∧ StreamAt D fs src.bytes mem.length c state d.zstd ∧
      X d.zstd (src.len - c) ∧ left = src.len - c ∧
      rest = (D.cursor d.zstd).reach (src.len - c))
    ?_ ⟨_, 0, rfl, hstart, hx, rfl, by simp [Decoder.new, hs]⟩ fun i => ⟨hbufs i, hroom i⟩
  rintro left d rest buf fuel ⟨state, c, hd, h, hx, rfl, rfl⟩ ⟨hbuf, hroom⟩ hfuel
  have hbound : src.bytes.length - c < fuel := by
    unfold Mmap.len at hfuel
    omega
  obtain ⟨state', zstd', buf', c', written, events, hrun, h', hx', hlen, hw, hle, hreach, hend⟩ :=
    readStreaming_spec hsrc hX hW h hx hbuf hroom hbound
  have hread : d.read z (.madvise σ .file) fuel buf =
      ⟨{ d with buf := .streaming state', zstd := zstd' }, buf', some (.ok written), events⟩ := by
    rw [read_streaming hd hbuf, hrun]
  rw [hread]
  cases written with
  | zero =>
    obtain ⟨rfl, hpos, hempty⟩ := hend rfl
    refine .inl ⟨rfl, ⟨state', rfl, hpos, hempty⟩, h'.bytes_eq, by simpa using hx', ?_⟩
    simpa [Mmap.len] using hreach
  | succ n =>
    have htotal := congrArg List.length hreach
    rw [List.length_append, List.length_take, hlen] at htotal
    refine .inr ⟨n, src.len - c', _, rfl, hreach, ?_, state', c', rfl, h', hx', rfl, rfl⟩
    unfold Mmap.len
    omega

/-- Sliding-window decoding is complete. For a source that is a whole stream, of any frames, a
scratch of any size and any buffers of the caller, reading to the end delivers the content of all
frames and ends with `Ok(0)` and with the source and the scratch exhausted; so the bytes delivered
depend neither on the window nor on the buffers. -/
theorem streaming_decodes (z : RawDecoder σ) (fs : List ZstdFrame) (src : Mmap)
    (hsrc : src.bytes = encoded fs) (ptr : ℕ) (mem : List UInt8) (hW : 0 < mem.length) (zstd : σ)
    (hz : Decodes z zstd fs) (bufs : ℕ → List UInt8) (hbufs : ∀ i, bufs i ≠ []) :
    DrainsTo z (.madvise σ .file) (.new (.streaming (.new src (.scratch ptr mem))) zstd) bufs
      fun r => r.last = .ok 0 ∧ r.delivered = decoded fs ∧
        ∃ state, r.decoder.buf = .streaming state ∧ state.src_pos = src.len ∧
          state.scratch_in_pos = state.scratch_len := by
  obtain ⟨D, hs, hstalls⟩ := hz
  have hrun := streaming_drains D src (hsrc ▸ List.prefix_refl _) ptr hW (keptByCalls_true D _ _) hs
    hstalls trivial hbufs fun _ => trivial
  refine hrun.mono ?_
  rintro r ⟨hlast, rest, htotal, hstate, hbytes, -, hrest⟩
  -- All of the stream is consumed, so every frame is finished.
  rw [hsrc, List.drop_length] at hbytes
  rw [Cursor.reach_of_frames (Cursor.frames_of_bytes hbytes)] at hrest
  rw [Mmap.len, hsrc, decodedBy_of_le le_rfl, hrest, List.append_nil] at htotal
  exact ⟨hlast, htotal.symm, hstate⟩

/-- A stream with a frame without content in front, through a window of four bytes. -/
theorem streaming_decodes_pair :
    DrainsTo reference (.madvise RefState .file)
      (.new (.streaming (.new ⟨0, encoded [rawFrame [], rawFrame hello], by decide⟩
        (.scratch 0 [0, 0, 0, 0]))) (.start [rawFrame [], rawFrame hello])) (fun _ => [0]) fun r =>
        r.last = .ok 0 ∧ r.delivered = decoded [rawFrame [], rawFrame hello] ∧
          ∃ state, r.decoder.buf = .streaming state ∧ state.src_pos = 23 ∧
            state.scratch_in_pos = state.scratch_len :=
  streaming_decodes reference [rawFrame [], rawFrame hello]
    ⟨0, encoded [rawFrame [], rawFrame hello], by decide⟩ rfl 0 [0, 0, 0, 0] (by decide) _
    (reference_decodes _).decodes _ (by simp)

end MmapZstd
