import MmapZstd.Drain
import MmapZstd.Lib.Stops
import MmapZstd.Reference
import MmapZstd.Retirement

/-!
# Reading a whole buffer

The whole-buffer variants hand zstd all that is left of their buffer, once per read. `WholeAt` ties
`in_pos` to zstd's place in the stream, and `WholeAt.read` says what one read does. `whole_drains`
follows a run to its end: the run stops at the first call without output, and what it has delivered
is the front of what the buffer determines.

A read takes a call without output for the end of the file, also when the call has only gone past a
frame without content. So a whole stream is decoded exactly when no such frame comes before the
last (`whole_buffer_decodes_iff`).
-/

namespace MmapZstd

open Frames

variable {σ : Type} {z : RawDecoder σ}

/-- A whole-buffer decoder over `src`, a prefix of the stream `fs`: zstd has consumed the bytes
before `in_pos`. -/
structure WholeAt (D : Decoding z) (fs : List ZstdFrame) (src : List UInt8) (d : Decoder σ) :
    Prop where
  deref : d.buf.deref = .ok src
  in_pos_le : d.in_pos ≤ src.length
  bytes_eq : (D.cursor d.zstd).bytes = (encoded fs).drop d.in_pos
  owed_le : (D.cursor d.zstd).owed ≤ src.length - d.in_pos

section Read

variable {D : Decoding z} {fs : List ZstdFrame} {src : List UInt8} {d : Decoder σ}

/-- The decoder that a constructor returns. -/
theorem WholeAt.new {buf : DecoderBuf} (hbuf : buf.deref = .ok src) {zstd : σ}
    (hs : D.cursor zstd = Cursor.start fs) : WholeAt D fs src (.new buf zstd) where
  deref := hbuf
  in_pos_le := Nat.zero_le _
  bytes_eq := by simp [Decoder.new, hs]
  owed_le := by simp [Decoder.new, hs, Cursor.start]

/-- The content still to come of the part of the stream that is in the buffer. -/
def WholeAt.rest (D : Decoding z) (src : List UInt8) (d : Decoder σ) : List UInt8 :=
  (D.cursor d.zstd).reach (src.length - d.in_pos)

/-- One read: zstd is offered all that is left, and its output is the front of the content still to
come. -/
theorem WholeAt.read (h : WholeAt D fs src d) (hsrc : src <+: encoded fs)
    (hstalls : D.stalls d.zstd + 1 < stallLimit) {buf : List UInt8} (hbuf : buf ≠ []) (fuel : ℕ) :
    ∃ (status : Status) (d' : Decoder σ), (d.read z (.madvise σ .file) fuel buf).state = d' ∧
      (d.read z (.madvise σ .file) fuel buf).outcome = some (.ok status.bytes_written) ∧
      (d.read z (.madvise σ .file) fuel buf).buf.length = buf.length ∧
      WholeAt D fs src d' ∧ d'.in_pos = d.in_pos + status.bytes_read ∧
      Advance (D.cursor d.zstd) (src.length - d.in_pos) buf.length status.remaining
        status.bytes_read status.bytes_written (D.cursor d'.zstd) ∧
      WholeAt.rest D src d =
        (d.read z (.madvise σ .file) fuel buf).buf.take status.bytes_written ++
          WholeAt.rest D src d' ∧
      (0 < status.bytes_written → D.stalls d'.zstd = 0) := by
  obtain ⟨hderef, hpos, hbytes, howed⟩ := h
  have hlen : (src.drop d.in_pos).length = src.length - d.in_pos := List.length_drop
  obtain ⟨status, hcall, hadv, hbytes', hreach, hstalls'⟩ :=
    D.call hsrc hbytes (List.prefix_refl _) (howed.trans_eq hlen.symm) hbuf hstalls
  obtain ⟨r, hr⟩ := maybeRetire_file { d with
    zstd := (z.run_on_buffers d.zstd (src.drop d.in_pos) buf).zstd
    in_pos := d.in_pos + status.bytes_read }
  rw [hlen] at hadv
  have hread := hadv.read_le
  have howed' := hadv.owed_le
  rw [read_whole hderef hbuf, readWhole_ok hderef hpos hcall rfl]
  refine ⟨status, _, hr, rfl, z.buf_length _ _ _, ⟨hderef, ?_, hbytes', ?_⟩, rfl, hadv, hreach, ?_⟩
  · simp only
    omega
  · simp only
    omega
  · intro hw
    rw [if_neg (by omega)] at hstalls'
    exact Nat.le_zero.mp hstalls'

/-- Where a run over a whole buffer stops: after a call without output, made when `Y` held. -/
structure WholeStop (D : Decoding z) (fs : List ZstdFrame) (src : List UInt8)
    (Y : Cursor UInt8 UInt8 → ℕ → Prop) (d : Decoder σ) (rest : List UInt8) : Prop where
  place : WholeAt D fs src d
  rest_eq : rest = WholeAt.rest D src d
  call : ∃ c left room remaining read, Y c left ∧ 0 < room ∧
    Advance c left room remaining read 0 (D.cursor d.zstd) ∧ left - read = src.length - d.in_pos

/-- A run over a whole buffer ends with `Ok(0)` at the first call without output. The invariant `Y`
of the cursor and of the input left is kept by every call with output. -/
theorem whole_drains (hsrc : src <+: encoded fs) {Y : Cursor UInt8 UInt8 → ℕ → Prop}
    (hY : ∀ s s' left room remaining read written, Y (D.cursor s) left → 0 < written →
      Advance (D.cursor s) left room remaining read written (D.cursor s') →
      Y (D.cursor s') (left - read))
    (h : WholeAt D fs src d) (hstalls : D.stalls d.zstd = 0)
    (hstart : Y (D.cursor d.zstd) (src.length - d.in_pos)) {bufs : ℕ → List UInt8}
    (hbufs : ∀ i, bufs i ≠ []) :
    DrainsTo z (.madvise σ .file) d bufs fun r => r.last = .ok 0 ∧
      ∃ rest, WholeAt.rest D src d = r.delivered ++ rest ∧ WholeStop D fs src Y r.decoder rest := by
  refine drain_rule (fun buf => buf ≠ []) (fun left d rest => WholeAt D fs src d ∧
    D.stalls d.zstd = 0 ∧ left = src.length - d.in_pos ∧ Y (D.cursor d.zstd) left ∧
    rest = WholeAt.rest D src d) ?_ ⟨h, hstalls, rfl, hstart, rfl⟩ hbufs
  rintro left d rest buf fuel ⟨h, hstalls, rfl, hy, rfl⟩ hbuf -
  obtain ⟨status, d', hstate, hout, hlen, h', hpos, hadv, hrest, hstalls'⟩ :=
    h.read hsrc (by rw [hstalls]; decide) hbuf fuel
  have hleft : src.length - d.in_pos - status.bytes_read = src.length - d'.in_pos := by omega
  rw [hstate, hout]
  cases hw : status.bytes_written with
  | zero =>
    -- The read answers `Ok(0)`, and the run is over.
    rw [hw] at hrest hadv
    refine .inl ⟨rfl, h', by simpa using hrest, _, _, _, _, _, hy, ?_, hadv, hleft⟩
    exact List.length_pos_of_ne_nil hbuf
  | succ n =>
    have hle := hadv.written_le
    have hpos' := congrArg List.length hrest
    rw [List.length_append, List.length_take, hlen] at hpos'
    refine .inr ⟨n, src.length - d'.in_pos, _, rfl, hw ▸ hrest, by omega, h', hstalls' (by omega),
      rfl, ?_, rfl⟩
    exact hleft ▸ hY _ _ _ _ _ _ _ hy (by omega) hadv

/-- On a whole stream, zstd has finished every frame when `in_pos` is at the end of the buffer. -/
theorem WholeAt.frames_iff (h : WholeAt D fs (encoded fs) d) :
    (D.cursor d.zstd).frames = [] ↔ d.in_pos = (encoded fs).length := by
  have hle := h.in_pos_le
  constructor
  · intro hf
    have hbytes := congrArg List.length h.bytes_eq
    unfold Cursor.bytes at hbytes
    rw [hf, encoded_nil, List.drop_nil, List.length_nil, List.length_drop] at hbytes
    omega
  · intro hpos
    apply Cursor.frames_of_bytes
    rw [h.bytes_eq, hpos, List.drop_length]

end Read

/-- A whole stream is decoded from a whole buffer, with any buffers of the caller, exactly when no
frame without content comes before the last frame: then reading to the end delivers the content
of all frames and ends with `Ok(0)` and with `in_pos` at the end of the buffer. -/
theorem whole_buffer_decodes_iff (z : RawDecoder σ) (fs : List ZstdFrame) (buf : DecoderBuf)
    (hbuf : buf.deref = .ok (encoded fs)) (zstd : σ) (hz : DecodesEagerly z zstd fs)
    (bufs : ℕ → List UInt8) (hbufs : ∀ i, bufs i ≠ []) :
    (DrainsTo z (.madvise σ .file) (.new buf zstd) bufs fun r =>
        r.last = .ok 0 ∧ r.delivered = decoded fs ∧ r.decoder.in_pos = (encoded fs).length) ↔
      ∀ f ∈ fs.dropLast, f.content ≠ [] := by
  obtain ⟨D, heager, hs, hstalls⟩ := hz
  -- Calls with output leave no frame unfinished whose content is out, and finish only frames with
  -- content.
  let Y (c : Cursor UInt8 UInt8) (left : ℕ) : Prop :=
    c.Unfinished left ∧ left = c.bytes.length ∧ (Hidden c.frames ↔ Hidden fs)
  have hY : ∀ s s' left room remaining read written, Y (D.cursor s) left → 0 < written →
      Advance (D.cursor s) left room remaining read written (D.cursor s') →
      Y (D.cursor s') (left - read) := by
    rintro s s' left room remaining read written ⟨-, hleft, hhidden⟩ hw hadv
    refine ⟨hadv.unfinished (heager s'), ?_, (hadv.hidden_iff hw).trans hhidden⟩
    rw [hadv.bytes_eq, List.length_drop, ← hleft]
  have hrun := whole_drains (List.prefix_refl _) hY (.new hbuf hs) hstalls
    ⟨hs ▸ Cursor.start_unfinished _ _, by simp [Decoder.new, hs], by simp [Decoder.new, hs,
      Cursor.start]⟩ hbufs
  -- At the stop, everything is consumed and delivered unless the last call met a hidden frame.
  have hstop : ∀ d rest, WholeStop D fs (encoded fs) Y d rest →
      (d.in_pos = (encoded fs).length ↔ ¬ Hidden fs) ∧
        (d.in_pos = (encoded fs).length → rest = []) := by
    rintro d rest ⟨hplace, rfl, c, left, room, remaining, read, ⟨hunfinished, rfl, hhidden⟩,
      hroom, hadv, -⟩
    rw [← hplace.frames_iff, hadv.ends_iff hroom hunfinished, hhidden]
    refine ⟨Iff.rfl, fun h => ?_⟩
    rw [← hhidden, ← hadv.ends_iff hroom hunfinished] at h
    exact Cursor.reach_of_frames h _
  have hcond : (∀ f ∈ fs.dropLast, f.content ≠ []) ↔ ¬ Hidden fs := by simp [Hidden]
  have htotal : WholeAt.rest D (encoded fs) (.new buf zstd) = decoded fs := by
    simp [WholeAt.rest, Decoder.new, hs, decodedBy_of_le]
  rw [htotal] at hrun
  rw [hcond]
  constructor
  · intro h
    obtain ⟨r, ⟨-, rest, -, hr⟩, -, -, hpos⟩ := (hrun.and h).exists
    exact (hstop _ _ hr).1.mp hpos
  · intro h
    refine hrun.mono ?_
    rintro r ⟨hlast, rest, htotal, hr⟩
    have hpos := (hstop _ _ hr).1.mpr h
    rw [(hstop _ _ hr).2 hpos, List.append_nil] at htotal
    exact ⟨hlast, htotal.symm, hpos⟩

/-- The condition holds of a stream of one frame. -/
theorem whole_buffer_decodes_single :
    DrainsTo reference (.madvise RefState .file)
      (.new (.slice (encoded [rawFrame hello])) (.start [rawFrame hello])) (fun _ => [0]) fun r =>
        r.last = .ok 0 ∧ r.delivered = decoded [rawFrame hello] ∧
          r.decoder.in_pos = (encoded [rawFrame hello]).length :=
  (whole_buffer_decodes_iff reference [rawFrame hello] _ rfl _ (reference_decodes _) _
    (by simp)).mpr (by simp)

/-- With a frame without content in front, the first read answers `Ok(0)` and the content of the
second frame is never delivered. -/
theorem whole_buffer_stops_at_empty :
    ¬ DrainsTo reference (.madvise RefState .file)
      (.new (.slice (encoded [rawFrame [], rawFrame hello]))
        (.start [rawFrame [], rawFrame hello])) (fun _ => [0]) fun r =>
        r.last = .ok 0 ∧ r.delivered = decoded [rawFrame [], rawFrame hello] ∧
          r.decoder.in_pos = (encoded [rawFrame [], rawFrame hello]).length := by
  rintro ⟨bound, h⟩
  obtain ⟨r, hr, -, hdelivered, -⟩ := h (bound + 1) (by omega)
  have hfirst : drain reference (.madvise RefState .file) (bound + 1)
      (.new (.slice (encoded [rawFrame [], rawFrame hello]))
        (.start [rawFrame [], rawFrame hello])) (fun _ => [0]) = some ⟨[], .ok 0, _, _⟩ := rfl
  obtain rfl := Option.some.inj (hfirst.symm.trans hr)
  exact absurd hdelivered (by simp [rawFrame, hello])

end MmapZstd
