import MmapZstd.Sliding
import MmapZstd.WholeBuffer

/-!
# Truncated input

Neither read path tells the end of a truncated file from the end of a stream. The whole-buffer read
answers `Ok(0)` when zstd has nothing more to write, and the streaming read answers `Ok(0)` when the
source is consumed; neither looks at `Status.remaining`, and zstd itself fails a call only after
sixteen without progress, of which a run makes one. So on every prefix of a stream, a run ends in
`Ok(0)`.
-/

namespace MmapZstd

open Frames

variable {σ : Type}

/-- The bytes `src` are a stream that ends strictly inside a frame with content. -/
def CutInside (fs : List ZstdFrame) (src : List UInt8) : Prop :=
  ∃ before f after k, fs = before ++ f :: after ∧ f.content ≠ [] ∧ 0 < k ∧ k < f.bytes.length ∧
    src = encoded before ++ f.bytes.take k

/-- A stream that is cut is a prefix. -/
theorem CutInside.isPrefix {fs : List ZstdFrame} {src : List UInt8} (h : CutInside fs src) :
    src <+: encoded fs := by
  obtain ⟨before, f, after, k, rfl, -, -, -, rfl⟩ := h
  exact encoded_take_isPrefix before f after k

/-- The run of reads reports the truncation: it ends in an error of kind `InvalidData`. -/
def ReportsTruncation (z : RawDecoder σ) (d : Decoder σ) (bufs : ℕ → List UInt8) : Prop :=
  DrainsTo z (.madvise σ .file) d bufs fun r => ∃ e, r.last = .err e ∧ e.kind = .invalidData

/-- A run that ends in `Ok(0)` does not report a truncation. -/
theorem not_reportsTruncation {z : RawDecoder σ} {d : Decoder σ} {bufs : ℕ → List UInt8}
    (h : DrainsTo z (.madvise σ .file) d bufs fun r => r.last = .ok 0) :
    ¬ ReportsTruncation z d bufs := by
  intro hreports
  obtain ⟨r, hok, e, herr, -⟩ := (h.and hreports).exists
  rw [hok] at herr
  cases herr

/-- Truncation is always taken for the end of the stream: on every input that ends strictly inside
a frame with content, through a whole buffer and through any scratch window, with any buffers of
the caller, the run of reads ends in `Ok(0)` and reports nothing. -/
theorem truncation_unreported (z : RawDecoder σ) (fs : List ZstdFrame) (src : Mmap)
    (hcut : CutInside fs src.bytes) (zstd : σ) (hz : Decodes z zstd fs) (buf : DecoderBuf)
    (hbuf : buf.deref = .ok src.bytes) (ptr : ℕ) (mem : List UInt8) (hW : 0 < mem.length)
    (bufs : ℕ → List UInt8) (hbufs : ∀ i, bufs i ≠ []) :
    (DrainsTo z (.madvise σ .file) (.new buf zstd) bufs (fun r => r.last = .ok 0) ∧
        ¬ ReportsTruncation z (.new buf zstd) bufs) ∧
      DrainsTo z (.madvise σ .file) (.new (.streaming (.new src (.scratch ptr mem))) zstd) bufs
          (fun r => r.last = .ok 0) ∧
        ¬ ReportsTruncation z (.new (.streaming (.new src (.scratch ptr mem))) zstd) bufs := by
  obtain ⟨D, hs, hstalls⟩ := hz
  -- Neither path looks at `remaining`, so the rules for runs over any prefix of a stream apply.
  have hwhole := (whole_drains (Y := fun _ _ => True) hcut.isPrefix
    (fun _ _ _ _ _ _ _ _ _ _ => trivial) (.new hbuf hs) hstalls trivial hbufs).mono
    fun r hr => hr.1
  have hstream := (streaming_drains D src hcut.isPrefix ptr hW (keptByCalls_true D _ _) hs hstalls
    trivial hbufs fun _ => trivial).mono fun r hr => hr.1
  exact ⟨⟨hwhole, not_reportsTruncation hwhole⟩, hstream, not_reportsTruncation hstream⟩

/-- The first twelve bytes of a frame with five bytes of content, through both paths. -/
theorem truncation_unreported_hello :
    ¬ ReportsTruncation reference (.new (.slice ((rawFrame hello).bytes.take 12))
        (.start [rawFrame hello])) (fun _ => [0, 0]) ∧
      ¬ ReportsTruncation reference (.new (.streaming (.new
          ⟨0, (rawFrame hello).bytes.take 12, by decide⟩ (.scratch 0 [0, 0, 0, 0])))
        (.start [rawFrame hello])) (fun _ => [0, 0]) := by
  have h := truncation_unreported reference [rawFrame hello]
    ⟨0, (rawFrame hello).bytes.take 12, by decide⟩
    ⟨[], rawFrame hello, [], 12, rfl, by decide, by decide, by decide, rfl⟩ _
    (reference_decodes _).decodes (.slice ((rawFrame hello).bytes.take 12)) rfl 0 [0, 0, 0, 0]
    (by decide) (fun _ => [0, 0]) (by simp)
  exact ⟨h.1.2, h.2.2⟩

/-- On the first twelve bytes of the frame, the run delivers three bytes of the five and ends in
`Ok(0)`. -/
theorem truncation_taken_for_end :
    ¬ ReportsTruncation reference (.new (.slice ((rawFrame hello).bytes.take 12))
      (.start [rawFrame hello])) (fun _ => [0, 0, 0, 0]) := by
  rintro ⟨bound, h⟩
  obtain ⟨r, hr, e, hlast, -⟩ := h (bound + 2) (by omega)
  have hrun : drain reference (.madvise RefState .file) (bound + 2)
      (.new (.slice ((rawFrame hello).bytes.take 12)) (.start [rawFrame hello]))
      (fun _ => [0, 0, 0, 0]) = some ⟨[0x68, 0x65, 0x6C], .ok 0, _, _⟩ := rfl
  obtain rfl := Option.some.inj (hrun.symm.trans hr)
  cases hlast

end MmapZstd
