import MmapZstd.Delivery
import MmapZstd.Drain
import MmapZstd.Transparency

/-!
# The whole-buffer variants cannot be told apart

A mapping of a file, a slice and hugepages that hold the same bytes give a caller the same results,
whatever it reads, whatever zstd answers, and though the mapping is retired behind the reader while
the others are not (`whole_variants_agree`). Only the bytes from `in_pos` on can be seen (`Shows`),
and a retirement stays 4 MiB behind them.
-/

namespace MmapZstd

open Frames

variable {σ : Type} {z : RawDecoder σ} {k k' : Kernel} {P P' n : ℕ} {tail : List UInt8}

/-- The buffer of a decoder has `n` bytes, and `tail` is what is left of them. -/
def Shows (n : ℕ) (tail : List UInt8) (d : Decoder σ) : Prop :=
  ∃ bytes, d.buf.deref = .ok bytes ∧ bytes.length = n ∧ bytes.drop d.in_pos = tail

/-- A retirement shows the same. -/
theorem Shows.retire (hk : k.DestroysPages P) (hP : 0 < P) (hle : P ≤ hugepage) {d : Decoder σ}
    (h : Shows n tail d) : Shows n tail (maybeRetire k d).1 := by
  cases hd : d.buf with
  | mmap m =>
    obtain ⟨bytes, hderef, hlen, htail⟩ := h
    obtain rfl : m.bytes = bytes := by
      rw [hd] at hderef
      exact Outcome.ok.inj hderef
    rcases maybeRetire_cases k d hd _ rfl with ⟨heq, -⟩ | ⟨heq, hlt⟩
    · rw [heq]
      exact ⟨m.bytes, hderef, hlen, htail⟩
    · rw [heq]
      refine ⟨_, rfl, (k.len_eq _ _ _).trans hlen, (hk.drop_eq hP m ?_).trans htail⟩
      -- The range ends at the frontier, 4 MiB behind `in_pos`, and a page is at most 2 MiB.
      have hfrontier := land_usizeNot_le (d.in_pos - retireWindow) (4096 - 1)
      have hlag : hugepage ≤ retireWindow := by decide
      simp only
      omega
  | slice s => simpa only [maybeRetire, hd] using h
  | hugepage m => simpa only [maybeRetire, hd] using h
  | streaming s => simpa only [maybeRetire, hd] using h

/-- Two decoders on whole buffers show the same and are at the same place. -/
structure SameView (d e : Decoder σ) : Prop where
  shows : ∃ n tail, Shows n tail d ∧ Shows n tail e
  in_pos : d.in_pos = e.in_pos
  zstd : d.zstd = e.zstd

/-- Retirements of both keep them in agreement. -/
theorem SameView.retire (hk : k.DestroysPages P) (hP : 0 < P) (hle : P ≤ hugepage)
    (hk' : k'.DestroysPages P') (hP' : 0 < P') (hle' : P' ≤ hugepage) {d e : Decoder σ}
    (h : SameView d e) : SameView (maybeRetire k d).1 (maybeRetire k' e).1 := by
  obtain ⟨⟨n, tail, hd, he⟩, hpos, hzstd⟩ := h
  obtain ⟨buf, r, hframe⟩ := maybeRetire_frame k d
  obtain ⟨buf', r', hframe'⟩ := maybeRetire_frame k' e
  refine ⟨⟨n, tail, hd.retire hk hP hle, he.retire hk' hP' hle'⟩, ?_, ?_⟩
  · rw [hframe, hframe']
    exact hpos
  · rw [hframe, hframe']
    exact hzstd

/-- A read of both keeps them in agreement, and returns the same. -/
theorem SameView.read (hk : k.DestroysPages P) (hP : 0 < P) (hle : P ≤ hugepage)
    (hk' : k'.DestroysPages P') (hP' : 0 < P') (hle' : P' ≤ hugepage) {d e : Decoder σ}
    (h : SameView d e) (fuel : ℕ) (buf : List UInt8) :
    Agree SameView (d.read z (.madvise σ k) fuel buf) (e.read z (.madvise σ k') fuel buf) := by
  rcases eq_or_ne buf [] with rfl | hbuf
  · rw [read_nil, read_nil]
    exact ⟨h, rfl, rfl⟩
  obtain ⟨⟨n, tail, ⟨bytes, hd, hlen, htail⟩, ⟨bytes', he, hlen', htail'⟩⟩, hpos, hzstd⟩ := h
  -- Both offer the same bytes, so zstd answers the same.
  have hcalls : z.run_on_buffers e.zstd (bytes'.drop e.in_pos) buf =
      z.run_on_buffers d.zstd (bytes.drop d.in_pos) buf := by
    rw [htail, htail', hzstd]
  rw [read_whole hd hbuf, read_whole he hbuf]
  by_cases hin : d.in_pos ≤ bytes.length
  · have hin' : e.in_pos ≤ bytes'.length := by omega
    cases hcall : (z.run_on_buffers d.zstd (bytes.drop d.in_pos) buf).result with
    | error err =>
      rw [readWhole_error hd hin hcall, readWhole_error he hin' (hcalls ▸ hcall), hcalls]
      refine ⟨⟨⟨n, tail, ?_, ?_⟩, hpos, rfl⟩, rfl, rfl⟩
      · exact ⟨bytes, hd, hlen, htail⟩
      · exact ⟨bytes', he, hlen', htail'⟩
    | ok status =>
      rw [readWhole_ok hd hin hcall rfl, readWhole_ok he hin' (hcalls ▸ hcall) rfl, hcalls]
      refine ⟨SameView.retire hk hP hle hk' hP' hle' ⟨⟨n, tail.drop status.bytes_read, ?_, ?_⟩, ?_,
        rfl⟩, rfl, rfl⟩
      · exact ⟨bytes, hd, hlen, by rw [← htail, List.drop_drop]⟩
      · exact ⟨bytes', he, hlen', by rw [← htail', List.drop_drop]⟩
      · exact congrArg (· + status.bytes_read) hpos
  · -- Only a decoder that reports more than it was offered gets here.
    have hout : ¬ e.in_pos ≤ bytes'.length := by omega
    simp only [readWhole, hd, he, Outcome.bind, sliceFrom, if_neg hin, if_neg hout]
    refine ⟨⟨⟨n, tail, ?_, ?_⟩, hpos, hzstd⟩, rfl, rfl⟩
    · exact ⟨bytes, hd, hlen, htail⟩
    · exact ⟨bytes', he, hlen', htail'⟩

/-- The whole-buffer variants cannot be told apart. Two decoders on buffers with the same bytes,
each under a kernel whose `MADV_DONTNEED` destroys pages of any size up to 2 MiB, give the same
results in every session, with any zstd decoder. -/
theorem whole_variants_agree (z : RawDecoder σ) (hk : k.DestroysPages P) (hP : 0 < P)
    (hle : P ≤ hugepage) (hk' : k'.DestroysPages P') (hP' : 0 < P') (hle' : P' ≤ hugepage)
    (buf buf' : DecoderBuf) (bytes : List UInt8) (hbuf : buf.deref = .ok bytes)
    (hbuf' : buf'.deref = .ok bytes) (zstd : σ) (reads : List (ℕ × List UInt8)) :
    (session z (.madvise σ k) reads (.new buf zstd)).results =
      (session z (.madvise σ k') reads (.new buf' zstd)).results := by
  have hstart : SameView (Decoder.new buf zstd) (.new buf' zstd) :=
    ⟨⟨bytes.length, bytes, ⟨bytes, hbuf, rfl, rfl⟩, ⟨bytes, hbuf', rfl, rfl⟩⟩, rfl, rfl⟩
  exact session_lockstep (fun _ _ fuel buf h => h.read hk hP hle hk' hP' hle' fuel buf) reads _ _
    hstart

/-- Two decoders that are read to the end in lockstep deliver the same and end in the same way. -/
theorem drain_lockstep {R S : Retirement σ} {Rel : Decoder σ → Decoder σ → Prop}
    (hread : ∀ d d' fuel buf, Rel d d' → Agree Rel (d.read z R fuel buf) (d'.read z S fuel buf))
    (fuel : ℕ) (d d' : Decoder σ) (bufs : ℕ → List UInt8) (h : Rel d d') :
    (drain z R fuel d bufs).map (fun r => (r.delivered, r.last)) =
      (drain z S fuel d' bufs).map fun r => (r.delivered, r.last) := by
  induction fuel generalizing d d' bufs with
  | zero => rfl
  | succ fuel ih =>
    obtain ⟨hrel, houtcome, hbuf⟩ := hread d d' (fuel + 1) (bufs 0) h
    have hnext := ih _ _ (fun i => bufs (i + 1)) hrel
    rw [drain, drain, ← houtcome, ← hbuf]
    cases ho : (d.read z R (fuel + 1) (bufs 0)).outcome with
    | none => rfl
    | some o =>
      cases o with
      | ok n =>
        cases n with
        | zero => rfl
        | succ n =>
          -- The rest of both runs delivers the same after the same bytes.
          have hafter := congrArg
            (Option.map fun r => ((d.read z R (fuel + 1) (bufs 0)).buf.take (n + 1) ++ r.1, r.2))
            hnext
          simpa only [Option.map_map, Function.comp_def] using hafter
      | panic => rfl
      | err e => rfl

/-- A mapping under a kernel that leaves zeros, and a slice. -/
theorem whole_variants_agree_hello :
    (session reference (.madvise RefState (.anonymous hugepage)) [(0, [0, 0]), (0, [0, 0, 0])]
        (.new (.mmap ⟨4097, encoded [rawFrame hello], by decide⟩)
          (.start [rawFrame hello]))).results =
      (session reference (.madvise RefState (.anonymous 1)) [(0, [0, 0]), (0, [0, 0, 0])]
        (.new (.slice (encoded [rawFrame hello])) (.start [rawFrame hello]))).results :=
  whole_variants_agree reference (anonymous_destroysPages hugepage) (by decide) le_rfl
    (anonymous_destroysPages 1) (by decide) (by decide)
    (.mmap ⟨4097, encoded [rawFrame hello], by decide⟩) (.slice (encoded [rawFrame hello]))
    (encoded [rawFrame hello]) rfl rfl (.start [rawFrame hello]) [(0, [0, 0]), (0, [0, 0, 0])]

end MmapZstd
