import MmapZstd.Delivery
import MmapZstd.Window

/-!
# The whole-buffer variants over their source

The counterpart, for the `Mmap`, `Slice` and `Hugepage` variants, of what `Window.lean` says of the
streaming variant: in a session of reads with any decoder, each call is offered exactly the bytes of
the buffer that were not consumed yet, `in_pos` counts those that were, and no read panics
(`whole_refines_source`). A read that fails consumes nothing, so the next one offers the same bytes
again.
-/

namespace MmapZstd

open Frames History

variable {σ : Type}

/-- At a call, the buffer is `src`, and what is offered is all of it that was not consumed. -/
def OffersRest (src : List UInt8) (past : List Event) (e : Event) : Prop :=
  ∀ site input room result, e = .call site input room result →
    site.deref = .ok src ∧ input = src.drop (consumed past)

/-- The invariant of a session on a whole-buffer variant over `src`. -/
structure WholeRefines (src : List UInt8) (log : List Event) (d : Decoder σ) : Prop where
  deref : d.buf.deref = .ok src
  in_pos_eq : d.in_pos = consumed log
  in_pos_le : d.in_pos ≤ src.length
  offers : Always (OffersRest src) log
  consumes : pieces log = src.take (consumed log)

section Read

variable {src : List UInt8} {log : List Event} {d : Decoder σ}

/-- A call extends the log by what it was offered. -/
theorem WholeRefines.offer (h : WholeRefines src log d) (room : ℕ)
    (result : Except IoError Status) :
    Always (OffersRest src) (log ++ [.call d.buf (src.drop d.in_pos) room result]) := by
  rw [always_concat]
  refine ⟨h.offers, ?_⟩
  rintro site input room' result' ⟨⟩
  exact ⟨h.deref, by rw [h.in_pos_eq]⟩

/-- The range of a retirement is not a call. -/
theorem always_offersRest_advise (h : Always (OffersRest src) log) {events : List Event}
    (hevents : events = [] ∨ ∃ offset len, events = [.advise offset len]) :
    Always (OffersRest src) (log ++ events) := by
  rcases hevents with rfl | ⟨offset, len, rfl⟩
  · simpa using h
  · rw [always_concat]
    refine ⟨h, ?_⟩
    rintro site input room result ⟨⟩

/-- Retirement consumes nothing. -/
theorem consumed_advise {events : List Event}
    (hevents : events = [] ∨ ∃ offset len, events = [.advise offset len]) :
    consumed events = 0 ∧ pieces events = [] := by
  rcases hevents with rfl | ⟨offset, len, rfl⟩
  · exact ⟨rfl, rfl⟩
  · exact ⟨rfl, rfl⟩

/-- A read keeps the invariant, whatever zstd answers within its bounds, and does not panic. -/
theorem WholeRefines.read {z : RawDecoder σ} (hz : z.Lawful) (h : WholeRefines src log d)
    (fuel : ℕ) (buf : List UInt8) :
    WholeRefines src (log ++ (d.read z (.madvise σ .file) fuel buf).events)
        (d.read z (.madvise σ .file) fuel buf).state ∧
      ∀ o ∈ (d.read z (.madvise σ .file) fuel buf).outcome, o ≠ .panic := by
  rcases read_ways z (.madvise σ .file) d fuel buf with ⟨-, heq⟩ | ⟨state, hd, -, -⟩ |
    ⟨bytes, hd, -, heq⟩
  · rw [heq, List.append_nil]
    exact ⟨h, by simp⟩
  · -- The streaming variant dereferences to nothing.
    have hderef := h.deref
    rw [hd] at hderef
    cases hderef
  obtain rfl : bytes = src := Outcome.ok.inj (hd.symm.trans h.deref)
  rw [heq]
  rcases readWhole_ways z (.madvise σ .file) hd buf with ⟨hpos, -⟩ | ⟨e, hpos, hcall, heq⟩ |
    ⟨status, d', hpos, hcall, hd', heq⟩
  · exact absurd h.in_pos_le (Nat.not_le.mpr hpos)
  · -- A call that fails consumes nothing.
    rw [heq]
    refine ⟨⟨h.deref, ?_, h.in_pos_le, h.offer _ _, ?_⟩, by simp⟩
    · simpa [Event.read] using h.in_pos_eq
    · simpa [Event.read, Event.piece] using h.consumes
  · have hread := hz.read_le _ _ _ _ hcall
    have hevents := maybeRetire_events .file d'
    obtain ⟨hzero, hnil⟩ := consumed_advise hevents
    obtain ⟨r, hretire⟩ := maybeRetire_file d'
    rw [List.length_drop] at hread
    have hlog : consumed (log ++ .call d.buf (bytes.drop d.in_pos) buf.length (.ok status) ::
        (maybeRetire .file d').2) = consumed log + status.bytes_read := by
      rw [consumed_append, consumed_cons, hzero]
      rfl
    rw [heq]
    simp only [Retirement.madvise, hretire]
    refine ⟨⟨?_, ?_, ?_, ?_, ?_⟩, by simp⟩
    · rw [hd']
      exact h.deref
    · rw [hlog, hd', h.in_pos_eq]
    · rw [hd']
      simp only
      omega
    · have hcalls := always_offersRest_advise (h.offer buf.length (.ok status)) hevents
      simpa only [List.append_assoc, List.singleton_append] using hcalls
    · -- The piece consumed is the next `bytes_read` bytes of the buffer.
      rw [hlog, pieces_append, pieces_cons, hnil, List.append_nil, h.consumes, List.take_add,
        ← h.in_pos_eq]
      rfl

end Read

/-- A whole-buffer variant refines its source. In a session of reads over any buffer, with any
lawful decoder and any errors of it, each call that zstd receives is offered exactly the bytes of
the buffer that were not consumed yet, `in_pos` counts those that were, the pieces consumed are a
prefix of the buffer, and no read panics. -/
theorem whole_refines_source (z : RawDecoder σ) (hz : z.Lawful) (buf : DecoderBuf)
    (src : List UInt8) (hbuf : buf.deref = .ok src) (zstd : σ) (reads : List (ℕ × List UInt8)) :
    let s := session z (.madvise σ .file) reads (.new buf zstd)
    s.decoder.buf.deref = .ok src ∧ s.decoder.in_pos = consumed s.events ∧
      s.decoder.in_pos ≤ src.length ∧ Always (OffersRest src) s.events ∧
      pieces s.events = src.take (consumed s.events) ∧ (∀ r ∈ s.results, r.1 ≠ some .panic) ∧
      calls s.events = received z .file reads (.new buf zstd) := by
  have hstart : WholeRefines src [] (Decoder.new buf zstd) :=
    ⟨hbuf, rfl, Nat.zero_le _, always_nil, by simp⟩
  obtain ⟨h, hgood⟩ := session_rule (z := z) (R := .madvise σ .file)
    (P := fun log d => WholeRefines src log d) (fun o => o ≠ .panic)
    (fun log d fuel buf h => h.read hz fuel buf) reads [] (.new buf zstd) hstart
  obtain ⟨hderef, hpos, hle, hoffers, hconsumes⟩ := h
  refine ⟨hderef, hpos, hle, hoffers, hconsumes, ?_, calls_session z .file reads _⟩
  intro r hr hpanic
  exact hgood r hr .panic (by simp [hpanic]) rfl

/-- A slice, read twice. -/
theorem whole_refines_hello :
    let d := Decoder.new (.slice (encoded [rawFrame hello])) (RefState.start [rawFrame hello])
    let s := session reference (.madvise RefState .file) [(5, [0, 0]), (5, [0, 0, 0])] d
    s.decoder.buf.deref = .ok (encoded [rawFrame hello]) ∧
      s.decoder.in_pos = consumed s.events ∧
      s.decoder.in_pos ≤ (encoded [rawFrame hello]).length ∧
      Always (OffersRest (encoded [rawFrame hello])) s.events ∧
      pieces s.events = (encoded [rawFrame hello]).take (consumed s.events) ∧
      (∀ r ∈ s.results, r.1 ≠ some .panic) ∧
      calls s.events = received reference .file [(5, [0, 0]), (5, [0, 0, 0])] d :=
  whole_refines_source reference reference_lawful (.slice (encoded [rawFrame hello]))
    (encoded [rawFrame hello]) rfl (.start [rawFrame hello]) [(5, [0, 0]), (5, [0, 0, 0])]

end MmapZstd
