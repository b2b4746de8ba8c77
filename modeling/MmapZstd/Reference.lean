import MmapZstd.Lib.Greedy
import MmapZstd.Zstd

/-!
# A reference decoder

`reference` is a raw decoder that carries out the greedy calls of `Lib/Greedy.lean` on a stream
that its state holds, and fails after sixteen calls without progress. It meets the streaming
contract on every stream (`reference_decodes`), so the theorems about decoders that meet it are
about something, and it consumes offered input ahead of the output, as libzstd may.
-/

namespace MmapZstd

open Frames

/-- The state of the reference decoder. -/
structure RefState where
  cursor : Cursor UInt8 UInt8
  stalls : ℕ
  eager : cursor.Eager

/-- The reference decoder at the start of the stream `fs`. -/
def RefState.start (fs : List ZstdFrame) : RefState where
  cursor := Cursor.start fs
  stalls := 0
  eager := by simp [Cursor.Eager, Cursor.start]

/-- The reference decoder. -/
def reference : RawDecoder RefState where
  run_on_buffers s input buf :=
    let step := greedy s.cursor input.length buf.length
    let stalls := if step.read = 0 ∧ step.written = 0 then s.stalls + 1 else 0
    let zstd : RefState := ⟨step.cursor, stalls, greedy_eager _ s.eager _ _⟩
    if stalls < stallLimit then
      ⟨zstd, overwrite buf (s.cursor.content.take step.written),
        .ok ⟨step.remaining, step.read, step.written⟩⟩
    else ⟨zstd, buf, .error ⟨.other, "Operation made no progress over multiple calls"⟩⟩
  buf_length s input buf := by
    simp only
    split_ifs <;> simp

/-- A call goes where the greedy call goes. -/
theorem reference_cursor (s : RefState) (input buf : List UInt8) :
    (reference.run_on_buffers s input buf).zstd.cursor =
      (greedy s.cursor input.length buf.length).cursor := by
  simp only [reference]
  split_ifs <;> rfl

/-- A call that succeeds consumes what the greedy call consumes. -/
theorem reference_read {s : RefState} {input buf : List UInt8} {status : Status}
    (h : (reference.run_on_buffers s input buf).result = .ok status) :
    status.bytes_read = (greedy s.cursor input.length buf.length).read := by
  simp only [reference] at h
  split_ifs at h <;> cases h <;> rfl

/-- The reference decoder keeps the bounds on an answer. -/
theorem reference_lawful : reference.Lawful where
  read_le s input buf status h := by
    rw [reference_read h]
    exact (greedy_le _ _ _).1
  written_le s input buf status h := by
    simp only [reference] at h
    split_ifs at h <;> cases h <;> exact (greedy_le _ _ _).2

/-- A call that is offered the next bytes of the stream, before too many calls without progress,
answers as the streaming contract says. -/
theorem reference_answers (s : RefState) (input buf : List UInt8)
    (hinput : input <+: s.cursor.bytes) (howed : s.cursor.owed ≤ input.length)
    (hstalls : s.stalls + 1 < stallLimit) :
    ∃ status, (reference.run_on_buffers s input buf).result = .ok status ∧
      Advance s.cursor input.length buf.length status.remaining status.bytes_read
        status.bytes_written (reference.run_on_buffers s input buf).zstd.cursor ∧
      (reference.run_on_buffers s input buf).buf.take status.bytes_written =
        s.cursor.content.take status.bytes_written ∧
      (reference.run_on_buffers s input buf).zstd.stalls =
        if status.bytes_read = 0 ∧ status.bytes_written = 0 then s.stalls + 1 else 0 := by
  have hadv := greedy_advance s.cursor input.length buf.length howed (fun hf => by
    have hlen := hinput.length_le
    simpa [Cursor.bytes, hf] using hlen)
  have hok : (if (greedy s.cursor input.length buf.length).read = 0 ∧
      (greedy s.cursor input.length buf.length).written = 0 then s.stalls + 1 else 0) <
        stallLimit := by
    split_ifs <;> omega
  -- The output fits, and there is that much content to come.
  have hreach := (hadv.reach_eq hinput.length_le).1
  rw [Cursor.reach_of_le le_rfl] at hreach
  have hlen : (s.cursor.content.take
      (greedy s.cursor input.length buf.length).written).length =
        (greedy s.cursor input.length buf.length).written := by
    rw [List.length_take, Nat.min_eq_left hreach]
  have hcopy := take_overwrite buf
    (s.cursor.content.take (greedy s.cursor input.length buf.length).written)
    (by rw [hlen]; exact hadv.written_le)
  rw [hlen] at hcopy
  refine ⟨⟨(greedy s.cursor input.length buf.length).remaining,
    (greedy s.cursor input.length buf.length).read,
    (greedy s.cursor input.length buf.length).written⟩, ?_, ?_, ?_, ?_⟩
  · simp only [reference, if_pos hok]
  · simpa only [reference, if_pos hok] using hadv
  · simpa only [reference, if_pos hok] using hcopy
  · simp only [reference, if_pos hok]

/-- The reading of the reference decoder's states. -/
def referenceDecoding : Decoding reference where
  cursor := RefState.cursor
  stalls := RefState.stalls
  answers s input buf hinput howed _ hstalls := by
    obtain ⟨status, hresult, hadv, hwritten, hcount⟩ :=
      reference_answers s input buf hinput howed hstalls
    exact ⟨status, hresult, hadv, hwritten, hcount.le⟩

/-- The reference decoder decodes every stream, eagerly. -/
theorem reference_decodes (fs : List ZstdFrame) :
    DecodesEagerly reference (RefState.start fs) fs :=
  ⟨referenceDecoding, fun s => s.eager, rfl, rfl⟩

end MmapZstd
