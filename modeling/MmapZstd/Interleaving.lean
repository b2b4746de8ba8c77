import MmapZstd.Lib.Stops
import MmapZstd.Opening
import MmapZstd.Prefixes

/-!
# Decoders that are used side by side

A program opens any files with any of the five constructors, and reads and drops the decoders that
it holds in any order, into buffers of any sizes. `Client` keeps, with a decoder that is held, the
stream that its file was and the results of its reads so far; it is what the caller knows.

Whatever the order of the calls, each decoder is faithful to its own file (`interleaved_faithful`):
every read returns a count within its buffer, what was delivered is a prefix of the content, and an
`Ok(0)` into a buffer with room says that all of the content was delivered. On a whole buffer, the
last is true of the first `Ok(0)` because no frame without content comes before the last frame, and
of the later ones because nothing is left.
-/

namespace MmapZstd

open Frames

variable {σ : Type} {z : RawDecoder σ}

/-- A decoder that is held, with the stream that its file was and the results of its reads. -/
structure Client (σ : Type) where
  fs : List ZstdFrame
  decoder : Decoder σ
  results : List (Option (Outcome ℕ) × List UInt8)

/-- A call of the program. Reads and drops are of the decoder at an index. -/
inductive Move (σ : Type)
  | opening (fs : List ZstdFrame) (o : Opening σ)
  | read (i fuel : ℕ) (buf : List UInt8)
  | drop (i : ℕ)

/-- The decoder that a constructor returns, if it does. -/
def Client.opened (b : Build) (fs : List ZstdFrame) (o : Opening σ) : List (Client σ) :=
  match (o.act b).outcome with
  | .ok d => [⟨fs, d, []⟩]
  | .err _ => []
  | .panic => []

/-- A read of the decoder. -/
def Client.read (z : RawDecoder σ) (k : Kernel) (fuel : ℕ) (buf : List UInt8) (c : Client σ) :
    Client σ :=
  let r := c.decoder.read z (.madvise σ k) fuel buf
  { c with decoder := r.state, results := c.results ++ [(r.outcome, r.buf)] }

/-- The decoders that are held after a call. -/
def Move.serve (b : Build) (z : RawDecoder σ) (k : Kernel) (clients : List (Client σ)) :
    Move σ → List (Client σ)
  | .opening fs o => clients ++ Client.opened b fs o
  | .read i fuel buf => clients.modify i (Client.read z k fuel buf)
  | .drop i => clients.eraseIdx i

/-- A constructor sees the stream, in which no frame without content comes before the last, and a
read has a bound that no source exceeds. -/
def Move.Sees (z : RawDecoder σ) : Move σ → Prop
  | .opening fs o => ¬ Hidden fs ∧ (encoded fs).length ≤ isizeMax ∧
      o.Sees (encoded fs) fun s => DecodesEagerly z s fs
  | .read _ fuel _ => isizeMax < fuel
  | .drop _ => True

/-- The decoder is faithful to its file. -/
structure Client.Faithful (c : Client σ) : Prop where
  returned : ∀ r ∈ c.results, Returned r
  delivered_isPrefix : delivered c.results <+: decoded c.fs
  complete : c.results.any endOfFile → delivered c.results = decoded c.fs

/-! ## Whole buffers -/

section Whole

variable {D : Decoding z} {fs : List ZstdFrame} {d : Decoder σ}
  {results : List (Option (Outcome ℕ) × List UInt8)}

/-- The invariant of a session on a whole buffer that holds a whole stream: before an end of file,
no frame is unfinished with its content out, and none is hidden; after one, none is left. -/
structure WholeServing (D : Decoding z) (fs : List ZstdFrame)
    (results : List (Option (Outcome ℕ) × List UInt8)) (d : Decoder σ) : Prop where
  session : WholeSession D fs (encoded fs) results d
  going : ¬ results.any endOfFile → (D.cursor d.zstd).Unfinished (D.cursor d.zstd).bytes.length ∧
    ¬ Hidden (D.cursor d.zstd).frames
  ended : results.any endOfFile → (D.cursor d.zstd).frames = []

/-- What is left of the buffer is what is left of the stream. -/
theorem WholeAt.left_eq (h : WholeAt D fs (encoded fs) d) :
    (encoded fs).length - d.in_pos = (D.cursor d.zstd).bytes.length := by
  rw [h.bytes_eq, List.length_drop]

/-- A read keeps the invariant. -/
theorem WholeServing.read (h : WholeServing D fs results d) (heager : ∀ s, (D.cursor s).Eager)
    (hends : results.countP endOfFile + 1 < stallLimit) (fuel : ℕ) (buf : List UInt8) :
    WholeServing D fs
      (results ++ [((d.read z (.madvise σ .file) fuel buf).outcome,
        (d.read z (.madvise σ .file) fuel buf).buf)])
      (d.read z (.madvise σ .file) fuel buf).state := by
  obtain ⟨hsession, hgoing, hended⟩ := h
  have hsession' := hsession.read (List.prefix_refl _) hends fuel buf
  rcases eq_or_ne buf [] with rfl | hbuf
  · -- A read into an empty buffer does nothing.
    rw [read_nil] at hsession' ⊢
    refine ⟨hsession', ?_, ?_⟩
    · simpa using hgoing
    · simpa using hended
  have hplace := hsession.place
  have hstalls := hsession.stalls_le
  obtain ⟨status, d', hstate, hout, hlen, hplace', -, hadv, -⟩ :=
    hplace.read (List.prefix_refl _) (by omega) hbuf fuel
  rw [hplace.left_eq] at hadv
  rw [hstate, hout] at hsession' ⊢
  generalize (d.read z (.madvise σ .file) fuel buf).buf = buf' at hlen hsession' ⊢
  have hbuf' : buf' ≠ [] := List.ne_nil_of_length_pos (hlen ▸ List.length_pos_of_ne_nil hbuf)
  have hend : endOfFile (some (.ok status.bytes_written), buf') = true ↔
      status.bytes_written = 0 := by
    simp [hbuf']
  -- After the read, all is finished when it was the end or there was one before.
  have hfinished : results.any endOfFile ∨ status.bytes_written = 0 →
      (D.cursor d'.zstd).frames = [] := by
    intro hor
    by_cases hany : results.any endOfFile = true
    · have hbytes := hadv.bytes_eq
      unfold Cursor.bytes at hbytes
      apply Cursor.frames_of_bytes
      unfold Cursor.bytes
      rw [hbytes, hended hany]
      simp
    · have hw := hor.resolve_left hany
      obtain ⟨hunfinished, hhidden⟩ := hgoing hany
      rw [hw] at hadv
      exact (hadv.ends_iff (List.length_pos_of_ne_nil hbuf) hunfinished).mpr hhidden
  refine ⟨hsession', fun hnone => ?_, fun hsome => ?_⟩
  · rw [List.any_append, List.any_cons, List.any_nil, Bool.or_false, Bool.or_eq_true, hend,
      not_or] at hnone
    obtain ⟨hany, hw⟩ := hnone
    have hleft := congrArg List.length hadv.bytes_eq
    rw [List.length_drop] at hleft
    refine ⟨hleft ▸ hadv.unfinished (heager d'.zstd), ?_⟩
    rw [hadv.hidden_iff (Nat.pos_of_ne_zero hw)]
    exact (hgoing hany).2
  · rw [List.any_append, List.any_cons, List.any_nil, Bool.or_false, Bool.or_eq_true, hend] at hsome
    exact hfinished hsome

/-- A session on a whole buffer is faithful. -/
theorem WholeServing.faithful (h : WholeServing D fs results d) :
    (⟨fs, d, results⟩ : Client σ).Faithful := by
  obtain ⟨⟨hplace, -, hdelivered, hreturned⟩, -, hended⟩ := h
  rw [decodedBy_of_le le_rfl] at hdelivered
  refine ⟨hreturned, ⟨_, hdelivered.symm⟩, fun hany => ?_⟩
  have hrest : WholeAt.rest D (encoded fs) d = [] := Cursor.reach_of_frames (hended hany) _
  rw [hrest, List.append_nil] at hdelivered
  exact hdelivered.symm

end Whole

/-! ## Windows -/

/-- A session through a window is faithful. -/
theorem StreamSession.faithful {D : Decoding z} {fs : List ZstdFrame} {d : Decoder σ} {W : ℕ}
    {results : List (Option (Outcome ℕ) × List UInt8)}
    (h : StreamSession D fs (encoded fs) W results d) :
    (⟨fs, d, results⟩ : Client σ).Faithful := by
  obtain ⟨state, c, -, -, hdelivered, -⟩ := h.place
  rw [decodedBy_of_le le_rfl] at hdelivered
  exact ⟨h.returned, ⟨_, hdelivered.symm⟩, h.complete⟩

/-! ## Any of them -/

/-- The invariant of a decoder that is held. On a whole buffer, it is about reads of which not too
many have answered `Ok(0)`. -/
inductive Client.Served (z : RawDecoder σ) (c : Client σ) : Prop
  | window (D : Decoding z) (W : ℕ) (room : 0 < W) (len_le : (encoded c.fs).length ≤ isizeMax)
      (session : StreamSession D c.fs (encoded c.fs) W c.results c.decoder)
  | whole (D : Decoding z) (eager : ∀ s, (D.cursor s).Eager)
      (serving : c.results.countP endOfFile + 1 < stallLimit →
        WholeServing D c.fs c.results c.decoder)

/-- A decoder that a constructor returns. -/
theorem Client.opened_served {b : Build} {fs : List ZstdFrame} {o : Opening σ} (hfs : ¬ Hidden fs)
    (hlen : (encoded fs).length ≤ isizeMax)
    (hsees : o.Sees (encoded fs) fun s => DecodesEagerly z s fs) :
    ∀ c ∈ Client.opened b fs o, c.Served z := by
  unfold Client.opened
  cases hd : (o.act b).outcome with
  | err e => simp
  | panic => simp
  | ok d =>
    rw [List.forall_mem_singleton]
    cases Opening.opened hsees hlen hd with
    | whole buf zstd hbuf hz =>
      obtain ⟨D, heager, hs, hstalls⟩ := hz
      refine .whole D heager fun _ => ⟨.new hbuf hs hstalls, fun _ => ?_, by simp⟩
      simp only [Decoder.new, hs]
      exact ⟨Cursor.start_unfinished _ _, hfs⟩
    | window src ptr mem zstd hsrc hroom hz =>
      obtain ⟨D, -, hs, hstalls⟩ := hz
      have hsession := StreamSession.new src ptr mem hs hstalls
      rw [hsrc] at hsession
      exact .window D mem.length hroom hlen hsession

/-- A read keeps the invariant. -/
theorem Client.Served.read {c : Client σ} (h : c.Served z) {fuel : ℕ} (hfuel : isizeMax < fuel)
    (buf : List UInt8) : (c.read z .file fuel buf).Served z := by
  cases h with
  | window D W hroom hlen hsession =>
    have hread := hsession.read (List.prefix_refl _) hroom (hlen.trans_lt hfuel) buf
    exact .window D W hroom hlen hread
  | whole D heager hserving =>
    refine .whole D heager fun hends => ?_
    have hle : c.results.countP endOfFile + 1 < stallLimit := by
      simp only [Client.read, List.countP_append] at hends
      omega
    exact (hserving hle).read heager hle fuel buf

/-- A decoder that is held is faithful. -/
theorem Client.Served.faithful {c : Client σ} (h : c.Served z)
    (hends : c.results.countP endOfFile + 1 < stallLimit) : c.Faithful := by
  cases h with
  | window D W _ _ hsession => exact hsession.faithful
  | whole D _ hserving => exact (hserving hends).faithful

/-- A call keeps the invariant of every decoder that is held. -/
theorem Move.serve_served {b : Build} {clients : List (Client σ)} {m : Move σ}
    (hm : m.Sees z) (h : ∀ c ∈ clients, c.Served z) :
    ∀ c ∈ m.serve b z .file clients, c.Served z := by
  cases m with
  | opening fs o =>
    obtain ⟨hfs, hlen, hsees⟩ := hm
    unfold Move.serve
    rw [List.forall_mem_append]
    exact ⟨h, Client.opened_served hfs hlen hsees⟩
  | read i fuel buf =>
    -- The decoder at the index is read, and the others are what they were.
    intro c hc
    obtain ⟨j, hj, rfl⟩ := List.mem_iff_getElem.mp hc
    simp only [Move.serve, List.getElem_modify]
    split
    · exact (h _ (List.getElem_mem _)).read hm buf
    · exact h _ (List.getElem_mem _)
  | drop i => exact fun c hc => h c (List.mem_of_mem_eraseIdx hc)

/-- Whatever a program opens, reads and drops, and in whichever order, each decoder that it holds is
faithful to its own file, so long as fewer than fifteen of its reads have answered `Ok(0)`. -/
theorem interleaved_faithful (b : Build) (z : RawDecoder σ) (moves : List (Move σ))
    (hmoves : ∀ m ∈ moves, m.Sees z) :
    ∀ c ∈ moves.foldl (Move.serve b z .file) [],
      c.results.countP endOfFile + 1 < stallLimit → c.Faithful := by
  have hserved : ∀ c ∈ moves.foldl (Move.serve b z .file) [], c.Served z := by
    -- On the last call.
    induction moves using List.reverseRecOn with
    | nil => simp
    | append_singleton moves m ih =>
      rw [List.forall_mem_append] at hmoves
      rw [List.foldl_append]
      exact Move.serve_served (hmoves.2 m (List.mem_singleton_self _)) (ih hmoves.1)
  exact fun c hc => (hserved c hc).faithful

/-- A file with one frame can be mapped. -/
theorem length_hello_le : (encoded [rawFrame hello]).length ≤ isizeMax := by decide

/-- A slice and a mapping with the same frame are read in turn, the slice is dropped, and the
mapping is read past its end. -/
def inTurn : List (Move RefState) :=
  [.opening [rawFrame hello]
      (.fromSlice (encoded [rawFrame hello]) (.ok (.start [rawFrame hello]))),
    .opening [rawFrame hello]
      (.fromMmap ⟨0x7F0000000000, encoded [rawFrame hello], length_hello_le⟩
        ⟨.ok (), .ok (), .ok (.start [rawFrame hello])⟩),
    .read 0 (isizeMax + 1) [0, 0], .read 1 (isizeMax + 1) [0, 0, 0],
    .read 0 (isizeMax + 1) [0, 0], .drop 0, .read 0 (isizeMax + 1) [0, 0, 0],
    .read 0 (isizeMax + 1) [0, 0, 0]]

/-- The mapping is left, and all of its content was delivered. -/
theorem interleaved_faithful_inTurn : ∃ c,
    inTurn.foldl (Move.serve .release reference .file) [] = [c] ∧ delivered c.results = hello := by
  have hstart : ∀ s, (.ok (.start [rawFrame hello]) : Except IoError RefState) = .ok s →
      DecodesEagerly reference s [rawFrame hello] := by
    rintro s ⟨⟩
    exact reference_decodes _
  have hhidden : ¬ Hidden [rawFrame hello] := by simp [Hidden]
  have hsees : ∀ m ∈ inTurn, m.Sees reference := by
    unfold inTurn
    simp only [List.forall_mem_cons, List.not_mem_nil, false_imp_iff, implies_true, and_true]
    refine ⟨⟨hhidden, length_hello_le, rfl, hstart⟩, ⟨hhidden, length_hello_le, rfl, hstart⟩, ?_⟩
    simp [Move.Sees]
  obtain ⟨c, hc⟩ : ∃ c, inTurn.foldl (Move.serve .release reference .file) [] = [c] := ⟨_, rfl⟩
  have hfs : (inTurn.foldl (Move.serve .release reference .file) []).map Client.fs =
      [[rawFrame hello]] := rfl
  have hends : ∀ c ∈ inTurn.foldl (Move.serve .release reference .file) [],
      c.results.countP endOfFile + 1 < stallLimit ∧ c.results.any endOfFile := by decide
  have hfaithful := interleaved_faithful .release reference inTurn hsees
  rw [hc] at hfs hends hfaithful
  obtain ⟨hfew, hany⟩ := hends c (List.mem_singleton_self c)
  refine ⟨c, hc, ((hfaithful c (List.mem_singleton_self c) hfew).complete hany).trans ?_⟩
  rw [List.singleton_inj.mp hfs]
  rfl

end MmapZstd
