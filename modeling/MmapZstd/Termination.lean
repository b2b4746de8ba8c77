import MmapZstd.Lib.Stutter
import MmapZstd.Window

/-!
# Streaming reads terminate

The loop of `read_streaming` has no counter, and no guard against a call of zstd that neither
consumes nor writes. What bounds its iterations are the bytes of the source that are not consumed
and the number of such calls in a row that zstd makes before it fails: a refill leaves the former
as they are, and a call that goes on without output either consumes some of them or is one of the
latter.

`Iterates` says what one iteration does. The bounds of a read follow by the rules of
`Lib/Loop.lean`: the budget of `Lib/Stutter.lean` pays for the calls and bounds the iterations, and
the blocks of the source that are not copied pay for the refills.
-/

namespace MmapZstd

open Frames Loop Stutter

/-- What a streaming read gives zstd: some input, and an output buffer with room. -/
structure Offer where
  input : List UInt8
  buf : List UInt8
  input_ne : input ≠ []
  buf_ne : buf ≠ []

/-- A raw decoder as a machine on what streaming reads give it. It stutters on a call that succeeds
and neither consumes nor writes. -/
def RawDecoder.machine {σ : Type} (z : RawDecoder σ) : Machine σ Offer where
  next s io := (z.run_on_buffers s io.input io.buf).zstd
  Stutters s io := ∃ status, (z.run_on_buffers s io.input io.buf).result = .ok status ∧
    status.bytes_read = 0 ∧ status.bytes_written = 0

/-- Among consecutive calls with input and room from the state `s` on, at most `K` succeed and
neither consume nor write before one makes progress or fails. -/
def RawDecoder.StallsAtMost {σ : Type} (z : RawDecoder σ) (K : ℕ) (s : σ) : Prop :=
  z.machine.Bounded K s

/-- The reference decoder fails on the sixteenth call in a row without progress. -/
theorem reference_stallsAtMost (s : RefState) : reference.StallsAtMost 15 s := by
  apply Machine.bounded_of_count _ RefState.stalls
  rintro s ⟨input, buf, _, _⟩ ⟨status, hcall, hread, hwritten⟩
  simp only [reference, RawDecoder.machine] at hcall ⊢
  split_ifs at hcall ⊢ with hstall hlimit
  · exact ⟨Nat.lt_of_succ_lt_succ hlimit, rfl⟩
  · cases hcall
    exact absurd ⟨hread, hwritten⟩ hstall

/-- The event is a call of `run_on_buffers`. -/
def Event.isCall : Event → Bool
  | .call .. => true
  | _ => false

/-- The event is a refill of the scratch. -/
def Event.isRefill : Event → Bool
  | .refill .. => true
  | _ => false

/-- The source and the scratch are both exhausted. -/
def StreamingState.Exhausted (state : StreamingState) : Prop :=
  state.scratch_in_pos = state.scratch_len ∧ state.src_mmap.len ≤ state.src_pos

/-- A call is made before the source and the scratch are exhausted. -/
def CallsBeforeEnd (e : Event) : Prop :=
  ∀ site input room result, e = .call site input room result →
    ∃ state, site = .streaming state ∧ ¬ state.Exhausted

/-! ## One iteration -/

/-- What an iteration of the loop leaves, when it starts with `c` bytes consumed of a source of `n`
and with a scratch of `W`. -/
structure Iterates {σ : Type} (z : RawDecoder σ) (n W c : ℕ) (state : StreamingState) (zstd : σ)
    (r : Reading (StreamingState × σ)) : Prop where
  positions : Positions n W (c + consumed r.events) r.state.1
  /-- A refill copies one of the blocks of the source that are left. -/
  refills : r.events.countP Event.isRefill + (n - r.state.1.src_pos) ⌈/⌉ W ≤
    (n - state.src_pos) ⌈/⌉ W
  before_end : ∀ e ∈ r.events, CallsBeforeEnd e
  no_panic : r.outcome ≠ some .panic
  /-- The iteration returns without a call, or makes one call while there is input. It goes on after
  a call that consumed something, or that did not make any progress. -/
  calls : (r.outcome ≠ none ∧ r.events.countP Event.isCall = 0 ∧ r.state.2 = zstd) ∨
    (c < n ∧ r.events.countP Event.isCall = 1 ∧ ∃ io, r.state.2 = z.machine.next zstd io ∧
      (r.outcome = none →
        (z.machine.Stutters zstd io ∧ consumed r.events = 0) ∨ 0 < consumed r.events))

section Iteration

variable {σ : Type} {z : RawDecoder σ} {n W c : ℕ} {state state' : StreamingState} {zstd : σ}
  {r : Reading (StreamingState × σ)}

/-- The second half of an iteration, on a scratch that is not exhausted. -/
theorem Positions.feed (hz : z.Lawful) (h : Positions n W c state)
    (hlt : state.scratch_in_pos < state.scratch_len) (zstd : σ) {buf : List UInt8}
    (hbuf : buf ≠ []) : Iterates z n W c state zstd (feed z state zstd buf) := by
  obtain ⟨input, hslice, hinput_len⟩ := h.input
  have hinput : input ≠ [] := List.ne_nil_of_length_pos (by omega)
  have hconsumed := h.consumed
  have hle := h.src_pos_le
  have hbefore : ∀ room result, CallsBeforeEnd (.call (.streaming state) input room result) := by
    rintro _ _ _ _ _ _ ⟨⟩
    exact ⟨state, rfl, fun hend => hlt.ne hend.1⟩
  cases hcall : (z.run_on_buffers zstd input buf).result with
  | error e =>
    rw [feed_error hslice hcall]
    exact {
      positions := by simpa [Event.read] using h
      refills := by simp [Event.isRefill]
      before_end := by simpa using hbefore _ _
      no_panic := by simp
      calls := .inr ⟨by omega, rfl, ⟨input, buf, hinput, hbuf⟩, rfl, by simp⟩ }
  | ok status =>
    have hread := hz.read_le _ _ _ _ hcall
    rw [feed_ok hslice hcall]
    exact {
      positions := by simpa [Event.read] using h.advance (r := status.bytes_read) (by omega)
      refills := by simp [Event.isRefill]
      before_end := by simpa using hbefore _ _
      no_panic := by
        simp only
        split_ifs <;> simp
      calls := .inr ⟨by omega, rfl, ⟨input, buf, hinput, hbuf⟩, rfl, by
        simp only [consumed_cons, consumed_nil, Event.read, Nat.add_zero]
        intro hnone
        have hwritten : status.bytes_written = 0 := by
          split_ifs at hnone
          omega
        rcases Nat.eq_zero_or_pos status.bytes_read with hzero | hpos
        · exact .inl ⟨⟨status, hcall, hzero, hwritten⟩, hzero⟩
        · exact .inr hpos⟩ }

/-- The first half of an iteration, on any kernel: the end of the source, or a scratch that is not
exhausted, after at most one refill. -/
theorem Positions.refill (k : Kernel) (h : Positions n W c state) (hW : 0 < W) :
    refill (.madvise σ k) state = .eof ∨
      ∃ state' events, refill (.madvise σ k) state = .ready state' events ∧
        Positions n W c state' ∧ state'.scratch_in_pos < state'.scratch_len ∧
        events.countP Event.isRefill + (n - state'.src_pos) ⌈/⌉ W ≤ (n - state.src_pos) ⌈/⌉ W ∧
        ∀ e ∈ events, e.isCall = false := by
  have hn := h.src_len
  have hcap := h.capacity
  have hin := h.in_pos_le
  rcases refill_cases (Retirement.madvise σ k) state with
    ⟨heq, -⟩ | ⟨heq, hne⟩ | ⟨heq, hempty, hmore⟩
  · exact .inl heq
  · exact .inr ⟨state, [], heq, h, by omega, by simp, by simp⟩
  · obtain ⟨hload, hlt⟩ := h.load hW hempty (by omega)
    obtain ⟨m, r, hframe, -, hm⟩ := retireSrc_frame k (MmapZstd.load state)
    have hquiet := retireSrc_events k (MmapZstd.load state)
    refine .inr ⟨_, _, heq, ?_, ?_, ?_, ?_⟩
    · exact hframe ▸ hload.frame hm r
    · exact hframe ▸ hlt
    · -- The copy takes one block of what is left of the source.
      have hpos : (retireSrc k (MmapZstd.load state)).1.src_pos =
          state.src_pos + min (n - state.src_pos) W := by
        rw [hframe, ← hn, ← hcap]
        rfl
      have hnone : (retireSrc k (MmapZstd.load state)).2.countP Event.isRefill = 0 := by
        rw [List.countP_eq_zero]
        intro e he
        obtain ⟨offset, len, rfl⟩ := hquiet e he
        exact Bool.false_ne_true
      have hblock := Align.ceilDiv_sub_min hW (n := n - state.src_pos) (by omega)
      simp only [Retirement.madvise, List.countP_cons, hnone, hpos, ← Nat.sub_sub]
      simp only [Event.isRefill, if_true]
      omega
    · rintro e (_ | ⟨_, he⟩)
      · rfl
      · obtain ⟨offset, len, rfl⟩ := hquiet e he
        rfl

/-- Events without a call report nothing consumed. -/
theorem consumed_eq_zero {events : List Event} (h : ∀ e ∈ events, e.isCall = false) :
    consumed events = 0 := by
  rw [consumed, List.sum_eq_zero_iff_forall_eq_nat]
  intro b hb
  obtain ⟨e, he, rfl⟩ := List.mem_map.mp hb
  cases e with
  | call site input room result => exact absurd (h _ he) (by simp [Event.isCall])
  | refill loaded retired => rfl
  | advise offset len => rfl

/-- Both halves together, when the first makes no call. -/
theorem Iterates.after (h : Iterates z n W c state' zstd r) {events : List Event}
    (hrefills : events.countP Event.isRefill + (n - state'.src_pos) ⌈/⌉ W ≤
      (n - state.src_pos) ⌈/⌉ W)
    (hquiet : ∀ e ∈ events, e.isCall = false) : Iterates z n W c state zstd (r.after events) := by
  have hconsumed : consumed (r.after events).events = consumed r.events := by
    rw [Reading.after, consumed_append, consumed_eq_zero hquiet, Nat.zero_add]
  have hcalls : (r.after events).events.countP Event.isCall = r.events.countP Event.isCall := by
    have hnone : events.countP Event.isCall = 0 := by
      rw [List.countP_eq_zero]
      intro e he
      rw [hquiet e he]
      exact Bool.false_ne_true
    rw [Reading.after, List.countP_append, hnone, Nat.zero_add]
  refine ⟨by rw [hconsumed]; exact h.positions, ?_, ?_, h.no_panic, ?_⟩
  · have hpay := h.refills
    simp only [Reading.after, List.countP_append]
    omega
  · intro e he
    rcases List.mem_append.mp he with he | he
    · rintro site input room result rfl
      exact absurd (hquiet _ he) (by simp [Event.isCall])
    · exact h.before_end e he
  · rw [hconsumed, hcalls]
    exact h.calls

/-- One iteration of the loop. -/
theorem Positions.iterates (hz : z.Lawful) (k : Kernel) (hW : 0 < W) (h : Positions n W c state)
    (zstd : σ) {buf : List UInt8} (hbuf : buf ≠ []) :
    Iterates z n W c state zstd (readStreamingBody z (.madvise σ k) state zstd buf) := by
  rcases h.refill (σ := σ) k hW with heq | ⟨state', events, heq, h', hlt, hrefills, hquiet⟩
  · simp only [readStreamingBody, heq]
    exact ⟨h, by simp, by simp, by simp, .inl ⟨by simp, rfl, rfl⟩⟩
  · simp only [readStreamingBody, heq]
    exact (h'.feed hz hlt zstd hbuf).after hrefills hquiet

/-- An iteration keeps the bound on the calls without progress. -/
theorem Iterates.stallsAtMost (h : Iterates z n W c state zstd r) {K : ℕ}
    (hK : z.StallsAtMost K zstd) : z.StallsAtMost K r.state.2 := by
  rcases h.calls with ⟨-, -, hsame⟩ | ⟨-, -, io, hnext, -⟩
  · rwa [hsame]
  · rw [hnext]
    exact hK.step io

/-- An iteration pays for its call out of the budget for the bytes that are not consumed, and goes
on only after a call. -/
theorem Iterates.allows (h : Iterates z n W c state zstd r) {K budget : ℕ}
    (hbudget : z.machine.Allows K (n - c) budget zstd) :
    r.events.countP Event.isCall ≤ budget ∧
      (r.outcome = none → 0 < r.events.countP Event.isCall ∧
        z.machine.Allows K (n - (c + consumed r.events))
          (budget - r.events.countP Event.isCall) r.state.2) := by
  rcases h.calls with ⟨hends, hnone, -⟩ | ⟨hleft, hone, io, hnext, hmore⟩
  · exact ⟨hnone ▸ Nat.zero_le _, fun houtcome => absurd houtcome hends⟩
  · have hpos := hbudget.pos (by omega)
    refine ⟨by omega, fun houtcome => ⟨by omega, ?_⟩⟩
    rw [hone, hnext]
    apply hbudget.step (by omega)
    rcases hmore houtcome with ⟨hstutters, hzero⟩ | hconsumed
    · exact .inl ⟨hstutters, by omega⟩
    · exact .inr (by omega)

end Iteration

/-! ## One read -/

section Read

variable {σ : Type} {z : RawDecoder σ} {K n W c : ℕ} {state : StreamingState} {zstd : σ}

/-- The invariant of the loop: a buffer with room, the cursors, and a budget for the bytes that are
not consumed. -/
def Budgeted (z : RawDecoder σ) (K n W budget : ℕ) (s : (StreamingState × σ) × List UInt8) : Prop :=
  s.2 ≠ [] ∧ ∃ c, Positions n W c s.1.1 ∧ z.machine.Allows K (n - c) budget s.1.2

/-- The budget at the start. -/
theorem Positions.budgeted (h : Positions n W c state) (hK : z.StallsAtMost K zstd)
    {buf : List UInt8} (hbuf : buf ≠ []) :
    Budgeted z K n W ((K + 1) * (n - c)) ((state, zstd), buf) :=
  ⟨hbuf, c, h, hK.allows (n - c)⟩

/-- A turn of the loop pays for its calls out of the budget. -/
theorem Budgeted.turn (hz : z.Lawful) (k : Kernel) (hW : 0 < W) {budget : ℕ}
    {s : (StreamingState × σ) × List UInt8} (h : Budgeted z K n W budget s) :
    (turn z (.madvise σ k) s).events.countP Event.isCall ≤ budget ∧
      ((turn z (.madvise σ k) s).result = none →
        0 < (turn z (.madvise σ k) s).events.countP Event.isCall ∧
        Budgeted z K n W (budget - (turn z (.madvise σ k) s).events.countP Event.isCall)
          (turn z (.madvise σ k) s).state) := by
  obtain ⟨hbuf, c, hpos, hbudget⟩ := h
  have hiter := hpos.iterates hz k hW s.1.2 hbuf
  obtain ⟨hle, hmore⟩ := hiter.allows hbudget
  refine ⟨hle, fun hresult => ?_⟩
  obtain ⟨hcalls, hrest⟩ := hmore hresult
  exact ⟨hcalls, turn_ne_nil hbuf, _, hiter.positions, hrest⟩

/-- A read makes at most `K + 1` calls for each byte that is not consumed. -/
theorem readStreaming_calls_le (hz : z.Lawful) (k : Kernel) (hW : 0 < W)
    (h : Positions n W c state) (hK : z.StallsAtMost K zstd) (fuel : ℕ) {buf : List UInt8}
    (hbuf : buf ≠ []) :
    (readStreaming z (.madvise σ k) fuel state zstd buf).events.countP Event.isCall ≤
      (K + 1) * (n - c) := by
  rw [readStreaming_eq]
  refine run_countP_le (turn z (.madvise σ k)) (Budgeted z K n W) Event.isCall ?_ fuel _ _
    (h.budgeted hK hbuf)
  intro budget s hs
  obtain ⟨hle, hmore⟩ := hs.turn hz k hW
  exact ⟨_, (Nat.add_sub_cancel' hle).le, fun hresult => (hmore hresult).2⟩

/-- A read ends, within more iterations than that. -/
theorem readStreaming_ends (hz : z.Lawful) (k : Kernel) (hW : 0 < W) (h : Positions n W c state)
    (hK : z.StallsAtMost K zstd) {fuel : ℕ} (hfuel : (K + 1) * (n - c) < fuel)
    {buf : List UInt8} (hbuf : buf ≠ []) :
    ∃ o, (readStreaming z (.madvise σ k) fuel state zstd buf).outcome = some o := by
  rw [readStreaming_eq]
  refine run_ends (turn z (.madvise σ k)) (Budgeted z K n W) ?_ (h.budgeted hK hbuf) hfuel
  intro budget s hs hresult
  obtain ⟨hle, hmore⟩ := hs.turn hz k hW
  obtain ⟨hcalls, hnext⟩ := hmore hresult
  exact ⟨_, by omega, hnext⟩

/-- A read refills the scratch at most once for each block of the source that is not copied. -/
theorem readStreaming_refills_le (hz : z.Lawful) (k : Kernel) (hW : 0 < W)
    (h : Positions n W c state) (zstd : σ) (fuel : ℕ) {buf : List UInt8} (hbuf : buf ≠ []) :
    (readStreaming z (.madvise σ k) fuel state zstd buf).events.countP Event.isRefill ≤
      (n - state.src_pos) ⌈/⌉ W := by
  rw [readStreaming_eq]
  refine run_countP_le (turn z (.madvise σ k))
    (fun blocks s => s.2 ≠ [] ∧ ∃ c, Positions n W c s.1.1 ∧ (n - s.1.1.src_pos) ⌈/⌉ W = blocks)
    Event.isRefill ?_ fuel _ _ ⟨hbuf, c, h, rfl⟩
  rintro _ s ⟨hbuf, c, hpos, rfl⟩
  have hiter := hpos.iterates hz k hW s.1.2 hbuf
  exact ⟨_, hiter.refills, fun _ => ⟨turn_ne_nil hbuf, _, hiter.positions, rfl⟩⟩

/-- A read makes no call at the end of the source, and does not panic. -/
theorem readStreaming_before_end (hz : z.Lawful) (k : Kernel) (hW : 0 < W)
    (h : Positions n W c state) (zstd : σ) (fuel : ℕ) {buf : List UInt8} (hbuf : buf ≠ []) :
    (∀ e ∈ (readStreaming z (.madvise σ k) fuel state zstd buf).events, CallsBeforeEnd e) ∧
      ∀ o ∈ (readStreaming z (.madvise σ k) fuel state zstd buf).outcome, o ≠ .panic := by
  have hrun := readStreaming_rule (z := z) (R := .madvise σ k)
    (Q := fun log state _ => (∀ e ∈ log, CallsBeforeEnd e) ∧ ∃ c, Positions n W c state)
    (fun o => o ≠ .panic) ?_ fuel [] state zstd hbuf ⟨by simp, c, h⟩
  · exact ⟨hrun.1.1, hrun.2⟩
  · rintro log state zstd buf hbuf ⟨hlog, c, hpos⟩
    have hiter := hpos.iterates hz k hW zstd hbuf
    refine ⟨⟨?_, _, hiter.positions⟩, ?_⟩
    · intro e he
      rcases List.mem_append.mp he with he | he
      · exact hlog e he
      · exact hiter.before_end e he
    · rintro o ho rfl
      exact hiter.no_panic ho

/-- A read on the streaming variant returns, and what is left of the source bounds its calls and its
refills. -/
theorem read_bounded (hz : z.Lawful) (k : Kernel) (hW : 0 < W) {d : Decoder σ}
    (hd : d.buf = .streaming state) (h : Positions n W c state) (hK : z.StallsAtMost K d.zstd)
    (fuel : ℕ) (buf : List UInt8) :
    ((K + 1) * (n - c) < fuel →
        ∃ o, (d.read z (.madvise σ k) fuel buf).outcome = some o ∧ o ≠ .panic) ∧
      (d.read z (.madvise σ k) fuel buf).events.countP Event.isCall ≤ (K + 1) * (n - c) ∧
      (d.read z (.madvise σ k) fuel buf).events.countP Event.isRefill ≤
        (n - state.src_pos) ⌈/⌉ W ∧
      ∀ e ∈ (d.read z (.madvise σ k) fuel buf).events, CallsBeforeEnd e := by
  rcases eq_or_ne buf [] with rfl | hbuf
  · rw [read_nil]
    exact ⟨fun _ => ⟨_, rfl, by simp⟩, Nat.zero_le _, Nat.zero_le _, by simp⟩
  · obtain ⟨hbefore, hgood⟩ := readStreaming_before_end hz k hW h d.zstd fuel hbuf
    rw [read_streaming hd hbuf]
    refine ⟨fun hfuel => ?_, readStreaming_calls_le hz k hW h hK fuel hbuf,
      readStreaming_refills_le hz k hW h d.zstd fuel hbuf, hbefore⟩
    obtain ⟨o, ho⟩ := readStreaming_ends hz k hW h hK hfuel hbuf
    exact ⟨o, ho, hgood o ho⟩

end Read

/-! ## Sessions -/

/-- The cursors and zstd's patience after a session of reads. -/
theorem session_positions {σ : Type} {z : RawDecoder σ} (hz : z.Lawful) {K : ℕ} {zstd : σ}
    (hK : z.StallsAtMost K zstd) (k : Kernel) (src : Mmap) (ptr : ℕ) (mem : List UInt8)
    (hW : 0 < mem.length) (reads : List (ℕ × List UInt8)) :
    let s := session z (.madvise σ k) reads
      (.new (.streaming (.new src (.scratch ptr mem))) zstd)
    ∃ state, s.decoder.buf = .streaming state ∧
      Positions src.len mem.length (consumed s.events) state ∧
      z.StallsAtMost K s.decoder.zstd := by
  have hrun := session_streaming_rule (z := z) (R := .madvise σ k)
    (Q := fun log state zstd =>
      Positions src.len mem.length (consumed log) state ∧ z.StallsAtMost K zstd)
    (fun _ => True) trivial ?_ reads [] (.new (.streaming (.new src (.scratch ptr mem))) zstd) _ rfl
    ⟨.new src ptr mem, hK⟩
  · exact hrun.1
  · rintro log state zstd buf hbuf ⟨hpos, hpatience⟩
    have hiter := hpos.iterates hz k hW zstd hbuf
    refine ⟨⟨?_, hiter.stallsAtMost hpatience⟩, fun _ _ => trivial⟩
    rw [consumed_append]
    exact hiter.positions

/-- Every streaming read terminates, on any source. With a lawful decoder that answers at most `K`
consecutive calls without progress, on any kernel, with any scratch, and after any reads, a read
with `r` bytes of the source not consumed returns within `(K + 1) * (r + 1) + 1` iterations of its
loop and does not panic. It calls zstd at most `(K + 1) * (r + 1)` times, and never when the source
and the scratch are both exhausted, and it refills the scratch at most once more than there are
blocks of the scratch's size in the `r` bytes. -/
theorem streaming_read_terminates {σ : Type} (z : RawDecoder σ) (hz : z.Lawful) {K : ℕ} {zstd : σ}
    (hK : z.StallsAtMost K zstd) (k : Kernel) (src : Mmap) (ptr : ℕ) (mem : List UInt8)
    (hW : 0 < mem.length) (reads : List (ℕ × List UInt8)) (buf : List UInt8) :
    let s := session z (.madvise σ k) reads
      (.new (.streaming (.new src (.scratch ptr mem))) zstd)
    let r := src.len - consumed s.events
    let read (fuel : ℕ) := s.decoder.read z (.madvise σ k) fuel buf
    (∀ fuel, (K + 1) * (r + 1) < fuel → ∃ o, (read fuel).outcome = some o ∧ o ≠ .panic) ∧
      ∀ fuel, (read fuel).events.countP Event.isCall ≤ (K + 1) * (r + 1) ∧
        (read fuel).events.countP Event.isRefill ≤ r ⌈/⌉ mem.length + 1 ∧
        ∀ e ∈ (read fuel).events, CallsBeforeEnd e := by
  intro s r read
  obtain ⟨state, hbuf, hpos, hpatience⟩ := session_positions hz hK k src ptr mem hW reads
  have hbound := read_bounded hz k hW hbuf hpos hpatience
  have hcalls : (K + 1) * r ≤ (K + 1) * (r + 1) := Nat.mul_le_mul_left _ (Nat.le_succ r)
  constructor
  · exact fun fuel hfuel => (hbound fuel buf).1 (lt_of_le_of_lt hcalls hfuel)
  · intro fuel
    obtain ⟨-, hcalls_le, hrefills_le, hbefore⟩ := hbound fuel buf
    refine ⟨hcalls_le.trans hcalls, ?_, hbefore⟩
    -- What is not copied is not consumed.
    have hconsumed : consumed s.events + (state.scratch_len - state.scratch_in_pos) =
      state.src_pos := hpos.consumed
    have hleft : src.len - state.src_pos ≤ r := by omega
    calc (read fuel).events.countP Event.isRefill ≤ (src.len - state.src_pos) ⌈/⌉ mem.length :=
          hrefills_le
      _ ≤ r ⌈/⌉ mem.length := (gc_smul_ceilDiv hW).monotone_l hleft
      _ ≤ r ⌈/⌉ mem.length + 1 := Nat.le_succ _

/-- A source cut inside its frame, through a window of four bytes, after a read of two bytes. -/
theorem streaming_read_terminates_cut :
    let s := session reference (.madvise RefState .file) [(5, [0, 0])]
      (.new (.streaming (.new ⟨0, (rawFrame hello).bytes.take 12, by decide⟩
        (.scratch 0 [0, 0, 0, 0]))) (.start [rawFrame hello]))
    ∀ fuel, 208 < fuel → ∃ o,
      (s.decoder.read reference (.madvise RefState .file) fuel [0, 0]).outcome = some o ∧
        o ≠ .panic := by
  intro s fuel hfuel
  refine (streaming_read_terminates reference reference_lawful (reference_stallsAtMost _) .file
    ⟨0, (rawFrame hello).bytes.take 12, by decide⟩ 0 [0, 0, 0, 0] (by decide) [(5, [0, 0])]
    [0, 0]).1 fuel (lt_of_le_of_lt ?_ hfuel)
  exact Nat.mul_le_mul_left 16 (Nat.succ_le_succ (Nat.sub_le 12 _))

end MmapZstd
