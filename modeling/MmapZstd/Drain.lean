import MmapZstd.Session

/-!
# Reading to the end

`drain` makes reads until the first whose result is not `Ok(n)` with `n > 0`, as `read_to_end` and
`io::copy` do, and collects the bytes delivered and the events. `DrainsTo` says how such a run ends,
for every large enough bound on its reads and loop iterations, so it says that the run ends.

`drain_rule` is the induction over a run. Its invariant speaks of a decoder, of how much input it
has left, and of the bytes that it can still deliver; every read takes its bytes from the front of
these. `drain_invariant` takes a property of the events and the decoder through a run that ends.
-/

namespace MmapZstd

variable {σ : Type}

/-- What reading to the first result that is not `Ok(n)` with `n > 0` leaves. -/
structure Drained (σ : Type) where
  /-- The bytes delivered by the reads before that result. -/
  delivered : List UInt8
  /-- The result that ended the run. -/
  last : Outcome ℕ
  decoder : Decoder σ
  /-- The events of all reads. -/
  events : List Event

section Drain

variable (z : RawDecoder σ) (R : Retirement σ)

/-- Reads with the caller's buffers `bufs` until the first result that is not `Ok(n)` with
`n > 0`; `none` when `fuel` reads and loop iterations are not enough. -/
def drain : ℕ → Decoder σ → (ℕ → List UInt8) → Option (Drained σ)
  | 0, _, _ => none
  | fuel + 1, d, bufs =>
    let r := d.read z R (fuel + 1) (bufs 0)
    match r.outcome with
    | none => none
    | some (.ok (n + 1)) =>
      (drain fuel r.state fun i => bufs (i + 1)).map fun rest =>
        { rest with
          delivered := r.buf.take (n + 1) ++ rest.delivered
          events := r.events ++ rest.events }
    | some o => some ⟨[], o, r.state, r.events⟩

/-- Reading to the end ends, and in a way of which `Q` holds. -/
def DrainsTo (d : Decoder σ) (bufs : ℕ → List UInt8) (Q : Drained σ → Prop) : Prop :=
  ∃ bound, ∀ fuel, bound < fuel → ∃ r, drain z R fuel d bufs = some r ∧ Q r

end Drain

variable {z : RawDecoder σ} {R : Retirement σ}

/-- A run ends in one way only, so what is said of its end can be put together. -/
theorem DrainsTo.and {d : Decoder σ} {bufs : ℕ → List UInt8} {P Q : Drained σ → Prop}
    (hP : DrainsTo z R d bufs P) (hQ : DrainsTo z R d bufs Q) :
    DrainsTo z R d bufs fun r => P r ∧ Q r := by
  obtain ⟨b, hb⟩ := hP
  obtain ⟨b', hb'⟩ := hQ
  refine ⟨max b b', fun fuel hfuel => ?_⟩
  obtain ⟨r, hr, hPr⟩ := hb fuel (by omega)
  obtain ⟨r', hr', hQr⟩ := hb' fuel (by omega)
  obtain rfl : r = r' := Option.some.inj (hr.symm.trans hr')
  exact ⟨r, hr, hPr, hQr⟩

/-- A weaker statement about the end. -/
theorem DrainsTo.mono {d : Decoder σ} {bufs : ℕ → List UInt8} {P Q : Drained σ → Prop}
    (hP : DrainsTo z R d bufs P) (h : ∀ r, P r → Q r) : DrainsTo z R d bufs Q := by
  obtain ⟨b, hb⟩ := hP
  refine ⟨b, fun fuel hfuel => ?_⟩
  obtain ⟨r, hr, hPr⟩ := hb fuel hfuel
  exact ⟨r, hr, h r hPr⟩

/-- What holds of the end holds of something. -/
theorem DrainsTo.exists {d : Decoder σ} {bufs : ℕ → List UInt8} {Q : Drained σ → Prop}
    (h : DrainsTo z R d bufs Q) : ∃ r, Q r := by
  obtain ⟨b, hb⟩ := h
  obtain ⟨r, -, hQ⟩ := hb (b + 1) (by omega)
  exact ⟨r, hQ⟩

/-- The induction over a run. `I left d rest` says that the decoder has `left` bytes of input and
can still deliver `rest`, and `Ends d rest` that it has stopped with `rest` undelivered. Every read,
with a bound above what is left of both, stops or delivers bytes from the front of `rest`. -/
theorem drain_rule {Ends : Decoder σ → List UInt8 → Prop} (Room : List UInt8 → Prop)
    (I : ℕ → Decoder σ → List UInt8 → Prop)
    (hread : ∀ left d rest buf fuel, I left d rest → Room buf → left + rest.length < fuel →
      ((d.read z R fuel buf).outcome = some (.ok 0) ∧ Ends (d.read z R fuel buf).state rest) ∨
      ∃ n left' rest', (d.read z R fuel buf).outcome = some (.ok (n + 1)) ∧
        rest = (d.read z R fuel buf).buf.take (n + 1) ++ rest' ∧
        left' + rest'.length < left + rest.length ∧ I left' (d.read z R fuel buf).state rest')
    {left : ℕ} {d : Decoder σ} {rest : List UInt8} (h : I left d rest) {bufs : ℕ → List UInt8}
    (hbufs : ∀ i, Room (bufs i)) :
    DrainsTo z R d bufs fun r => r.last = .ok 0 ∧ ∃ rest', rest = r.delivered ++ rest' ∧
      Ends r.decoder rest' := by
  -- Every read that does not stop shortens what is left, so this many reads are enough.
  refine ⟨left + rest.length, fun fuel hfuel => ?_⟩
  induction fuel generalizing left d rest bufs with
  | zero => omega
  | succ fuel ih =>
    rw [drain]
    rcases hread left d rest (bufs 0) (fuel + 1) h (hbufs 0) hfuel with
      ⟨hout, hends⟩ | ⟨n, left', rest', hout, hrest, hless, hI⟩
    · exact ⟨⟨[], .ok 0, _, _⟩, by rw [hout], rfl, rest, rfl, hends⟩
    · obtain ⟨r, hr, hlast, rest'', hrest', hends⟩ :=
        ih hI (fun i => hbufs (i + 1)) (by omega)
      refine ⟨{ r with
        delivered := (d.read z R (fuel + 1) (bufs 0)).buf.take (n + 1) ++ r.delivered
        events := (d.read z R (fuel + 1) (bufs 0)).events ++ r.events },
        ?_, hlast, rest'', ?_, hends⟩
      · rw [hout]
        simp only [hr, Option.map_some]
      · rw [hrest, hrest', List.append_assoc]

/-- A property of the events and the decoder that every read keeps holds at the end of a run. -/
theorem drain_invariant (Room : List UInt8 → Prop) {P : List Event → Decoder σ → Prop}
    (hread : ∀ log d fuel buf, P log d → Room buf →
      P (log ++ (d.read z R fuel buf).events) (d.read z R fuel buf).state)
    {fuel : ℕ} {d : Decoder σ} {bufs : ℕ → List UInt8} {r : Drained σ}
    (h : drain z R fuel d bufs = some r) (hbufs : ∀ i, Room (bufs i)) (log : List Event)
    (hP : P log d) : P (log ++ r.events) r.decoder := by
  induction fuel generalizing d bufs r log with
  | zero => cases h
  | succ fuel ih =>
    have hstep := hread log d (fuel + 1) (bufs 0) hP (hbufs 0)
    unfold drain at h
    generalize d.read z R (fuel + 1) (bufs 0) = read at h hstep
    obtain ⟨d', buf, outcome, events⟩ := read
    cases outcome with
    | none => cases h
    | some o =>
      cases o with
      | ok n =>
        cases n with
        | zero =>
          cases h
          exact hstep
        | succ n =>
          obtain ⟨rest, hrest, rfl⟩ := Option.map_eq_some_iff.mp h
          rw [← List.append_assoc]
          exact ih hrest (fun i => hbufs (i + 1)) _ hstep
      | err e =>
        cases h
        exact hstep
      | panic =>
        cases h
        exact hstep

/-- So it can be put together with what is said of the end. -/
theorem DrainsTo.invariant (Room : List UInt8 → Prop) {P : List Event → Decoder σ → Prop}
    (hread : ∀ log d fuel buf, P log d → Room buf →
      P (log ++ (d.read z R fuel buf).events) (d.read z R fuel buf).state)
    {d : Decoder σ} {bufs : ℕ → List UInt8} {Q : Drained σ → Prop} (h : DrainsTo z R d bufs Q)
    (hbufs : ∀ i, Room (bufs i)) (hP : P [] d) :
    DrainsTo z R d bufs fun r => Q r ∧ P r.events r.decoder := by
  obtain ⟨b, hb⟩ := h
  refine ⟨b, fun fuel hfuel => ?_⟩
  obtain ⟨r, hr, hQ⟩ := hb fuel hfuel
  exact ⟨r, hr, hQ, drain_invariant Room hread hr hbufs [] hP⟩

end MmapZstd
