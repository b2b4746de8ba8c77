import MmapZstd.Lib.Align

/-!
# What the model takes from Rust

Errors, results, `usize` arithmetic, and slices, as the crate uses them on a 64-bit target. A
`usize` is a natural number below `2^64`. Where the source adds to a number that a caller chose,
the sum is taken with `Build.add`, which panics or wraps as the build does; positions inside a
buffer cannot overflow, since a buffer has at most `isize::MAX` bytes, and are plain numbers.
-/

namespace MmapZstd

/-- The kinds of `std::io::Error` that the crate returns or passes on. -/
inductive ErrorKind
  | outOfMemory
  | invalidInput
  | invalidData
  | other
  deriving DecidableEq, Repr

/-- `std::io::Error`: its kind and the text that it displays. -/
structure IoError where
  kind : ErrorKind
  message : String
  deriving DecidableEq, Repr

/-- `io::Error::new(kind, e)` around another error, whose text it displays. -/
def IoError.wrap (kind : ErrorKind) (e : IoError) : IoError := ⟨kind, e.message⟩

/-- How a call ends: it returns a value, it returns an error, or it panics. -/
inductive Outcome (α : Type)
  | ok (a : α)
  | err (e : IoError)
  | panic
  deriving DecidableEq, Repr

namespace Outcome

variable {α β : Type}

/-- The `?` operator: go on with the value, or end as the call did. -/
def bind (x : Outcome α) (f : α → Outcome β) : Outcome β :=
  match x with
  | ok a => f a
  | err e => err e
  | panic => panic

instance : Monad Outcome where
  pure := ok
  bind := bind

@[simp]
theorem pure_eq (a : α) : (pure a : Outcome α) = ok a := rfl

@[simp]
theorem ok_bind (a : α) (f : α → Outcome β) : (ok a >>= f) = f a := rfl

@[simp]
theorem err_bind (e : IoError) (f : α → Outcome β) : (err e >>= f) = err e := rfl

@[simp]
theorem panic_bind (f : α → Outcome β) : (panic >>= f) = panic := rfl

/-- A sequence returns a value when both of its parts do. -/
theorem bind_eq_ok {x : Outcome α} {f : α → Outcome β} {c : β} :
    (x >>= f) = ok c ↔ ∃ a, x = ok a ∧ f a = ok c := by
  cases x with
  | ok a => simp
  | err e => simp
  | panic => simp

end Outcome

/-- The number of values of a `usize`. -/
def usizeSize : ℕ := 2 ^ 64

/-- `isize::MAX`, the largest number of bytes that a buffer can have. -/
def isizeMax : ℕ := 2 ^ 63 - 1

/-- The bitwise complement `!x` of a `usize`. -/
def usizeNot (x : ℕ) : ℕ := usizeSize - 1 - x

/-- How the crate was built: a debug build checks `usize` arithmetic, a release build wraps. -/
inductive Build
  | debug
  | release
  deriving DecidableEq, Repr

/-- `x + y` on `usize`. -/
def Build.add (b : Build) (x y : ℕ) : Outcome ℕ :=
  if x + y < usizeSize then .ok (x + y)
  else match b with
    | .debug => .panic
    | .release => .ok (x + y - usizeSize)

/-- `x - y` on `usize`. -/
def Build.sub (b : Build) (x y : ℕ) : Outcome ℕ :=
  if y ≤ x then .ok (x - y)
  else match b with
    | .debug => .panic
    | .release => .ok (x + usizeSize - y)

/-- A sum that fits is exact. -/
theorem Build.add_of_lt (b : Build) {x y : ℕ} (h : x + y < usizeSize) : b.add x y = .ok (x + y) :=
  if_pos h

section Slices

variable {α : Type}

/-- `&xs[a..b]`, which panics out of bounds. -/
def slice (xs : List α) (a b : ℕ) : Outcome (List α) :=
  if a ≤ b ∧ b ≤ xs.length then .ok ((xs.take b).drop a) else .panic

/-- `&xs[a..]`, which panics out of bounds. -/
def sliceFrom (xs : List α) (a : ℕ) : Outcome (List α) :=
  if a ≤ xs.length then .ok (xs.drop a) else .panic

/-- The bytes of `dst` after `src` was copied to its start. What does not fit is dropped, as no copy
of the crate is longer than its destination. -/
def overwrite (dst src : List α) : List α := (src ++ dst.drop src.length).take dst.length

/-- Copying into a buffer keeps its length. -/
@[simp]
theorem length_overwrite (dst src : List α) : (overwrite dst src).length = dst.length := by
  simp only [overwrite, List.length_take, List.length_append, List.length_drop]
  omega

/-- A copy that fits is found at the start of the buffer. -/
theorem take_overwrite (dst src : List α) (h : src.length ≤ dst.length) :
    (overwrite dst src).take src.length = src := by
  rw [overwrite, List.take_take, Nat.min_eq_left h, List.take_left']
  rfl

/-- A slice in bounds. -/
theorem slice_of_le {xs : List α} {a b : ℕ} (hab : a ≤ b) (hb : b ≤ xs.length) :
    slice xs a b = .ok ((xs.take b).drop a) := if_pos ⟨hab, hb⟩

/-- A slice to the end, in bounds. -/
theorem sliceFrom_of_le {xs : List α} {a : ℕ} (ha : a ≤ xs.length) :
    sliceFrom xs a = .ok (xs.drop a) := if_pos ha

end Slices

/-- The mask `x & !(2^k - 1)` rounds a `usize` down to a multiple of `2^k`. -/
theorem land_usizeNot {k x : ℕ} (hk : k ≤ 64) (hx : x < usizeSize) :
    x &&& usizeNot (2 ^ k - 1) = Align.down (2 ^ k) x :=
  Align.land_compl_mask hk hx

/-- The mask never rounds up, on any number. -/
theorem land_usizeNot_le (x m : ℕ) : x &&& usizeNot m ≤ x := Nat.and_le_left

end MmapZstd
