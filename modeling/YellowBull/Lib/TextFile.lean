import Mathlib.Data.List.DropRight
import YellowBull.Lib.Slice
import YellowBull.Lib.Text

/-!
# Text files

What `open(path, encoding="utf-8")` makes of the bytes of a file: the decoding, which may meet bytes
that are no UTF-8, and the translation of line endings. A run of bytes that could begin a character,
but is followed by one that does not go on with it, is one error, and so is every other byte that
does not belong to a character (`Utf8.run`). `errors="strict"` raises at the first error
(`decode?`), `errors="replace"` puts U+FFFD for each (`decodeReplace`).

`str.splitlines` and `str.rstrip` on the text, and which of its lines have the numbers of a range
(`linesBetween`).
-/

namespace Py

/-! ## UTF-8 -/

namespace Utf8

/-- Where a decoder stands: between characters, or within one, with the bits so far, the number of
bytes that are missing, and the range of the next one. -/
inductive State where
  | between
  | within (bits missing low high : ℕ)
  deriving DecidableEq

/-- What a decoder makes of a byte between characters. `none` stands for an error. -/
def first (b : ℕ) : List (Option CodePoint) × State :=
  if b < 0x80 then ([some (chr b)], .between)
  else if 0xC2 ≤ b ∧ b ≤ 0xDF then ([], .within (b - 0xC0) 1 0x80 0xBF)
  else if b = 0xE0 then ([], .within 0 2 0xA0 0xBF)
  else if b = 0xED then ([], .within 0xD 2 0x80 0x9F)
  else if 0xE1 ≤ b ∧ b ≤ 0xEF then ([], .within (b - 0xE0) 2 0x80 0xBF)
  else if b = 0xF0 then ([], .within 0 3 0x90 0xBF)
  else if 0xF1 ≤ b ∧ b ≤ 0xF3 then ([], .within (b - 0xF0) 3 0x80 0xBF)
  else if b = 0xF4 then ([], .within 4 3 0x80 0x8F)
  else ([none], .between)

/-- One byte: the characters and errors that it completes, and where the decoder stands then. A byte
that does not go on with a character ends it as an error and is read again. -/
def step : State → ℕ → List (Option CodePoint) × State
  | .between, b => first b
  | .within bits missing low high, b =>
    if low ≤ b ∧ b ≤ high then
      let bits := bits * 64 + (b - 0x80)
      if missing ≤ 1 then ([some (chr bits)], .between)
      else ([], .within bits (missing - 1) 0x80 0xBF)
    else (none :: (first b).1, (first b).2)

/-- The characters and errors of a file from a state on. A character that the file does not complete
is an error. -/
def run : State → List UInt8 → List (Option CodePoint)
  | .between, [] => []
  | .within .., [] => [none]
  | s, b :: bytes => (step s b.toNat).1 ++ run (step s b.toNat).2 bytes

end Utf8

/-- `bytes.decode("utf-8")`, none where it raises `UnicodeDecodeError`. -/
def decode? (bytes : List UInt8) : Option Text := (Utf8.run .between bytes).allSome

/-- `bytes.decode("utf-8", errors="replace")`. -/
def decodeReplace (bytes : List UInt8) : Text :=
  (Utf8.run .between bytes).map (·.getD (chr 0xFFFD))

/-! ## Lines -/

/-- The translation of line endings in a file that is opened without `newline`. -/
def universalNewlines : Text → Text
  | 13 :: 10 :: t => 10 :: universalNewlines t
  | 13 :: t => 10 :: universalNewlines t
  | c :: t => c :: universalNewlines t
  | [] => []

/-- A character at which `str.splitlines` ends a line. -/
def CodePoint.IsLineBreak (c : CodePoint) : Prop :=
  c.val ∈ [0xA, 0xB, 0xC, 0xD, 0x1C, 0x1D, 0x1E, 0x85, 0x2028, 0x2029]

instance : DecidablePred CodePoint.IsLineBreak := fun _ => inferInstanceAs (Decidable (_ ∈ _))

/-- `t.splitlines(keepends=True)`. -/
def splitLines : Text → List Text
  | 13 :: 10 :: t => [13, 10] :: splitLines t
  | c :: t =>
    if c.IsLineBreak then [c] :: splitLines t
    else
      match splitLines t with
      | [] => [[c]]
      | line :: lines => (c :: line) :: lines
  | [] => []

/-- `c.isspace()`. -/
def CodePoint.IsSpace (c : CodePoint) : Prop :=
  c.val ∈ [0x9, 0xA, 0xB, 0xC, 0xD, 0x1C, 0x1D, 0x1E, 0x1F, 0x20, 0x85, 0xA0, 0x1680, 0x2028,
    0x2029, 0x202F, 0x205F, 0x3000] ∨ 0x2000 ≤ c.val ∧ c.val ≤ 0x200A

instance : DecidablePred CodePoint.IsSpace := fun _ => inferInstanceAs (Decidable (_ ∨ _))

/-- `t.rstrip()`. -/
def rstrip (t : Text) : Text := t.rdropWhile (CodePoint.IsSpace ·)

/-- Nothing is stripped of an empty text. -/
@[simp]
theorem rstrip_nil : rstrip [] = [] := rfl

/-- A text that is stripped has nothing to strip. -/
theorem rstrip_rstrip (t : Text) : rstrip (rstrip t) = rstrip t := List.rdropWhile_idempotent _ t

/-! ## Numbered lines -/

/-- The lines with the numbers of a range, counted from 1. -/
def linesBetween (lines : List Text) (first last : ℤ) : List Text :=
  ((lines.zipIdx 1).filter fun line => first ≤ line.2 ∧ line.2 ≤ last).map Prod.fst

/-- The lines of a range that begins at the first line or later: a prefix without its beginning. -/
theorem linesBetween_eq (lines : List Text) {first : ℤ} (hfirst : 1 ≤ first) (last : ℤ) :
    linesBetween lines first last = (lines.take last.toNat).drop (first.toNat - 1) := by
  -- With the lines numbered from `k` on, the filter takes a segment of them.
  have hfrom (k : ℕ) (hk : 1 ≤ k) :
      ((lines.zipIdx k).filter fun line => first ≤ line.2 ∧ line.2 ≤ last).map Prod.fst =
        (lines.take (last.toNat + 1 - k)).drop (first.toNat - k) := by
    induction lines generalizing k with
    | nil => simp
    | cons line lines ih =>
      have hrest := ih (k + 1) (by omega)
      rw [List.zipIdx_cons, List.filter_cons]
      -- The line is one of those up to the last; it is taken unless it stands before the first.
      by_cases hlast : (k : ℤ) ≤ last
      · have htake : last.toNat + 1 - k = last.toNat + 1 - (k + 1) + 1 := by omega
        rw [htake, List.take_succ_cons]
        by_cases hk' : first ≤ k
        · have hdrop : first.toNat - k = 0 := by omega
          have hdrop' : first.toNat - (k + 1) = 0 := by omega
          rw [hdrop', List.drop_zero] at hrest
          rw [if_pos (by simp [hk', hlast]), List.map_cons, hrest, hdrop, List.drop_zero]
        · have hdrop : first.toNat - k = first.toNat - (k + 1) + 1 := by omega
          rw [if_neg (by simp [hk']), hrest, hdrop, List.drop_succ_cons]
      -- From here on no number is small enough.
      · have htake : last.toNat + 1 - k = 0 := by omega
        have htake' : last.toNat + 1 - (k + 1) = 0 := by omega
        rw [if_neg (by simp [hlast]), hrest, htake, htake']
        simp
  rw [linesBetween, hfrom 1 le_rfl]
  simp

end Py
