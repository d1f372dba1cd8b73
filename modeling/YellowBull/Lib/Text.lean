import Mathlib.Data.List.Basic
import YellowBull.Lib.Value

/-!
# Texts with lone surrogates

A Python `str` is a list of code points, the surrogates included, and `json.loads` makes a lone one
of `"\ud800"`. The functions that may meet such a text are modelled on `Text`, and not on `String`.
It has no UTF-8 encoding (`Text.encode`).
-/

namespace Py

/-- A code point, a surrogate or not. -/
abbrev CodePoint := Fin 0x110000

/-- A Python `str`. -/
abbrev Text := List CodePoint

/-- A text without surrogates. -/
def text (s : String) : Text := s.toList.map fun c => Fin.ofNat 0x110000 c.toNat

/-- `chr(n)`. -/
def chr (n : ℕ) : CodePoint := Fin.ofNat 0x110000 n

/-- The code point is one half of a pair of UTF-16. -/
def CodePoint.IsSurrogate (c : CodePoint) : Prop := 0xd800 ≤ c.val ∧ c.val ≤ 0xdfff

instance : DecidablePred CodePoint.IsSurrogate := fun _ =>
  inferInstanceAs (Decidable (_ ∧ _))

/-- The `UnicodeEncodeError`, a `ValueError`, for the surrogates from a position on. -/
def surrogatesNotAllowed (t : Text) (start : ℕ) : Exn :=
  let run := (t.drop start).takeWhile (CodePoint.IsSurrogate ·)
  let place := match run with
    | [c] => " '\\u" ++ String.ofList (Nat.toDigits 16 c.val) ++ "' in position " ++ toString start
    | _ => "s in position " ++ toString start ++ "-" ++ toString (start + run.length - 1)
  ⟨.valueError, "'utf-8' codec can't encode character" ++ place ++ ": surrogates not allowed"⟩

/-- `t.encode("utf-8")`. -/
def Text.encode (t : Text) : Except Exn (List UInt8) :=
  match t.findIdx? (CodePoint.IsSurrogate ·) with
  | some start => .error (surrogatesNotAllowed t start)
  | none => .ok (t.flatMap fun c => String.utf8EncodeChar (Char.ofNat c.val))

end Py
