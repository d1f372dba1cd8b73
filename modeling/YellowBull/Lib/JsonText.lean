import Mathlib.Data.List.TakeWhile
import Std.Data.String.ToInt
import YellowBull.Lib.Value

/-!
# JSON texts can be told apart

The text that `json.dumps` writes of a value determines the value, also where other text follows it
that a comma or a closing bracket begins (`Val.chars_append_inj`). The text of a string ends at its
first quote that is no part of an escape, and no escape is a prefix of another; that of a number or
a constant ends before the delimiter; and the first character tells which of these a text is.

A float is carried by its `repr`, of which no more is used than what `IsFloatRepr` says.
-/

namespace Py

/-! ## Strings -/

/-- The value of a hexadecimal digit. -/
def hexValue (c : Char) : ℕ := if c.toNat < 58 then c.toNat - 48 else c.toNat - 87

/-- The code of the character that a short escape stands for. -/
def unescaped : Char → ℕ
  | 'b' => 8
  | 't' => 9
  | 'n' => 10
  | 'f' => 12
  | 'r' => 13
  | c => c.toNat

/-- The 16-bit code unit at the beginning of the text of a string, and what follows. -/
def codeUnit : List Char → ℕ × List Char
  | '\\' :: 'u' :: a :: b :: c :: d :: t =>
    (4096 * hexValue a + 256 * hexValue b + 16 * hexValue c + hexValue d, t)
  | '\\' :: e :: t => (unescaped e, t)
  | c :: t => (c.toNat, t)
  | [] => (0, [])

/-- A hexadecimal digit has the value that it is written for. -/
theorem hexValue_hexDigit {n : ℕ} (h : n < 16) : hexValue (hexDigit n) = n := by
  have hall : ∀ n < 16, hexValue (hexDigit n) = n := by decide
  exact hall n h

/-- An escaped code unit is read back. -/
theorem codeUnit_escapeUnit {n : ℕ} (h : n < 65536) (t : List Char) :
    codeUnit (escapeUnit n ++ t) = (n, t) := by
  simp only [escapeUnit, List.cons_append, List.nil_append, codeUnit]
  rw [hexValue_hexDigit (Nat.mod_lt _ (by decide)), hexValue_hexDigit (Nat.mod_lt _ (by decide)),
    hexValue_hexDigit (Nat.mod_lt _ (by decide)), hexValue_hexDigit (Nat.mod_lt _ (by decide))]
  congr 1
  omega

/-- The text of a character is itself, a short escape, the escape of its code, or those of its
surrogates. -/
theorem escapeChar_cases (c : Char) :
    (escapeChar c = [c] ∧ c ≠ '"' ∧ c ≠ '\\' ∧ c.toNat < 65536) ∨
      (∃ e, escapeChar c = ['\\', e] ∧ e ≠ 'u' ∧ unescaped e = c.toNat ∧ c.toNat < 65536) ∨
      (escapeChar c = escapeUnit c.toNat ∧ c.toNat < 65536) ∨
      (escapeChar c = escapeUnit (55296 + (c.toNat - 65536) / 1024) ++
        escapeUnit (56320 + (c.toNat - 65536) % 1024) ∧ 65536 ≤ c.toNat) := by
  unfold escapeChar
  -- The seven short escapes come first; what is left is escaped by its code unless it is printable.
  split
  next h => exact .inr (.inl ⟨'b', rfl, by decide, h.symm, by omega⟩)
  next h => exact .inr (.inl ⟨'t', rfl, by decide, h.symm, by omega⟩)
  next h => exact .inr (.inl ⟨'n', rfl, by decide, h.symm, by omega⟩)
  next h => exact .inr (.inl ⟨'f', rfl, by decide, h.symm, by omega⟩)
  next h => exact .inr (.inl ⟨'r', rfl, by decide, h.symm, by omega⟩)
  next h =>
    obtain rfl : c = '"' := Char.toNat_inj.mp h
    exact .inr (.inl ⟨'"', rfl, by decide, rfl, by decide⟩)
  next h =>
    obtain rfl : c = '\\' := Char.toNat_inj.mp h
    exact .inr (.inl ⟨'\\', rfl, by decide, rfl, by decide⟩)
  next hquote hslash =>
    split_ifs with hprint hbmp
    · refine .inl ⟨rfl, ?_, ?_, by omega⟩
      · rintro rfl
        exact hquote rfl
      · rintro rfl
        exact hslash rfl
    · exact .inr (.inr (.inl ⟨rfl, hbmp⟩))
    -- Beyond the first plane there are two units, a surrogate pair.
    · exact .inr (.inr (.inr ⟨rfl, by omega⟩))

/-- No character has the code of a surrogate. -/
theorem not_surrogate (c : Char) : c.toNat < 55296 ∨ 57344 ≤ c.toNat := by
  rcases c.valid with h | h
  · exact .inl h
  · exact .inr (Nat.lt_of_lt_of_le (by decide) h.1)

/-- A character is a code point. -/
theorem toNat_lt (c : Char) : c.toNat < 1114112 := by
  rcases c.valid with h | h
  · exact h.trans (by decide)
  · exact h.2

/-- What the text of a character begins with tells the character. -/
theorem codeUnit_escapeChar (c : Char) (t : List Char) :
    codeUnit (escapeChar c ++ t) = if c.toNat < 65536 then (c.toNat, t) else
      (55296 + (c.toNat - 65536) / 1024, escapeUnit (56320 + (c.toNat - 65536) % 1024) ++ t) := by
  have hlt := toNat_lt c
  rcases escapeChar_cases c with ⟨heq, hquote, hslash, hbmp⟩ | ⟨e, heq, hu, he, hbmp⟩ |
    ⟨heq, hbmp⟩ | ⟨heq, hbmp⟩
  · rw [heq, if_pos hbmp]
    simp [codeUnit, hslash]
  · rw [heq, if_pos hbmp, ← he]
    simp [codeUnit, hu]
  · rw [heq, if_pos hbmp, codeUnit_escapeUnit hbmp]
  · rw [heq, if_neg (by omega), List.append_assoc, codeUnit_escapeUnit (by omega)]

/-- No text of a character is the beginning of the text of another. -/
theorem escapeChar_append_inj {c c' : Char} {t t' : List Char}
    (h : escapeChar c ++ t = escapeChar c' ++ t') : c = c' ∧ t = t' := by
  have hlt := toNat_lt c
  have hlt' := toNat_lt c'
  have hsur := not_surrogate c
  have hsur' := not_surrogate c'
  have hunit := congrArg codeUnit h
  rw [codeUnit_escapeChar, codeUnit_escapeChar] at hunit
  split_ifs at hunit
  · obtain ⟨hc, rfl⟩ := Prod.mk.inj hunit
    exact ⟨Char.toNat_inj.mp hc, rfl⟩
  · have hfirst := (Prod.mk.inj hunit).1
    omega
  · have hfirst := (Prod.mk.inj hunit).1
    omega
  · -- Both are surrogate pairs, which differ in one half.
    obtain ⟨hhigh, hrest⟩ := Prod.mk.inj hunit
    have hlow := congrArg codeUnit hrest
    rw [codeUnit_escapeUnit (by omega), codeUnit_escapeUnit (by omega)] at hlow
    obtain ⟨hlow, rfl⟩ := Prod.mk.inj hlow
    exact ⟨Char.toNat_inj.mp (by omega), rfl⟩

/-- The text of a character does not begin with a quote. -/
theorem escapeChar_head (c : Char) : ∃ a t, escapeChar c = a :: t ∧ a ≠ '"' := by
  rcases escapeChar_cases c with ⟨heq, hquote, -⟩ | ⟨e, heq, -⟩ | ⟨heq, -⟩ | ⟨heq, -⟩
  · exact ⟨c, [], heq, hquote⟩
  · exact ⟨_, _, heq, by decide⟩
  · exact ⟨_, _, heq, by decide⟩
  · exact ⟨_, _, heq, by decide⟩

/-- Where each character has a text that is no beginning of another's and begins with no quote, the
texts of the characters of a string end at the quote behind them. -/
theorem flatMap_append_inj {escape : Char → List Char}
    (hinj : ∀ {c c' t t'}, escape c ++ t = escape c' ++ t' → c = c' ∧ t = t')
    (hhead : ∀ c, ∃ a t, escape c = a :: t ∧ a ≠ '"') : ∀ {cs cs' t t' : List Char},
    cs.flatMap escape ++ '"' :: t = cs'.flatMap escape ++ '"' :: t' → cs = cs' ∧ t = t'
  -- The quote at the end stands in neither escape, so the two strings end together.
  | [], [], t, t', h => ⟨rfl, (List.cons.inj h).2⟩
  | [], c :: cs, t, t', h => by
    obtain ⟨a, l, heq, ha⟩ := hhead c
    simp only [List.flatMap_nil, List.flatMap_cons, heq, List.nil_append, List.cons_append] at h
    exact absurd (List.cons.inj h).1.symm ha
  | c :: cs, [], t, t', h => by
    obtain ⟨a, l, heq, ha⟩ := hhead c
    simp only [List.flatMap_nil, List.flatMap_cons, heq, List.nil_append, List.cons_append] at h
    exact absurd (List.cons.inj h).1 ha
  | c :: cs, c' :: cs', t, t', h => by
    rw [List.flatMap_cons, List.flatMap_cons, List.append_assoc, List.append_assoc] at h
    obtain ⟨rfl, hrest⟩ := hinj h
    obtain ⟨rfl, rfl⟩ := flatMap_append_inj hinj hhead hrest
    exact ⟨rfl, rfl⟩

/-- The text of a string ends at its closing quote. -/
theorem escaped_append_inj {cs cs' t t' : List Char}
    (h : cs.flatMap escapeChar ++ '"' :: t = cs'.flatMap escapeChar ++ '"' :: t') :
    cs = cs' ∧ t = t' := flatMap_append_inj escapeChar_append_inj escapeChar_head h

/-- A string is written between quotes, character by character. -/
theorem toList_dumpsStr (s : String) :
    (dumpsStr s).toList = '"' :: (s.toList.flatMap escapeChar ++ ['"']) := by
  simp [dumpsStr]

/-- A string that is written tells where it ends. -/
theorem dumpsStr_append_inj {s s' : String} {t t' : List Char}
    (h : (dumpsStr s).toList ++ t = (dumpsStr s').toList ++ t') : s = s' ∧ t = t' := by
  rw [toList_dumpsStr, toList_dumpsStr, List.cons_append, List.cons_append, List.append_assoc,
    List.append_assoc] at h
  obtain ⟨hs, rfl⟩ := escaped_append_inj (List.cons.inj h).2
  exact ⟨String.toList_inj.mp hs, rfl⟩

/-! ## Numbers and constants -/

/-- A character of the text of a number, of a constant or of a special float. -/
def plainChar (c : Char) : Bool := c.isAlphanum || c == '-' || c == '+' || c == '.'

/-- A character of the `repr` of a finite float. -/
def floatChar (c : Char) : Bool := c.isDigit || c == '-' || c == '+' || c == '.' || c == 'e'

/-- A character of the text of an integer. -/
def intChar (c : Char) : Bool := c.isDigit || c == '-'

/-- The `repr` of a finite float has a point or an exponent, by which it is no integer. -/
def IsFiniteRepr (r : String) : Prop :=
  (∀ c ∈ r.toList, floatChar c = true) ∧ ∃ c ∈ r.toList, c = '.' ∨ c = 'e'

/-- The `repr` of a float. -/
def IsFloatRepr (r : String) : Prop := r = "nan" ∨ r = "inf" ∨ r = "-inf" ∨ IsFiniteRepr r

/-- What the values of the model have of JSON values in Python: no key stands twice in an object,
and floats have the `repr` of one. -/
inductive Val.IsJson : Val → Prop
  | none : IsJson .none
  | bool (b : Bool) : IsJson (.bool b)
  | int (n : ℤ) : IsJson (.int n)
  | float {r : String} (h : IsFloatRepr r) : IsJson (.float r)
  | str (s : String) : IsJson (.str s)
  | list {xs : List Val} (h : ∀ x ∈ xs, IsJson x) : IsJson (.list xs)
  | dict {items : Dict} (hkeys : (items.map Prod.fst).Nodup) (h : ∀ kv ∈ items, IsJson kv.2) :
    IsJson (.dict items)

/-- The text that `json.dumps` writes of the value as it stands. -/
def Val.chars (v : Val) : List Char := (v.dumps false).toList

/-- The text of an integer consists of digits and the sign. -/
theorem intChar_of_mem_toString {n : ℤ} {c : Char} (h : c ∈ (toString n).toList) :
    intChar c = true := by
  have hdigit : ∀ m : ℕ, c ∈ (Nat.repr m).toList → intChar c = true := by
    intro m hc
    rw [Nat.toList_repr] at hc
    simp [intChar, Nat.isDigit_of_mem_toDigits (by decide) (by decide) hc]
  change c ∈ (Int.repr n).toList at h
  rw [Int.repr_eq_if] at h
  split_ifs at h
  · exact hdigit _ h
  · rw [String.toList_append, List.mem_append] at h
    rcases h with h | h
    · obtain rfl : c = '-' := by simpa using h
      rfl
    · exact hdigit _ h

/-- An integer is written with some character. -/
theorem toString_int_ne_nil (n : ℤ) : (toString n).toList ≠ [] := by
  change (Int.repr n).toList ≠ []
  rw [Int.repr_eq_if]
  split_ifs
  · simp
  · simp

/-- The decimal text tells the integer. -/
theorem toString_int_injective {m n : ℤ} (h : toString m = toString n) : m = n :=
  Int.repr_injective h

/-- The constants and the special floats, with their texts. -/
def constants : List (Val × List Char) :=
  [(.none, "null".toList), (.bool true, "true".toList), (.bool false, "false".toList),
    (.float "nan", "NaN".toList), (.float "inf", "Infinity".toList),
    (.float "-inf", "-Infinity".toList)]

/-- A value whose text has no delimiters. -/
def Val.IsAtom : Val → Prop
  | .str _ => False
  | .list _ => False
  | .dict _ => False
  | _ => True

/-- It is an integer, a finite float or one of the constants. -/
theorem Val.IsAtom.cases {v : Val} (hv : v.IsAtom) (hjson : v.IsJson) :
    (∃ n, v = .int n) ∨ (∃ r, v = .float r ∧ IsFiniteRepr r ∧ v.chars = r.toList) ∨
      (v, v.chars) ∈ constants := by
  cases hjson with
  | none => exact .inr (.inr (by decide))
  | bool b => cases b <;> exact .inr (.inr (by decide))
  | int n => exact .inl ⟨n, rfl⟩
  | @float r h =>
    rcases h with rfl | rfl | rfl | h
    · exact .inr (.inr (by decide))
    · exact .inr (.inr (by decide))
    · exact .inr (.inr (by decide))
    · -- None of the special ones has the characters of a finite float.
      have hspecial : ∀ s : String, s.toList.all floatChar = false → r ≠ s := by
        rintro s hfalse rfl
        rw [List.all_eq_true.mpr h.1] at hfalse
        cases hfalse
      refine .inr (.inl ⟨r, rfl, h, ?_⟩)
      simp only [chars, dumps, hspecial "nan" (by decide), hspecial "inf" (by decide),
        hspecial "-inf" (by decide), if_false]
  | str s => exact hv.elim
  | list h => exact hv.elim
  | dict hkeys h => exact hv.elim

/-- Each constant has a character that no number has, in plain characters. -/
theorem constants_spec : ∀ p ∈ constants, p.2 ≠ [] ∧ p.2.all plainChar = true ∧
    p.2.all floatChar = false := by
  decide

/-- The characters of integers may stand in floats. -/
theorem floatChar_of_intChar {c : Char} (h : intChar c = true) : floatChar c = true := by
  simp only [intChar, floatChar, Bool.or_eq_true] at h ⊢
  tauto

/-- The characters of floats are plain. -/
theorem plainChar_of_floatChar {c : Char} (h : floatChar c = true) : plainChar c = true := by
  simp only [floatChar, plainChar, Bool.or_eq_true, beq_iff_eq] at h ⊢
  rcases h with (((h | h) | h) | h) | rfl
  · simp [Char.isAlphanum, h]
  · simp [h]
  · simp [h]
  · simp [h]
  · decide

/-- The text of an atom is not empty, and consists of plain characters. -/
theorem Val.IsAtom.plain {v : Val} (hv : v.IsAtom) (hjson : v.IsJson) :
    v.chars ≠ [] ∧ ∀ c ∈ v.chars, plainChar c = true := by
  rcases hv.cases hjson with ⟨n, rfl⟩ | ⟨r, -, hr, heq⟩ | h
  · exact ⟨toString_int_ne_nil n, fun c hc =>
      plainChar_of_floatChar (floatChar_of_intChar (intChar_of_mem_toString hc))⟩
  · rw [heq]
    obtain ⟨c, hc, -⟩ := hr.2
    exact ⟨List.ne_nil_of_mem hc, fun c hc => plainChar_of_floatChar (hr.1 c hc)⟩
  · obtain ⟨hne, hplain, -⟩ := constants_spec _ h
    exact ⟨hne, List.all_eq_true.mp hplain⟩

/-- The text of an atom determines it. -/
theorem Val.IsAtom.chars_inj {v w : Val} (hv : v.IsAtom) (hw : w.IsAtom) (hjson : v.IsJson)
    (hjson' : w.IsJson) (h : v.chars = w.chars) : v = w := by
  have hconstants : ∀ p ∈ constants, ∀ q ∈ constants, p.2 = q.2 → p.1 = q.1 := by decide
  -- A finite float has a character that no integer has.
  have hmixed : ∀ (n : ℤ) (r : String), IsFiniteRepr r → (Val.int n).chars ≠ r.toList := by
    rintro n r ⟨-, c, hc, hchar⟩ heq
    rw [← heq] at hc
    have hint := intChar_of_mem_toString hc
    rcases hchar with rfl | rfl <;> cases hint
  have hnumber : ∀ t : List Char, (∀ c ∈ t, floatChar c = true) → ∀ p ∈ constants, p.2 ≠ t := by
    rintro t ht p hp rfl
    obtain ⟨-, -, hfalse⟩ := constants_spec p hp
    rw [List.all_eq_true.mpr ht] at hfalse
    cases hfalse
  have hints : ∀ n : ℤ, ∀ c ∈ (Val.int n).chars, floatChar c = true :=
    fun n c hc => floatChar_of_intChar (intChar_of_mem_toString hc)
  rcases hv.cases hjson with ⟨n, rfl⟩ | ⟨r, rfl, hr, heq⟩ | hc <;>
    rcases hw.cases hjson' with ⟨n', rfl⟩ | ⟨r', rfl, hr', heq'⟩ | hc'
  · rw [toString_int_injective (String.toList_inj.mp h)]
  · exact absurd (h.trans heq') (hmixed n r' hr')
  · exact absurd h.symm (hnumber _ (hints n) _ hc')
  · exact absurd (h.symm.trans heq) (hmixed n' r hr)
  · rw [String.toList_inj.mp (heq.symm.trans (h.trans heq'))]
  · exact absurd (h.symm.trans heq) (hnumber _ hr.1 _ hc')
  · exact absurd h (hnumber _ (hints n') _ hc)
  · exact absurd (h.trans heq') (hnumber _ hr'.1 _ hc)
  · exact hconstants _ hc _ hc' h

/-! ## Sequences -/

/-- What follows a value in a JSON text: nothing, a comma or a closing bracket. -/
def Follows (t : List Char) : Prop := ∀ c ∈ t.head?, c = ',' ∨ c = ']' ∨ c = '\x7d'

/-- Texts of plain characters end before what follows a value. -/
theorem plain_append_inj {a a' t t' : List Char} (ha : ∀ c ∈ a, plainChar c = true)
    (ha' : ∀ c ∈ a', plainChar c = true) (ht : Follows t) (ht' : Follows t')
    (h : a ++ t = a' ++ t') : a = a' ∧ t = t' := by
  have hstop : ∀ {t : List Char}, Follows t → t.takeWhile plainChar = [] := by
    intro t ht
    cases t with
    | nil => rfl
    | cons c t => rcases ht c rfl with rfl | rfl | rfl <;> rfl
  have htake := congrArg (List.takeWhile plainChar) h
  rw [List.takeWhile_append_of_pos ha, List.takeWhile_append_of_pos ha', hstop ht, hstop ht',
    List.append_nil, List.append_nil] at htake
  subst htake
  exact ⟨rfl, List.append_cancel_left h⟩

/-- The rest of a sequence after its first element, up to the closing bracket. -/
def restText (close : Char) : List (List Char) → List Char
  | [] => [close]
  | t :: ts => ',' :: ' ' :: (t ++ restText close ts)

/-- A sequence after its opening bracket. -/
def seqText (close : Char) : List (List Char) → List Char
  | [] => [close]
  | t :: ts => t ++ restText close ts

/-- The rest of a sequence begins with a separator or the closing bracket. -/
theorem follows_restText {close : Char} (hclose : close = ']' ∨ close = '\x7d')
    (ts : List (List Char)) (t : List Char) : Follows (restText close ts ++ t) := by
  cases ts with
  | nil =>
    intro c hc
    obtain rfl : close = c := by simpa [restText] using hc
    exact .inr hclose
  | cons _ _ =>
    intro c hc
    obtain rfl : ',' = c := by simpa [restText] using hc
    exact .inl rfl

section Sequence

variable {α : Type*} {f : α → List Char} {close : Char} (hclose : close = ']' ∨ close = '\x7d')
include hclose

/-- The rest of a sequence tells its parts and where it ends, if they do. -/
theorem restText_append_inj {xs ys : List α} {t t' : List Char}
    (hinj : ∀ x ∈ xs, ∀ y ∈ ys, ∀ t t', Follows t → Follows t' → f x ++ t = f y ++ t' →
      x = y ∧ t = t')
    (h : restText close (xs.map f) ++ t = restText close (ys.map f) ++ t') : xs = ys ∧ t = t' := by
  have hcomma : close ≠ ',' := by rcases hclose with rfl | rfl <;> decide
  -- After an element stands a comma or the closing bracket, which tells whether more follow.
  induction xs generalizing ys with
  | nil =>
    cases ys with
    | nil => exact ⟨rfl, (List.cons.inj h).2⟩
    | cons y ys => exact absurd (List.cons.inj h).1 hcomma
  | cons x xs ih =>
    cases ys with
    | nil => exact absurd (List.cons.inj h).1.symm hcomma
    | cons y ys =>
      simp only [List.map_cons, restText, List.cons_append, List.append_assoc] at h
      obtain ⟨rfl, hrest⟩ := hinj x (by simp) y (by simp) _ _ (follows_restText hclose _ t)
        (follows_restText hclose _ t') (List.cons.inj (List.cons.inj h).2).2
      obtain ⟨rfl, rfl⟩ := ih (fun x hx y hy => hinj x (by simp [hx]) y (by simp [hy])) hrest
      exact ⟨rfl, rfl⟩

/-- A sequence ends at its closing bracket, if its elements can be told apart and do not begin with
it. -/
theorem seqText_append_inj {xs ys : List α} {t t' : List Char}
    (hinj : ∀ x ∈ xs, ∀ y ∈ ys, ∀ t t', Follows t → Follows t' → f x ++ t = f y ++ t' →
      x = y ∧ t = t')
    (hxs : ∀ x ∈ xs, ∃ c l, f x = c :: l ∧ c ≠ close)
    (hys : ∀ y ∈ ys, ∃ c l, f y = c :: l ∧ c ≠ close)
    (h : seqText close (xs.map f) ++ t = seqText close (ys.map f) ++ t') : xs = ys ∧ t = t' := by
  -- The first character tells an empty sequence from one with elements.
  cases xs with
  | nil =>
    cases ys with
    | nil => exact ⟨rfl, (List.cons.inj h).2⟩
    | cons y ys =>
      obtain ⟨c, l, hc, hne⟩ := hys y (by simp)
      simp only [List.map_cons, List.map_nil, seqText, hc, List.cons_append] at h
      exact absurd (List.cons.inj h).1.symm hne
  | cons x xs =>
    cases ys with
    | nil =>
      obtain ⟨c, l, hc, hne⟩ := hxs x (by simp)
      simp only [List.map_cons, List.map_nil, seqText, hc, List.cons_append] at h
      exact absurd (List.cons.inj h).1 hne
    | cons y ys =>
      simp only [List.map_cons, seqText, List.append_assoc] at h
      obtain ⟨rfl, hrest⟩ := hinj x (by simp) y (by simp) _ _ (follows_restText hclose _ t)
        (follows_restText hclose _ t') h
      obtain ⟨rfl, rfl⟩ := restText_append_inj hclose
        (fun x hx y hy => hinj x (by simp [hx]) y (by simp [hy])) hrest
      exact ⟨rfl, rfl⟩

end Sequence

/-! ## Values -/

/-- A member of an object. -/
def memberText (kv : String × Val) : List Char :=
  (dumpsStr kv.1).toList ++ ':' :: ' ' :: kv.2.chars

/-- A member begins with the quote of its key. -/
theorem memberText_head (kv : String × Val) : ∃ c l, memberText kv = c :: l ∧ c ≠ '\x7d' := by
  unfold memberText
  rw [toList_dumpsStr]
  exact ⟨'"', _, rfl, by decide⟩

/-- Joined parts with the closing bracket are the first part and the rest. -/
theorem toList_join_cons (s : String) (parts : List String) (close : Char) :
    (join ", " (s :: parts)).toList ++ [close] =
      s.toList ++ restText close (parts.map String.toList) := by
  induction parts generalizing s with
  | nil => rfl
  | cons s' parts ih =>
    rw [join, String.toList_append, String.toList_append, List.append_assoc, ih, List.append_assoc]
    · rfl
    · simp

/-- Joined parts with the closing bracket are the text of the sequence. -/
theorem toList_join (parts : List String) (close : Char) :
    (join ", " parts).toList ++ [close] = seqText close (parts.map String.toList) := by
  cases parts with
  | nil => rfl
  | cons s parts => exact toList_join_cons s parts close

/-- The elements of a list are written one by one. -/
theorem Val.dumpsList_eq (sort_keys : Bool) (xs : List Val) :
    Val.dumpsList sort_keys xs = xs.map (Val.dumps sort_keys) := by
  induction xs with
  | nil => rfl
  | cons x xs ih => rw [Val.dumpsList, ih, List.map_cons]

/-- The text of a list. -/
theorem Val.chars_list (xs : List Val) :
    (Val.list xs).chars = '[' :: seqText ']' (xs.map Val.chars) := by
  have hjoin := toList_join (xs.map (Val.dumps false)) ']'
  rw [List.map_map] at hjoin
  rw [chars, dumps, dumpsList_eq, String.toList_append, String.toList_append]
  exact congrArg ('[' :: ·) hjoin

/-- The text of an object. -/
theorem Val.chars_dict (items : Dict) :
    (Val.dict items).chars = '\x7b' :: seqText '\x7d' (items.map memberText) := by
  have hmember : String.toList ∘ (fun kv : String × String => dumpsStr kv.1 ++ ": " ++ kv.2) ∘
      (fun kv : String × Val => (kv.1, kv.2.dumps false)) = memberText := by
    funext kv
    simp [memberText, chars, List.append_assoc]
  have hjoin := toList_join ((items.map fun kv => (kv.1, kv.2.dumps false)).map
    fun kv => dumpsStr kv.1 ++ ": " ++ kv.2) '\x7d'
  rw [List.map_map, List.map_map, hmember] at hjoin
  rw [chars, dumps, dumpsItems_eq, sortItems, if_neg (by decide), String.toList_append,
    String.toList_append, List.map_map]
  exact congrArg ('\x7b' :: ·) hjoin

/-- The characters with which the text of a value may begin. They tell its kind. -/
def Val.HasHead : Val → Char → Prop
  | .str _, c => c = '"'
  | .list _, c => c = '['
  | .dict _, c => c = '\x7b'
  | _, c => plainChar c = true

/-- The first character of a text tells the kind of the value. -/
theorem Val.chars_head {v : Val} (hjson : v.IsJson) : ∃ c l, v.chars = c :: l ∧ v.HasHead c := by
  have hatom : v.IsAtom → ∃ c l, v.chars = c :: l ∧ plainChar c = true := by
    intro hv
    obtain ⟨hne, hplain⟩ := hv.plain hjson
    obtain ⟨c, l, heq⟩ := List.exists_cons_of_ne_nil hne
    exact ⟨c, l, heq, hplain c (by simp [heq])⟩
  cases v with
  | str s => exact ⟨_, _, toList_dumpsStr s, rfl⟩
  | list xs => exact ⟨_, _, chars_list xs, rfl⟩
  | dict items => exact ⟨_, _, chars_dict items, rfl⟩
  | _ => exact hatom trivial

/-- No value begins with a closing bracket. -/
theorem Val.chars_head_ne {v : Val} (hjson : v.IsJson) {close : Char}
    (hclose : close = ']' ∨ close = '\x7d') : ∃ c l, v.chars = c :: l ∧ c ≠ close := by
  obtain ⟨c, l, heq, hc⟩ := chars_head hjson
  refine ⟨c, l, heq, ?_⟩
  rintro rfl
  rcases hclose with rfl | rfl
  · cases v <;> simp [HasHead, plainChar] at hc
  · cases v <;> simp [HasHead, plainChar] at hc

/-- Values whose texts begin alike have a first character in common. -/
theorem Val.common_head {v w : Val} {t t' : List Char} (hjson : v.IsJson) (hjson' : w.IsJson)
    (h : v.chars ++ t = w.chars ++ t') : ∃ c, v.HasHead c ∧ w.HasHead c := by
  obtain ⟨c, l, heq, hc⟩ := chars_head hjson
  obtain ⟨c', l', heq', hc'⟩ := chars_head hjson'
  rw [heq, heq'] at h
  obtain rfl : c = c' := (List.cons.inj h).1
  exact ⟨c, hc, hc'⟩

/-- An atom can be told from every other value. -/
theorem Val.IsAtom.chars_append_inj {v w : Val} {t t' : List Char} (hv : v.IsAtom)
    (hjson : v.IsJson) (hjson' : w.IsJson) (ht : Follows t) (ht' : Follows t')
    (h : v.chars ++ t = w.chars ++ t') : v = w ∧ t = t' := by
  obtain ⟨c, hc, hc'⟩ := common_head hjson hjson' h
  -- The two texts start with the same character, so the other value is an atom as well.
  have hplain : plainChar c = true := by
    cases v with
    | str s => exact hv.elim
    | list xs => exact hv.elim
    | dict items => exact hv.elim
    | _ => exact hc
  have hw : w.IsAtom := by
    cases w with
    | str s => exact absurd hplain (by rw [show c = '"' from hc']; decide)
    | list xs => exact absurd hplain (by rw [show c = '[' from hc']; decide)
    | dict items => exact absurd hplain (by rw [show c = '\x7b' from hc']; decide)
    | _ => trivial
  -- The next character ends both atoms at the same place.
  obtain ⟨hchars, rfl⟩ :=
    plain_append_inj (hv.plain hjson).2 (hw.plain hjson').2 ht ht' h
  exact ⟨hv.chars_inj hw hjson hjson' hchars, rfl⟩

/-- The text of a value determines it, whatever follows. -/
theorem Val.chars_append_inj {v w : Val} (hjson : v.IsJson) (hjson' : w.IsJson) {t t' : List Char}
    (ht : Follows t) (ht' : Follows t') (h : v.chars ++ t = w.chars ++ t') : v = w ∧ t = t' := by
  -- The first character tells the kind of the value, so both are of one kind.
  induction hjson generalizing w t t' with
  | none => exact IsAtom.chars_append_inj trivial .none hjson' ht ht' h
  | bool b => exact IsAtom.chars_append_inj trivial (.bool b) hjson' ht ht' h
  | int n => exact IsAtom.chars_append_inj trivial (.int n) hjson' ht ht' h
  | float hr => exact IsAtom.chars_append_inj trivial (.float hr) hjson' ht ht' h
  | str s =>
    obtain ⟨_, rfl, hw⟩ := common_head (.str s) hjson' h
    cases hjson' with
    | str s' =>
      obtain ⟨rfl, rfl⟩ := dumpsStr_append_inj h
      exact ⟨rfl, rfl⟩
    | _ => simp [HasHead, plainChar] at hw
  | @list xs hxs ih =>
    obtain ⟨_, rfl, hw⟩ := common_head (.list hxs) hjson' h
    cases hjson' with
    | @list ys hys =>
      rw [chars_list, chars_list] at h
      obtain ⟨rfl, rfl⟩ := seqText_append_inj (Or.inl rfl)
        (fun x hx y hy t t' ht ht' => ih x hx (hys y hy) ht ht')
        (fun x hx => chars_head_ne (hxs x hx) (Or.inl rfl))
        (fun y hy => chars_head_ne (hys y hy) (Or.inl rfl)) (List.cons.inj h).2
      exact ⟨rfl, rfl⟩
    | _ => simp [HasHead, plainChar] at hw
  | @dict items hkeys hitems ih =>
    obtain ⟨_, rfl, hw⟩ := common_head (.dict hkeys hitems) hjson' h
    cases hjson' with
    | @dict items' hkeys' hitems' =>
      -- A member is read as its key and then, behind the colon, its value.
      have hmember : ∀ kv ∈ items, ∀ kv' ∈ items', ∀ t t', Follows t → Follows t' →
          memberText kv ++ t = memberText kv' ++ t' → kv = kv' ∧ t = t' := by
        intro kv hkv kv' hkv' t t' ht ht' hmember
        unfold memberText at hmember
        rw [List.append_assoc, List.append_assoc] at hmember
        obtain ⟨hkey, hrest⟩ := dumpsStr_append_inj hmember
        obtain ⟨hvalue, rfl⟩ :=
          ih kv hkv (hitems' kv' hkv') ht ht' (List.cons.inj (List.cons.inj hrest).2).2
        exact ⟨Prod.ext hkey hvalue, rfl⟩
      rw [chars_dict, chars_dict] at h
      obtain ⟨rfl, rfl⟩ := seqText_append_inj (Or.inr rfl) hmember
        (fun kv _ => memberText_head kv) (fun kv _ => memberText_head kv) (List.cons.inj h).2
      exact ⟨rfl, rfl⟩
    | _ => simp [HasHead, plainChar] at hw

/-- The text of a JSON value tells the value. -/
theorem Val.chars_injective {v w : Val} (hjson : v.IsJson) (hjson' : w.IsJson)
    (h : v.chars = w.chars) : v = w := by
  have hnil : Follows [] := by simp [Follows]
  exact (chars_append_inj hjson hjson' hnil hnil (congrArg (· ++ []) h)).1

end Py
