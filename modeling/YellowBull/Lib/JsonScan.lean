import YellowBull.Lib.JsonText

/-!
# A name before the text of an object

A text that consists of a name, a colon and the JSON text of an object has one reading only
(`name_dict_injective`), whatever the name contains, colons, quotes and whole objects included.

A `Scan` goes through a JSON text and tells where it is in a string. Outside strings, a space
follows every colon. In a second reading of the text, the object of the longer name stands in the
other object after a colon that is in a string. On the characters of that object, a scanner that
begins outside strings and one that begins in a string are never both outside (`Scan.Opposed`); but
each of them ends outside, as one object and the other end there.
-/

namespace Py

/-- Where a scanner of JSON text stands. -/
inductive Scan where
  /-- Outside strings. -/
  | out
  /-- After a colon outside strings. -/
  | colon
  /-- In a string. -/
  | str
  /-- After a backslash in a string. -/
  | esc
  /-- After what no JSON text has. -/
  | dead
  deriving DecidableEq

namespace Scan

/-- The scanner reads a character. -/
def next : Scan → Char → Scan
  | .out, c =>
    if c = '"' then .str else if c = '\\' then .dead else if c = ':' then .colon else .out
  | .colon, c => if c = ' ' then .out else .dead
  | .str, c => if c = '"' then .out else if c = '\\' then .esc else .str
  | .esc, _ => .str
  | .dead, _ => .dead

/-- It reads a text. -/
def run (s : Scan) (t : List Char) : Scan := t.foldl next s

/-- Nothing to read leaves the scan where it is. -/
@[simp]
theorem run_nil (s : Scan) : s.run [] = s := rfl

/-- A text is read one character at a time. -/
@[simp]
theorem run_cons (s : Scan) (c : Char) (t : List Char) : s.run (c :: t) = (s.next c).run t := rfl

/-- A text is read after the one before it. -/
@[simp]
theorem run_append (s : Scan) (t t' : List Char) : s.run (t ++ t') = (s.run t).run t' :=
  List.foldl_append

/-! ## JSON texts -/

/-- A hexadecimal digit stays within a string. -/
theorem next_hexDigit (n : ℕ) : Scan.str.next (hexDigit (n % 16)) = .str := by
  have hall : ∀ m < 16, Scan.str.next (hexDigit m) = .str := by decide
  exact hall _ (Nat.mod_lt _ (by decide))

/-- An escaped code unit stays within a string. -/
theorem run_escapeUnit (n : ℕ) : Scan.str.run (escapeUnit n) = .str := by
  have hstart : (Scan.str.next '\\').next 'u' = .str := by decide
  simp only [escapeUnit, run_cons, run_nil, hstart, next_hexDigit]

/-- The text of a character is in the string as a whole. -/
theorem run_escapeChar (c : Char) : Scan.str.run (escapeChar c) = .str := by
  rcases escapeChar_cases c with ⟨heq, hquote, hslash, -⟩ | ⟨e, heq, -⟩ | ⟨heq, -⟩ | ⟨heq, -⟩
  · rw [heq]
    simp [next, hquote, hslash]
  · rw [heq]
    rfl
  · rw [heq, run_escapeUnit]
  · rw [heq, run_append, run_escapeUnit, run_escapeUnit]

/-- Escaped characters stay within a string. -/
theorem run_escaped (cs : List Char) : Scan.str.run (cs.flatMap escapeChar) = .str := by
  induction cs with
  | nil => rfl
  | cons c cs ih => rw [List.flatMap_cons, run_append, run_escapeChar, ih]

/-- A string that is written begins and ends outside of strings. -/
theorem run_dumpsStr (s : String) : Scan.out.run (dumpsStr s).toList = .out := by
  rw [toList_dumpsStr, run_cons, run_append]
  exact congrArg (Scan.run · ['"']) (run_escaped s.toList)

/-- Plain characters are outside strings. -/
theorem run_plain {t : List Char} (h : ∀ c ∈ t, plainChar c = true) : Scan.out.run t = .out := by
  induction t with
  | nil => rfl
  | cons c t ih =>
    have hc : Scan.out.next c = .out := by
      have hplain := h c List.mem_cons_self
      have hquote : c ≠ '"' := by rintro rfl; cases hplain
      have hslash : c ≠ '\\' := by rintro rfl; cases hplain
      have hcolon : c ≠ ':' := by rintro rfl; cases hplain
      simp [next, hquote, hslash, hcolon]
    rw [run_cons, hc, ih fun c' hc' => h c' (List.mem_cons_of_mem _ hc')]

/-- So does a value without parts. -/
theorem run_atom {v : Val} (hv : v.IsAtom) (hjson : v.IsJson) : Scan.out.run v.chars = .out :=
  run_plain (hv.plain hjson).2

section Sequence

variable {close : Char} (hclose : close = ']' ∨ close = '\x7d')
include hclose

/-- So does the rest of a sequence, if its parts do. -/
theorem run_restText {ts : List (List Char)} (h : ∀ t ∈ ts, Scan.out.run t = .out) :
    Scan.out.run (restText close ts) = .out := by
  induction ts with
  | nil => rcases hclose with rfl | rfl <;> decide
  | cons t ts ih =>
    have hcomma : (Scan.out.next ',').next ' ' = .out := by decide
    rw [restText, run_cons, run_cons, hcomma, run_append, h t List.mem_cons_self,
      ih fun t' ht' => h t' (List.mem_cons_of_mem _ ht')]

/-- So does a sequence, if its parts do. -/
theorem run_seqText {ts : List (List Char)} (h : ∀ t ∈ ts, Scan.out.run t = .out) :
    Scan.out.run (seqText close ts) = .out := by
  cases ts with
  | nil => exact run_restText hclose h
  | cons t ts =>
    rw [seqText, run_append, h t List.mem_cons_self,
      run_restText hclose fun t' ht' => h t' (List.mem_cons_of_mem _ ht')]

end Sequence

/-- A JSON text begins and ends outside strings. -/
theorem run_chars {v : Val} (hjson : v.IsJson) : Scan.out.run v.chars = .out := by
  -- Each value is read from outside of all strings back to outside.
  induction hjson with
  | none => exact run_atom trivial .none
  | bool b => exact run_atom trivial (.bool b)
  | int n => exact run_atom trivial (.int n)
  | float hr => exact run_atom trivial (.float hr)
  | str s => exact run_dumpsStr s
  | list hxs ih =>
    have hopen : Scan.out.next '[' = .out := by decide
    rw [Val.chars_list, run_cons, hopen]
    refine run_seqText (Or.inl rfl) fun t ht => ?_
    obtain ⟨x, hx, rfl⟩ := List.mem_map.mp ht
    exact ih x hx
  | dict hkeys hitems ih =>
    have hopen : Scan.out.next '\x7b' = .out := by decide
    rw [Val.chars_dict, run_cons, hopen]
    refine run_seqText (Or.inr rfl) fun t ht => ?_
    -- The key is a string, and the colon behind it is outside again.
    obtain ⟨kv, hkv, rfl⟩ := List.mem_map.mp ht
    have hcolon : (Scan.out.next ':').next ' ' = .out := by decide
    rw [memberText, run_append, run_dumpsStr, run_cons, run_cons, hcolon, ih kv hkv]

/-! ## Two scanners -/

/-- Where a scanner that began in a string and one that began outside may stand together. -/
def Opposed : Scan → Scan → Prop
  | .out, o => o = .str ∨ o = .dead
  | .colon, o => o = .str ∨ o = .dead
  | .str, o => o = .out ∨ o = .colon ∨ o = .dead
  | .esc, o => o = .dead
  | .dead, _ => True

/-- A character that both read keeps the scans opposed. -/
theorem Opposed.next {s o : Scan} (h : s.Opposed o) (c : Char) : (s.next c).Opposed (o.next c) := by
  -- Every state and every one opposed to it is followed through the character.
  cases s with
  | out =>
    rcases h with rfl | rfl
    · simp only [Scan.next]
      split_ifs <;> simp [Opposed]
    · simp only [Scan.next]
      split_ifs <;> simp [Opposed]
  | colon =>
    rcases h with rfl | rfl
    · simp only [Scan.next]
      split_ifs <;> simp_all [Opposed]
    · simp only [Scan.next]
      split_ifs <;> simp [Opposed]
  | str =>
    rcases h with rfl | rfl | rfl
    · simp only [Scan.next]
      split_ifs <;> simp [Opposed]
    · simp only [Scan.next]
      split_ifs <;> simp_all [Opposed]
    · simp only [Scan.next]
      split_ifs <;> simp [Opposed]
  | esc =>
    obtain rfl : o = .dead := h
    exact Or.inr (Or.inr rfl)
  | dead => trivial

/-- So does a text. -/
theorem Opposed.run {s o : Scan} (h : s.Opposed o) (t : List Char) :
    (s.run t).Opposed (o.run t) := by
  induction t generalizing s o with
  | nil => exact h
  | cons c t ih => exact ih (h.next c)

/-- After a colon and an opening brace in a JSON text, wherever they stand, the scanner is opposed
to one that begins outside. -/
theorem opposed_colon_brace (s : Scan) : ((s.next ':').next '\x7b').Opposed .out := by
  cases s <;> simp [next, Opposed]

end Scan

/-! ## The reading -/

/-- No object ends with a colon and the text of an object. -/
theorem Val.chars_ne_colon_dict {v : Val} (hjson : v.IsJson) {items : Dict}
    (hitems : (Val.dict items).IsJson) (x : List Char) :
    v.chars ≠ x ++ ':' :: (Val.dict items).chars := by
  intro h
  have hv := Scan.run_chars hjson
  have hdict := Scan.run_chars hitems
  have hopen : Scan.out.next '\x7b' = .out := by decide
  rw [h, Scan.run_append, Scan.run_cons] at hv
  rw [Val.chars_dict, Scan.run_cons] at hv hdict
  have hopposed := (Scan.opposed_colon_brace (Scan.out.run x)).run
    (seqText '\x7d' (items.map memberText))
  rw [hopen] at hdict
  rw [hv, hdict] at hopposed
  rcases hopposed with h | h <;> cases h

/-- A name, a colon and an object can be read in one way only. -/
theorem name_dict_injective {name name' : List Char} {items items' : Dict}
    (hitems : (Val.dict items).IsJson) (hitems' : (Val.dict items').IsJson)
    (h : name ++ ':' :: (Val.dict items).chars = name' ++ ':' :: (Val.dict items').chars) :
    name = name' ∧ items = items' := by
  rcases List.append_eq_append_iff.mp h with ⟨x, rfl, hx⟩ | ⟨x, rfl, hx⟩
  · cases x with
    | nil =>
      have hdict := Val.chars_injective hitems hitems' (List.cons.inj hx).2
      exact ⟨(List.append_nil name).symm, Val.dict.inj hdict⟩
    | cons c x => exact absurd (List.cons.inj hx).2 (Val.chars_ne_colon_dict hitems hitems' x)
  · cases x with
    | nil =>
      have hdict := Val.chars_injective hitems' hitems (List.cons.inj hx).2
      exact ⟨List.append_nil name', (Val.dict.inj hdict).symm⟩
    | cons c x => exact absurd (List.cons.inj hx).2 (Val.chars_ne_colon_dict hitems' hitems x)

end Py
