import YellowBull.Lib.JsonText

/-!
# JSON texts of one line

`json.dumps(.., ensure_ascii=False)` of a dict of strings: of the characters of a string only
quotes, backslashes and the controls are escaped. The text determines the dict
(`dumpsStrings_injective`), and no control character stands in it, in particular no line feed
(`noControl_dumpsStrings`), whatever the strings hold.
-/

namespace Py

/-- A character of a string in such a text. -/
def escapeControl (c : Char) : List Char :=
  match c.toNat with
  | 8 => ['\\', 'b']
  | 9 => ['\\', 't']
  | 10 => ['\\', 'n']
  | 12 => ['\\', 'f']
  | 13 => ['\\', 'r']
  | 34 => ['\\', c]
  | 92 => ['\\', c]
  | n => if 32 ≤ n then [c] else escapeUnit n

/-- `json.dumps(s, ensure_ascii=False)` of a string. -/
def dumpsUnicode (s : String) : String :=
  "\"" ++ String.ofList (s.toList.flatMap escapeControl) ++ "\""

/-- `json.dumps(items, ensure_ascii=False)` of a dict of strings. -/
def dumpsStrings (items : List (String × String)) : String :=
  "\x7b" ++ join ", " (items.map fun kv => dumpsUnicode kv.1 ++ ": " ++ dumpsUnicode kv.2) ++ "\x7d"

example : dumpsStrings [("user_id", "é\"\n\x01"), ("level", "INFO")] =
    "\x7b\"user_id\": \"é\\\"\\n\\u0001\", \"level\": \"INFO\"\x7d" := by decide

/-- The text of a character is itself, a short escape, or the escape of its code. -/
theorem escapeControl_cases (c : Char) :
    (escapeControl c = [c] ∧ c ≠ '"' ∧ c ≠ '\\' ∧ 32 ≤ c.toNat) ∨
      (∃ e, escapeControl c = ['\\', e] ∧ e ≠ 'u' ∧ unescaped e = c.toNat ∧ 32 ≤ e.toNat) ∨
      (escapeControl c = escapeUnit c.toNat ∧ c.toNat < 32) := by
  -- The seven characters with a short escape come first, then the printable ones.
  unfold escapeControl
  split
  next h => exact .inr (.inl ⟨'b', rfl, by decide, h.symm, by decide⟩)
  next h => exact .inr (.inl ⟨'t', rfl, by decide, h.symm, by decide⟩)
  next h => exact .inr (.inl ⟨'n', rfl, by decide, h.symm, by decide⟩)
  next h => exact .inr (.inl ⟨'f', rfl, by decide, h.symm, by decide⟩)
  next h => exact .inr (.inl ⟨'r', rfl, by decide, h.symm, by decide⟩)
  next h =>
    obtain rfl : c = '"' := Char.toNat_inj.mp h
    exact .inr (.inl ⟨'"', rfl, by decide, rfl, by decide⟩)
  next h =>
    obtain rfl : c = '\\' := Char.toNat_inj.mp h
    exact .inr (.inl ⟨'\\', rfl, by decide, rfl, by decide⟩)
  next hquote hslash =>
    split_ifs with hprint
    · refine .inl ⟨rfl, ?_, ?_, hprint⟩
      · rintro rfl
        exact hquote rfl
      · rintro rfl
        exact hslash rfl
    · exact .inr (.inr ⟨rfl, by omega⟩)

/-! ## Texts determine the strings -/

/-- What the text of a character begins with tells the character. -/
theorem codeUnit_escapeControl (c : Char) (t : List Char) :
    codeUnit (escapeControl c ++ t) = (c.toNat, t) := by
  rcases escapeControl_cases c with ⟨heq, -, hslash, -⟩ | ⟨e, heq, hu, he, -⟩ | ⟨heq, hlt⟩
  · rw [heq]
    simp [codeUnit, hslash]
  · rw [heq, ← he]
    simp [codeUnit, hu]
  · rw [heq, codeUnit_escapeUnit (by omega)]

/-- The escape of a character tells where it ends. -/
theorem escapeControl_append_inj {c c' : Char} {t t' : List Char}
    (h : escapeControl c ++ t = escapeControl c' ++ t') : c = c' ∧ t = t' := by
  have hunit := congrArg codeUnit h
  rw [codeUnit_escapeControl, codeUnit_escapeControl] at hunit
  obtain ⟨hc, rfl⟩ := Prod.mk.inj hunit
  exact ⟨Char.toNat_inj.mp hc, rfl⟩

/-- The text of a character does not begin with a quote. -/
theorem escapeControl_head (c : Char) : ∃ a t, escapeControl c = a :: t ∧ a ≠ '"' := by
  rcases escapeControl_cases c with ⟨heq, hquote, -⟩ | ⟨e, heq, -⟩ | ⟨heq, -⟩
  · exact ⟨c, [], heq, hquote⟩
  · exact ⟨_, _, heq, by decide⟩
  · exact ⟨_, _, heq, by decide⟩

/-- A string is written between quotes, character by character. -/
theorem toList_dumpsUnicode (s : String) :
    (dumpsUnicode s).toList = '"' :: (s.toList.flatMap escapeControl ++ ['"']) := by
  simp [dumpsUnicode]

/-- A string that is written tells where it ends. -/
theorem dumpsUnicode_append_inj {s s' : String} {t t' : List Char}
    (h : (dumpsUnicode s).toList ++ t = (dumpsUnicode s').toList ++ t') : s = s' ∧ t = t' := by
  rw [toList_dumpsUnicode, toList_dumpsUnicode, List.cons_append, List.cons_append,
    List.append_assoc, List.append_assoc] at h
  obtain ⟨hs, rfl⟩ :=
    flatMap_append_inj escapeControl_append_inj escapeControl_head (List.cons.inj h).2
  exact ⟨String.toList_inj.mp hs, rfl⟩

/-- An item of a dict. -/
def itemText (kv : String × String) : List Char :=
  (dumpsUnicode kv.1).toList ++ ':' :: ' ' :: (dumpsUnicode kv.2).toList

/-- An object is written between braces, item by item. -/
theorem toList_dumpsStrings (items : List (String × String)) :
    (dumpsStrings items).toList = '\x7b' :: seqText '\x7d' (items.map itemText) := by
  have hitem : String.toList ∘ (fun kv : String × String =>
      dumpsUnicode kv.1 ++ ": " ++ dumpsUnicode kv.2) = itemText := by
    funext kv
    simp [itemText, List.append_assoc]
  have hjoin := toList_join
    (items.map fun kv => dumpsUnicode kv.1 ++ ": " ++ dumpsUnicode kv.2) '\x7d'
  rw [List.map_map, hitem] at hjoin
  rw [dumpsStrings, String.toList_append, String.toList_append]
  exact congrArg ('\x7b' :: ·) hjoin

/-- An item that is written tells where it ends. -/
theorem itemText_append_inj {kv kv' : String × String} {t t' : List Char}
    (h : itemText kv ++ t = itemText kv' ++ t') : kv = kv' ∧ t = t' := by
  unfold itemText at h
  rw [List.append_assoc, List.append_assoc] at h
  obtain ⟨hkey, hrest⟩ := dumpsUnicode_append_inj h
  obtain ⟨hvalue, rfl⟩ := dumpsUnicode_append_inj (List.cons.inj (List.cons.inj hrest).2).2
  exact ⟨Prod.ext hkey hvalue, rfl⟩

/-- The text determines the dict, with the order of its keys. -/
theorem dumpsStrings_injective : Function.Injective dumpsStrings := by
  intro items items' h
  have htext := congrArg String.toList h
  rw [toList_dumpsStrings, toList_dumpsStrings] at htext
  have hhead (kv : String × String) : ∃ c l, itemText kv = c :: l ∧ c ≠ '\x7d' := by
    unfold itemText
    rw [toList_dumpsUnicode]
    exact ⟨'"', _, rfl, by decide⟩
  have hseq : seqText '\x7d' (items.map itemText) ++ [] =
      seqText '\x7d' (items'.map itemText) ++ [] := by
    rw [(List.cons.inj htext).2]
  exact (seqText_append_inj (.inr rfl) (fun _ _ _ _ _ _ _ _ h => itemText_append_inj h)
    (fun kv _ => hhead kv) (fun kv _ => hhead kv) hseq).1

/-! ## Texts are one line -/

/-- The characters that are no controls. -/
def NoControl (t : List Char) : Prop := ∀ c ∈ t, 32 ≤ c.toNat

/-- Two texts without control characters have none together. -/
theorem NoControl.append {t t' : List Char} (h : NoControl t) (h' : NoControl t') :
    NoControl (t ++ t') := by
  intro c hc
  rcases List.mem_append.mp hc with hc | hc
  · exact h c hc
  · exact h' c hc

/-- A character that is none may stand before such a text. -/
theorem NoControl.cons {a : Char} {t : List Char} (ha : 32 ≤ a.toNat) (h : NoControl t) :
    NoControl (a :: t) := by
  intro c hc
  rcases List.mem_cons.mp hc with rfl | hc
  · exact ha
  · exact h c hc

/-- An escape has no control character. -/
theorem noControl_escapeControl (c : Char) : NoControl (escapeControl c) := by
  have hdigit : ∀ n < 16, 32 ≤ (hexDigit n).toNat := by decide
  have hnil : NoControl [] := fun _ hc => (List.not_mem_nil hc).elim
  rcases escapeControl_cases c with ⟨heq, -, -, hc⟩ | ⟨e, heq, -, -, he⟩ | ⟨heq, -⟩
  · rw [heq]
    exact hnil.cons hc
  · rw [heq]
    exact (hnil.cons he).cons (by decide)
  · rw [heq, escapeUnit]
    refine ((((((hnil.cons ?_).cons ?_).cons ?_).cons ?_).cons (by decide)).cons (by decide))
    all_goals exact hdigit _ (Nat.mod_lt _ (by decide))

/-- A string is written without control characters. -/
theorem noControl_dumpsUnicode (s : String) : NoControl (dumpsUnicode s).toList := by
  have hquote : NoControl ['"'] := by
    intro c hc
    obtain rfl := List.mem_singleton.mp hc
    decide
  have hchars : NoControl (s.toList.flatMap escapeControl) := by
    intro c hc
    obtain ⟨a, -, hc⟩ := List.mem_flatMap.mp hc
    exact noControl_escapeControl a c hc
  rw [toList_dumpsUnicode]
  exact (hchars.append hquote).cons (by decide)

/-- No control character stands in the text of a dict. -/
theorem noControl_dumpsStrings (items : List (String × String)) :
    NoControl (dumpsStrings items).toList := by
  have hitem (kv : String × String) : NoControl (itemText kv) :=
    (noControl_dumpsUnicode kv.1).append
      (((noControl_dumpsUnicode kv.2).cons (by decide)).cons (by decide))
  -- The brackets and separators are no control characters either.
  have hclose : NoControl ['\x7d'] := by
    intro c hc
    obtain rfl := List.mem_singleton.mp hc
    decide
  have hrest (items : List (String × String)) :
      NoControl (restText '\x7d' (items.map itemText)) := by
    induction items with
    | nil => exact hclose
    | cons kv items ih => exact (((hitem kv).append ih).cons (by decide)).cons (by decide)
  rw [toList_dumpsStrings]
  refine NoControl.cons (by decide) ?_
  cases items with
  | nil => exact hclose
  | cons kv items => exact (hitem kv).append (hrest items)

end Py
