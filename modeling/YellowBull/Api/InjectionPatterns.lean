import YellowBull.Api.InputValidation
import YellowBull.Lib.PatternSearch

/-!
# The injection patterns

`_INJECTION_PATTERNS` of `core/security/input_validation.py`, which `InputValidator.validate`
searches a message for, and `InputValidator.validate_or_raise`, which may refuse a message for them.
A warning stands for a pattern that matches somewhere in the message and quotes its first match
(`validate_exact`). Neither text around a phrase nor the case of its letters hides it
(`validateOrRaise_of_hidden`).
-/

namespace YellowBull

open Py

/-! ## The patterns -/

/-- The characters beside `c` and its capital that `c` stands for with `re.IGNORECASE`: a dotted and
a dotless `i`, the long `s` and the sign for kelvin. -/
def otherCases (c : Char) : List Char :=
  if c = 'i' then [Char.ofNat 0x130, Char.ofNat 0x131]
  else if c = 's' then [Char.ofNat 0x17F]
  else if c = 'k' then [Char.ofNat 0x212A]
  else []

/-- The characters that a small letter, or what is no letter, stands for in a pattern with
`re.IGNORECASE`. -/
def ignoreCase (c x : Char) : Bool := x.toLower = c || (otherCases c).contains x

/-- The characters of a word. -/
def word (s : String) : Pattern Char := .seqs (s.toList.map fun c => .char (ignoreCase c))

/-- `\s*` -/
def spaces : Pattern Char := .many isSpace

/-- `\s+` -/
def spaces1 : Pattern Char := .some1 isSpace

/-- `_INJECTION_PATTERNS`. -/
def injectionPatterns : List (Pattern Char) :=
  [.seqs [word "ignore", spaces1, word "previous", spaces1,
      .alt (.seqs [word "instruction", .opt (word "s")]) (.seqs [word "command", .opt (word "s")])],
    .seqs [word "disregard", spaces1, word "above", spaces1,
      .alt (.seqs [word "instruction", .opt (word "s")]) (.seqs [word "rule", .opt (word "s")])],
    .seqs [word "system", spaces, word ":", spaces, .alt (word "prompt") (word "instruction")],
    .seqs [word "<", spaces, word "system", spaces, word ">"],
    .seqs [.opt (word "["), spaces, word "developer", spaces,
      .alt (word "mode") (word "message"), spaces, .opt (word "]")],
    .seqs [word "act", spaces1, word "as", spaces1, .opt (word "if"), spaces, word "a", spaces1,
      .alt (word "new") (word "different")],
    .seqs [word "pretend", spaces1, word "to", spaces1, word "be", spaces1, word "a", spaces1,
      .alt (word "new") (word "different")],
    .seqs [word "you", spaces1, word "are", spaces1, .opt (.seqs [word "now", spaces1]),
      .opt (.seqs [word "a", spaces1]), .alt (word "new") (word "different"), spaces1]]

/-- `pattern.search(text)` for a pattern, as the text that is found. -/
def searchText (r : Pattern Char) (text : String) : Option String :=
  (r.search text.toList).map String.ofList

/-! ## The validator -/

namespace InputValidator

/-- `InputValidator.validate`. -/
def validateText (v : InputValidator) (text : String) : ValidationResult :=
  v.validate (injectionPatterns.map searchText) text

/-- `InputValidator.validate_or_raise`. -/
def validateOrRaise (v : InputValidator) (text : String) (block_injections : Bool := false) :
    Except Exn Unit :=
  let result := v.validateText text
  if result.is_valid = false then
    .error ⟨.valueError, "Input validation failed: " ++ "; ".intercalate result.errors⟩
  else if block_injections ∧ result.warnings ≠ [] then
    .error ⟨.valueError,
      "Input blocked due to suspicious patterns: " ++ "; ".intercalate result.warnings⟩
  else .ok ()

end InputValidator

/-! ## What it finds -/

instance (r : Pattern Char) : DecidablePred r.Occurs := fun _ =>
  decidable_of_iff _ Pattern.isSome_search_iff

/-- A warning quotes a match of the pattern, and no match begins before it. -/
def Quotes (text : String) (r : Pattern Char) (warning : String) : Prop :=
  ∃ pre m post, text.toList = pre ++ m ++ post ∧ r.Matches m ∧
    (∀ pre' m' post', text.toList = pre' ++ m' ++ post' → r.Matches m' →
      pre.length ≤ pre'.length) ∧
    warning = "Suspicious pattern detected: '" ++ String.ofList m ++ "'"

/-- What stands on the left is related to something on the right. -/
theorem exists_of_forall₂ {α β : Type} {R : α → β → Prop} {as : List α} {bs : List β}
    (h : List.Forall₂ R as bs) {a : α} (ha : a ∈ as) : ∃ b ∈ bs, R a b := by
  induction h with
  | nil => cases ha
  | cons hR _ ih =>
    rcases List.mem_cons.mp ha with rfl | ha
    · exact ⟨_, List.mem_cons_self, hR⟩
    · obtain ⟨b, hb, hR'⟩ := ih ha
      exact ⟨b, List.mem_cons_of_mem _ hb, hR'⟩

/-- There is a warning for each pattern that matches somewhere, in their order. -/
theorem forall₂_warnings (text : String) (rs : List (Pattern Char)) :
    List.Forall₂ (Quotes text) (rs.filter (·.Occurs text.toList))
      (((rs.map searchText).filterMap fun search => search text).map fun found =>
        "Suspicious pattern detected: '" ++ found ++ "'") := by
  -- A pattern gives a warning if it occurs, and the warning quotes its first match.
  induction rs with
  | nil => exact .nil
  | cons r rs ih =>
    rw [List.map_cons, List.filterMap_cons, List.filter_cons]
    unfold searchText
    cases hsearch : r.search text.toList with
    | none =>
      have hoccurs : ¬ r.Occurs text.toList := by
        rw [← Pattern.isSome_search_iff, hsearch]
        exact Bool.false_ne_true
      rw [if_neg (by simpa using hoccurs)]
      exact ih
    | some m =>
      have hoccurs : r.Occurs text.toList := by
        rw [← Pattern.isSome_search_iff, hsearch]
        rfl
      rw [if_pos (by simpa using hoccurs)]
      obtain ⟨pre, post, htext, hm, hfirst⟩ := Pattern.search_eq_some hsearch
      exact .cons ⟨pre, m, post, htext, hm, hfirst, rfl⟩ ih

/-- The warnings of the validator. -/
theorem forall₂_validateText (v : InputValidator) (text : String) :
    List.Forall₂ (Quotes text)
      (if v.injection_detection then injectionPatterns.filter (·.Occurs text.toList) else [])
      (v.validateText text).warnings := by
  unfold InputValidator.validateText InputValidator.validate
  simp only
  split_ifs
  · exact forall₂_warnings text injectionPatterns
  · exact .nil

/-- There is a warning just if some pattern matches somewhere, and these are looked for. -/
theorem warnings_ne_nil_iff (v : InputValidator) (text : String) :
    (v.validateText text).warnings ≠ [] ↔
      v.injection_detection = true ∧ ∃ r ∈ injectionPatterns, r.Occurs text.toList := by
  rw [← List.length_pos_iff_ne_nil, ← (forall₂_validateText v text).length_eq]
  split_ifs with hv
  · rw [List.length_filter_pos_iff]
    simp [hv]
  · simp [hv]

/-- What the validator refuses. -/
theorem validateOrRaise_eq_error_iff (v : InputValidator) (text : String) (block : Bool) :
    (∃ e, v.validateOrRaise text block = .error e) ↔
      v.max_length < text.length ∨ block = true ∧ (v.validateText text).warnings ≠ [] := by
  have hvalid : (v.validateText text).is_valid = false ↔ v.max_length < text.length := by
    unfold InputValidator.validateText
    rw [← validate_errors_ne_nil (injectionPatterns.map searchText)]
    unfold InputValidator.validate
    simp
  unfold InputValidator.validateOrRaise
  simp only [hvalid]
  split_ifs with hlong hblock
  · exact iff_of_true ⟨_, rfl⟩ (.inl hlong)
  · exact iff_of_true ⟨_, rfl⟩ (.inr hblock)
  · refine iff_of_false ?_ (not_or.mpr ⟨hlong, hblock⟩)
    rintro ⟨e, ⟨⟩⟩

/-- The validator is exact. A message is valid just if it is not too long, there is a warning for
each pattern that matches somewhere in it, with its first match, and a message is refused just if it
is too long, or if it has such a match and these are to be blocked. -/
theorem validate_exact (v : InputValidator) (text : String) :
    ((v.validateText text).is_valid = true ↔ (text.length : ℤ) ≤ v.max_length) ∧
    List.Forall₂ (Quotes text)
      (if v.injection_detection then injectionPatterns.filter (·.Occurs text.toList) else [])
      (v.validateText text).warnings ∧
    ∀ block, (∃ e, v.validateOrRaise text block = .error e) ↔
      v.max_length < text.length ∨ block = true ∧ v.injection_detection = true ∧
        ∃ r ∈ injectionPatterns, r.Occurs text.toList := by
  refine ⟨?_, forall₂_validateText v text, fun block => ?_⟩
  · unfold InputValidator.validateText InputValidator.validate
    simp
  · rw [validateOrRaise_eq_error_iff, warnings_ne_nil_iff]

/-! ## What does not hide a phrase -/

/-- The characters are the same, or they are one letter in both cases. -/
def SameLetter (c c' : Char) : Prop := c.toLower = c'.toLower

instance : DecidableRel SameLetter := fun _ _ => inferInstanceAs (Decidable (_ = _))

/-- Only a capital changes to a small letter. -/
theorem toLower_cases (c : Char) :
    c.toLower = c ∨ 65 ≤ c.toNat ∧ c.toNat ≤ 90 ∧ c.toLower.toNat = c.toNat + 32 := by
  unfold Char.toLower
  split_ifs with h
  · have hle : c.val.toNat ≤ 90 := h.2
    have hshift : ('a'.val - 'A'.val).toNat = 32 := by decide
    refine .inr ⟨h.1, h.2, ?_⟩
    change (c.val + ('a'.val - 'A'.val)).toNat = c.val.toNat + 32
    rw [UInt32.toNat_add, hshift]
    omega
  · exact .inl rfl

/-- Different characters of this kind are letters. -/
theorem SameLetter.eq_or_letters {c c' : Char} (h : SameLetter c c') :
    c = c' ∨ (65 ≤ c.toNat ∧ c.toNat ≤ 122) ∧ 65 ≤ c'.toNat ∧ c'.toNat ≤ 122 ∧
      isSpace c = false ∧ isSpace c' = false := by
  have hspace {c : Char} (h : 65 ≤ c.toNat ∧ c.toNat ≤ 122) : isSpace c = false := by
    unfold isSpace
    simp
    omega
  have hnat : c.toLower.toNat = c'.toLower.toNat := congrArg Char.toNat h
  rcases toLower_cases c with hc | ⟨hc, hc', hlower⟩
  · rcases toLower_cases c' with hc₁ | ⟨hc₁, hc₁', hlower₁⟩
    · exact .inl (hc.symm.trans (h.trans hc₁))
    · rw [hc, hlower₁] at hnat
      exact .inr ⟨by omega, hc₁, by omega, hspace (by omega), hspace (by omega)⟩
  · rcases toLower_cases c' with hc₁ | ⟨hc₁, hc₁', hlower₁⟩
    · rw [hc₁, hlower] at hnat
      exact .inr ⟨by omega, by omega, by omega, hspace (by omega), hspace (by omega)⟩
    · exact .inr ⟨by omega, hc₁, by omega, hspace (by omega), hspace (by omega)⟩

/-- White space is told from no other character of the kind. -/
theorem isSpace_congr (c c' : Char) (h : SameLetter c c') : isSpace c = isSpace c' := by
  rcases h.eq_or_letters with rfl | ⟨-, -, -, hc, hc'⟩
  · rfl
  · rw [hc, hc']

/-- The cases of a letter are not told apart. -/
theorem ignoreCase_congr (l c c' : Char) (h : SameLetter c c') :
    ignoreCase l c = ignoreCase l c' := by
  have hothers : ∀ x ∈ otherCases l, 122 < x.toNat := by
    unfold otherCases
    split_ifs <;> simp
  have hlower : c.toLower = c'.toLower := h
  unfold ignoreCase
  rw [hlower]
  rcases h.eq_or_letters with rfl | ⟨⟨-, hc⟩, -, hc', -⟩
  · rfl
  · have hno (x : Char) (hx : x.toNat ≤ 122) : (otherCases l).contains x = false := by
      rw [← Bool.not_eq_true, List.contains_iff_mem]
      exact fun hmem => absurd (hothers x hmem) (by omega)
    rw [hno c hc, hno c' hc']

/-- A word does not tell the cases of its letters apart. -/
theorem word_respects (s : String) : (word s).Respects SameLetter := by
  refine .seqs fun r hr => ?_
  obtain ⟨l, -, rfl⟩ := List.mem_map.mp hr
  exact ignoreCase_congr l

/-- No pattern depends on the case of a letter. -/
theorem injectionPatterns_respect : ∀ r ∈ injectionPatterns, r.Respects SameLetter := by
  have hspaces : spaces.Respects SameLetter := isSpace_congr
  have hspaces1 : spaces1.Respects SameLetter := ⟨isSpace_congr, isSpace_congr⟩
  have hempty : Pattern.empty.Respects SameLetter := trivial
  simp [injectionPatterns, Pattern.seqs, Pattern.opt, Pattern.Respects, word_respects, hspaces,
    hspaces1]

/-- A phrase that a message holds is found as well with its letters in other cases and in any other
text: the pattern has its warning there, and the message is refused if matches are blocked. -/
theorem validateOrRaise_of_hidden {v : InputValidator} (hv : v.injection_detection = true)
    {text hidden : String} (hcase : List.Forall₂ SameLetter text.toList hidden.toList)
    (before after : String) {r : Pattern Char} (hr : r ∈ injectionPatterns)
    (hoccurs : r.Occurs text.toList) :
    (∃ warning ∈ (v.validateText (before ++ hidden ++ after)).warnings,
      Quotes (before ++ hidden ++ after) r warning) ∧
    ∃ e, v.validateOrRaise (before ++ hidden ++ after) true = .error e := by
  have hfound : r.Occurs (before ++ hidden ++ after).toList := by
    rw [String.toList_append, String.toList_append]
    exact (hoccurs.related (injectionPatterns_respect r hr) hcase).append _ _
  constructor
  · have hall := forall₂_validateText v (before ++ hidden ++ after)
    rw [if_pos hv] at hall
    exact exists_of_forall₂ hall (List.mem_filter.mpr ⟨hr, by simpa using hfound⟩)
  · exact (validateOrRaise_eq_error_iff ..).mpr
      (.inr ⟨rfl, (warnings_ne_nil_iff ..).mpr ⟨hv, r, hr, hfound⟩⟩)

/-- A phrase in capitals, in a sentence. -/
theorem validateOrRaise_of_hidden_capitals :
    ∃ e, InputValidator.validateOrRaise {} ("Please " ++ "YOU ARE NEW " ++ "here") true =
      .error e := by
  have hcase : List.Forall₂ SameLetter "you are new ".toList "YOU ARE NEW ".toList := by decide
  have hoccurs : ∃ r ∈ injectionPatterns, r.Occurs "you are new ".toList := by decide
  obtain ⟨r, hr, hoccurs⟩ := hoccurs
  exact (validateOrRaise_of_hidden rfl hcase "Please " "here" hr hoccurs).2

end YellowBull
