import YellowBull.Lib.Regex
import YellowBull.Settings

/-!
# The environment in the configuration

`_resolve_env_vars` replaces the matches of a regular expression in every string of a configuration
value. `resolveText` is a scanner that knows no repetitions but the longest run of word characters.
Both are the same left-to-right pass over the tokens `${NAME}`: `OnePass` says what the pass is for,
`onePass_iff` that the scanner makes it, and `sub_iff` that a substitution of the matches of
`envPattern` has no other result, however an engine takes its repetitions apart.

`resolveEnvVars_one_pass` carries the pass through nested values, and says which variables it reads.
-/

namespace YellowBull

open Py

/-! ## The pattern -/

/-- The characters `$`, `{`, `}` and `_`. -/
def dollar : CodePoint := chr 36

def openBrace : CodePoint := chr 123

def closeBrace : CodePoint := chr 125

def underscore : CodePoint := chr 95

/-- A pattern for one character. -/
def literal (c : CodePoint) : Regex CodePoint := .char (· = c)

/-- `\w+(?:_\w+)*`. -/
def namePattern (isWord : CodePoint → Bool) : Regex CodePoint :=
  .seq (.plus (.char isWord)) (.star (.seq (literal underscore) (.plus (.char isWord))))

/-- `\$\{(\w+(?:_\w+)*)\}`. -/
def envPattern (isWord : CodePoint → Bool) : Regex CodePoint :=
  .seq (literal dollar) (.seq (literal openBrace)
    (.seq (.group (namePattern isWord)) (literal closeBrace)))

/-- `_replace`, given the groups 0 and 1 of the match. -/
def replaceVar (environ : Text → Option Text) (whole : Text) (groups : List Text) : Text :=
  (environ (groups.headD [])).getD whole

/-- `${NAME}`. -/
def token (name : Text) : Text := dollar :: openBrace :: name ++ [closeBrace]

/-- A token with what stands behind it, character by character. -/
theorem token_append (name rest : Text) :
    token name ++ rest = dollar :: openBrace :: (name ++ closeBrace :: rest) := by
  simp [token]

/-- A name is a non-empty run of word characters. -/
def IsName (isWord : CodePoint → Bool) (name : Text) : Prop :=
  name ≠ [] ∧ ∀ c ∈ name, isWord c = true

section Pattern

variable {isWord : CodePoint → Bool}

/-- The repetitions in the pattern of a name add nothing to a run of word characters. -/
theorem matches_namePattern_iff (hunderscore : isWord underscore = true) {t : Text}
    {gs : List Text} : (namePattern isWord).Matches t gs ↔ IsName isWord t ∧ gs = [] := by
  constructor
  · intro h
    have hwithin : (namePattern isWord).Within fun c => isWord c = true := by
      have hlit : ∀ c, decide (c = underscore) = true → isWord c = true := by
        intro c hc
        rwa [of_decide_eq_true hc]
      exact ⟨⟨fun _ h => h, fun _ h => h⟩, hlit, fun _ h => h, fun _ h => h⟩
    have hplain : (namePattern isWord).Plain := ⟨⟨trivial, trivial⟩, trivial, trivial, trivial⟩
    obtain ⟨t₁, t₂, gs₁, gs₂, hplus, -, rfl, -⟩ := Regex.matches_seq_iff.mp h
    have hne := Regex.ne_nil_of_matches_plus_char hplus
    exact ⟨⟨by simp [hne], h.within hwithin⟩, h.captures_eq_nil hplain⟩
  · rintro ⟨⟨hne, hword⟩, rfl⟩
    have hplus := Regex.matches_plus_char hne hword
    -- No round of the outer repetition is needed.
    simpa [namePattern] using hplus.seq Regex.Matches.done

/-- A literal matches its character. -/
theorem matches_literal_iff {c : CodePoint} {t : Text} {gs : List Text} :
    (literal c).Matches t gs ↔ t = [c] ∧ gs = [] := by
  constructor
  · intro h
    obtain ⟨c', hc', rfl, rfl⟩ := Regex.matches_char_iff.mp h
    rw [of_decide_eq_true hc']
    exact ⟨rfl, rfl⟩
  · rintro ⟨rfl, rfl⟩
    exact .char (decide_eq_true rfl)

/-- The pattern matches the tokens, and captures their names. -/
theorem matches_envPattern_iff (hunderscore : isWord underscore = true) {t : Text}
    {gs : List Text} : (envPattern isWord).Matches t gs ↔
      ∃ name, IsName isWord name ∧ t = token name ∧ gs = [name] := by
  constructor
  -- The pattern is a dollar, a brace, the group and the closing brace.
  · intro h
    obtain ⟨_, _, _, _, hdollar, hrest, rfl, rfl⟩ := Regex.matches_seq_iff.mp h
    obtain ⟨_, _, _, _, hopen, hrest', rfl, rfl⟩ := Regex.matches_seq_iff.mp hrest
    obtain ⟨name, _, _, _, hgroup, hclose, rfl, rfl⟩ := Regex.matches_seq_iff.mp hrest'
    obtain ⟨_, hname, rfl⟩ := Regex.matches_group_iff.mp hgroup
    obtain ⟨rfl, rfl⟩ := matches_literal_iff.mp hdollar
    obtain ⟨rfl, rfl⟩ := matches_literal_iff.mp hopen
    obtain ⟨rfl, rfl⟩ := matches_literal_iff.mp hclose
    obtain ⟨hisName, rfl⟩ := (matches_namePattern_iff hunderscore).mp hname
    exact ⟨name, hisName, rfl, rfl⟩
  · rintro ⟨name, hname, rfl, rfl⟩
    have hinner := (matches_namePattern_iff hunderscore).mpr ⟨hname, rfl⟩
    exact (matches_literal_iff.mpr ⟨rfl, rfl⟩).seq ((matches_literal_iff.mpr ⟨rfl, rfl⟩).seq
      (hinner.group.seq (matches_literal_iff.mpr ⟨rfl, rfl⟩)))

end Pattern

/-! ## One pass -/

/-- The text begins with a token. -/
def BeginsWithToken (isWord : CodePoint → Bool) (t : Text) : Prop :=
  ∃ name rest, IsName isWord name ∧ t = token name ++ rest

/-- One pass over a text from left to right: a token gives the value of its variable, or itself if
that is not set, and the pass goes on behind it; any other character stays. -/
inductive OnePass (isWord : CodePoint → Bool) (environ : Text → Option Text) : Text → Text → Prop
  | nil : OnePass isWord environ [] []
  | token {name rest out : Text} (hname : IsName isWord name)
    (hrest : OnePass isWord environ rest out) :
    OnePass isWord environ (token name ++ rest) ((environ name).getD (token name) ++ out)
  | char {c : CodePoint} {t out : Text} (h : ¬ BeginsWithToken isWord (c :: t))
    (hrest : OnePass isWord environ t out) : OnePass isWord environ (c :: t) (c :: out)

namespace ConfigSystem

variable {σ : Type} (S : ConfigSystem σ)

section Scanner

variable {S}

/-- The scanner finds a token just if the text begins with it. -/
theorem envVar?_eq_some_iff (hbrace : S.isWord closeBrace = false) {t name rest : Text} :
    S.envVar? t = some (name, rest) ↔ IsName S.isWord name ∧ t = token name ++ rest := by
  constructor
  · intro h
    unfold envVar? at h
    split at h
    next t =>
      split at h
      next c name' rest' hname hrest =>
        obtain ⟨rfl, rfl⟩ := Prod.mk.inj (Option.some.inj h)
        -- The name is as long as word characters go, and no closing brace is one.
        have hword : ∀ c' ∈ c :: name', S.isWord c' = true := by
          rw [← hname]
          exact fun c' hc' => List.mem_takeWhile_imp hc'
        have hsplit := List.takeWhile_append_dropWhile (p := S.isWord) (l := t)
        rw [hname, hrest] at hsplit
        refine ⟨⟨List.cons_ne_nil c name', hword⟩, ?_⟩
        rw [← hsplit, token_append]
        rfl
      next => cases h
    next => cases h
  · rintro ⟨⟨hne, hword⟩, rfl⟩
    obtain ⟨c, name, rfl⟩ := List.exists_cons_of_ne_nil hne
    -- Conversely it ends at the brace, wherever the text goes on to.
    have htake : (c :: name ++ closeBrace :: rest).takeWhile S.isWord = c :: name := by
      rw [List.takeWhile_append_of_pos hword, List.takeWhile_cons_of_neg (by simp [hbrace]),
        List.append_nil]
    have hdrop : (c :: name ++ closeBrace :: rest).dropWhile S.isWord = closeBrace :: rest := by
      rw [List.dropWhile_append_of_pos hword, List.dropWhile_cons_of_neg (by simp [hbrace])]
    rw [token_append]
    unfold envVar?
    split
    next t ht =>
      obtain rfl : c :: name ++ closeBrace :: rest = t := (List.cons.inj (List.cons.inj ht).2).2
      rw [htake, hdrop]
      rfl
    next hno => exact absurd rfl (hno _)

/-- A token in front is replaced by its variable, if that is set. -/
theorem resolveText_token (hbrace : S.isWord closeBrace = false) {name : Text}
    (hname : IsName S.isWord name) (rest : Text) :
    S.resolveText (token name ++ rest) =
      (S.environ name).getD (token name) ++ S.resolveText rest := by
  have hscan : S.envVar? (token name ++ rest) = some (name, rest) :=
    (envVar?_eq_some_iff hbrace).mpr ⟨hname, rfl⟩
  rw [token_append] at hscan ⊢
  rw [resolveText]
  split
  next name' rest' hscan' =>
    obtain ⟨rfl, rfl⟩ := Prod.mk.inj (Option.some.inj (hscan.symm.trans hscan'))
    rfl
  next hscan' =>
    rw [hscan] at hscan'
    cases hscan'

/-- A character that begins no token stays. -/
theorem resolveText_char (hbrace : S.isWord closeBrace = false) {c : CodePoint} {t : Text}
    (h : ¬ BeginsWithToken S.isWord (c :: t)) :
    S.resolveText (c :: t) = c :: S.resolveText t := by
  rw [resolveText]
  split
  next name rest hscan =>
    exact absurd ⟨name, rest, (envVar?_eq_some_iff hbrace).mp hscan⟩ h
  next => rfl

/-- The scanner makes one pass over the text, and no pass has another result. -/
theorem onePass_iff (hbrace : S.isWord closeBrace = false) {t out : Text} :
    OnePass S.isWord S.environ t out ↔ out = S.resolveText t := by
  constructor
  · intro h
    induction h with
    | nil => rw [resolveText]
    | token hname _ ih => rw [resolveText_token hbrace hname, ← ih]
    | char h _ ih => rw [resolveText_char hbrace h, ← ih]
  · rintro rfl
    -- The induction is on the length, since a token takes several characters away.
    induction hlen : t.length using Nat.strong_induction_on generalizing t with
    | h n ih =>
      subst hlen
      cases t with
      | nil =>
        rw [resolveText]
        exact .nil
      | cons c t =>
        by_cases htoken : BeginsWithToken S.isWord (c :: t)
        · obtain ⟨name, rest, hname, heq⟩ := htoken
          have hlt : rest.length < (c :: t).length :=
            S.length_lt_of_envVar? ((envVar?_eq_some_iff hbrace).mpr ⟨hname, heq⟩)
          rw [heq, resolveText_token hbrace hname]
          exact .token hname (ih _ hlt rfl)
        · rw [resolveText_char hbrace htoken]
          exact .char htoken (ih _ (by simp) rfl)

/-- The substitution of the matches of the pattern is the pass over the tokens. -/
theorem sub_iff_onePass (hunderscore : S.isWord underscore = true) {t out : Text} :
    (envPattern S.isWord).Sub (replaceVar S.environ) t out ↔
      OnePass S.isWord S.environ t out := by
  -- A token begins where the pattern matches, and nowhere else.
  have hbegins : ∀ t, BeginsWithToken S.isWord t ↔
      ∃ m rest gs, t = m ++ rest ∧ (envPattern S.isWord).Matches m gs := by
    intro t
    constructor
    · rintro ⟨name, rest, hname, rfl⟩
      exact ⟨_, rest, _, rfl, (matches_envPattern_iff hunderscore).mpr ⟨name, hname, rfl, rfl⟩⟩
    · rintro ⟨m, rest, gs, rfl, h⟩
      obtain ⟨name, hname, rfl, rfl⟩ := (matches_envPattern_iff hunderscore).mp h
      exact ⟨name, rest, hname, rfl⟩
  constructor
  · intro h
    induction h with
    | nil => exact .nil
    | replace h _ ih =>
      obtain ⟨name, hname, rfl, rfl⟩ := (matches_envPattern_iff hunderscore).mp h
      exact .token hname ih
    | copy h _ ih =>
      refine .char (fun hbegin => ?_) ih
      obtain ⟨m, rest, gs, heq, hm⟩ := (hbegins _).mp hbegin
      exact h m rest gs heq hm
  · intro h
    induction h with
    | nil => exact .nil
    | token hname _ ih =>
      exact .replace ((matches_envPattern_iff hunderscore).mpr ⟨_, hname, rfl, rfl⟩) ih
    | char h _ ih =>
      refine .copy (fun m rest gs heq hm => ?_) ih
      exact h ((hbegins _).mpr ⟨m, rest, gs, heq, hm⟩)

/-- The scanner does what `re.sub` does. -/
theorem sub_iff (hunderscore : S.isWord underscore = true) (hbrace : S.isWord closeBrace = false)
    {t out : Text} :
    (envPattern S.isWord).Sub (replaceVar S.environ) t out ↔ out = S.resolveText t :=
  (sub_iff_onePass hunderscore).trans (onePass_iff hbrace)

/-- The pass reads no variable but those whose tokens occur in the text. -/
theorem OnePass.congr {isWord : CodePoint → Bool} {environ environ' : Text → Option Text}
    {t out : Text} (h : OnePass isWord environ t out)
    (hsame : ∀ name, IsName isWord name → token name <:+: t → environ' name = environ name) :
    OnePass isWord environ' t out := by
  induction h with
  | nil => exact .nil
  | @token name rest out hname _ ih =>
    rw [← hsame name hname (List.prefix_append _ _).isInfix]
    exact .token hname (ih fun name' hname' hin =>
      hsame name' hname' (hin.trans (List.suffix_append _ _).isInfix))
  | char h _ ih =>
    exact .char h (ih fun name' hname' hin =>
      hsame name' hname' (hin.trans (List.suffix_cons _ _).isInfix))

end Scanner

end ConfigSystem

/-! ## Nested values -/

/-- A value without aliases to itself. -/
inductive Yaml.Acyclic : Yaml → Prop
  | null : Acyclic .null
  | str (t : Text) : Acyclic (.str t)
  | list {items : List Yaml} (h : ∀ item ∈ items, Acyclic item) : Acyclic (.list items)
  | dict {items : List (Yaml × Yaml)} (h : ∀ kv ∈ items, Acyclic kv.2) : Acyclic (.dict items)
  | other (typeName repr : String) (truthy : Bool) : Acyclic (.other typeName repr truthy)

/-- The string is a leaf of the value. -/
inductive Yaml.HasLeaf (t : Text) : Yaml → Prop
  | str : HasLeaf t (.str t)
  | list {items : List Yaml} {item : Yaml} (hitem : item ∈ items) (h : HasLeaf t item) :
    HasLeaf t (.list items)
  | dict {items : List (Yaml × Yaml)} {kv : Yaml × Yaml} (hkv : kv ∈ items) (h : HasLeaf t kv.2) :
    HasLeaf t (.dict items)

/-- Two values of one shape: the same keys in the same order, lists of one length, and the same
leaves but for the strings, which are related. -/
inductive Yaml.SameShape (R : Text → Text → Prop) : Yaml → Yaml → Prop
  | null : SameShape R .null .null
  | str {t t' : Text} (h : R t t') : SameShape R (.str t) (.str t')
  | list {items items' : List Yaml} (h : List.Forall₂ (SameShape R) items items') :
    SameShape R (.list items) (.list items')
  | dict {items items' : List (Yaml × Yaml)} (hkeys : items'.map Prod.fst = items.map Prod.fst)
    (h : List.Forall₂ (SameShape R) (items.map Prod.snd) (items'.map Prod.snd)) :
    SameShape R (.dict items) (.dict items')
  | other (typeName repr : String) (truthy : Bool) :
    SameShape R (.other typeName repr truthy) (.other typeName repr truthy)

namespace ConfigSystem

variable {σ : Type} (S : ConfigSystem σ)

mutual

/-- A value keeps its shape, and its strings are resolved. -/
theorem resolveEnvVars_sameShape {R : Text → Text → Prop} (hR : ∀ t, R t (S.resolveText t)) :
    ∀ v : Yaml, v.Acyclic → ∃ v', S.resolveEnvVars v = .ok v' ∧ Yaml.SameShape R v v'
  | .null, _ => ⟨.null, by simp [resolveEnvVars], .null⟩
  | .str t, _ => ⟨.str (S.resolveText t), by rw [resolveEnvVars], .str (hR t)⟩
  | .other typeName repr truthy, _ =>
    ⟨.other typeName repr truthy, by simp [resolveEnvVars], .other typeName repr truthy⟩
  | .list items, h => by
    obtain ⟨items', heq, hitems⟩ := resolveList_sameShape hR items (by cases h; assumption)
    exact ⟨.list items', by rw [resolveEnvVars, heq]; rfl, .list hitems⟩
  | .dict items, h => by
    obtain ⟨items', heq, hkeys, hitems⟩ :=
      resolveItems_sameShape hR items (by cases h; assumption)
    exact ⟨.dict items', by rw [resolveEnvVars, heq]; rfl, .dict hkeys hitems⟩

/-- `resolveEnvVars_sameShape` for the elements of a list. -/
theorem resolveList_sameShape {R : Text → Text → Prop} (hR : ∀ t, R t (S.resolveText t)) :
    ∀ items : List Yaml, (∀ item ∈ items, item.Acyclic) →
      ∃ items', S.resolveList items = .ok items' ∧ List.Forall₂ (Yaml.SameShape R) items items'
  | [], _ => ⟨[], by rw [resolveList], .nil⟩
  | item :: items, h => by
    obtain ⟨item', hitem, hshape⟩ := resolveEnvVars_sameShape hR item (h item (by simp))
    obtain ⟨items', hitems, hshapes⟩ :=
      resolveList_sameShape hR items fun i hi => h i (by simp [hi])
    exact ⟨item' :: items', by rw [resolveList, hitem, hitems]; rfl, .cons hshape hshapes⟩

/-- `resolveEnvVars_sameShape` for the items of a mapping, which keep their keys. -/
theorem resolveItems_sameShape {R : Text → Text → Prop} (hR : ∀ t, R t (S.resolveText t)) :
    ∀ items : List (Yaml × Yaml), (∀ kv ∈ items, kv.2.Acyclic) →
      ∃ items', S.resolveItems items = .ok items' ∧
        items'.map Prod.fst = items.map Prod.fst ∧
        List.Forall₂ (Yaml.SameShape R) (items.map Prod.snd) (items'.map Prod.snd)
  | [], _ => ⟨[], by rw [resolveItems], rfl, .nil⟩
  | (k, v) :: items, h => by
    obtain ⟨v', hv, hshape⟩ := resolveEnvVars_sameShape hR v (h (k, v) (by simp))
    obtain ⟨items', hitems, hkeys, hshapes⟩ :=
      resolveItems_sameShape hR items fun kv hkv => h kv (by simp [hkv])
    exact ⟨(k, v') :: items', by rw [resolveItems, hv, hitems]; rfl, by simp [hkeys],
      .cons hshape hshapes⟩

end

variable {S}

mutual

/-- Systems that resolve the leaves alike resolve the value alike. -/
theorem resolveEnvVars_congr {S' : ConfigSystem σ} :
    ∀ v : Yaml, (∀ t, v.HasLeaf t → S'.resolveText t = S.resolveText t) →
      S'.resolveEnvVars v = S.resolveEnvVars v
  | .null, _ | .cyclic, _ | .other .., _ => by simp only [resolveEnvVars]
  | .str t, h => by rw [resolveEnvVars, resolveEnvVars, h t .str]
  | .list items, h => by
    rw [resolveEnvVars, resolveEnvVars,
      resolveList_congr items fun item hitem t ht => h t (.list hitem ht)]
  | .dict items, h => by
    rw [resolveEnvVars, resolveEnvVars,
      resolveItems_congr items fun kv hkv t ht => h t (.dict hkv ht)]

/-- `resolveEnvVars_congr` for the elements of a list. -/
theorem resolveList_congr {S' : ConfigSystem σ} :
    ∀ items : List Yaml,
      (∀ item ∈ items, ∀ t, item.HasLeaf t → S'.resolveText t = S.resolveText t) →
        S'.resolveList items = S.resolveList items
  | [], _ => by rw [resolveList, resolveList]
  | item :: items, h => by
    rw [resolveList, resolveList, resolveEnvVars_congr item (h item (by simp)),
      resolveList_congr items fun i hi => h i (by simp [hi])]

/-- `resolveEnvVars_congr` for the items of a mapping. -/
theorem resolveItems_congr {S' : ConfigSystem σ} :
    ∀ items : List (Yaml × Yaml),
      (∀ kv ∈ items, ∀ t, kv.2.HasLeaf t → S'.resolveText t = S.resolveText t) →
        S'.resolveItems items = S.resolveItems items
  | [], _ => by rw [resolveItems, resolveItems]
  | (k, v) :: items, h => by
    rw [resolveItems, resolveItems, resolveEnvVars_congr v (h (k, v) (by simp)),
      resolveItems_congr items fun kv hkv => h kv (by simp [hkv])]

end

variable (S) in
/-- The text is what the substitution of the matches of the pattern makes of the other, and what one
pass over its tokens makes of it. Neither has another result. -/
def LeafResolved (t t' : Text) : Prop :=
  (∀ out, (envPattern S.isWord).Sub (replaceVar S.environ) t out ↔ out = t') ∧
    ∀ out, OnePass S.isWord S.environ t out ↔ out = t'

variable (S) in
/-- `_resolve_env_vars` returns a value of the same shape, each string resolved. It depends on no
variable whose token does not occur in a string. -/
theorem resolveEnvVars_one_pass (hunderscore : S.isWord underscore = true)
    (hbrace : S.isWord closeBrace = false) {v : Yaml} (hv : v.Acyclic) :
    ∃ v', S.resolveEnvVars v = .ok v' ∧
      v.SameShape S.LeafResolved v' ∧
      ∀ environ' : Text → Option Text,
        (∀ t, v.HasLeaf t → ∀ name, IsName S.isWord name → token name <:+: t →
          environ' name = S.environ name) →
          { S with environ := environ' }.resolveEnvVars v = .ok v' := by
  have hleaf : ∀ t, S.LeafResolved t (S.resolveText t) :=
    fun t => ⟨fun _ => sub_iff hunderscore hbrace, fun _ => onePass_iff hbrace⟩
  obtain ⟨v', hok, hshape⟩ := S.resolveEnvVars_sameShape hleaf v hv
  refine ⟨v', hok, hshape, fun environ' hsame => ?_⟩
  rw [← hok]
  refine resolveEnvVars_congr v fun t ht => ?_
  have hpass := OnePass.congr ((onePass_iff hbrace).mpr rfl) (hsame t ht)
  have hbrace' : { S with environ := environ' }.isWord closeBrace = false := hbrace
  exact ((onePass_iff hbrace').mp hpass).symm

end ConfigSystem

/-- A system with ASCII names, where the variable `A` holds a token. -/
def asciiSystem : ConfigSystem Unit where
  safeLoad _ := .ok .null
  rejectsBefore _ := none
  decodeError _ := "invalid start byte"
  settings _ := .ok ()
  isWord c := c.val = 95 ∨ 48 ≤ c.val ∧ c.val ≤ 57 ∨ 65 ≤ c.val ∧ c.val ≤ 90 ∨
    97 ≤ c.val ∧ c.val ≤ 122
  environ name := if name = text "A" then some (token (text "B")) else none

/-- A list of a string with a token and an unterminated token, and of `null`. -/
theorem resolveEnvVars_one_pass_nested :
    let v := Yaml.list [.str (token (text "A") ++ dollar :: openBrace :: text "A"), .null]
    ∃ v', asciiSystem.resolveEnvVars v = .ok v' ∧ v.SameShape asciiSystem.LeafResolved v' := by
  intro v
  have hacyclic : v.Acyclic := .list (by simp [Yaml.Acyclic.str, Yaml.Acyclic.null])
  obtain ⟨v', hok, hshape, -⟩ :=
    asciiSystem.resolveEnvVars_one_pass (by decide) (by decide) hacyclic
  exact ⟨v', hok, hshape⟩

end YellowBull
