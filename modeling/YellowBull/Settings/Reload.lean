import YellowBull.Settings

/-!
# Reloading the settings is all or nothing

`reload_settings` either puts what the file describes in the place of the settings, or leaves them
alone and says so, but for two kinds of files (`reloadSettings_allOrNothing_iff`). A file that is no
UTF-8 is loaded as if it were empty, since `load_settings` swallows the `UnicodeDecodeError` with
the `FileNotFoundError` of a missing file; and so is a YAML value that is false and no mapping, such
as `[]`, since it stands before `or {}`, where a true one that is no mapping is a `TypeError`. In
both cases the settings become the defaults, without authentication, and the result is `True`.
-/

namespace YellowBull

open Py

namespace ConfigSystem

variable {σ : Type} (S : ConfigSystem σ)

/-! ## The property and its condition -/

/-- The settings that the content of a file describes: those built of its mapping, or the defaults
where it has no YAML value. -/
def Describes (bytes : List UInt8) (settings : σ) : Prop :=
  ∃ t value, decode? bytes = some t ∧ S.safeLoad (universalNewlines t) = .ok value ∧
    (value.isDict = true ∧ S.interpret value = .ok settings ∨
      value = .null ∧ S.interpret (.dict []) = .ok settings)

/-- What a reload from a path gives and leaves in the cache: it takes over what the content
describes, or it fails and the cache is as before. -/
def AllOrNothing (bytes : List UInt8) (path : Text) (cache : ConfigCache σ)
    (out : Except Exn Bool × ConfigCache σ) : Prop :=
  (∃ settings, S.Describes bytes settings ∧ out = (.ok true, ⟨some settings, path⟩)) ∨
    out = (.ok false, cache)

/-- The content is UTF-8, or what the loader reads of it before it comes to other bytes is enough
for it to reject the file. -/
def Decodes (bytes : List UInt8) : Prop := decode? bytes = none → S.rejectsBefore bytes ≠ none

/-- The YAML value of the content is true, an empty mapping, or none. -/
def HasNoFalseValue (bytes : List UInt8) : Prop :=
  ∀ t value, decode? bytes = some t → S.safeLoad (universalNewlines t) = .ok value →
    value.truthy = false → value.isDict = true ∨ value = .null

/-- What the parts from outside are known to do: they raise no `BaseException`, the YAML loader
neither of the two exceptions that tell a missing file and a bad encoding, and every field of the
settings has a default. -/
structure Lawful : Prop where
  safeLoad : ∀ t e, S.safeLoad t = .error e → e.IsException ∧ ¬ IsSwallowed e
  rejectsBefore : ∀ bytes e, S.rejectsBefore bytes = some e → e.IsException ∧ ¬ IsSwallowed e
  settings : ∀ kwargs e, S.settings kwargs = .error e → e.IsException
  defaults : ∃ settings, S.settings [] = .ok settings

/-! ## The stages -/

mutual

/-- To resolve the variables raises nothing but a `RecursionError`. -/
theorem isException_of_resolveEnvVars :
    ∀ (value : Yaml) {e : Exn}, S.resolveEnvVars value = .error e → e.IsException
  | .null, _, h | .str _, _, h | .other .., _, h => by simp [resolveEnvVars] at h
  | .cyclic, _, h => by
    rw [resolveEnvVars] at h
    obtain rfl := Except.error.inj h
    decide
  | .dict items, _, h => by
    rw [resolveEnvVars, Except.map_eq_error] at h
    exact isException_of_resolveItems items h
  | .list items, _, h => by
    rw [resolveEnvVars, Except.map_eq_error] at h
    exact isException_of_resolveList items h

/-- What the resolving of a list raises is caught by `except Exception`. -/
theorem isException_of_resolveList :
    ∀ (items : List Yaml) {e : Exn}, S.resolveList items = .error e → e.IsException
  | [], _, h => by
    rw [resolveList] at h
    cases h
  | item :: items, e, h => by
    rw [resolveList] at h
    obtain hitem | ⟨_, -, h⟩ := Except.bind_eq_error.mp h
    · exact isException_of_resolveEnvVars item hitem
    · obtain hitems | ⟨_, -, h⟩ := Except.bind_eq_error.mp h
      · exact isException_of_resolveList items hitems
      · cases h

/-- So is what the resolving of a mapping raises. -/
theorem isException_of_resolveItems :
    ∀ (items : List (Yaml × Yaml)) {e : Exn}, S.resolveItems items = .error e → e.IsException
  | [], _, h => by
    rw [resolveItems] at h
    cases h
  | (_, value) :: items, e, h => by
    rw [resolveItems] at h
    obtain hvalue | ⟨_, -, h⟩ := Except.bind_eq_error.mp h
    · exact isException_of_resolveEnvVars value hvalue
    · obtain hitems | ⟨_, -, h⟩ := Except.bind_eq_error.mp h
      · exact isException_of_resolveItems items hitems
      · cases h

end

/-- What makes no keyword arguments raises a `TypeError`. -/
theorem isException_of_keywords {value : Yaml} {e : Exn} (h : keywords value = .error e) :
    e.IsException := by
  cases value with
  | dict items =>
    obtain ⟨⟨key, value⟩, -, hitem⟩ := Except.exists_of_mapM_eq_error h
    cases key with
    | str => cases hitem
    | _ =>
      obtain rfl := Except.error.inj hitem
      decide
  | _ =>
    obtain rfl := Except.error.inj h
    exact fun h => by cases h

variable {S} in
/-- So is what the interpretation of a configuration raises. -/
theorem Lawful.isException_of_interpret (hS : S.Lawful) {raw_config : Yaml} {e : Exn}
    (h : S.interpret raw_config = .error e) : e.IsException := by
  obtain hresolve | ⟨value, -, h⟩ := Except.bind_eq_error.mp h
  · exact S.isException_of_resolveEnvVars raw_config hresolve
  · obtain hkeywords | ⟨kwargs, -, h⟩ := Except.bind_eq_error.mp h
    · exact isException_of_keywords hkeywords
    · exact hS.settings kwargs e h

/-- What is built into settings is a mapping. -/
theorem isDict_of_interpret {raw_config : Yaml} {settings : σ}
    (h : S.interpret raw_config = .ok settings) : raw_config.isDict = true := by
  obtain ⟨value, hresolve, h⟩ := Except.bind_eq_ok.mp h
  obtain ⟨kwargs, hkeywords, -⟩ := Except.bind_eq_ok.mp h
  cases raw_config with
  | dict => rfl
  | list items =>
    rw [resolveEnvVars] at hresolve
    obtain ⟨items', -, rfl⟩ := Except.map_eq_ok.mp hresolve
    cases hkeywords
  | cyclic => simp [resolveEnvVars] at hresolve
  | _ =>
    simp only [resolveEnvVars, Except.ok.injEq] at hresolve
    subst hresolve
    cases hkeywords

variable {S} in
/-- The empty mapping gives the defaults. -/
theorem Lawful.exists_interpret_nil (hS : S.Lawful) :
    ∃ settings, S.interpret (.dict []) = .ok settings := by
  obtain ⟨settings, h⟩ := hS.defaults
  refine ⟨settings, ?_⟩
  rw [interpret, resolveEnvVars, resolveItems]
  exact h

/-! ## The reload -/

/-- What a reload makes of the outcome of reading the file. -/
theorem reloadSettings_eq {files : Text → ConfigFile} {config_path : Option Text}
    {cache : ConfigCache σ} {file : ConfigFile}
    (hfile : files (S.reloadPath config_path cache) = file) :
    S.reloadSettings files config_path cache =
      match (S.readConfig file).bind S.interpret with
      | .ok settings => (.ok true, ⟨some settings, S.reloadPath config_path cache⟩)
      | .error e => (if e.IsException then .ok false else .error e, cache) := by
  rw [reloadSettings, loadSettings, Option.getD_some, hfile]
  cases (S.readConfig file).bind S.interpret <;> rfl

/-- Unless it succeeds, a reload leaves the cache alone. -/
theorem reloadSettings_unchanged (files : Text → ConfigFile) (config_path : Option Text)
    (cache : ConfigCache σ) (h : (S.reloadSettings files config_path cache).1 ≠ .ok true) :
    (S.reloadSettings files config_path cache).2 = cache := by
  rw [S.reloadSettings_eq rfl] at h ⊢
  split
  next heq => simp [heq] at h
  next => rfl

variable {S}

/-- What a YAML value of a decoded file comes to: `yaml.safe_load(f) or {}`. -/
theorem readConfig_of_value {bytes : List UInt8} {t : Text} {value : Yaml}
    (ht : decode? bytes = some t) (hvalue : S.safeLoad (universalNewlines t) = .ok value) :
    S.readConfig (.content bytes) = .ok (if value.truthy then value else .dict []) := by
  simp [readConfig, loadFile, ht, hvalue, Except.map]

/-- A text that the loader rejects is not read. -/
theorem Lawful.readConfig_of_rejected (hS : S.Lawful) {bytes : List UInt8} {t : Text} {e : Exn}
    (ht : decode? bytes = some t) (he : S.safeLoad (universalNewlines t) = .error e) :
    S.readConfig (.content bytes) = .error e := by
  simp [readConfig, loadFile, ht, he, Except.map, (hS.safeLoad _ e he).2]

/-- Bytes that the loader rejects before the one that cannot be decoded are not read. -/
theorem Lawful.readConfig_of_rejectsBefore (hS : S.Lawful) {bytes : List UInt8} {e : Exn}
    (ht : decode? bytes = none) (he : S.rejectsBefore bytes = some e) :
    S.readConfig (.content bytes) = .error e := by
  simp [readConfig, loadFile, ht, he, Except.map, (hS.rejectsBefore bytes e he).2]

/-- A file that is no UTF-8 is read as an empty mapping. -/
theorem readConfig_of_not_decodes {bytes : List UInt8} (ht : decode? bytes = none)
    (he : S.rejectsBefore bytes = none) : S.readConfig (.content bytes) = .ok (.dict []) := by
  simp [readConfig, loadFile, ht, he, Except.map, IsSwallowed]

/-- Whatever a file contains, to load it raises nothing that `except Exception` lets through. -/
theorem Lawful.isException_of_load (hS : S.Lawful) {bytes : List UInt8} {e : Exn}
    (h : (S.readConfig (.content bytes)).bind S.interpret = .error e) : e.IsException := by
  -- Each error comes from the reading, the parser or the model.
  obtain hread | ⟨raw_config, -, h⟩ := Except.bind_eq_error.mp h
  · cases ht : decode? bytes with
    | none =>
      cases hbefore : S.rejectsBefore bytes with
      | none =>
        rw [readConfig_of_not_decodes ht hbefore] at hread
        cases hread
      | some e' =>
        rw [hS.readConfig_of_rejectsBefore ht hbefore] at hread
        obtain rfl := Except.error.inj hread
        exact (hS.rejectsBefore bytes e' hbefore).1
    | some t =>
      cases hload : S.safeLoad (universalNewlines t) with
      | error e' =>
        rw [hS.readConfig_of_rejected ht hload] at hread
        obtain rfl := Except.error.inj hread
        exact (hS.safeLoad _ e' hload).1
      | ok value =>
        rw [readConfig_of_value ht hload] at hread
        cases hread
  · exact hS.isException_of_interpret h

/-- What is loaded is what the content describes. -/
theorem Lawful.describes_of_load (hS : S.Lawful) {bytes : List UInt8} (hdecodes : S.Decodes bytes)
    (hvalue : S.HasNoFalseValue bytes) {settings : σ}
    (h : (S.readConfig (.content bytes)).bind S.interpret = .ok settings) :
    S.Describes bytes settings := by
  obtain ⟨raw_config, hread, h⟩ := Except.bind_eq_ok.mp h
  -- The three stages of the load, of which the last alone can give settings.
  cases ht : decode? bytes with
  | none =>
    obtain ⟨e, he⟩ := Option.ne_none_iff_exists'.mp (hdecodes ht)
    rw [hS.readConfig_of_rejectsBefore ht he] at hread
    cases hread
  | some t =>
    cases hload : S.safeLoad (universalNewlines t) with
    | error e =>
      rw [hS.readConfig_of_rejected ht hload] at hread
      cases hread
    | ok value =>
      refine ⟨t, value, ht, hload, ?_⟩
      rw [readConfig_of_value ht hload] at hread
      obtain rfl := Except.ok.inj hread
      -- A false value becomes the empty dict by the `or`, which describes an empty file.
      cases htruthy : value.truthy with
      | true =>
        rw [htruthy, if_pos rfl] at h
        exact .inl ⟨S.isDict_of_interpret h, h⟩
      | false =>
        rw [htruthy, if_neg Bool.false_ne_true] at h
        obtain hdict | rfl := hvalue t value ht hload htruthy
        · cases value with
          | dict items =>
            obtain rfl : items = [] := by simpa [Yaml.truthy] using htruthy
            exact .inl ⟨rfl, h⟩
          | _ => cases hdict
        · exact .inr ⟨rfl, h⟩

/-- A file that is read as an empty mapping is all or nothing only if its content describes the
defaults. -/
theorem Lawful.describes_of_allOrNothing (hS : S.Lawful) {files : Text → ConfigFile}
    {config_path : Option Text} {cache : ConfigCache σ} {bytes : List UInt8}
    (hfile : files (S.reloadPath config_path cache) = .content bytes)
    (hread : S.readConfig (.content bytes) = .ok (.dict []))
    (h : S.AllOrNothing bytes (S.reloadPath config_path cache) cache
      (S.reloadSettings files config_path cache)) : ∃ settings, S.Describes bytes settings := by
  obtain ⟨defaults, hdefaults⟩ := hS.exists_interpret_nil
  have hbind : (S.readConfig (.content bytes)).bind S.interpret = .ok defaults := by
    rw [hread]
    exact hdefaults
  obtain ⟨settings, hsettings, -⟩ | hout := h
  · exact ⟨settings, hsettings⟩
  · rw [S.reloadSettings_eq hfile, hbind] at hout
    cases hout

/-- A reload of an existing file is all or nothing exactly when the file can be decoded, or is
rejected before that is found out, and its YAML value is not a false one that is no mapping. -/
theorem reloadSettings_allOrNothing_iff (hS : S.Lawful) {files : Text → ConfigFile}
    {config_path : Option Text} {cache : ConfigCache σ} {bytes : List UInt8}
    (hfile : files (S.reloadPath config_path cache) = .content bytes) :
    S.AllOrNothing bytes (S.reloadPath config_path cache) cache
        (S.reloadSettings files config_path cache) ↔
      S.Decodes bytes ∧ S.HasNoFalseValue bytes := by
  constructor
  · intro h
    -- Bytes that do not decode, or another false value, would be loaded as no settings of the file.
    refine ⟨fun ht hbefore => ?_, fun t value ht hload htruthy => ?_⟩
    · obtain ⟨_, t, _, ht', -⟩ :=
        hS.describes_of_allOrNothing hfile (readConfig_of_not_decodes ht hbefore) h
      rw [ht] at ht'
      cases ht'
    · have hread := readConfig_of_value ht hload
      rw [htruthy, if_neg Bool.false_ne_true] at hread
      obtain ⟨_, t', value', ht', hload', hshape⟩ := hS.describes_of_allOrNothing hfile hread h
      rw [ht] at ht'
      obtain rfl := Option.some.inj ht'
      rw [hload] at hload'
      obtain rfl := Except.ok.inj hload'
      exact hshape.imp And.left And.left
  · rintro ⟨hdecodes, hvalue⟩
    rw [AllOrNothing, S.reloadSettings_eq hfile]
    -- An error is logged and the settings before stay.
    cases hload : (S.readConfig (.content bytes)).bind S.interpret with
    | ok settings => exact .inl ⟨settings, hS.describes_of_load hdecodes hvalue hload, rfl⟩
    | error e =>
      have he := hS.isException_of_load hload
      exact .inr (by simp only [if_pos he])

/-- A system whose settings are their keyword arguments, and whose loader knows the empty file and
one line. -/
def keywordSystem : ConfigSystem (List (Text × Yaml)) where
  safeLoad t :=
    if t = text "a: b" then .ok (.dict [(.str (text "a"), .str (text "b"))])
    else if t = [] then .ok .null
    else .error ⟨.other, "could not find expected ':'"⟩
  rejectsBefore _ := none
  decodeError _ := "'utf-8' codec can't decode byte 0xff in position 0: invalid start byte"
  settings kwargs := .ok kwargs
  isWord c := 97 ≤ c.val ∧ c.val ≤ 122
  environ _ := none

/-- Its loader and its model behave as documented. -/
theorem keywordSystem_lawful : keywordSystem.Lawful where
  safeLoad t e he := by
    change (if _ then _ else if _ then _ else _) = _ at he
    split_ifs at he
    obtain rfl := Except.error.inj he
    decide
  rejectsBefore _ _ he := by cases he
  settings _ _ he := by cases he
  defaults := ⟨[], rfl⟩

/-- The line is taken over. -/
theorem reloadSettings_allOrNothing_iff_line :
    keywordSystem.AllOrNothing [97, 58, 32, 98] (text "config.yaml") ⟨some [], text "config.yaml"⟩
      (keywordSystem.reloadSettings (fun _ => .content [97, 58, 32, 98]) none
        ⟨some [], text "config.yaml"⟩) := by
  refine (reloadSettings_allOrNothing_iff keywordSystem_lawful ?_).mpr
    ⟨fun h => absurd h (by decide), fun t value ht hload _ => ?_⟩
  · rfl
  · obtain rfl : text "a: b" = t := Option.some.inj ((by decide : _ = _).symm.trans ht)
    obtain rfl := Except.ok.inj hload
    exact .inl rfl

/-- The byte `0xFF` makes the defaults of what was there. -/
theorem reload_of_bad_byte :
    ¬ ∀ (S : ConfigSystem (List (Text × Yaml))) (files : Text → ConfigFile)
      (config_path : Option Text) (cache : ConfigCache (List (Text × Yaml))) (bytes : List UInt8),
      S.Lawful → files (S.reloadPath config_path cache) = .content bytes →
        S.AllOrNothing bytes (S.reloadPath config_path cache) cache
          (S.reloadSettings files config_path cache) := by
  intro h
  obtain ⟨_, ⟨t, _, ht, -⟩, -⟩ | hout := h keywordSystem (fun _ => .content [0xFF]) none
    ⟨some [(text "a", .str (text "b"))], text "config.yaml"⟩ [0xFF] keywordSystem_lawful rfl
  · cases (by decide : decode? [0xFF] = none).symm.trans ht
  · exact absurd (congrArg (fun out => out.2.settings.map List.length) hout) (by decide)

end ConfigSystem

end YellowBull
