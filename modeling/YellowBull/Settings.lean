import YellowBull.Lib.Except
import YellowBull.Lib.TextFile

/-!
# Loading the settings

`load_settings` and `reload_settings` of `config/settings.py`: the file is decoded, parsed by
`yaml.safe_load`, its `${VAR}` patterns are resolved, and the pydantic model `Settings` is built of
it. What the loaded YAML is does not follow the text alone in one place: a file that is not there,
and one that is no UTF-8, count as an empty mapping, and so does every YAML value that is false.

The YAML loader, the pydantic model, the Unicode database and the environment come from outside
(`ConfigSystem`).
-/

namespace YellowBull

open Py

/-- What `yaml.safe_load` returns. Scalars other than texts and `null` (numbers, dates, bytes, sets
and so on) are carried by the name of their type and their `repr`. -/
inductive Yaml where
  | null
  | str (t : Text)
  | list (items : List Yaml)
  | dict (items : List (Yaml × Yaml))
  /-- A list or a dict that is one of its own elements, through an alias. -/
  | cyclic
  | other (typeName repr : String) (truthy : Bool)

namespace Yaml

/-- `bool(value)`. -/
def truthy : Yaml → Bool
  | null => false
  | str t => !t.isEmpty
  | list items => !items.isEmpty
  | dict items => !items.isEmpty
  | cyclic => true
  | other _ _ truthy => truthy

/-- `type(value).__name__`, for what is no dict. -/
def typeName : Yaml → String
  | null => "NoneType"
  | str _ => "str"
  | list _ => "list"
  | dict _ => "dict"
  | cyclic => "list"
  | other typeName _ _ => typeName

/-- The value is a mapping. -/
def isDict : Yaml → Bool
  | dict _ => true
  | _ => false

end Yaml

/-- What `load_settings` takes from outside, with the settings in `σ`. -/
structure ConfigSystem (σ : Type) where
  /-- `yaml.safe_load` of a file with the given text. -/
  safeLoad : Text → Except Exn Yaml
  /-- The exception with which the loader rejects what it reads of a file before it comes to bytes
  that are no UTF-8, if it does. -/
  rejectsBefore : List UInt8 → Option Exn
  /-- The `str` of the `UnicodeDecodeError` for the content of a file. -/
  decodeError : List UInt8 → String
  /-- `Settings(**kwargs)`. -/
  settings : List (Text × Yaml) → Except Exn σ
  /-- The character matches `\w`. -/
  isWord : CodePoint → Bool
  /-- `os.environ.get(key)`. -/
  environ : Text → Option Text

/-- A configuration file. -/
inductive ConfigFile where
  | absent
  /-- To look for it or to open it raises. -/
  | unreadable (e : Exn)
  | content (bytes : List UInt8)

/-- `_cached_settings` and `_cached_path`. -/
structure ConfigCache (σ : Type) where
  settings : Option σ
  path : Text

namespace ConfigSystem

variable {σ : Type} (S : ConfigSystem σ)

/-! ## Environment variables -/

/-- A match of `\$\{(\w+(?:_\w+)*)\}` at the beginning of a text: the name, and what follows. -/
def envVar? : Text → Option (Text × Text)
  | 36 :: 123 :: t =>
    match t.takeWhile S.isWord, t.dropWhile S.isWord with
    | c :: name, 125 :: rest => some (c :: name, rest)
    | _, _ => none
  | _ => none

/-- A token is not empty. -/
theorem length_lt_of_envVar? {t name rest : Text} (h : S.envVar? t = some (name, rest)) :
    rest.length < t.length := by
  unfold envVar? at h
  split at h
  next t =>
    split at h
    next c name' rest' _ hrest =>
      obtain ⟨-, rfl⟩ := Prod.mk.inj (Option.some.inj h)
      have hdrop := (List.dropWhile_sublist (l := t) S.isWord).length_le
      rw [hrest] at hdrop
      simp only [List.length_cons] at hdrop ⊢
      omega
    next => cases h
  next => cases h

/-- The text with the patterns replaced: `re.sub(.., _replace, value)`. -/
def resolveText : Text → Text
  | [] => []
  | c :: t =>
    match _ : S.envVar? (c :: t) with
    | some (name, rest) =>
      (S.environ name).getD (chr 36 :: chr 123 :: name ++ [chr 125]) ++ resolveText rest
    | none => c :: resolveText t
termination_by t => t.length
decreasing_by
  · exact S.length_lt_of_envVar? ‹_›
  · simp

mutual

/-- `_resolve_env_vars`. -/
def resolveEnvVars : Yaml → Except Exn Yaml
  | .str t => .ok (.str (S.resolveText t))
  | .dict items => (resolveItems items).map .dict
  | .list items => (resolveList items).map .list
  | .cyclic => .error ⟨.recursionError, "maximum recursion depth exceeded"⟩
  | value => .ok value

/-- Its comprehension over a list. -/
def resolveList : List Yaml → Except Exn (List Yaml)
  | [] => .ok []
  | item :: items => do return (← resolveEnvVars item) :: (← resolveList items)

/-- Its comprehension over the items of a dict. -/
def resolveItems : List (Yaml × Yaml) → Except Exn (List (Yaml × Yaml))
  | [] => .ok []
  | (k, v) :: items => do return (k, ← resolveEnvVars v) :: (← resolveItems items)

end

/-! ## Loading -/

/-- The keyword arguments of `Settings(**raw_config)`. -/
def keywords : Yaml → Except Exn (List (Text × Yaml))
  | .dict items => items.mapM fun
    | (.str key, value) => .ok (key, value)
    | _ => .error ⟨.typeError, "keywords must be strings"⟩
  | value => .error ⟨.typeError, "config.settings.Settings() argument after ** must be a " ++
      "mapping, not " ++ value.typeName⟩

/-- What `load_settings` does with what it has read. -/
def interpret (raw_config : Yaml) : Except Exn σ := do
  S.settings (← keywords (← S.resolveEnvVars raw_config))

/-- `yaml.safe_load(f)` of a file opened as UTF-8. -/
def loadFile (bytes : List UInt8) : Except Exn Yaml :=
  match decode? bytes with
  | some t => S.safeLoad (universalNewlines t)
  | none => .error ((S.rejectsBefore bytes).getD ⟨.unicodeDecodeError, S.decodeError bytes⟩)

/-- `except (FileNotFoundError, UnicodeDecodeError)`. -/
def IsSwallowed (e : Exn) : Prop := e.cls = .fileNotFoundError ∨ e.cls = .unicodeDecodeError

instance : DecidablePred IsSwallowed := fun _ => inferInstanceAs (Decidable (_ ∨ _))

/-- The `try` statement of `load_settings`: the `raw_config` that it leaves. -/
def readConfig (file : ConfigFile) : Except Exn Yaml :=
  let read : Except Exn Yaml := match file with
    | .absent => .ok (.dict [])
    | .unreadable e => .error e
    | .content bytes => (S.loadFile bytes).map fun value => if value.truthy then value else .dict []
  match read with
  | .ok raw_config => .ok raw_config
  | .error e => if IsSwallowed e then .ok (.dict []) else .error e

/-- The path that is loaded where no other is known. -/
def defaultPath : Text := (S.environ (text "AGENT_CONFIG")).getD (text "config/default.yaml")

/-- `load_settings`, with what stands at each path. -/
def loadSettings (files : Text → ConfigFile) (config_path : Option Text) (cache : ConfigCache σ) :
    Except Exn σ × ConfigCache σ :=
  let config_path := config_path.getD S.defaultPath
  match (S.readConfig (files config_path)).bind S.interpret with
  | .ok settings => (.ok settings, ⟨some settings, config_path⟩)
  | .error e => (.error e, cache)

/-- The path that `reload_settings` loads. -/
def reloadPath (config_path : Option Text) (cache : ConfigCache σ) : Text :=
  config_path.getD (if cache.path ≠ [] then cache.path else S.defaultPath)

/-- `reload_settings`. -/
def reloadSettings (files : Text → ConfigFile) (config_path : Option Text)
    (cache : ConfigCache σ) : Except Exn Bool × ConfigCache σ :=
  match S.loadSettings files (some (S.reloadPath config_path cache)) cache with
  | (.ok _, cache) => (.ok true, cache)
  | (.error e, cache) => (if e.IsException then .ok false else .error e, cache)

end ConfigSystem

end YellowBull
