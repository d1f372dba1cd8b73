import YellowBull.BaseTool
import YellowBull.Lib.Except

/-!
# Validation against the schema

`BaseTool.validate` against the JSON Schema of a tool's parameters: which arguments meet the schema
(`Meets`), and for which the method says so. The method tests the type of a value with `isinstance`,
for which `True` and `False` are integers, and looks the declared type up in a `dict`, which raises
for a type that is a list, the way JSON Schema writes a union. These are the arguments on which it
is wrong (`Misjudged`).
-/

namespace YellowBull

open Py

/-- The types of JSON Schema that `type_map` knows. -/
inductive JsonType where
  | string
  | number
  | integer
  | boolean
  | array
  | object
  deriving DecidableEq

namespace JsonType

/-- The name of a type in a schema. -/
def name : JsonType → String
  | .string => "string"
  | .number => "number"
  | .integer => "integer"
  | .boolean => "boolean"
  | .array => "array"
  | .object => "object"

/-- The type with the given name. -/
def ofName? : String → Option JsonType
  | "string" => some .string
  | "number" => some .number
  | "integer" => some .integer
  | "boolean" => some .boolean
  | "array" => some .array
  | "object" => some .object
  | _ => none

/-- The JSON value is of the type. A number is an integer when it is written without a fraction or
an exponent. -/
def has : JsonType → Val → Bool
  | .string, .str _ => true
  | .number, .int _ => true
  | .number, .float _ => true
  | .integer, .int _ => true
  | .boolean, .bool _ => true
  | .array, .list _ => true
  | .object, .dict _ => true
  | _, _ => false

/-- `true` or `false` where a number is declared. -/
def boolAsNumber : JsonType → Val → Bool
  | .integer, .bool _ => true
  | .number, .bool _ => true
  | _, _ => false

/-- Which is no number. -/
theorem not_has_of_boolAsNumber {t : JsonType} {value : Val} (h : t.boolAsNumber value) :
    ¬ t.has value := by
  cases t <;> cases value <;> simp [has, boolAsNumber] at h ⊢

/-- A type is found under its own name alone. -/
theorem ofName?_eq_some {s : String} {t : JsonType} : ofName? s = some t ↔ s = t.name := by
  constructor
  · intro h
    unfold ofName? at h
    split at h <;> first | (cases h; rfl) | cases h
  · rintro rfl
    cases t <;> rfl

/-- A name that is no type's is not in `type_map`. -/
theorem lookup_typeMap_of_ofName?_eq_none {s : String} (h : ofName? s = none) :
    typeMap.lookup s = none := by
  rw [List.lookup_eq_none_iff]
  intro entry hentry
  have hname : ∃ t : JsonType, entry.1 = t.name := by
    simp only [typeMap, List.mem_cons, List.not_mem_nil, or_false] at hentry
    rcases hentry with rfl | rfl | rfl | rfl | rfl | rfl
    · exact ⟨.string, rfl⟩
    · exact ⟨.number, rfl⟩
    · exact ⟨.integer, rfl⟩
    · exact ⟨.boolean, rfl⟩
    · exact ⟨.array, rfl⟩
    · exact ⟨.object, rfl⟩
  obtain ⟨t, ht⟩ := hname
  refine bne_iff_ne.mpr fun hs => ?_
  rw [ofName?_eq_some.mpr (hs.trans ht)] at h
  cases h

/-- `_check_json_schema_type` with one of the six types: right but for `true` and `false`. -/
theorem check_name (t : JsonType) (value : Val) :
    checkJsonSchemaType value (.str t.name) = .ok (t.has value || t.boolAsNumber value) := by
  cases t <;> cases value <;> rfl

end JsonType

/-! ## The schema of a tool -/

/-- The type that a schema declares for a parameter, `None` where it declares none. -/
def typeOf (props : Dict) (name : String) : Val :=
  match Py.Dict.get props name .none with
  | .dict items => Py.Dict.get items "type" .none
  | _ => .none

/-- The one of the six types that is declared for a parameter. -/
def declaredType (props : Dict) (name : String) : Option JsonType :=
  match typeOf props name with
  | .str s => JsonType.ofName? s
  | _ => none

/-- The declared type of a parameter is a list, or a dict that is not empty. -/
def Untestable (props : Dict) (name : String) : Prop :=
  ¬ (typeOf props name).hashable ∧ (typeOf props name).truthy

/-- The value of a parameter has the declared type. -/
def WellTyped (props : Dict) (kv : String × Val) : Prop :=
  ∀ t ∈ declaredType props kv.1, t.has kv.2

/-- `true` or `false` is given for a parameter that is declared a number. -/
def BoolGiven (props : Dict) (kv : String × Val) : Prop :=
  ∃ t ∈ declaredType props kv.1, t.boolAsNumber kv.2

/-- Every required parameter is present and not null. -/
def RequiredGiven (required : List String) (params : Dict) : Prop :=
  ∀ key ∈ required, ∃ value ∈ params.lookup key, value ≠ .none

/-- The arguments meet the schema: every required parameter is present and not null, and every
present parameter has its declared type. -/
def Meets (props : Dict) (required : List String) (params : Dict) : Prop :=
  RequiredGiven required params ∧ ∀ kv ∈ params, WellTyped props kv

/-- The arguments have no fault but values that are `true` or `false` for a number, or they have
none and a declared type is a list or a dict. -/
def Misjudged (props : Dict) (required : List String) (params : Dict) : Prop :=
  RequiredGiven required params ∧
    ((∀ kv ∈ params, ¬ Untestable props kv.1) ∧ (∃ kv ∈ params, BoolGiven props kv) ∧
        (∀ kv ∈ params, WellTyped props kv ∨ BoolGiven props kv) ∨
      (∃ kv ∈ params, Untestable props kv.1) ∧ ∀ kv ∈ params, WellTyped props kv)

instance (props : Dict) : DecidablePred (Untestable props) := fun _ =>
  inferInstanceAs (Decidable (_ ∧ _))

instance (props : Dict) : DecidablePred (WellTyped props) := fun kv =>
  inferInstanceAs (Decidable (∀ t ∈ declaredType props kv.1, _))

instance (props : Dict) : DecidablePred (BoolGiven props) := fun kv =>
  inferInstanceAs (Decidable (∃ t ∈ declaredType props kv.1, _))

instance (required : List String) : DecidablePred (RequiredGiven required) := fun params =>
  inferInstanceAs (Decidable (∀ key ∈ required, ∃ value ∈ params.lookup key, _))

instance (props : Dict) (required : List String) : DecidablePred (Meets props required) :=
  fun _ => inferInstanceAs (Decidable (_ ∧ _))

instance (props : Dict) (required : List String) : DecidablePred (Misjudged props required) :=
  fun _ => inferInstanceAs (Decidable (_ ∧ (_ ∨ _)))

/-- `parameters` of a tool is a JSON Schema with these properties and required parameters. -/
structure Tool.HasSchema (tool : Tool) (props : Dict) (required : List String) : Prop where
  properties : Py.Dict.get tool.info.parameters "properties" (.dict []) = .dict props
  required : Py.Dict.get tool.info.parameters "required" (.list []) = .list (required.map .str)

/-- A Boolean in the place of a number is not well typed. -/
theorem not_wellTyped_of_boolGiven {props : Dict} {kv : String × Val} (h : BoolGiven props kv) :
    ¬ WellTyped props kv := by
  obtain ⟨t, ht, hbool⟩ := h
  exact fun hwell => JsonType.not_has_of_boolAsNumber hbool (hwell t ht)

/-! ## What `validate` tests -/

section Validate

variable (P : Platform) (O : SetOrder) {tool : Tool} {props : Dict} {required : List String}

/-- The test of one parameter, by its declared type. -/
theorem paramErrors_eq (name : String) (value : Val) :
    paramErrors P (.dict props) name value =
      if (typeOf props name).truthy then
        (checkJsonSchemaType value (typeOf props name)).map fun ok =>
          if ok then [] else ["Parameter '" ++ name ++ "' expected type " ++
            P.fmt (typeOf props name) ++ ", got " ++ value.typeName]
      else .ok [] := by
  have hget : (Val.dict props).get name .none = .ok (Py.Dict.get props name .none) := rfl
  unfold paramErrors typeOf
  rw [hget]
  show (match Py.Dict.get props name .none with
    | .dict items => _
    | _ => _) = _
  -- A schema that is no dict is skipped by the `isinstance` test.
  cases Py.Dict.get props name .none with
  | dict items =>
    simp only
    split
    · cases checkJsonSchemaType value (Py.Dict.get items "type" .none) with
      | error e => rfl
      | ok b => cases b <;> rfl
    · rfl
  | _ => rfl

/-- One parameter passes its test, if it can be tested and has its type or is `true` or `false` for
a number. -/
theorem paramErrors_eq_ok_nil (name : String) (value : Val) :
    paramErrors P (.dict props) name value = .ok [] ↔ ¬ Untestable props name ∧
      (WellTyped props (name, value) ∨ BoolGiven props (name, value)) := by
  rw [paramErrors_eq]
  unfold Untestable WellTyped BoolGiven declaredType
  simp only
  generalize typeOf props name = type
  -- Only a text can name a type; a list or a dict is looked up in `type_map`, and is unhashable.
  cases type with
  | str s =>
    cases ht : JsonType.ofName? s with
    | none =>
      -- An unknown name accepts every value.
      have hcheck : checkJsonSchemaType value (.str s) = .ok true := by
        rw [checkJsonSchemaType, JsonType.lookup_typeMap_of_ofName?_eq_none ht]
      simp [hcheck, Except.map, Val.hashable, ht]
    | some t =>
      obtain rfl := JsonType.ofName?_eq_some.mp ht
      have htruthy : (Val.str t.name).truthy = true := by cases t <;> rfl
      rw [if_pos htruthy, JsonType.check_name]
      -- A number that is a bool passes for the type, though it is of another one.
      cases hhas : t.has value <;> cases hbool : t.boolAsNumber value <;>
        simp [Except.map, Val.hashable, ht, hhas, hbool]
  | list xs => cases xs <;> simp [checkJsonSchemaType, Except.map, Val.hashable, Val.truthy]
  | dict items => cases items <;> simp [checkJsonSchemaType, Except.map, Val.hashable, Val.truthy]
  | _ => simp [checkJsonSchemaType, Except.map, Val.hashable]

/-- The required parameters are those that the schema lists. -/
theorem Tool.required_ok (h : tool.HasSchema props required) :
    ∃ elements, tool.required O = .ok elements ∧
      ∀ v, v ∈ elements ↔ ∃ key ∈ required, v = .str key := by
  have hhash : (required.map Val.str).find? (!·.hashable) = none := by
    rw [List.find?_eq_none]
    intro v hv
    obtain ⟨key, -, rfl⟩ := List.mem_map.mp hv
    exact Bool.false_ne_true
  refine ⟨O.elements (required.map .str), ?_, fun v => ⟨fun hv => ?_, ?_⟩⟩
  · rw [Tool.required, h.required, SetOrder.set, hhash]
  · obtain ⟨key, hkey, rfl⟩ := List.mem_map.mp (O.subset _ hv)
    exact ⟨key, hkey, rfl⟩
  · rintro ⟨key, hkey, rfl⟩
    obtain ⟨w, hw, rfl | ⟨-, hnumber⟩⟩ := O.equal _ _ (List.mem_map_of_mem hkey)
    · exact hw
    · cases hnumber

/-- None of the required parameters is reported, just if all are given. -/
theorem requiredGiven_iff {elements : List Val} (params : Dict)
    (h : ∀ v, v ∈ elements ↔ ∃ key ∈ required, v = .str key) :
    elements.filter (lacks params) = [] ↔ RequiredGiven required params := by
  have hlacks (key : String) : ¬ lacks params (.str key) ↔
      ∃ value, params.lookup key = some value ∧ value ≠ .none := by
    cases hvalue : params.lookup key <;> simp [lacks, hvalue]
  rw [List.filter_eq_nil_iff]
  constructor
  · intro hnone key hkey
    exact (hlacks key).mp (hnone _ ((h _).mpr ⟨key, hkey, rfl⟩))
  · intro hgiven v hv
    obtain ⟨key, hkey, rfl⟩ := (h v).mp hv
    exact (hlacks key).mpr (hgiven key hkey)

/-- `validate` returns no error, just if the required parameters are given and each present one
passes its test. -/
theorem Tool.validate_eq_ok_nil (h : tool.HasSchema props required) (params : Dict) :
    tool.validate P O params = .ok [] ↔ RequiredGiven required params ∧ ∀ kv ∈ params,
      ¬ Untestable props kv.1 ∧ (WellTyped props kv ∨ BoolGiven props kv) := by
  obtain ⟨elements, hok, hmem⟩ := Tool.required_ok O h
  have hvalidate : tool.validate P O params =
      (params.mapM fun kv => paramErrors P (.dict props) kv.1 kv.2).bind fun wrong =>
        .ok ((elements.filter (lacks params)).map (fun req =>
          "Missing required parameter: " ++ P.fmt req) ++ wrong.flatten) := by
    unfold Tool.validate
    rw [hok, h.properties]
    rfl
  -- No message comes out if no required parameter is missing and no value gives one.
  rw [hvalidate, Except.bind_eq_ok, ← requiredGiven_iff params hmem]
  simp only [← paramErrors_eq_ok_nil P, Except.ok.injEq, List.append_eq_nil_iff,
    List.map_eq_nil_iff]
  rw [← Except.mapM_flatten_eq_nil]
  constructor
  · rintro ⟨wrong, hwrong, hnone, hnil⟩
    exact ⟨hnone, wrong, hwrong, hnil⟩
  · rintro ⟨hnone, wrong, hwrong, hnil⟩
    exact ⟨wrong, hwrong, hnone, hnil⟩

/-- `validate` accepts just the arguments that meet the schema, apart from those that it
misjudges. -/
theorem Tool.validate_matches_iff (h : tool.HasSchema props required) (params : Dict) :
    (tool.validate P O params = .ok [] ↔ Meets props required params) ↔
      ¬ Misjudged props required params := by
  have hsplit : (∀ kv ∈ params, ¬ Untestable props kv.1 ∧
        (WellTyped props kv ∨ BoolGiven props kv)) ↔ (∀ kv ∈ params, ¬ Untestable props kv.1) ∧
      ∀ kv ∈ params, WellTyped props kv ∨ BoolGiven props kv :=
    ⟨fun hall => ⟨fun kv hkv => (hall kv hkv).1, fun kv hkv => (hall kv hkv).2⟩,
      fun hall kv hkv => ⟨hall.1 kv hkv, hall.2 kv hkv⟩⟩
  have htest : (∃ kv ∈ params, Untestable props kv.1) ↔
      ¬ ∀ kv ∈ params, ¬ Untestable props kv.1 := by
    push Not
    rfl
  have hpass : (∀ kv ∈ params, WellTyped props kv) →
      ∀ kv ∈ params, WellTyped props kv ∨ BoolGiven props kv :=
    fun hwell kv hkv => Or.inl (hwell kv hkv)
  have hbool : (∃ kv ∈ params, BoolGiven props kv) → ¬ ∀ kv ∈ params, WellTyped props kv := by
    rintro ⟨kv, hkv, hbool⟩ hwell
    exact not_wellTyped_of_boolGiven hbool (hwell kv hkv)
  -- A value that passes without its type is one of `true` and `false`.
  have hwrong : (∀ kv ∈ params, WellTyped props kv ∨ BoolGiven props kv) →
      (¬ ∃ kv ∈ params, BoolGiven props kv) → ∀ kv ∈ params, WellTyped props kv :=
    fun hall hnone kv hkv => (hall kv hkv).resolve_right fun hbool => hnone ⟨kv, hkv, hbool⟩
  rw [Tool.validate_eq_ok_nil P O h, hsplit]
  unfold Meets Misjudged
  rw [htest]
  clear hsplit htest
  generalize (∀ kv ∈ params, WellTyped props kv) = well at *
  generalize (∀ kv ∈ params, WellTyped props kv ∨ BoolGiven props kv) = pass at *
  generalize (∃ kv ∈ params, BoolGiven props kv) = bool at *
  tauto

end Validate

/-- A tool with a required number. -/
def repeatTool : Tool where
  info := ⟨"repeat", "", [("properties", .dict [("times", .dict [("type", .str "integer")])]),
    ("required", .list [.str "times"])]⟩

/-- This is its schema. -/
theorem repeatTool_hasSchema :
    repeatTool.HasSchema [("times", .dict [("type", .str "integer")])] ["times"] :=
  ⟨rfl, rfl⟩

/-- A call with a number meets the schema and is accepted. -/
theorem validate_matches_iff_three_times :
    repeatTool.validate .bare .listed [("times", .int 3)] = .ok [] :=
  ((Tool.validate_matches_iff .bare .listed repeatTool_hasSchema [("times", .int 3)]).mpr
    (by decide)).mpr (by decide)

/-- A call with `true` for the number is accepted too. -/
theorem validate_accepts_bool :
    ¬ ∀ (tool : Tool) (props : Dict) (required : List String) (params : Dict),
      tool.HasSchema props required →
        (tool.validate .bare .listed params = .ok [] ↔ Meets props required params) := by
  intro h
  have hbool := h repeatTool _ _ [("times", .bool true)] repeatTool_hasSchema
  revert hbool
  decide

end YellowBull
