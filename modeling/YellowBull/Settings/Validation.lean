import Mathlib.Data.List.Forall2
import YellowBull.Lib.Value

/-!
# The schema check of the settings

`Settings.validate` and `_validate_node` of `config/settings.py`, on the dict that `model_dump`
gives, against a nested schema over the types `object`, `string` and `number`.

What is wrong with a dict is listed level by level (`violations`); a level is a dict that fields
declared `object` lead to (`Schema.Reaches`). The check reports the same list but for two kinds of
violations, which fall through its `elif` chain (`validateNode_eq`): a field declared `object` that
is no dict, and `True` or `False` where a number is declared.
-/

namespace YellowBull

open Py

/-- The types of a settings schema. -/
inductive SchemaType where
  | object
  | string
  | number
  deriving DecidableEq

/-- The name of a type in a schema. -/
def SchemaType.name : SchemaType → String
  | .object => "object"
  | .string => "string"
  | .number => "number"

/-- The JSON value is of the type. -/
def SchemaType.has : SchemaType → Val → Bool
  | .object, .dict _ => true
  | .string, .str _ => true
  | .number, .int _ => true
  | .number, .float _ => true
  | _, _ => false

/-- `isinstance(value, str)`. -/
theorem SchemaType.typeName_eq_str (value : Val) :
    value.typeName = "str" ↔ SchemaType.string.has value := by
  cases value <;> simp [Val.typeName, SchemaType.has]

/-- `isinstance(value, (int, float))`, which holds of `True` and `False` too. -/
theorem SchemaType.isNumber_iff (value : Val) :
    value.isNumber ↔ SchemaType.number.has value ∨ value.typeName = "bool" := by
  cases value <;> simp [Val.typeName, Val.isNumber, SchemaType.has]

/-- A schema: what its keys `type`, `properties` and `required` say, each of which may be absent. -/
inductive Schema where
  | node (type : Option SchemaType) (properties : List (String × Schema)) (required : List String)

namespace Schema

/-- `spec.get("type")`. -/
def type : Schema → Option SchemaType
  | node type _ _ => type

/-- `spec.get("properties", {})`. -/
def properties : Schema → List (String × Schema)
  | node _ properties _ => properties

/-- `spec.get("required", [])`. -/
def required : Schema → List String
  | node _ _ required => required

end Schema

/-! ## The check -/

/-- The error for a required field that is missing. -/
def missingField (field : String) : String := "Missing required field: " ++ field

/-- The error for a field of another type than the expected one. -/
def invalidType (field expected : String) : String :=
  "Invalid type for " ++ field ++ ": expected " ++ expected

mutual

/-- `Settings._validate_node`: the errors that it appends. -/
def validateNode (path : String) (data : Dict) : Schema → List String
  | .node _ properties required =>
    ((required.filter fun req => (data.lookup req).isNone).map fun req =>
      missingField (path ++ req)) ++ validateFields path data properties

/-- Its loop over `properties.items()`. -/
def validateFields (path : String) (data : Dict) : List (String × Schema) → List String
  | [] => []
  | (key, spec) :: properties =>
    (match data.lookup key with
      | none => []
      | some value =>
        match spec.type, value with
        | some .object, .dict fields => validateNode (path ++ key ++ ".") fields spec
        | some .string, value =>
          if value.typeName = "str" then []
          else [invalidType (path ++ key) "string"]
        | some .number, value =>
          if value.isNumber then []
          else [invalidType (path ++ key) "number"]
        -- An object that is no dict comes here too.
        | _, _ => []) ++ validateFields path data properties

end

/-- `Settings.validate`, of the settings with the given `model_dump`. -/
def validateSettings (model_dump : Dict) (schema : Schema) : List String :=
  validateNode "" model_dump schema

/-! ## What is wrong with a dict -/

/-- A violation of a schema, with the dotted path of its field. -/
inductive Violation where
  | missing (path : String)
  | mistyped (path : String) (expected : SchemaType) (value : Val)
  deriving DecidableEq

namespace Violation

/-- The dotted path of the field. -/
def path : Violation → String
  | missing path => path
  | mistyped path _ _ => path

/-- The text of an error for the violation. -/
def message : Violation → String
  | missing path => missingField path
  | mistyped path expected _ => invalidType path expected.name

/-- The check has a branch for the violation. -/
def reported : Violation → Bool
  | mistyped _ .object _ => false
  | mistyped _ .number (.bool _) => false
  | _ => true

end Violation

/-- The violation that the value of a field is, if it is one. -/
def mistyped (path : String) (data : Dict) (field : String × Schema) : List Violation :=
  match data.lookup field.1, field.2.type with
  | some value, some expected =>
    if expected.has value then [] else [.mistyped (path ++ field.1) expected value]
  | _, _ => []

/-- The required fields that a dict lacks. -/
def missing (path : String) (data : Dict) (required : List String) : List Violation :=
  (required.filter fun req => (data.lookup req).isNone).map fun req => .missing (path ++ req)

mutual

/-- What is wrong with a dict, at every depth. -/
def violations (path : String) (data : Dict) : Schema → List Violation
  | .node _ properties required =>
    missing path data required ++ fieldViolations path data properties

/-- What is wrong with the fields of a dict. -/
def fieldViolations (path : String) (data : Dict) : List (String × Schema) → List Violation
  | [] => []
  | (key, spec) :: properties =>
    mistyped path data (key, spec) ++
      (match data.lookup key, spec.type with
        | some (.dict fields), some .object => violations (path ++ key ++ ".") fields spec
        | _, _ => []) ++ fieldViolations path data properties

end

mutual

/-- The check reports the violations that it has a branch for. -/
theorem validateNode_eq (path : String) (data : Dict) : ∀ schema : Schema,
    validateNode path data schema =
      ((violations path data schema).filter Violation.reported).map Violation.message
  | .node type properties required => by
    have hmissing : (missing path data required).filter Violation.reported =
        missing path data required := by
      refine List.filter_eq_self.mpr fun v hv => ?_
      obtain ⟨req, -, rfl⟩ := List.mem_map.mp hv
      rfl
    rw [validateNode, violations, List.filter_append, List.map_append, hmissing,
      validateFields_eq path data properties, missing, List.map_map]
    rfl

/-- So does its loop. -/
theorem validateFields_eq (path : String) (data : Dict) : ∀ properties : List (String × Schema),
    validateFields path data properties =
      ((fieldViolations path data properties).filter Violation.reported).map Violation.message
  | [] => rfl
  | (key, spec) :: properties => by
    rw [validateFields, fieldViolations, List.filter_append, List.filter_append, List.map_append,
      List.map_append, validateFields_eq path data properties]
    congr 1
    -- A field that is absent, or has no type in the schema, violates nothing by itself.
    cases hvalue : data.lookup key with
    | none => simp [mistyped, hvalue]
    | some value =>
      cases htype : spec.type with
      | none => simp [mistyped, hvalue, htype]
      | some t =>
        cases t with
        -- An object that is a dict is validated one level down; any other value is not reported.
        | object =>
          cases value with
          | dict fields =>
            have hsub := validateNode_eq (path ++ key ++ ".") fields spec
            simp [mistyped, hvalue, htype, SchemaType.has, hsub]
          | _ => simp [mistyped, hvalue, htype, SchemaType.has, Violation.reported]
        | string =>
          simp only [mistyped, hvalue, htype, SchemaType.typeName_eq_str]
          cases hhas : SchemaType.string.has value with
          | true => simp
          | false =>
            rw [if_neg Bool.false_ne_true]
            rfl
        | number =>
          simp only [mistyped, hvalue, htype, SchemaType.isNumber_iff]
          cases hhas : SchemaType.number.has value with
          | true => simp
          | false =>
            -- A bool is an `int` to the code, the one number that it does not report.
            cases value with
            | bool b => simp [Violation.reported, Val.typeName]
            | int n => cases hhas
            | float r => cases hhas
            | _ => rfl

end

/-! ## Levels -/

/-- The second dict, with its path and its schema, is the first one or a level below it, to which
fields declared `object` lead. -/
inductive Schema.Reaches : String → Dict → Schema → String → Dict → Schema → Prop
  | here (path : String) (data : Dict) (schema : Schema) :
      Reaches path data schema path data schema
  | field {path path' key : String} {data data' fields : Dict} {schema schema' sub : Schema}
      (hfield : (key, sub) ∈ schema.properties) (htype : sub.type = some .object)
      (hvalue : data.lookup key = some (.dict fields))
      (h : Reaches (path ++ key ++ ".") fields sub path' data' schema') :
      Reaches path data schema path' data' schema'

/-- What is wrong with a dict itself, without the levels below it. -/
def levelViolations (path : String) (data : Dict) (schema : Schema) : List Violation :=
  missing path data schema.required ++ schema.properties.flatMap (mistyped path data)

/-- What is wrong with the fields of a dict is wrong with a field itself or below it. -/
theorem mem_fieldViolations {v : Violation} {path : String} {data : Dict}
    {properties : List (String × Schema)} :
    v ∈ fieldViolations path data properties ↔ v ∈ properties.flatMap (mistyped path data) ∨
      ∃ key sub fields, (key, sub) ∈ properties ∧ sub.type = some .object ∧
        data.lookup key = some (.dict fields) ∧ v ∈ violations (path ++ key ++ ".") fields sub := by
  induction properties with
  | nil => simp [fieldViolations]
  | cons field properties ih =>
    obtain ⟨key, sub⟩ := field
    -- The level below counts only for an object that is there, and is a dict.
    have hbelow : v ∈ (match data.lookup key, sub.type with
          | some (.dict fields), some .object => violations (path ++ key ++ ".") fields sub
          | _, _ => []) ↔ sub.type = some .object ∧
        ∃ fields, data.lookup key = some (.dict fields) ∧
          v ∈ violations (path ++ key ++ ".") fields sub := by
      split
      next fields hvalue htype => simp [hvalue, htype]
      next hno =>
        simp only [List.not_mem_nil, false_iff]
        rintro ⟨htype, fields, hvalue, -⟩
        exact hno fields hvalue htype
    rw [fieldViolations, List.mem_append, List.mem_append, hbelow, ih, List.flatMap_cons,
      List.mem_append]
    -- The violations are those of this field, those below it, and those of the fields after it.
    constructor
    · rintro ((hv | ⟨htype, fields, hvalue, hv⟩) | hv | ⟨key', sub', fields, hmem, hv⟩)
      · exact Or.inl (Or.inl hv)
      · exact Or.inr ⟨key, sub, fields, List.mem_cons_self, htype, hvalue, hv⟩
      · exact Or.inl (Or.inr hv)
      · exact Or.inr ⟨key', sub', fields, List.mem_cons_of_mem _ hmem, hv⟩
    · rintro ((hv | hv) | ⟨key', sub', fields, hmem, htype, hvalue, hv⟩)
      · exact Or.inl (Or.inl hv)
      · exact Or.inr (Or.inl hv)
      · rcases List.mem_cons.mp hmem with heq | hmem
        · obtain ⟨rfl, rfl⟩ := Prod.mk.inj heq
          exact Or.inl (Or.inr ⟨htype, fields, hvalue, hv⟩)
        · exact Or.inr (Or.inr ⟨key', sub', fields, hmem, htype, hvalue, hv⟩)

/-- What is wrong with a dict is wrong with it itself or with a dict below it. -/
theorem mem_violations {v : Violation} {path : String} {data : Dict} {schema : Schema} :
    v ∈ violations path data schema ↔ v ∈ levelViolations path data schema ∨
      ∃ key sub fields, (key, sub) ∈ schema.properties ∧ sub.type = some .object ∧
        data.lookup key = some (.dict fields) ∧ v ∈ violations (path ++ key ++ ".") fields sub := by
  obtain ⟨type, properties, required⟩ := schema
  rw [violations, List.mem_append, mem_fieldViolations, levelViolations, List.mem_append, or_assoc]
  rfl

/-- What is wrong with a dict is wrong at a level. -/
theorem exists_level_of_mem {v : Violation} {path : String} {data : Dict} (schema : Schema)
    (h : v ∈ violations path data schema) : ∃ path' data' schema',
      Schema.Reaches path data schema path' data' schema' ∧
        v ∈ levelViolations path' data' schema' := by
  rcases mem_violations.mp h with hv | ⟨key, sub, fields, hfield, htype, hvalue, hv⟩
  · exact ⟨path, data, schema, .here path data schema, hv⟩
  · have hsize : sizeOf sub < sizeOf schema := by
      obtain ⟨type, properties, required⟩ := schema
      have hmem := List.sizeOf_lt_of_mem hfield
      simp only [Schema.properties, Prod.mk.sizeOf_spec, Schema.node.sizeOf_spec] at hmem ⊢
      omega
    obtain ⟨path', data', schema', hreach, hv⟩ := exists_level_of_mem sub hv
    exact ⟨path', data', schema', .field hfield htype hvalue hreach, hv⟩
termination_by sizeOf schema

/-- What is wrong at a level is wrong with the dict. -/
theorem Schema.Reaches.mem_violations {v : Violation} {path path' : String} {data data' : Dict}
    {schema schema' : Schema} (h : Schema.Reaches path data schema path' data' schema')
    (hv : v ∈ levelViolations path' data' schema') : v ∈ violations path data schema := by
  induction h with
  | here path data schema => exact YellowBull.mem_violations.mpr (Or.inl hv)
  | field hfield htype hvalue _ ih =>
    exact YellowBull.mem_violations.mpr (Or.inr ⟨_, _, _, hfield, htype, hvalue, ih hv⟩)

/-! ## Soundness and completeness -/

/-- All required fields of a dict are present, and every present field with a declared type has
it. -/
structure LevelMeets (data : Dict) (schema : Schema) : Prop where
  required : ∀ req ∈ schema.required, (data.lookup req).isSome
  typed : ∀ field ∈ schema.properties, ∀ value ∈ data.lookup field.1, ∀ t ∈ field.2.type,
    t.has value

/-- The settings meet the schema at every level. -/
def MeetsSchema (model_dump : Dict) (schema : Schema) : Prop :=
  ∀ path data spec, Schema.Reaches "" model_dump schema path data spec → LevelMeets data spec

/-- At some level, a present field that is declared `object` is no dict, or one that is declared
`number` is `True` or `False`. -/
def HasOverlooked (model_dump : Dict) (schema : Schema) : Prop :=
  ∃ path data spec, Schema.Reaches "" model_dump schema path data spec ∧
    ∃ field ∈ spec.properties, ∃ value ∈ data.lookup field.1,
      field.2.type = some .object ∧ value.typeName ≠ "dict" ∨
        field.2.type = some .number ∧ value.typeName = "bool"

/-- The check is sound and complete on these settings: it returns no error just if they meet the
schema, and each violation has an error of its own, in which the dotted path of the field stands. -/
structure SchemaChecked (model_dump : Dict) (schema : Schema) : Prop where
  empty_iff : validateSettings model_dump schema = [] ↔ MeetsSchema model_dump schema
  named : ∃ errors, errors.Subperm (validateSettings model_dump schema) ∧
    List.Forall₂ (fun (v : Violation) (error : String) => v.path.toList <:+: error.toList)
      (violations "" model_dump schema) errors

variable {model_dump : Dict} {schema : Schema}

/-- A field is mistyped if it has a value of another type. -/
theorem mem_mistyped {v : Violation} {path : String} {data : Dict} {field : String × Schema} :
    v ∈ mistyped path data field ↔ ∃ value ∈ data.lookup field.1, ∃ t ∈ field.2.type,
      ¬ t.has value ∧ v = .mistyped (path ++ field.1) t value := by
  unfold mistyped
  cases data.lookup field.1 with
  | none => simp
  | some value =>
    cases field.2.type with
    | none => simp
    | some t => cases hhas : t.has value <;> simp [hhas]

/-- A field that has not its declared type is wrong at its level. -/
theorem mistyped_mem_levelViolations {path : String} {data : Dict} {spec : Schema}
    {field : String × Schema} {value : Val} {t : SchemaType} (hfield : field ∈ spec.properties)
    (hvalue : value ∈ data.lookup field.1) (ht : t ∈ field.2.type) (hhas : ¬ t.has value) :
    .mistyped (path ++ field.1) t value ∈ levelViolations path data spec := by
  have hmem : .mistyped (path ++ field.1) t value ∈ mistyped path data field :=
    mem_mistyped.mpr ⟨value, hvalue, t, ht, hhas, rfl⟩
  exact List.mem_append_right _ (List.mem_flatMap.mpr ⟨field, hfield, hmem⟩)

/-- Nothing is wrong at a level, just if it meets its schema. -/
theorem levelViolations_eq_nil_iff {path : String} {data : Dict} {schema : Schema} :
    levelViolations path data schema = [] ↔ LevelMeets data schema := by
  constructor
  · intro hnone
    refine ⟨fun req hreq => ?_, fun field hfield value hvalue t ht => ?_⟩
    -- A required field that is missing would be a violation.
    · by_contra hlacks
      have hmem : .missing (path ++ req) ∈ levelViolations path data schema :=
        List.mem_append_left _ (List.mem_map_of_mem (List.mem_filter.mpr
          ⟨hreq, Option.isNone_iff_eq_none.mpr (Option.not_isSome_iff_eq_none.mp hlacks)⟩))
      rw [hnone] at hmem
      cases hmem
    -- So would be a field of the wrong type.
    · by_contra hhas
      have hmem : .mistyped (path ++ field.1) t value ∈ levelViolations path data schema :=
        mistyped_mem_levelViolations hfield hvalue ht hhas
      rw [hnone] at hmem
      cases hmem
  · intro hmeets
    refine List.eq_nil_iff_forall_not_mem.mpr fun v hv => ?_
    rcases List.mem_append.mp hv with hmissing | hmistyped
    · obtain ⟨req, hreq, -⟩ := List.mem_map.mp hmissing
      obtain ⟨hreq, hnone⟩ := List.mem_filter.mp hreq
      have hsome := hmeets.required req hreq
      rw [Option.isNone_iff_eq_none.mp hnone] at hsome
      cases hsome
    · obtain ⟨field, hfield, hmistyped⟩ := List.mem_flatMap.mp hmistyped
      obtain ⟨value, hvalue, t, ht, hhas, -⟩ := mem_mistyped.mp hmistyped
      exact hhas (hmeets.typed field hfield value hvalue t ht)

/-- Nothing is wrong with the settings, just if they meet the schema. -/
theorem violations_eq_nil_iff :
    violations "" model_dump schema = [] ↔ MeetsSchema model_dump schema := by
  constructor
  · intro hnone path data spec hreach
    have hlevel : levelViolations path data spec = [] := by
      refine List.eq_nil_iff_forall_not_mem.mpr fun v hv => ?_
      have hmem := hreach.mem_violations hv
      rw [hnone] at hmem
      cases hmem
    exact levelViolations_eq_nil_iff.mp hlevel
  · intro hmeets
    refine List.eq_nil_iff_forall_not_mem.mpr fun v hv => ?_
    obtain ⟨path, data, spec, hreach, hv⟩ := exists_level_of_mem schema hv
    rw [levelViolations_eq_nil_iff.mpr (hmeets path data spec hreach)] at hv
    cases hv

/-- The values of another type that the check has no branch for. -/
theorem not_reported_iff {path : String} {t : SchemaType} {value : Val} (hhas : ¬ t.has value) :
    ¬ (Violation.mistyped path t value).reported ↔
      t = .object ∧ value.typeName ≠ "dict" ∨ t = .number ∧ value.typeName = "bool" := by
  cases t <;> cases value <;> simp [Violation.reported, Val.typeName, SchemaType.has] at hhas ⊢

/-- Some violation is not reported, just if one of the two kinds is there. -/
theorem exists_not_reported_iff :
    (∃ v ∈ violations "" model_dump schema, ¬ v.reported) ↔ HasOverlooked model_dump schema := by
  constructor
  · rintro ⟨v, hv, hreported⟩
    obtain ⟨path, data, spec, hreach, hlevel⟩ := exists_level_of_mem schema hv
    -- A missing field is always reported, so what is overlooked has a wrong type.
    rcases List.mem_append.mp hlevel with hmissing | hmistyped
    · obtain ⟨req, -, rfl⟩ := List.mem_map.mp hmissing
      exact absurd rfl hreported
    · obtain ⟨field, hfield, hmistyped⟩ := List.mem_flatMap.mp hmistyped
      obtain ⟨value, hvalue, t, ht, hhas, rfl⟩ := mem_mistyped.mp hmistyped
      refine ⟨path, data, spec, hreach, field, hfield, value, hvalue, ?_⟩
      rw [Option.mem_def.mp ht]
      simpa using (not_reported_iff hhas).mp hreported
  · rintro ⟨path, data, spec, hreach, field, hfield, value, hvalue, hkind⟩
    -- The two kinds that `_validate_node` lets pass are not of the type.
    have hwrong : ∃ t ∈ field.2.type, ¬ t.has value ∧
        (t = .object ∧ value.typeName ≠ "dict" ∨ t = .number ∧ value.typeName = "bool") := by
      rcases hkind with ⟨htype, hname⟩ | ⟨htype, hname⟩
      · exact ⟨.object, htype, by cases value <;> simp_all [SchemaType.has, Val.typeName],
          Or.inl ⟨rfl, hname⟩⟩
      · exact ⟨.number, htype, by cases value <;> simp_all [SchemaType.has, Val.typeName],
          Or.inr ⟨rfl, hname⟩⟩
    obtain ⟨t, ht, hhas, hkind⟩ := hwrong
    exact ⟨.mistyped (path ++ field.1) t value,
      hreach.mem_violations (mistyped_mem_levelViolations hfield hvalue ht hhas),
      (not_reported_iff hhas).mpr hkind⟩

/-- The path stands in the error. -/
theorem Violation.path_infix_message (v : Violation) : v.path.toList <:+: v.message.toList := by
  cases v with
  | missing path =>
    have htext : (missingField path).toList = "Missing required field: ".toList ++ path.toList :=
      String.toList_append
    exact htext ▸ (List.suffix_append _ _).isInfix
  | mistyped path expected value =>
    have htext : (invalidType path expected.name).toList = "Invalid type for ".toList ++
        path.toList ++ ": expected ".toList ++ expected.name.toList := by
      unfold invalidType
      rw [String.toList_append, String.toList_append, String.toList_append]
    have hmiddle (a b c d : List Char) : b <:+: a ++ b ++ c ++ d :=
      ⟨a, c ++ d, (List.append_assoc ..).symm⟩
    exact htext ▸ hmiddle ..

/-- The check of the settings is sound and complete, just if no field of the two kinds is there. -/
theorem schemaChecked_iff :
    SchemaChecked model_dump schema ↔ ¬ HasOverlooked model_dump schema := by
  have herrors : validateSettings model_dump schema =
      ((violations "" model_dump schema).filter Violation.reported).map Violation.message :=
    validateNode_eq "" model_dump schema
  rw [← exists_not_reported_iff]
  constructor
  · rintro ⟨-, errors, hsub, hnamed⟩ ⟨v, hv, hreported⟩
    -- There are not enough errors for all violations.
    have hlength := hsub.length_le
    rw [herrors, List.length_map, ← hnamed.length_eq] at hlength
    have hall := List.length_filter_eq_length_iff.mp
      (Nat.le_antisymm (List.length_filter_le _ _) hlength)
    exact hreported (hall v hv)
  · intro hall
    push Not at hall
    have hfilter : (violations "" model_dump schema).filter Violation.reported =
        violations "" model_dump schema := List.filter_eq_self.mpr hall
    rw [hfilter] at herrors
    refine ⟨?_, _, .refl _, ?_⟩
    · rw [herrors, List.map_eq_nil_iff, violations_eq_nil_iff]
    · rw [herrors, List.forall₂_map_right_iff]
      exact List.forall₂_same.mpr fun v _ => v.path_infix_message

/-- A host that is a text where an object is declared. -/
theorem validate_accepts_text_for_object :
    ¬ ∀ (model_dump : Dict) (schema : Schema), SchemaChecked model_dump schema := by
  intro h
  let host : Schema := .node (some .object) [] []
  let server : Schema := .node (some .object) [("host", host)] []
  have hchecked := h [("server", .dict [("host", .str "127.0.0.1"), ("port", .int 8000)])]
    (.node none [("server", server)] [])
  have hlevel := hchecked.empty_iff.mp (by decide) _ _ server
    (.field List.mem_cons_self rfl rfl (.here _ _ _))
  have hhost := hlevel.typed ("host", host) List.mem_cons_self (.str "127.0.0.1") rfl .object rfl
  cases hhost

end YellowBull
