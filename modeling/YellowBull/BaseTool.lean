import YellowBull.Registry

/-!
# Tools with validation

`BaseTool.validate`, `execute_with_retry` and `_execute_with_context` (`tools/base.py`), and
`ToolRegistry.resolve` (`tools/registry.py`), the call of a tool that goes through them. What the
calls of `execute` come back with is an input, by the number of the attempt.
-/

namespace YellowBull

open Py

/-! ## Validation -/

/-- `type_map` of `_check_json_schema_type`: for each type of JSON Schema the Python types of the
JSON values that are instances of its classes. `bool` is a subclass of `int`. -/
def typeMap : List (String × List String) :=
  [("string", ["str"]), ("number", ["int", "float", "bool"]), ("integer", ["int", "bool"]),
    ("boolean", ["bool"]), ("array", ["list"]), ("object", ["dict"])]

/-- `_check_json_schema_type`. -/
def checkJsonSchemaType (value schema_type : Val) : Except Exn Bool :=
  match schema_type with
  | .str s =>
    match typeMap.lookup s with
    -- An unknown type is not checked.
    | none => .ok true
    | some expected => .ok (expected.contains value.typeName)
  | .list _ => .error ⟨.typeError, "unhashable type: 'list'"⟩
  | .dict _ => .error ⟨.typeError, "unhashable type: 'dict'"⟩
  | _ => .ok true

/-- `req not in params or params[req] is None`. -/
def lacks (params : Dict) (req : Val) : Bool :=
  match req with
  | .str key =>
    match params.lookup key with
    | none => true
    | some value => value = .none
  | _ => true

/-- The type check of one parameter in `BaseTool.validate`. -/
def paramErrors (P : Platform) (schema_props : Val) (name : String) (value : Val) :
    Except Exn (List String) := do
  let prop_schema ← schema_props.get name .none
  match prop_schema with
  | .dict items =>
    -- An empty dict, which is false, has no type either.
    let expected_type := Py.Dict.get items "type" .none
    if expected_type.truthy then
      if ← checkJsonSchemaType value expected_type then return []
      else
        return ["Parameter '" ++ name ++ "' expected type " ++ P.fmt expected_type ++ ", got " ++
          value.typeName]
    else return []
  | _ => return []

namespace Tool

variable (P : Platform) (O : SetOrder) (tool : Tool)

/-- `required` of `BaseTool.validate`. -/
def required : Except Exn (List Val) :=
  O.set (Py.Dict.get tool.info.parameters "required" (.list []))

/-- `BaseTool.validate`. -/
def validate (params : Dict) : Except Exn (List String) := do
  let schema_props := Py.Dict.get tool.info.parameters "properties" (.dict [])
  let required ← tool.required O
  let missing := (required.filter (lacks params)).map fun req =>
    "Missing required parameter: " ++ P.fmt req
  let wrong ← params.mapM fun kv => paramErrors P schema_props kv.1 kv.2
  return missing ++ wrong.flatten

/-! ## Execution with retries -/

/-- A call of `execute` by `_execute_with_context`: the keyword arguments, and whether a new
`ToolContext` takes the place of `context` among them. -/
structure ContextCall where
  kwargs : Dict
  injected : Bool
  deriving DecidableEq

/-- The retries, at most `n` of them, from the given attempt on, after a result: the calls, and what
comes back. -/
def retry (call : ContextCall) (attempts : ℕ → Except Exn ToolResult) :
    ℕ → ℕ → ToolResult → List ContextCall × Except Exn ToolResult
  | 0, _, result => ([], .ok result)
  | n + 1, attempt, result =>
    if result.success then ([], .ok result)
    else
      match attempts attempt with
      | .error e => ([call], .error e)
      | .ok result =>
        let rest := retry call attempts n (attempt + 1) result
        (call :: rest.1, rest.2)

/-- The number of rounds of `for _ in range(limit)`. -/
def rounds : Val → Except Exn ℕ
  | .int n => .ok n.toNat
  | .bool b => .ok b.toNat
  | v => .error ⟨.typeError, "'" ++ v.typeName ++ "' object cannot be interpreted as an integer"⟩

/-- `BaseTool.execute_with_retry`: the calls of `execute`, and what comes back. The limit is not
read before the first attempt is over. -/
def executeWithRetry (max_retries : Val) (kwargs : Dict) (attempts : ℕ → Except Exn ToolResult) :
    List ContextCall × Except Exn ToolResult :=
  match tool.validate P O kwargs with
  | .error e => ([], .error e)
  | .ok errors =>
    if errors ≠ [] then
      ([], .ok { content := "Parameter validation failed: " ++ join "; " errors, success := false })
    else
      let limit := if max_retries = .none then .int tool.max_retries else max_retries
      let call := ⟨kwargs, tool.takes_context⟩
      match attempts 0 with
      | .error e => ([call], .error e)
      | .ok result =>
        match rounds limit with
        | .error e => ([call], .error e)
        | .ok n =>
          let rest := retry call attempts n 1 result
          (call :: rest.1, rest.2)

end Tool

/-- The `TypeError` for a keyword argument that is also given by position. -/
def multipleValues (function key : String) : Exn :=
  ⟨.typeError, function ++ "() got multiple values for argument '" ++ key ++ "'"⟩

/-- `ToolRegistry.resolve(name, **arguments)`: the calls of `execute`, and what comes back. The
parameters of `resolve` and of `execute_with_retry` themselves take the arguments of their names. -/
def ToolRegistry.resolve (P : Platform) (O : SetOrder) (reg : ToolRegistry) (name : String)
    (arguments : Dict) (attempts : ℕ → Except Exn ToolResult) :
    List Tool.ContextCall × Except Exn ToolResult :=
  match arguments.find? (fun kv => kv.1 = "cls" ∨ kv.1 = "name") with
  | some (key, _) => ([], .error (multipleValues "ToolRegistry.resolve" key))
  | none =>
    match reg.tools.get? name with
    | none => ([], .ok { content := "Unknown tool: " ++ name, success := false })
    | some tool =>
      if (arguments.lookup "self").isSome then
        ([], .error (multipleValues "BaseTool.execute_with_retry" "self"))
      else
        tool.executeWithRetry P O (Py.Dict.get arguments "max_retries" .none)
          (arguments.filter (·.1 ≠ "max_retries")) attempts

end YellowBull
