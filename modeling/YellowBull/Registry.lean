import YellowBull.Lib.Machine
import YellowBull.Lib.OrderedMap
import YellowBull.Models

/-!
# Tools and their registry

`ToolInfo`, `ToolResult` and the attributes of `BaseTool` (`tools/base.py`), and `ToolRegistry`
(`tools/registry.py`) but for `resolve`, whose class-level dict is explicit state here. A tool's
`execute` is not part of its model: what an attempt comes back with is an input of the executor.
-/

namespace YellowBull

open Py

/-- `ToolInfo` of `tools/base.py`. -/
structure ToolInfo where
  name : String
  description : String
  parameters : Dict
  deriving DecidableEq

/-- `ToolResult` of `tools/base.py`. -/
structure ToolResult where
  content : String := ""
  success : Bool := true
  error : String := ""
  deriving DecidableEq

/-- A tool object, as far as the registry and the executor read it. -/
structure Tool where
  info : ToolInfo
  /-- `getattr(tool, "timeout", None)`. -/
  timeout : Val := .none
  /-- `BaseTool.max_retries`. -/
  max_retries : ℤ := 0
  /-- Its `execute` has a parameter `context`. -/
  takes_context : Bool := false
  /-- The name under which Python reports its `execute` in a `TypeError`. -/
  execute_name : String := "execute"
  /-- The identity of the object, which tells tools apart that agree in everything else. -/
  object_id : ℕ := 0
  deriving DecidableEq

/-- `ToolRegistry._tools`: the registered tools under their names, in registration order. -/
structure ToolRegistry where
  tools : OrderedMap String Tool
  /-- A tool is registered under the name in its own info. -/
  named : ∀ name tool, tools.get? name = some tool → tool.info.name = name

namespace ToolRegistry

/-- The registry without tools. -/
def empty : ToolRegistry := ⟨.empty, by simp⟩

/-- `ToolRegistry.register`. -/
def register (reg : ToolRegistry) (tool : Tool) : ToolRegistry where
  tools := reg.tools.set tool.info.name tool
  named := by
    intro name t ht
    by_cases h : name = tool.info.name
    · subst h
      rw [OrderedMap.get?_set_self] at ht
      obtain rfl := Option.some.inj ht
      rfl
    · rw [OrderedMap.get?_set_of_ne _ h] at ht
      exact reg.named name t ht

/-- `ToolRegistry.unregister`, the registry that it leaves. -/
def unregister (reg : ToolRegistry) (name : String) : ToolRegistry where
  tools := reg.tools.erase name
  named := by
    intro name' t ht
    by_cases h : name' = name
    · simp [h] at ht
    · rw [OrderedMap.get?_erase_of_ne _ h] at ht
      exact reg.named name' t ht

/-- `ToolRegistry.unregister`, its return value. -/
def unregisterResult (reg : ToolRegistry) (name : String) : Bool := (reg.tools.get? name).isSome

/-- `ToolRegistry.get`. The name may be any value: a list or a dict is not hashable, and no other
value but a string is a key. -/
def get (reg : ToolRegistry) : Val → Except Exn (Option Tool)
  | .str name => .ok (reg.tools.get? name)
  | .list _ => .error ⟨.typeError, "unhashable type: 'list'"⟩
  | .dict _ => .error ⟨.typeError, "unhashable type: 'dict'"⟩
  | _ => .ok none

/-- `ToolRegistry.list_all`. -/
def listAll (reg : ToolRegistry) : List Tool := reg.tools.values

/-- One entry of `ToolRegistry.to_function_definitions`. -/
def functionDefinition (t : Tool) : Dict :=
  [("type", .str "function"),
    ("function", .dict
      [("name", .str t.info.name), ("description", .str t.info.description),
        ("parameters", .dict t.info.parameters)])]

/-- `ToolRegistry.to_function_definitions`. -/
def toFunctionDefinitions (reg : ToolRegistry) : List Dict := reg.listAll.map functionDefinition

/-- `ToolRegistry.clear`, the registry that it leaves. -/
def clear (_ : ToolRegistry) : ToolRegistry := empty

/-- The operations that change the registry. -/
inductive Op where
  | register (tool : Tool)
  | unregister (name : String)
  | clear

/-- An operation on the registry and what it returns. -/
def step (reg : ToolRegistry) : Op → ToolRegistry × Option Bool
  | .register tool => (reg.register tool, none)
  | .unregister name => (reg.unregister name, some (reg.unregisterResult name))
  | .clear => (reg.clear, none)

/-- The registry after a sequence of operations, from the empty one. -/
def after (ops : List Op) : ToolRegistry := Machine.state step empty ops

end ToolRegistry

end YellowBull
