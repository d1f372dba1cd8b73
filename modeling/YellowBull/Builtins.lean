import YellowBull.BaseTool

/-!
# Built-in tools

What the tools of `tools/builtins` share: `tool.execute(**arguments)` binds the arguments of a call
to the parameters of `execute` before its body is entered.
-/

namespace YellowBull

open Py

/-- The names in the `TypeError` for missing arguments. -/
def missingNames : List String → String
  | [] => ""
  | [a] => "'" ++ a ++ "'"
  | [a, b] => "'" ++ a ++ "' and '" ++ b ++ "'"
  | a :: names => "'" ++ a ++ "', " ++ missingNames names

/-- The `TypeError` for an argument without a parameter. -/
def unexpectedArgument (function key : String) : Exn :=
  if key = "self" then multipleValues function key
  else ⟨.typeError, function ++ "() got an unexpected keyword argument '" ++ key ++ "'"⟩

/-- The `TypeError` for parameters without an argument. -/
def missingArguments (function : String) (names : List String) : Exn :=
  ⟨.typeError, function ++ "() missing " ++ toString names.length ++
    " required positional argument" ++ (if names.length = 1 then "" else "s") ++ ": " ++
    missingNames names⟩

/-- Binds the keyword arguments of a call to the parameters of a function. -/
def bindArguments (function : String) (required optional : List String) (arguments : Dict) :
    Except Exn Unit :=
  match arguments.find? (fun kv => kv.1 ∉ required ++ optional) with
  | some (key, _) => .error (unexpectedArgument function key)
  | none =>
    match required.filter fun name => (arguments.lookup name).isNone with
    | [] => .ok ()
    | names => .error (missingArguments function names)

end YellowBull
