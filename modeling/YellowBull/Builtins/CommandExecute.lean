import Mathlib.Algebra.Order.Ring.Rat
import YellowBull.Builtins
import YellowBull.ContextBuilder
import YellowBull.ToolExecutor

/-!
# The command tool

`ExecuteCommandTool` of `tools/builtins/command_execute.py`, and one attempt of it under the
`asyncio.wait_for` of the executor. What the system does with the command is an input
(`CommandEnv`), with the times that it takes, in seconds. Everything up to the start of the process
runs without an await, so that no limit can cut it off once the coroutine has been entered. A
`wait_for` whose limit is not positive never enters it.
-/

namespace YellowBull

open Py

/-- What the calls of the operating system come back with during one attempt. -/
structure CommandEnv where
  /-- `Path(workdir).resolve()`. -/
  resolve : String → Except Exn String
  /-- `cwd.exists()`. -/
  pathExists : String → Except Exn Bool
  /-- `create_subprocess_shell`: the time until the process is connected, or the exception that is
  raised without a process. -/
  spawn : Except Exn ℚ
  /-- How long the command runs, none if it does not end. -/
  duration : Option ℚ
  /-- `communicate()`, the two outputs decoded. -/
  communicate : Except Exn (String × String)
  returncode : ℤ
  /-- `proc.kill()`. -/
  kill : Except Exn Unit

/-! ## Limits of time -/

/-- `wait_for` with this limit times out on what takes so long. At the limit it does. -/
def timesOut : Option ℚ → Option ℚ → Bool
  | none, _ => false
  | some _, none => true
  | some limit, some time => limit ≤ 0 || limit ≤ time

/-! ## The tool -/

/-- `text.rstrip()`. -/
def rstrip (text : String) : String :=
  String.ofList (text.toList.reverse.dropWhile isSpace).reverse

namespace ExecuteCommandTool

/-- `DEFAULT_TIMEOUT`. -/
def defaultTimeout : Val := .int 60

/-- What a run of `execute` comes to. -/
inductive Run where
  /-- It returns without a process. -/
  | refused (result : ToolResult)
  /-- It starts a process, and returns when so much time has passed, or never. -/
  | started (time : Option ℚ) (result : ToolResult)

/-- The handler `except Exception`. -/
def executionFailed (e : Exn) : ToolResult :=
  { content := "Execution failed: " ++ e.text, success := false }

/-- `cwd`, and whether it exists. -/
def cwd (env : CommandEnv) (workdir : Val) : Except Exn (Option String × Bool) :=
  if workdir.truthy then
    match workdir with
    | .str s => do
      let dir ← env.resolve s
      let found ← env.pathExists dir
      return (some dir, found)
    | v => .error ⟨.typeError, "argument should be a str or an os.PathLike object where " ++
        "__fspath__ returns a str, not '" ++ v.typeName ++ "'"⟩
  else .ok (none, true)

/-- `create_subprocess_shell(command, ..)`. -/
def spawn (env : CommandEnv) : Val → Except Exn ℚ
  | .str _ => env.spawn
  | _ => .error ⟨.valueError, "cmd must be a string"⟩

/-- The result of a command that has ended. -/
def finished (command : String) (cwd : Option String) (returncode : ℤ) (out err : String) :
    ToolResult :=
  let out_text := rstrip out
  let err_text := rstrip err
  let status :=
    if returncode = 0 then "succeeded" else "failed (exit " ++ toString returncode ++ ")"
  let parts := ["[" ++ status ++ "]", "$ " ++ command] ++
    (match cwd with
      | none => []
      | some dir => ["  (in " ++ dir ++ ")"]) ++
    (if out_text = "" then [] else [out_text]) ++
    (if err_text ≠ "" ∧ returncode ≠ 0 then ["STDERR:\n" ++ err_text] else [])
  { content := join "\n" parts, success := returncode = 0 }

/-- When `execute` returns, after the process has been connected. -/
def endTime (seconds : String → Option ℚ) (env : CommandEnv) (timeout : Val) (startup : ℚ) :
    Option ℚ :=
  match waitLimit seconds timeout with
  | .error _ => some startup
  | .ok limit =>
    if timesOut limit env.duration then limit.map fun t => startup + max t 0
    else env.duration.map (startup + ·)

/-- What `execute` returns then. -/
def endResult (P : Platform) (seconds : String → Option ℚ) (env : CommandEnv) (command : String)
    (cwd : Option String) (timeout : Val) : ToolResult :=
  match waitLimit seconds timeout with
  | .error e => executionFailed e
  | .ok limit =>
    if timesOut limit env.duration then
      match env.kill with
      | .error e => executionFailed e
      | .ok () =>
        { content := "Command timed out after " ++ P.fmt timeout ++ "s:\n" ++ command
          success := false }
    else
      match env.communicate with
      | .error e => executionFailed e
      | .ok (out, err) => finished command cwd env.returncode out err

/-- The body of `execute`. -/
def body (P : Platform) (seconds : String → Option ℚ) (env : CommandEnv)
    (command workdir timeout : Val) : Run :=
  match cwd env workdir with
  | .error e => .refused (executionFailed e)
  | .ok (some dir, false) =>
    .refused { content := "Working directory not found: " ++ dir, success := false }
  | .ok (dir, _) =>
    match spawn env command with
    | .error e => .refused (executionFailed e)
    | .ok startup => .started (endTime seconds env timeout startup)
        (endResult P seconds env (P.fmt command) dir timeout)

/-- `execute(**arguments)`. -/
def execute (P : Platform) (seconds : String → Option ℚ) (env : CommandEnv) (arguments : Dict) :
    Except Exn Run :=
  match bindArguments "ExecuteCommandTool.execute" ["command"] ["workdir", "timeout"] arguments with
  | .error e => .error e
  | .ok () => .ok (body P seconds env (Py.Dict.get arguments "command" .none)
      (Py.Dict.get arguments "workdir" .none) (Py.Dict.get arguments "timeout" defaultTimeout))

/-- The registered tool. -/
def tool : Tool where
  info := {
    name := "execute_command"
    description := "Execute a shell command and return its output. " ++
      "Supports timeout control and working directory specification."
    parameters := [("type", .str "object"), ("properties", .dict [
        ("command", .dict [("type", .str "string"),
          ("description", .str "The shell command to execute.")]),
        ("workdir", .dict [("type", .str "string"), ("description",
          .str "Working directory for the command. Default is current directory.")]),
        ("timeout", .dict [("type", .str "integer"),
          ("description", .str "Timeout in seconds. Default is 60.")])]),
      ("required", .list [.str "command"])] }
  max_retries := 0
  execute_name := "ExecuteCommandTool.execute"

/-- An attempt of the executor. -/
structure Attempt where
  /-- The command has been started. -/
  started : Bool
  outcome : Except Exn ToolResult

/-- A run of `execute` under the limit of the executor. One that never returns ends only if the
executor is cancelled. -/
def Run.within (limit : Option ℚ) : Run → Attempt
  | .refused result => ⟨false, .ok result⟩
  | .started time result =>
    -- The coroutine is cancelled, but the command has been started.
    if timesOut limit time then ⟨true, .error ⟨.timeoutError, ""⟩⟩
    else if time = none then ⟨true, .error ⟨.cancelledError, ""⟩⟩
    else ⟨true, .ok result⟩

/-- `wait_for(_invoke_tool(tool, arguments), timeout)`. -/
def attempt (P : Platform) (seconds : String → Option ℚ) (env : CommandEnv) (timeout : Val)
    (arguments : Val) : Attempt :=
  match waitLimit seconds timeout with
  | .error e => ⟨false, .error e⟩
  | .ok limit =>
    if startsNothing limit then ⟨false, .error ⟨.timeoutError, ""⟩⟩
    else
      match arguments with
      | .dict items =>
        match execute P seconds env items with
        | .error e => ⟨false, .error e⟩
        | .ok run => run.within limit
      | v => ⟨false, invokeTool tool v (.ok {})⟩

end ExecuteCommandTool

end YellowBull
