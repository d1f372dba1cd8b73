import YellowBull.Api.Sessions
import YellowBull.Lib.Slice

/-!
# The interactive command line

`run_cli` of `cli/repl.py` after its settings are loaded: `_ask_work_dir`, and the loop that reads a
line and handles it. Its variables and the agent behind it are the state (`Repl`). A line that is
entered, with what the outside does while it is handled, is an input (`Line`). A pass of the loop
gives the state at the next prompt, or none where the loop is left, and an exception that no
handler of `run_cli` catches is the error of the pass.

`console.print` raises where the markup of its text is malformed, so that a printed text matters as
far as it is made from data. A text that the source fixes has markup that is well formed, and its
printing is left out.
-/

namespace YellowBull

open Py

/-! ## The outside -/

/-- What the loop uses of the standard library and of `rich`. -/
structure Console where
  /-- `str.lower`. -/
  lower : String → String
  /-- `console.print` of a text with markup. -/
  print : String → Except Exn Unit
  /-- `console.print` of a `Markdown`. -/
  printMarkdown : String → Except Exn Unit

/-- How `os.makedirs` comes back. -/
inductive MakeDirs where
  | made
  /-- It raises an `OSError` with this text. -/
  | osError (text : String)
  /-- It raises anything else. -/
  | raises (e : Exn)
  deriving DecidableEq

/-- A line that is entered, and what the outside does while it is handled. -/
structure Line where
  /-- The line, none for an interrupt or the end of the input. -/
  text : Option String
  /-- `os.path.abspath`. -/
  abspath : String → Except Exn String
  /-- `os.path.isdir`. -/
  isdir : String → Bool
  makedirs : String → MakeDirs
  /-- The id of a session that is made, and the time. -/
  session_id : String
  now : Time
  /-- What happens during a chat. -/
  behaviour : Behaviour

/-- The directory is there, or is made now. -/
def Line.Available (line : Line) (dir : String) : Prop :=
  line.isdir dir = true ∨ line.makedirs dir = .made

instance (line : Line) : DecidablePred line.Available := fun dir =>
  inferInstanceAs (Decidable (line.isdir dir = true ∨ line.makedirs dir = .made))

/-- `str.strip`. -/
def strip (text : String) : String :=
  String.ofList (((text.toList.dropWhile isSpace).reverse.dropWhile isSpace).reverse)

/-! ## Commands -/

/-- What a line asks for. -/
inductive Command where
  | blank
  | quit
  | help
  | workdir (path : Option String)
  | new
  | sessions
  | history
  | clear
  | unknown (cmd : String)
  | message (text : String)
  deriving DecidableEq

/-- `text.split(maxsplit=1)[1].strip()`, where there is a second part. -/
def argument (text : String) : Option String :=
  let rest := (text.toList.dropWhile (!isSpace ·)).dropWhile isSpace
  if rest = [] then none else some (strip (String.ofList rest))

/-- How `run_cli` takes a line apart. -/
def Console.command (C : Console) (input_text : String) : Command :=
  let text := strip input_text
  if text = "" then .blank
  else if text.toList.head? = some '/' then
    let cmd := C.lower ((splitWords text.toList []).headD "")
    if cmd = "/quit" ∨ cmd = "/exit" ∨ cmd = "/q" then .quit
    else if cmd = "/help" then .help
    else if cmd = "/workdir" then .workdir (argument text)
    else if cmd = "/new" then .new
    else if cmd = "/sessions" then .sessions
    else if cmd = "/history" then .history
    else if cmd = "/clear" then .clear
    else .unknown cmd
  else .message text

/-- The command of a line. An interrupt and the end of the input leave the loop as well. -/
def Line.command (C : Console) (line : Line) : Command :=
  match line.text with
  | none => .quit
  | some input_text => C.command input_text

/-! ## The state and its handlers -/

/-- The variables of `run_cli`, and the agent. -/
structure Repl where
  agent : AgentState MemoryStore
  current_session_id : String
  work_dir : String

/-- `user_id` of `run_cli`. -/
def cliUser : String := "cli_user"

/-- The session manager of the agent. -/
def cliSessions : SessionManager MemoryStore := memorySessionManager 7200

/-- `sess.model_dump()`, which a dataclass does not have. -/
def noModelDump : Exn := ⟨.attributeError, "'Session' object has no attribute 'model_dump'"⟩

/-- The line that `_print_history` prints for a message. -/
def historyLine (m : Message) : String :=
  let (role, style) := match m.role with
    | .system => ("SYSTEM", "white")
    | .user => ("USER", "green")
    | .assistant => ("ASSISTANT", "blue")
    | .tool => ("TOOL", "yellow")
  "[" ++ style ++ "]" ++ role ++ ":[/" ++ style ++ "] " ++
    String.ofList (sliceTo (m.content.getD "").toList 200)

section Handlers

variable (C : Console) (P : Platform) (cfg : AgentConfig) (reg : ToolRegistry)

/-- Prints texts one after another. -/
def Console.printAll : List String → Except Exn Unit
  | [] => .ok ()
  | text :: texts => do
    C.print text
    printAll texts

/-- The messages that `/history` shows, the last twenty of the current session. -/
def Repl.shownMessages (repl : Repl) : List Message :=
  if repl.current_session_id = "" then []
  else
    match (cliSessions.get repl.current_session_id repl.agent.world).1 with
    | none => []
    | some session => sliceFrom (repl.agent.world.heap.read session).messages (-20)

/-- The command `/history`. -/
def Repl.history (repl : Repl) : Except Exn Repl := do
  C.printAll (repl.shownMessages.map historyLine)
  return repl

/-- The command `/sessions`. -/
def Repl.sessions (repl : Repl) : Except Exn Repl :=
  match cliSessions.listSessions (some cliUser) repl.agent.world with
  | ([], world) => .ok { repl with agent.world := world }
  -- The first session of the list raises.
  | (_ :: _, _) => .error noModelDump

/-- The command `/new`. -/
def Repl.new (repl : Repl) (line : Line) : Repl :=
  -- `sess.work_dir` goes before the variable, where it is not blank.
  let inherited :=
    if repl.current_session_id = "" then none
    else (cliSessions.get repl.current_session_id repl.agent.world).1.bind fun session =>
      truthy? (repl.agent.world.heap.read session).work_dir
  let old_work_dir := inherited.getD repl.work_dir
  { agent.world := newSession cliSessions cliUser line.session_id line.now old_work_dir
      repl.agent.world
    agent.cache := repl.agent.cache
    current_session_id := line.session_id
    work_dir := old_work_dir }

/-- `[dim]…[/dim]`, in which the current directory is printed. -/
def currentDirText (work_dir : String) : String := "[dim]当前工作目录: " ++ work_dir ++ "[/dim]"

/-- What is printed where a directory cannot be made. -/
def noDirText (dir text : String) : String := "[red]无法创建目录 " ++ dir ++ ": " ++ text ++ "[/red]"

/-- What is printed after a change of the directory. -/
def changedDirText (dir : String) : String := "[green]✓ 工作目录已更改为: " ++ dir ++ "[/green]"

/-- The part of `/workdir` that changes the directory of the current session and the variable. -/
def Repl.changeDir (repl : Repl) (new_dir : String) : Except Exn Repl := do
  let world :=
    if repl.current_session_id = "" then repl.agent.world
    else setWorkDir cliSessions repl.current_session_id new_dir repl.agent.world
  C.print (changedDirText new_dir)
  return { repl with agent.world := world, work_dir := new_dir }

/-- The part of `/workdir` with a path. -/
def Repl.chooseDir (repl : Repl) (path : String) (line : Line) : Except Exn Repl := do
  let new_dir ← line.abspath path
  if line.isdir new_dir then repl.changeDir C new_dir
  else
    match line.makedirs new_dir with
    | .made => repl.changeDir C new_dir
    | .osError text => do
      C.print (noDirText new_dir text)
      return repl
    | .raises e => .error e

/-- The part of `/workdir` that shows the current directory. -/
def Repl.showDir (repl : Repl) : Except Exn Unit :=
  if repl.work_dir = "" then .ok () else C.print (currentDirText repl.work_dir)

/-- The command `/workdir`. -/
def Repl.workdir (repl : Repl) (path : Option String) (line : Line) : Except Exn Repl := do
  repl.showDir C
  match path with
  | none => return repl
  | some path => repl.chooseDir C path line

/-- What is printed for an unknown command. -/
def unknownText (cmd : String) : String := "[red]未知命令: " ++ cmd ++ "，输入 /help 查看帮助[/red]"

/-- An unknown command. -/
def Repl.unknown (repl : Repl) (cmd : String) : Except Exn Repl := do
  C.print (unknownText cmd)
  return repl

/-- What is printed for a request that failed. -/
def failedText (e : Exn) : String := "[red]请求失败: " ++ e.text ++ "[/red]"

/-- The `except` clause around a chat. -/
def Repl.failed (repl : Repl) (e : Exn) : Except Exn Repl :=
  if e.IsException then do
    -- What the printing raises, nothing catches.
    C.print (failedText e)
    return repl
  else .error e

/-- The request that a text becomes. -/
def Repl.request (repl : Repl) (text : String) : ChatRequest where
  session_id := some repl.current_session_id
  user_id := cliUser
  message := text

/-- What is shown of an answer. The agent leaves `tool_results` empty. -/
def shownContent (response : ChatResponse) : String :=
  if response.content = "" then "(无回复)" else response.content

/-- The chat request. -/
def Repl.message (repl : Repl) (text : String) (line : Line) : Except Exn Repl :=
  let (agent, result) := repl.agent.chat P cfg reg cliSessions (repl.request text) line.session_id
    line.now line.behaviour
  let repl := { repl with agent }
  match result with
  | .error e => repl.failed C e
  | .ok response =>
    let repl := { repl with current_session_id := response.session_id }
    -- The answer is shown inside the `try` block.
    match C.printMarkdown (shownContent response) with
    | .ok () => .ok repl
    | .error e => repl.failed C e

/-- One pass of the loop. -/
def Repl.pass (repl : Repl) (line : Line) : Except Exn (Option Repl) :=
  match line.command C with
  | .blank => .ok (some repl)
  | .quit => .ok none
  | .help => .ok (some repl)
  | .workdir path => (repl.workdir C path line).map some
  | .new => .ok (some (repl.new line))
  | .sessions => repl.sessions.map some
  | .history => (repl.history C).map some
  | .clear => .ok (some repl)
  | .unknown cmd => (repl.unknown C cmd).map some
  | .message text => (repl.message C P cfg reg text line).map some

end Handlers

/-! ## The start -/

/-- Where `run_cli` waits for a line: in `_ask_work_dir`, or at the prompt. -/
inductive Stage where
  | asking
  | prompt (repl : Repl)

/-- What is printed where a directory is made at the start. -/
def createdDirText (dir : String) : String := "[green]✓ 已创建工作目录: " ++ dir ++ "[/green]"

/-- The text of the panel of `_print_welcome`. -/
def welcomeText (work_dir : String) : String :=
  join "\n" (["[bold blue]YellowBull Agent[/bold blue]\n"] ++
    (if work_dir = "" then [] else ["[dim]工作目录: " ++ work_dir ++ "[/dim]\n"]) ++
    ["[dim]交互式命令行 · 输入 /help 查看命令[/dim]"])

section Run

variable (C : Console)

/-- The end of `_ask_work_dir`, which makes the session, and the welcome. -/
def Line.welcome (line : Line) (work_dir : String) : Except Exn (Option Stage) := do
  C.print (welcomeText work_dir)
  return some (.prompt
    { agent.world := newSession cliSessions cliUser line.session_id line.now work_dir
        (AgentState.start .empty).world
      agent.cache := .empty
      current_session_id := line.session_id
      work_dir })

/-- One pass of the loop of `_ask_work_dir`. -/
def Line.askWorkDir (line : Line) : Except Exn (Option Stage) :=
  match line.text with
  -- `SystemExit`.
  | none => .ok none
  | some text =>
    if strip text = "" then .ok (some .asking)
    else do
      let work_dir ← line.abspath (strip text)
      if line.isdir work_dir then line.welcome C work_dir
      else
        match line.makedirs work_dir with
        | .made => do
          C.print (createdDirText work_dir)
          line.welcome C work_dir
        | .osError text => do
          C.print (noDirText work_dir text)
          return some .asking
        | .raises e => .error e

variable (P : Platform) (cfg : AgentConfig) (reg : ToolRegistry)

/-- What `run_cli` does with a line. -/
def Stage.pass (stage : Stage) (line : Line) : Except Exn (Option Stage) :=
  match stage with
  | .asking => line.askWorkDir C
  | .prompt repl => (repl.pass C P cfg reg line).map (Option.map .prompt)

/-- Where `run_cli` waits for the next line, if it does. -/
def Stage.step (stage : Stage) (line : Line) : Option Stage :=
  match stage.pass C P cfg reg line with
  | .ok next => next
  -- The exception ends the program.
  | .error _ => none

end Run

end YellowBull
