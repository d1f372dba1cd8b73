import YellowBull.Models

/-!
# The context builder

`core/context_builder.py`: token counting, the grouping of messages into turns, the summary of older
turns, and `ContextBuilder.build`. `tiktoken` is asked first for every text, and the heuristic of
`_count_tokens` is the fallback where it raises. The functions raise where the source does: on tool
calls whose `function` or `name` is not of the expected type.
-/

namespace YellowBull

open Py

/-! ## Tokens -/

/-- `any("\u4e00" <= c <= "\u9fff" for c in text)`. -/
def hasCjk (text : String) : Bool :=
  text.toList.any fun c => 0x4e00 ≤ c.toNat && c.toNat ≤ 0x9fff

/-- The fallback of `_count_tokens`. -/
def heuristicTokens (text : String) : ℕ :=
  max 1 (text.length / if hasCjk text then 2 else 4)

/-- `_count_tokens`. -/
def countTokens (P : Platform) (text : String) : ℕ := (P.tiktoken text).getD (heuristicTokens text)

/-- What `_message_tokens` adds for one tool call. -/
def toolCallTokens (tc : ToolCall) : Except Exn ℕ := do
  let function := Py.Dict.get tc "function" (.dict [])
  let name ← function.get "name" (.str "")
  let name_len ← name.len
  let arguments ← function.get "arguments" (.dict [])
  return max 1 (name_len / 4 + (arguments.dumps false).length / 4)

/-- `sum(f(x) for x in xs)` for an `f` that may raise. -/
def sumTokens {α : Type} (f : α → Except Exn ℕ) : List α → Except Exn ℕ
  | [] => .ok 0
  | x :: xs => do
    let n ← f x
    let rest ← sumTokens f xs
    return n + rest

/-- `_message_tokens`. -/
def messageTokens (P : Platform) (msg : LLMMessage) : Except Exn ℕ := do
  let calls ← sumTokens toolCallTokens (msg.tool_calls.getD [])
  return 4 + max 1 (countTokens P (msg.content.getD "") + calls)

/-! ## Turns and their summary -/

/-- `CompressionConfig`. -/
structure CompressionConfig where
  enabled : Bool := true
  max_summary_tokens : ℤ := 300
  min_turns_to_keep : ℤ := 6

/-- The loop that groups messages into turns, with the turns closed so far and the current one: a
USER message closes a turn that is not empty. -/
def groupTurns : List LLMMessage → List (List LLMMessage) → List LLMMessage →
    List (List LLMMessage)
  | [], turns, current => if current = [] then turns else turns ++ [current]
  | msg :: msgs, turns, current =>
    if msg.role = .user ∧ current ≠ [] then groupTurns msgs (turns ++ [current]) [msg]
    else groupTurns msgs turns (current ++ [msg])

/-- `c.isspace()`, the characters at which `str.split` splits. -/
def isSpace (c : Char) : Bool :=
  let n := c.toNat
  (9 ≤ n && n ≤ 13) || (28 ≤ n && n ≤ 32) || n == 133 || n == 160 || n == 5760 ||
    (8192 ≤ n && n ≤ 8202) || n == 8232 || n == 8233 || n == 8239 || n == 8287 || n == 12288

/-- `str.split()`, with the word read so far. -/
def splitWords : List Char → List Char → List String
  | [], word => if word = [] then [] else [String.ofList word]
  | c :: cs, word =>
    if isSpace c then
      if word = [] then splitWords cs [] else String.ofList word :: splitWords cs []
    else splitWords cs (word ++ [c])

/-- The content of the last message of a role in a turn, empty if there is none. -/
def lastContent (role : Role) (turn : List LLMMessage) : String :=
  turn.foldl (fun text msg => if msg.role = role then msg.content.getD "" else text) ""

/-- The lines that `_summarize_turns` writes for one turn. -/
def turnSummary (P : Platform) (turn : List LLMMessage) : String :=
  let user_text := lastContent .user turn
  let user_text :=
    if 100 < countTokens P user_text then
      join " " ((splitWords user_text.toList []).take 50) ++ " ..."
    else user_text
  "User: " ++ user_text ++ "\nAssistant: " ++ lastContent .assistant turn

/-- The loop that cuts a summary by 20 characters at a time. The fuel is the length of the text,
which each round shortens. -/
def truncateSummary (P : Platform) (budget : ℤ) : ℕ → String → String
  | 0, summary => summary
  | fuel + 1, summary =>
    if budget < countTokens P summary ∧ 50 < summary.length then
      truncateSummary P budget fuel (String.ofList (sliceTo summary.toList (-20)))
    else summary

/-- `_summarize_turns`. -/
def summarizeTurns (P : Platform) (turns : List (List LLMMessage)) (budget : ℤ) : String :=
  let summary := "[Earlier conversation (" ++ toString turns.length ++ " turns):\n" ++
    join "\n---\n" (turns.map (turnSummary P)) ++ "\n]"
  truncateSummary P budget summary.length summary

/-! ## The builder -/

/-- `ContextBuilder`. -/
structure ContextBuilder where
  system_prompt : String

/-- The system prompt with the working directory injected. -/
def ContextBuilder.effectivePrompt (b : ContextBuilder) (work_dir : Option String) : String :=
  let dir := work_dir.getD ""
  if dir = "" then b.system_prompt
  else b.system_prompt ++
    ("\n\n## Working Directory\n" ++
      "- Your working directory is: `" ++ dir ++ "`\n" ++
      "- All file and folder operations MUST be performed within this directory.\n" ++
      "- When creating files or folders, use absolute paths under `" ++ dir ++ "`.\n" ++
      "- Example: to create a file named `test.py`, the path should be `" ++ dir ++
      "\\test.py` (Windows) or `" ++ dir ++ "/test.py` (Linux/Mac).\n")

/-- A session message in the format of the LLM. A SYSTEM message has no branch in the source. -/
def Message.toLLM (msg : Message) : Option LLMMessage :=
  match msg.role with
  | .user => some { role := .user, content := msg.content }
  | .assistant => some { role := .assistant, content := msg.content, tool_calls := msg.tool_calls }
  | .tool => some { role := .tool, content := msg.content, tool_call_id := msg.tool_call_id }
  | .system => none

/-- `llm_msgs`: the messages in the window, in the format of the LLM. -/
def windowMessages (s : Session) (window_size : ℤ) : List LLMMessage :=
  (s.getContextMessages window_size).filterMap Message.toLLM

/-- `available`: what the system prompt leaves of the token budget. -/
def ContextBuilder.available (P : Platform) (b : ContextBuilder) (window_size : ℤ) : ℤ :=
  max (window_size - (countTokens P b.system_prompt + 4)) 100

/-- A SYSTEM message for the LLM. -/
def systemMessage (content : String) : LLMMessage := { role := .system, content := some content }

/-- `ContextBuilder.build`. -/
def ContextBuilder.build (P : Platform) (b : ContextBuilder) (s : Session) (window_size : ℤ)
    (compression : CompressionConfig) (work_dir : Option String) :
    Except Exn (List LLMMessage) :=
  let head := systemMessage (b.effectivePrompt work_dir)
  let llm_msgs := windowMessages s window_size
  if compression.enabled = false then .ok (head :: llm_msgs)
  else
    -- The window counts messages, and the same number is the token budget here.
    match sumTokens (messageTokens P) llm_msgs with
    | .error e => .error e
    | .ok total =>
      if total ≤ b.available P window_size then .ok (head :: llm_msgs)
      else
        let turns := groupTurns llm_msgs [] []
        let min_keep := compression.min_turns_to_keep
        if turns.length ≤ min_keep then .ok (head :: llm_msgs)
        else
          -- For a `min_keep` of 0 the first slice is empty and the second one has all turns.
          let old_turns := sliceTo turns (-min_keep)
          let new_turns := sliceFrom turns (-min_keep)
          match sumTokens (messageTokens P) new_turns.flatten with
          | .error e => .error e
          | .ok new_tokens =>
            let summary_budget :=
              min compression.max_summary_tokens (b.available P window_size - new_tokens)
            if 50 < summary_budget then
              .ok (head :: systemMessage (summarizeTurns P old_turns summary_budget) ::
                new_turns.flatten)
            else .ok (head :: new_turns.flatten)

end YellowBull
