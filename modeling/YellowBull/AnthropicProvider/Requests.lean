import YellowBull.AnthropicProvider
import YellowBull.ContextBuilder.Turns
import YellowBull.Registry
import YellowBull.Lib.Except

/-!
# What reaches Anthropic

Two results about the requests of `AnthropicLLM.chat`. The definitions that the registry makes are
wrapped in a `function` entry, and `_format_tools` reads a flat one, so that it fails on every
registry with a tool (`formatTools_registry_iff`). The loop over the messages keeps the last SYSTEM
message only (`encodeMessages_system`), so that the system prompt is lost when the context holds a
summary behind it (`system_prompt_sent_iff`).
-/

namespace YellowBull

open Py

/-! ## Tool definitions -/

/-- The entry of a tool in the format of the API. -/
def anthropicEntry (t : Tool) : Dict :=
  [("name", .str t.info.name), ("description", .str t.info.description),
    ("input_schema", .dict t.info.parameters)]

/-- `_format_tools` raises on a definition of the registry, which has no `name` of its own. -/
theorem formatTool_functionDefinition (t : Tool) :
    formatTool (ToolRegistry.functionDefinition t) = .error (Exn.keyError "name") := rfl

/-- In whatever state the registry is, `_format_tools` turns its definitions into the entries of the
registered tools exactly when there is none. -/
theorem formatTools_registry_iff (ops : List ToolRegistry.Op) :
    formatTools (ToolRegistry.after ops).toFunctionDefinitions =
        .ok ((ToolRegistry.after ops).listAll.map anthropicEntry) ↔
      (ToolRegistry.after ops).listAll = [] := by
  unfold formatTools ToolRegistry.toFunctionDefinitions
  cases (ToolRegistry.after ops).listAll with
  | nil => exact iff_of_true rfl rfl
  | cons t ts =>
    -- The definition of the first tool raises already.
    refine iff_of_false (fun h => ?_) (by simp)
    obtain ⟨entry, hentry⟩ := Except.exists_mapM_eq_ok.mp ⟨_, h⟩
      (ToolRegistry.functionDefinition t) (List.mem_map_of_mem List.mem_cons_self)
    rw [formatTool_functionDefinition] at hentry
    cases hentry

/-- A registry with one tool. -/
theorem formatTools_one_tool :
    formatTools (ToolRegistry.after
      [.register { info := ⟨"read", "Reads a file", []⟩ }]).toFunctionDefinitions =
        .error (Exn.keyError "name") := by
  decide

/-! ## System prompts -/

/-- The texts occur in `text`, in order, each behind the one before it. -/
def ContainsInOrder : List (List Char) → List Char → Prop
  | [], _ => True
  | part :: parts, text => ∃ pre post, text = pre ++ part ++ post ∧ ContainsInOrder parts post

/-- The contents of the SYSTEM messages of a list. -/
def systemContents (msgs : List LLMMessage) : List (List Char) :=
  (msgs.filter (·.role = .system)).map fun msg => (msg.content.getD "").toList

/-- One message more: a SYSTEM message replaces `system_prompt`, every other leaves it. -/
theorem encodeMessage_system {P : Platform} {acc acc' : Option String × List AnthropicMessage}
    {msg : LLMMessage} (h : encodeMessage P acc msg = .ok acc') :
    acc'.1 = if msg.role = .system then msg.content else acc.1 := by
  unfold encodeMessage at h
  -- Only a SYSTEM message sets the prompt, and it replaces the one before it.
  cases hrole : msg.role with
  | system =>
    rw [hrole] at h
    obtain rfl := Except.ok.inj h
    simp
  | user =>
    rw [hrole] at h
    obtain rfl := Except.ok.inj h
    simp
  | assistant =>
    rw [hrole] at h
    obtain ⟨blocks, -, h⟩ := Except.bind_eq_ok.mp h
    obtain rfl := Except.ok.inj h
    simp
  | tool =>
    rw [hrole] at h
    obtain ⟨messages, -, h⟩ := Except.bind_eq_ok.mp h
    obtain rfl := Except.ok.inj h
    simp

/-- The loop over the messages leaves the content of the last SYSTEM message. -/
theorem encodeMessages_system {P : Platform} {acc acc' : Option String × List AnthropicMessage}
    {msgs : List LLMMessage} (h : encodeMessages P acc msgs = .ok acc') :
    acc'.1 = msgs.foldl (fun prompt msg => if msg.role = .system then msg.content else prompt)
      acc.1 := by
  induction msgs generalizing acc with
  | nil =>
    obtain rfl := Except.ok.inj h
    rfl
  | cons msg msgs ih =>
    obtain ⟨acc₁, h₁, h⟩ := Except.bind_eq_ok.mp h
    rw [List.foldl_cons, ← encodeMessage_system h₁]
    exact ih h

/-- The request of a chat that does not raise has the last SYSTEM message as its system prompt. -/
theorem AnthropicLLM.chat_system {P : Platform} {llm : AnthropicLLM} {msgs : List LLMMessage}
    {tools : List Dict} {stream : Bool} {req : AnthropicRequest}
    (h : llm.chat P msgs tools stream = .ok req) :
    req.system.getD "" = (msgs.foldl (fun prompt msg =>
      if msg.role = .system then msg.content else prompt) none).getD "" := by
  obtain ⟨encoded, hencode, h⟩ := Except.bind_eq_ok.mp h
  obtain ⟨formatted, -, h⟩ := Except.bind_eq_ok.mp h
  obtain rfl := Except.ok.inj h
  rw [← encodeMessages_system hencode]
  simp only
  split_ifs with hempty
  · rw [hempty]
    rfl
  · rfl

/-- Messages that are no SYSTEM messages leave the prompt. -/
theorem foldl_prompt_of_no_system {msgs : List LLMMessage} (h : ∀ msg ∈ msgs, msg.role ≠ .system)
    (prompt : Option String) :
    msgs.foldl (fun prompt msg => if msg.role = .system then msg.content else prompt) prompt =
      prompt := by
  induction msgs with
  | nil => rfl
  | cons msg msgs ih =>
    rw [List.foldl_cons, if_neg (h msg (by simp))]
    exact ih fun msg' hmsg' => h msg' (by simp [hmsg'])

/-- SYSTEM messages in front of messages that are none. -/
theorem systemContents_append (prompts : List String) {msgs : List LLMMessage}
    (h : ∀ msg ∈ msgs, msg.role ≠ .system) :
    systemContents (prompts.map systemMessage ++ msgs) = prompts.map String.toList := by
  have hnone : msgs.filter (·.role = .system) = [] := by
    simpa [List.filter_eq_nil_iff] using h
  have hall : (prompts.map systemMessage).filter (·.role = .system) =
      prompts.map systemMessage := by
    simp [List.filter_eq_self, systemMessage]
  unfold systemContents
  rw [List.filter_append, hnone, hall, List.append_nil, List.map_map]
  rfl

/-- A text contains another one and then itself only if the other one is empty. -/
theorem containsInOrder_self {part text : List Char} :
    ContainsInOrder [part, text] text ↔ part = [] := by
  constructor
  · rintro ⟨pre, post, htext, pre', post', hpost, -⟩
    -- Both texts would have to fit into the second one.
    have hlen := congrArg List.length htext
    rw [hpost] at hlen
    simp only [List.length_append] at hlen
    exact List.eq_nil_of_length_eq_zero (by omega)
  · rintro rfl
    exact ⟨[], text, rfl, [], [], by simp, trivial⟩

/-- The kept turns have no SYSTEM messages. -/
theorem role_ne_system_of_mem_keptMessages {s : Session} {window_size min_keep : ℤ}
    {msg : LLMMessage} (h : msg ∈ keptMessages (windowMessages s window_size) min_keep) :
    msg.role ≠ .system := by
  obtain ⟨turn, hturn, hmsg⟩ := List.mem_flatten.mp h
  have hflat := (groupTurns_spec (windowMessages s window_size) [] [] (by simp)).1
  have hmem : msg ∈ windowMessages s window_size := by
    rw [List.flatten_nil, List.nil_append, List.nil_append] at hflat
    rw [← hflat]
    exact List.mem_flatten.mpr ⟨turn, (sliceFrom_suffix _ _).subset hturn, hmsg⟩
  exact role_ne_system_of_mem_windowMessages hmem

/-- When a context that `build` made is sent to Anthropic, the system prompt of the request contains
all its SYSTEM messages, in order, exactly when `build` inserted no summary or there is no prompt of
the agent to lose. -/
theorem system_prompt_sent_iff {P : Platform} {b : ContextBuilder} {s : Session} {window_size : ℤ}
    {compression : CompressionConfig} {work_dir : Option String} {msgs : List LLMMessage}
    (hbuild : ContextBuilder.build P b s window_size compression work_dir = .ok msgs)
    {llm : AnthropicLLM} {tools : List Dict} {stream : Bool} {req : AnthropicRequest}
    (hreq : llm.chat P msgs tools stream = .ok req) :
    ContainsInOrder (systemContents msgs) (req.system.getD "").toList ↔
      (¬ InsertsSummary P b s window_size compression ∨ b.effectivePrompt work_dir = "") := by
  have hsystem := AnthropicLLM.chat_system hreq
  -- With one SYSTEM message, the request has its content.
  have hone {rest : List LLMMessage} (hrest : ∀ msg ∈ rest, msg.role ≠ .system)
      (hmsgs : msgs = systemMessage (b.effectivePrompt work_dir) :: rest) :
      ContainsInOrder (systemContents msgs) (req.system.getD "").toList := by
    have hcontents := systemContents_append [b.effectivePrompt work_dir] hrest
    rw [hmsgs, List.foldl_cons, foldl_prompt_of_no_system hrest] at hsystem
    rw [hsystem, hmsgs]
    change ContainsInOrder (systemContents ([b.effectivePrompt work_dir].map _ ++ rest)) _
    rw [hcontents]
    exact ⟨[], [], by simp [systemMessage], trivial⟩
  rcases build_eq_ok hbuild with ⟨hcut⟩ | ⟨hcut, hsummary⟩ | ⟨hsummary, budget⟩
  · exact iff_of_true (hone (fun _ => role_ne_system_of_mem_windowMessages) rfl)
      (.inl fun hsummary => hcut hsummary.1)
  · exact iff_of_true (hone (fun _ => role_ne_system_of_mem_keptMessages) rfl) (.inl hsummary)
  · -- With a summary behind it, the request has the summary only.
    have hrest : ∀ msg ∈ keptMessages (windowMessages s window_size)
        compression.min_turns_to_keep, msg.role ≠ .system :=
      fun _ => role_ne_system_of_mem_keptMessages
    generalize summarizeTurns P (sliceTo (groupTurns (windowMessages s window_size) [] [])
      (-compression.min_turns_to_keep)) budget = summary at hsystem ⊢
    have hcontents := systemContents_append [b.effectivePrompt work_dir, summary] hrest
    rw [List.foldl_cons, List.foldl_cons, foldl_prompt_of_no_system hrest] at hsystem
    rw [hsystem, or_iff_right (not_not_intro hsummary), ← String.toList_eq_nil_iff,
      ← containsInOrder_self]
    exact iff_of_eq (congrArg (ContainsInOrder · summary.toList) hcontents)

/-- A session with a chat of eight rounds and the next request. -/
def longTurn : Session where
  session_id := "s"
  messages := { role := .user, content := some "hi" } ::
    (List.replicate 8 [
      { role := .assistant, tool_calls := some [[("id", .str "c1"), ("function", .dict
        [("name", .str "read"), ("arguments", .str "\x7b\x7d")])]] },
      { role := .tool, content := some "ok", tool_call_id := .str "c1" }]).flatten ++
    [{ role := .assistant, content := some "done" }, { role := .user, content := some "hi" }]

/-- The summary of its first turn. -/
def longTurnSummary : String := "[Earlier conversation (1 turns):\nUser: hi\nAssistant: done\n]"

/-- The request that carries its last turn behind a system prompt. -/
def longTurnRequest (system : String) : AnthropicRequest where
  model := "claude"
  messages := [⟨"user", .text "hi"⟩]
  max_tokens := 4096
  temperature := .float "0.7"
  system := some system
  tools := none
  stream := false

/-- A window that holds only the last message of the session. -/
theorem system_prompt_sent_iff_one_message :
    ContainsInOrder
        (systemContents [systemMessage "p", { role := .user, content := some "hi" }])
        ((longTurnRequest "p").system.getD "").toList ↔
      (¬ InsertsSummary .bare ⟨"p"⟩ longTurn 1 {} ∨
        ContextBuilder.effectivePrompt ⟨"p"⟩ none = "") :=
  have hbuild : ContextBuilder.build .bare ⟨"p"⟩ longTurn 1 {} none =
    .ok [systemMessage "p", { role := .user, content := some "hi" }] := by decide
  have hreq : AnthropicLLM.chat .bare ⟨"claude", .float "0.7", 4096⟩
    [systemMessage "p", { role := .user, content := some "hi" }] [] false =
      .ok (longTurnRequest "p") := by decide
  system_prompt_sent_iff hbuild hreq

/-- When the first turn is summarized, the summary takes the place of the system prompt. -/
theorem system_prompt_lost :
    ContextBuilder.build .bare ⟨"p"⟩ longTurn 48 { min_turns_to_keep := 1 } none =
        .ok [systemMessage "p", systemMessage longTurnSummary,
          { role := .user, content := some "hi" }] ∧
      AnthropicLLM.chat .bare ⟨"claude", .float "0.7", 4096⟩
        [systemMessage "p", systemMessage longTurnSummary,
          { role := .user, content := some "hi" }] [] false =
            .ok (longTurnRequest longTurnSummary) ∧
      ¬ ContainsInOrder
        (systemContents [systemMessage "p", systemMessage longTurnSummary,
          { role := .user, content := some "hi" }])
        ((longTurnRequest longTurnSummary).system.getD "").toList := by
  refine ⟨by decide +kernel, by decide +kernel, ?_⟩
  -- A text in front of the summary would have to be empty.
  exact fun h => absurd (containsInOrder_self.mp h) (by decide)

end YellowBull
