import YellowBull.ContextBuilder
import YellowBull.AnthropicProvider.Responses
import YellowBull.Lib.Except

/-!
# What the encoding for Anthropic keeps

The loop of `AnthropicLLM.chat` opens a message of the user for the first answer to an ASSISTANT
message and puts the other answers into it. `encodeMessages_encoded` says what the loop gives for
messages in the order of the agent: `Encoded`, one message after the other, with all that they say.
An ASSISTANT message that was parsed from an answer encodes to the blocks of that answer
(`parse_encodes`).
-/

namespace YellowBull

open Py

/-! ## The conditions on the messages -/

/-- Each TOOL message directly follows an ASSISTANT message or another TOOL message. -/
def AnswersFollow : Option Role → List LLMMessage → Prop
  | _, [] => True
  | previous, msg :: msgs =>
    (msg.role = .tool → previous = some .assistant ∨ previous = some .tool) ∧
      AnswersFollow (some msg.role) msgs

/-- A tool call names a function, with its arguments as a text. -/
structure CallsFunction (tc : ToolCall) (name : Val) (text : String) : Prop where
  function : ∃ fc, Py.Dict.get tc "function" (.dict []) = .dict fc ∧
    Py.Dict.get fc "name" (.str "") = name ∧
    Py.Dict.get fc "arguments" (.str "\x7b\x7d") = .str text

/-- The tool calls of a message name functions, and decoding their arguments raises nothing but
`JSONDecodeError`. -/
def CallsDecode (P : Platform) (msg : LLMMessage) : Prop :=
  ∀ tc ∈ msg.tool_calls.getD [], ∃ name text, CallsFunction tc name text ∧
    ∀ e, P.loads text = .error e → e.cls = .jsonDecodeError

/-! ## The encoding -/

/-- The `tool_use` block of a tool call: the same id and name, and the object that the text of its
arguments encodes. -/
def EncodesCall (P : Platform) (tc : ToolCall) (block : Dict) : Prop :=
  ∃ name text input, CallsFunction tc name text ∧
    block = [("type", .str "tool_use"), ("id", tc.id), ("name", name), ("input", input)] ∧
    ∀ items, P.loads text = .ok (.dict items) → input = .dict items

/-- The block of a text, none for an empty one. -/
def textBlocks (text : String) : List Dict :=
  if text = "" then [] else [[("type", .str "text"), ("text", .str text)]]

/-- The message of the user that answers an ASSISTANT message, if there are answers. -/
def toolResults : List LLMMessage → List AnthropicMessage
  | [] => []
  | tools => [⟨"user", .blocks (tools.map toolResult)⟩]

/-- The messages of the API for messages that are no SYSTEM messages. The TOOL messages behind an
ASSISTANT message are a maximal run. -/
inductive Encoded (P : Platform) : List LLMMessage → List AnthropicMessage → Prop
  | nil : Encoded P [] []
  | user {msg : LLMMessage} {msgs : List LLMMessage} {out : List AnthropicMessage}
      (hrole : msg.role = .user) (h : Encoded P msgs out) :
      Encoded P (msg :: msgs) (⟨"user", .text (msg.content.getD "")⟩ :: out)
  | assistant {msg : LLMMessage} {tools msgs : List LLMMessage} {uses : List Dict}
      {out : List AnthropicMessage} (hrole : msg.role = .assistant)
      (htools : ∀ tool ∈ tools, tool.role = .tool)
      (hmaximal : ∀ next ∈ msgs.head?, next.role ≠ .tool)
      (huses : List.Forall₂ (EncodesCall P) (msg.tool_calls.getD []) uses)
      (h : Encoded P msgs out) :
      Encoded P (msg :: (tools ++ msgs))
        (⟨"assistant", .blocks (textBlocks (msg.content.getD "") ++ uses)⟩ ::
          (toolResults tools ++ out))

/-! ## Tool calls -/

section Calls

variable {P : Platform}

/-- Arguments that decode to an object are that object. -/
theorem parseArgs_of_object {text : String} {items : Dict}
    (h : P.loads text = .ok (.dict items)) : parseArgs P (.str text) = .ok (.dict items) := by
  cases items with
  | nil => simp [parseArgs, jsonLoads, h, Val.truthy]
  | cons item items => simp [parseArgs, jsonLoads, h, Val.truthy]

/-- Decoding does not raise where `json.loads` raises nothing but `JSONDecodeError`. -/
theorem exists_parseArgs {text : String}
    (h : ∀ e, P.loads text = .error e → e.cls = .jsonDecodeError) :
    ∃ input, parseArgs P (.str text) = .ok input := by
  cases hloads : P.loads text with
  | ok v => exact ⟨_, by simp [parseArgs, jsonLoads, hloads]; rfl⟩
  | error e => exact ⟨.dict [], by simp [parseArgs, jsonLoads, hloads, h e hloads]⟩

/-- A tool call that names a function has a block. -/
theorem exists_toolUse {tc : ToolCall} {name : Val} {text : String}
    (hcall : CallsFunction tc name text)
    (h : ∀ e, P.loads text = .error e → e.cls = .jsonDecodeError) :
    ∃ block, toolUse P tc = .ok block ∧ EncodesCall P tc block := by
  obtain ⟨input, hinput⟩ := exists_parseArgs h
  obtain ⟨fc, hfc, hname, harguments⟩ := hcall.function
  refine ⟨_, ?_, name, text, input, hcall, rfl, fun items hitems => ?_⟩
  · unfold toolUse
    rw [hfc, ← hname]
    change (parseArgs P (Py.Dict.get fc "arguments" (.str "\x7b\x7d"))).bind _ = _
    rw [harguments, hinput]
    rfl
  · exact Except.ok.inj (hinput.symm.trans (parseArgs_of_object hitems))

/-- The blocks of an ASSISTANT message. -/
theorem exists_assistantBlocks {msg : LLMMessage} (h : CallsDecode P msg) :
    ∃ uses, assistantBlocks P msg = .ok (textBlocks (msg.content.getD "") ++ uses) ∧
      List.Forall₂ (EncodesCall P) (msg.tool_calls.getD []) uses := by
  obtain ⟨uses, huses, hencodes⟩ :=
    Except.exists_mapM_of_forall (f := toolUse P) (R := EncodesCall P) fun tc htc => by
      obtain ⟨name, text, hcall, hloads⟩ := h tc htc
      exact exists_toolUse hcall hloads
  refine ⟨uses, ?_, hencodes⟩
  unfold assistantBlocks
  rw [huses]
  rfl

end Calls

/-! ## The loop -/

section Loop

variable {P : Platform}

/-- Further answers go to the message of the user that holds the first one. -/
theorem encodeMessages_extend {tools : List LLMMessage} (htools : ∀ tool ∈ tools, tool.role = .tool)
    (prompt : Option String) (pre : List AnthropicMessage) (blocks : List Dict)
    (rest : List LLMMessage) :
    encodeMessages P (prompt, pre ++ [⟨"user", .blocks blocks⟩]) (tools ++ rest) =
      encodeMessages P (prompt, pre ++ [⟨"user", .blocks (blocks ++ tools.map toolResult)⟩])
        rest := by
  -- Each further answer is appended to the blocks of the USER message that stands last.
  induction tools generalizing blocks with
  | nil => simp
  | cons tool tools ih =>
    have htool : encodeMessage P (prompt, pre ++ [⟨"user", .blocks blocks⟩]) tool =
        .ok (prompt, pre ++ [⟨"user", .blocks (blocks ++ [toolResult tool])⟩]) := by
      unfold encodeMessage
      rw [htools tool List.mem_cons_self]
      simp [appendToolResult]
    rw [List.cons_append, encodeMessages, htool]
    change encodeMessages P _ (tools ++ rest) = _
    rw [ih (fun tool htool => htools tool (List.mem_cons_of_mem _ htool)), List.map_cons,
      List.append_assoc, List.singleton_append]

/-- The answers to an ASSISTANT message make one message of the user. -/
theorem encodeMessages_tools {tools : List LLMMessage} (htools : ∀ tool ∈ tools, tool.role = .tool)
    (prompt : Option String) (pre : List AnthropicMessage) (blocks : List Dict)
    (rest : List LLMMessage) :
    encodeMessages P (prompt, pre ++ [⟨"assistant", .blocks blocks⟩]) (tools ++ rest) =
      encodeMessages P (prompt, pre ++ [⟨"assistant", .blocks blocks⟩] ++ toolResults tools)
        rest := by
  cases tools with
  | nil => simp [toolResults]
  -- The first answer makes the USER message, since an ASSISTANT message stands last.
  | cons tool tools =>
    have htool : encodeMessage P (prompt, pre ++ [⟨"assistant", .blocks blocks⟩]) tool =
        .ok (prompt, pre ++ [⟨"assistant", .blocks blocks⟩] ++
          [⟨"user", .blocks [toolResult tool]⟩]) := by
      unfold encodeMessage
      rw [htools tool List.mem_cons_self]
      simp [appendToolResult]
    rw [List.cons_append, encodeMessages, htool]
    change encodeMessages P _ (tools ++ rest) = _
    rw [encodeMessages_extend fun tool htool => htools tool (List.mem_cons_of_mem _ htool)]
    rfl

/-- The messages behind others have answers in the right places, too. -/
theorem AnswersFollow.of_append {previous : Option Role} {front msgs : List LLMMessage}
    (h : AnswersFollow previous (front ++ msgs)) : ∃ previous', AnswersFollow previous' msgs := by
  induction front generalizing previous with
  | nil => exact ⟨previous, h⟩
  | cons msg front ih => exact ih h.2

/-- Behind a message that no answer may follow, the next one is no TOOL message. -/
theorem AnswersFollow.head {previous : Option Role} {msgs : List LLMMessage}
    (h : AnswersFollow previous msgs) (hprevious : previous ≠ some .assistant)
    (htool : previous ≠ some .tool) : ∀ next ∈ msgs.head?, next.role ≠ .tool := by
  cases msgs with
  | nil => simp
  | cons msg msgs =>
    intro next hnext hrole
    obtain rfl := Option.some.inj hnext
    rcases h.1 hrole with h | h
    · exact hprevious h
    · exact htool h

/-- The run of TOOL messages at the front. -/
theorem exists_answers (msgs : List LLMMessage) :
    ∃ tools rest, msgs = tools ++ rest ∧ (∀ tool ∈ tools, tool.role = .tool) ∧
      ∀ next ∈ rest.head?, next.role ≠ .tool := by
  induction msgs with
  | nil => exact ⟨[], [], rfl, by simp, by simp⟩
  | cons msg msgs ih =>
    by_cases hrole : msg.role = .tool
    · obtain ⟨tools, rest, rfl, htools, hmaximal⟩ := ih
      exact ⟨msg :: tools, rest, rfl, List.forall_mem_cons.mpr ⟨hrole, htools⟩, hmaximal⟩
    · refine ⟨[], msg :: msgs, rfl, by simp, fun next hnext => ?_⟩
      obtain rfl := Option.some.inj hnext
      exact hrole

/-- The loop on messages that are no SYSTEM messages and begin with no TOOL message. -/
theorem encodeMessages_encoded {msgs : List LLMMessage} (hsystem : ∀ msg ∈ msgs, msg.role ≠ .system)
    (hhead : ∀ next ∈ msgs.head?, next.role ≠ .tool)
    {previous : Option Role} (hfollow : AnswersFollow previous msgs)
    (hcalls : ∀ msg ∈ msgs, msg.role = .assistant → CallsDecode P msg) (prompt : Option String)
    (pre : List AnthropicMessage) :
    ∃ out, encodeMessages P (prompt, pre) msgs = .ok (prompt, pre ++ out) ∧
      Encoded P msgs out := by
  -- An ASSISTANT message is taken together with its answers, by induction on the length.
  induction hlen : msgs.length using Nat.strong_induction_on generalizing msgs previous pre with
  | _ n ih =>
  subst hlen
  cases msgs with
  | nil => exact ⟨[], by simp [encodeMessages], .nil⟩
  | cons msg msgs =>
    cases hrole : msg.role with
    | system => exact absurd hrole (hsystem msg List.mem_cons_self)
    | tool => exact absurd hrole (hhead msg rfl)
    | user =>
      have hnext := hfollow.2.head (by rw [hrole]; decide) (by rw [hrole]; decide)
      obtain ⟨out, hout, hencoded⟩ := ih msgs.length (by simp)
        (fun m hm => hsystem m (List.mem_cons_of_mem _ hm)) hnext hfollow.2
        (fun m hm => hcalls m (List.mem_cons_of_mem _ hm))
        (pre ++ [⟨"user", .text (msg.content.getD "")⟩]) rfl
      refine ⟨_, ?_, .user hrole hencoded⟩
      have hmsg : encodeMessage P (prompt, pre) msg =
          .ok (prompt, pre ++ [⟨"user", .text (msg.content.getD "")⟩]) := by
        unfold encodeMessage
        rw [hrole]
      rw [encodeMessages, hmsg]
      change encodeMessages P _ msgs = _
      rw [hout, List.append_assoc, List.singleton_append]
    | assistant =>
      obtain ⟨uses, hblocks, huses⟩ :=
        exists_assistantBlocks (hcalls msg List.mem_cons_self hrole)
      -- The answers are the TOOL messages up to the next other one.
      obtain ⟨tools, rest, rfl, htools, hmaximal⟩ := exists_answers msgs
      obtain ⟨previous', hrest⟩ := hfollow.2.of_append
      have hlength : rest.length < (msg :: (tools ++ rest)).length := by
        rw [List.length_cons, List.length_append]
        omega
      have hsub : ∀ m ∈ rest, m ∈ msg :: (tools ++ rest) := fun m hm =>
        List.mem_cons_of_mem _ (List.mem_append_right _ hm)
      obtain ⟨out, hout, hencoded⟩ := ih rest.length hlength
        (fun m hm => hsystem m (hsub m hm)) hmaximal hrest (fun m hm => hcalls m (hsub m hm))
        (pre ++ [⟨"assistant", .blocks (textBlocks (msg.content.getD "") ++ uses)⟩] ++
          toolResults tools) rfl
      refine ⟨_, ?_, .assistant hrole htools hmaximal huses hencoded⟩
      have hmsg : encodeMessage P (prompt, pre) msg = .ok (prompt, pre ++
          [⟨"assistant", .blocks (textBlocks (msg.content.getD "") ++ uses)⟩]) := by
        unfold encodeMessage
        rw [hrole]
        simp only [hblocks]
        rfl
      rw [encodeMessages, hmsg]
      change encodeMessages P _ (tools ++ rest) = _
      rw [encodeMessages_tools htools, hout, List.append_assoc, List.append_assoc,
        List.singleton_append]

/-- SYSTEM messages add no message. -/
theorem encodeMessages_systems {systems : List LLMMessage}
    (h : ∀ msg ∈ systems, msg.role = .system) (prompt : Option String)
    (pre : List AnthropicMessage) (rest : List LLMMessage) :
    ∃ prompt', encodeMessages P (prompt, pre) (systems ++ rest) =
      encodeMessages P (prompt', pre) rest := by
  induction systems generalizing prompt with
  | nil => exact ⟨prompt, rfl⟩
  | cons msg systems ih =>
    have hmsg : encodeMessage P (prompt, pre) msg = .ok (msg.content, pre) := by
      unfold encodeMessage
      rw [h msg List.mem_cons_self]
    rw [List.cons_append, encodeMessages, hmsg]
    exact ih (fun m hm => h m (List.mem_cons_of_mem _ hm)) msg.content

/-- No answer follows SYSTEM messages. -/
theorem AnswersFollow.head_of_systems {systems rest : List LLMMessage}
    (hsystems : ∀ msg ∈ systems, msg.role = .system) {previous : Option Role}
    (hprevious : previous = none ∨ previous = some .system)
    (h : AnswersFollow previous (systems ++ rest)) :
    ∀ next ∈ rest.head?, next.role ≠ .tool := by
  induction systems generalizing previous with
  | nil => rcases hprevious with rfl | rfl <;> exact h.head (by decide) (by decide)
  | cons msg systems ih =>
    exact ih (fun m hm => hsystems m (List.mem_cons_of_mem _ hm))
      (.inr (congrArg some (hsystems msg List.mem_cons_self))) h.2

end Loop

/-! ## Answers of the API -/

section Answers

variable {P : Platform}

/-- The `tool_use` block of an answer, as a request repeats it. -/
def AnthropicBlock.use? : AnthropicBlock → Option Dict
  | .toolUse id name input =>
    some [("type", .str "tool_use"), ("id", .str id), ("name", .str name), ("input", input)]
  | _ => none

/-- The inputs of the tool calls in an answer are objects that `json.loads` reads back. -/
def ObjectInputs (P : Platform) (response : AnthropicResponse) : Prop :=
  ∀ id name input, AnthropicBlock.toolUse id name input ∈ response.content →
    ∃ items, input = .dict items ∧ P.loads (input.dumps false) = .ok input

/-- The tool call of a block encodes to the block. -/
theorem toolUse_ofParts {id name : String} {items : Dict}
    (h : P.loads ((Val.dict items).dumps false) = .ok (.dict items)) :
    toolUse P (ToolCall.ofParts id "function" name ((Val.dict items).dumps false)) =
      .ok [("type", .str "tool_use"), ("id", .str id), ("name", .str name),
        ("input", .dict items)] := by
  unfold toolUse
  change (parseArgs P (.str ((Val.dict items).dumps false))).bind _ = _
  rw [parseArgs_of_object h]
  rfl

/-- The input of a block that is an object stays as it is. -/
theorem inputObject_dict (items : Dict) : inputObject (.dict items) = .dict items := by
  cases items <;> rfl

/-- The tool calls of an answer encode to its blocks. -/
theorem mapM_toolUse_parse {blocks : List AnthropicBlock}
    (h : ∀ id name input, AnthropicBlock.toolUse id name input ∈ blocks →
      ∃ items, input = .dict items ∧ P.loads (input.dumps false) = .ok input) :
    (blocks.filterMap AnthropicBlock.call?).mapM (toolUse P) =
      .ok (blocks.filterMap AnthropicBlock.use?) := by
  rw [Except.mapM_eq_ok]
  induction blocks with
  | nil => exact .nil
  | cons block blocks ih =>
    have hrest := ih fun id name input hmem => h id name input (List.mem_cons_of_mem _ hmem)
    -- Only a `tool_use` block gives a call; the loop that sends it back decodes its own text again.
    cases block with
    | text part => exact hrest
    | other => exact hrest
    | toolUse id name input =>
      obtain ⟨items, rfl, hloads⟩ := h id name input List.mem_cons_self
      refine .cons ?_ hrest
      rw [inputObject_dict]
      exact toolUse_ofParts hloads

/-- An ASSISTANT message that was parsed from an answer encodes to the text of the answer and its
`tool_use` blocks. -/
theorem parse_encodes {response : AnthropicResponse} (h : ObjectInputs P response)
    {msg : LLMMessage} (hcontent : msg.content = response.parse.content)
    (hcalls : msg.tool_calls.getD [] = response.parse.tool_calls) :
    assistantBlocks P msg = .ok
      (textBlocks (join "" (response.content.map AnthropicBlock.textPart)) ++
        response.content.filterMap AnthropicBlock.use?) := by
  -- The calls of the message are the response's, each of which decodes to the block's input.
  have huses : (msg.tool_calls.getD []).mapM (toolUse P) =
      .ok (response.content.filterMap AnthropicBlock.use?) := by
    rw [hcalls]
    exact mapM_toolUse_parse h
  have htext : msg.content.getD "" = join "" (response.content.map AnthropicBlock.textPart) := by
    rw [hcontent]
    -- An empty text is stored as `None`, and both give no text block.
    unfold AnthropicResponse.parse
    simp only
    split_ifs with hempty
    · exact hempty.symm
    · rfl
  unfold assistantBlocks
  rw [huses, htext]
  rfl

end Answers

/-- A tool call without arguments. -/
def listCall (id : String) : ToolCall := ToolCall.ofParts id "function" "list" "\x7b\x7d"

/-- A request, two tool calls and their answers. -/
def twoAnswers : List LLMMessage :=
  [{ role := .user, content := some "hi" },
    { role := .assistant, tool_calls := some [listCall "c1", listCall "c2"] },
    { role := .tool, content := some "one", tool_call_id := .str "c1" },
    { role := .tool, content := some "two", tool_call_id := .str "c2" }]

end YellowBull
