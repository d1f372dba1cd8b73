import YellowBull.Agent.Arguments
import YellowBull.AnthropicProvider.Responses

/-!
# Streams of the Anthropic provider

The fragments of a tool call's input carry no id, and `_stream_chat` adds them to the last entry of
`accumulated_tool_calls`. While the blocks of an answer are streamed one after another with
different ids (`Streamed`), the last entry is the one of the block under way
(`accumulate_jsonEvents`), so that the entries at the end are those of the `tool_use` blocks in
their order (`Streamed.entries`), whatever the pieces. Their arguments decode to the inputs of the
blocks, as those of `_parse_response` do (`anthropic_stream_reassembles`).
-/

namespace YellowBull

open Py

/-! ## Streamed answers -/

/-- The text of an event. -/
def AnthropicEvent.textPart : AnthropicEvent → String
  | .contentBlockDelta (some text) _ => text
  | _ => ""

/-- The fragment of an input in an event. -/
def AnthropicEvent.jsonPart : AnthropicEvent → String
  | .contentBlockDelta _ (some partial_json) => partial_json
  | _ => ""

/-- An event within a text block: a delta of the text, or one that is passed over. -/
inductive TextEvent : AnthropicEvent → Prop
  | delta (text : String) : TextEvent (.contentBlockDelta (some text) none)
  | other : TextEvent .other

/-- An event within a `tool_use` block. -/
inductive JsonEvent : AnthropicEvent → Prop
  | delta (partial_json : String) : JsonEvent (.contentBlockDelta none (some partial_json))
  | other : JsonEvent .other

/-- The fragments of an input: nothing for an empty one, and otherwise a JSON text of it. -/
def EncodesInput (P : Platform) (input : Val) (text : String) : Prop :=
  if input.truthy then P.loads text = .ok input else text = ""

/-- The events of one block. What the block that starts has of its text or input is not read. -/
inductive BlockStreamed (P : Platform) : AnthropicBlock → List AnthropicEvent → Prop
  | text (text started : String) {pieces : List AnthropicEvent} (h : ∀ e ∈ pieces, TextEvent e)
      (htext : join "" (pieces.map AnthropicEvent.textPart) = text) :
      BlockStreamed P (.text text) (.contentBlockStart (.text started) :: pieces)
  | toolUse (id name : String) (input started : Val) {pieces : List AnthropicEvent}
      (h : ∀ e ∈ pieces, JsonEvent e)
      (hinput : EncodesInput P input (join "" (pieces.map AnthropicEvent.jsonPart))) :
      BlockStreamed P (.toolUse id name input)
        (.contentBlockStart (.toolUse id name started) :: pieces)

/-- The events of an answer, one block after another. -/
inductive Streamed (P : Platform) : List AnthropicBlock → List AnthropicEvent → Prop
  | nil : Streamed P [] []
  | other {blocks : List AnthropicBlock} {events : List AnthropicEvent}
      (h : Streamed P blocks events) : Streamed P blocks (.other :: events)
  | block {block : AnthropicBlock} {blocks : List AnthropicBlock}
      {events events' : List AnthropicEvent} (hblock : BlockStreamed P block events)
      (h : Streamed P blocks events') : Streamed P (block :: blocks) (events ++ events')

/-- The id, the name and the input of a `tool_use` block. -/
def AnthropicBlock.toolUse? : AnthropicBlock → Option (String × String × Val)
  | .toolUse id name input => some (id, name, input)
  | _ => none

/-! ## Texts -/

/-- An event yields its text, where it has one. -/
theorem AnthropicEvent.chunks_eq (e : AnthropicEvent) :
    e.chunks = if e.textPart = "" then [] else [{ delta := e.textPart }] := by
  cases e with
  | contentBlockStart block => rfl
  | other => rfl
  | contentBlockDelta text partial_json => cases text <;> rfl

/-- What an event yields has the text of the event. -/
theorem deltas_chunks (events : List AnthropicEvent) :
    join "" ((events.flatMap AnthropicEvent.chunks).map StreamChunk.delta) =
      join "" (events.map AnthropicEvent.textPart) := by
  induction events with
  | nil => rfl
  | cons e events ih =>
    have hone : join "" (e.chunks.map StreamChunk.delta) = e.textPart := by
      rw [e.chunks_eq]
      split_ifs with hempty
      · exact hempty.symm
      · simp [join]
    rw [List.flatMap_cons, List.map_append, join_empty_append, ih, hone, List.map_cons,
      join_empty_cons]

/-- The events of a block have its text. -/
theorem BlockStreamed.text_eq {P : Platform} {block : AnthropicBlock}
    {events : List AnthropicEvent} (h : BlockStreamed P block events) :
    join "" (events.map AnthropicEvent.textPart) = block.textPart := by
  cases h with
  | text text started h htext =>
    rw [List.map_cons, join_empty_cons, htext]
    exact String.empty_append
  | toolUse id name input started h hinput =>
    refine join_empty_of_forall fun s hs => ?_
    obtain ⟨e, he, rfl⟩ := List.mem_map.mp hs
    rcases List.mem_cons.mp he with rfl | he
    · rfl
    · cases h e he <;> rfl

/-- The events of an answer have its text. -/
theorem Streamed.text_eq {P : Platform} {blocks : List AnthropicBlock}
    {events : List AnthropicEvent} (h : Streamed P blocks events) :
    join "" (events.map AnthropicEvent.textPart) =
      join "" (blocks.map AnthropicBlock.textPart) := by
  induction h with
  | nil => rfl
  | other _ ih =>
    rw [List.map_cons, join_empty_cons, ih]
    exact String.empty_append
  | block hblock _ ih =>
    rw [List.map_append, join_empty_append, hblock.text_eq, ih, List.map_cons, join_empty_cons]

/-! ## Entries -/

/-- An entry with the id and the name of a `tool_use` block, and with the fragments of its input. -/
structure EntryOf (P : Platform) (use : String × String × Val) (call : PartialCall) : Prop where
  id : call.id = use.1
  name : call.name = use.2.1
  arguments : EncodesInput P use.2.2 call.arguments

/-- The ids of entries are those of their blocks. -/
theorem entries_ids {P : Platform} {uses : List (String × String × Val)}
    {entries : List PartialCall} (h : List.Forall₂ (EntryOf P) uses entries) :
    entries.map PartialCall.id = uses.map Prod.fst := by
  induction h with
  | nil => rfl
  | cons hentry _ ih => rw [List.map_cons, List.map_cons, ih, hentry.id]

/-- Text leaves the entries as they are. -/
theorem accumulate_textEvents {pieces : List AnthropicEvent} (h : ∀ e ∈ pieces, TextEvent e)
    (calls : OrderedMap String PartialCall) :
    pieces.foldl AnthropicEvent.accumulate calls = calls := by
  induction pieces with
  | nil => rfl
  | cons e pieces ih =>
    have hone : AnthropicEvent.accumulate calls e = calls := by
      cases h e List.mem_cons_self <;> rfl
    rw [List.foldl_cons, hone, ih fun e' he' => h e' (List.mem_cons_of_mem e he')]

/-- A fragment goes to the last entry. -/
theorem items_appendPartial {calls : OrderedMap String PartialCall}
    {items : List (String × PartialCall)} {id : String} {call : PartialCall}
    (hitems : calls.items = items ++ [(id, call)]) (partial_json : String) :
    (appendPartial calls partial_json).items =
      items ++ [(id, { call with arguments := call.arguments ++ partial_json })] := by
  unfold appendPartial
  rw [hitems, List.getLast?_concat]
  exact OrderedMap.items_set_last hitems _

/-- The fragments of an input go to the last entry, one after another. -/
theorem accumulate_jsonEvents {pieces : List AnthropicEvent} (h : ∀ e ∈ pieces, JsonEvent e)
    {calls : OrderedMap String PartialCall} {items : List (String × PartialCall)} {id : String}
    {call : PartialCall} (hitems : calls.items = items ++ [(id, call)]) :
    (pieces.foldl AnthropicEvent.accumulate calls).items =
      items ++ [(id, { call with
        arguments := call.arguments ++ join "" (pieces.map AnthropicEvent.jsonPart) })] := by
  -- The entry that stands last grows by what each event carries, nothing or a piece of the JSON.
  induction pieces generalizing calls call with
  | nil => simpa [join] using hitems
  | cons e pieces ih =>
    have hone : (AnthropicEvent.accumulate calls e).items =
        items ++ [(id, { call with arguments := call.arguments ++ e.jsonPart })] := by
      cases h e List.mem_cons_self with
      -- An event without a delta carries the empty text.
      | other =>
        change calls.items = items ++ [(id, { call with arguments := call.arguments ++ "" })]
        rw [String.append_empty]
        exact hitems
      | delta partial_json =>
        unfold AnthropicEvent.accumulate AnthropicEvent.jsonPart
        simp only
        split_ifs with hempty
        · rw [hempty, String.append_empty]
          exact hitems
        · exact items_appendPartial hitems partial_json
    rw [List.foldl_cons, ih (fun e' he' => h e' (List.mem_cons_of_mem e he')) hone, List.map_cons,
      join_empty_cons, String.append_assoc]

/-- A block adds the entry of its tool call at the end. -/
theorem BlockStreamed.entries {P : Platform} {block : AnthropicBlock}
    {events : List AnthropicEvent} (h : BlockStreamed P block events)
    (calls : OrderedMap String PartialCall) (hnew : ∀ use ∈ block.toolUse?, use.1 ∉ calls.keys) :
    ∃ entries : List PartialCall, (events.foldl AnthropicEvent.accumulate calls).items =
        calls.items ++ entries.map (fun call => (call.id, call)) ∧
      List.Forall₂ (EntryOf P) block.toolUse?.toList entries := by
  cases h with
  | text text started h =>
    -- A text block leaves the entries as they are.
    refine ⟨[], ?_, List.Forall₂.nil⟩
    rw [List.foldl_cons, accumulate_textEvents h, List.map_nil, List.append_nil]
    rfl
  | toolUse id name input started h hinput =>
    refine ⟨[⟨id, name, _⟩], ?_, List.Forall₂.cons ⟨rfl, rfl, hinput⟩ List.Forall₂.nil⟩
    -- The id is new, so the start of the block appends an entry, to which the pieces are added.
    have hstart := OrderedMap.items_set_of_not_mem calls (hnew (id, name, input) rfl)
      (⟨id, name, ""⟩ : PartialCall)
    rw [List.foldl_cons]
    refine (accumulate_jsonEvents h hstart).trans ?_
    rw [String.empty_append]
    rfl

/-- The entries at the end of a stream are those of the `tool_use` blocks. -/
theorem Streamed.entries {P : Platform} {blocks : List AnthropicBlock}
    {events : List AnthropicEvent} (h : Streamed P blocks events)
    (calls : OrderedMap String PartialCall)
    (hnodup : (calls.keys ++ (blocks.filterMap AnthropicBlock.toolUse?).map Prod.fst).Nodup) :
    ∃ entries : List PartialCall, (events.foldl AnthropicEvent.accumulate calls).items =
        calls.items ++ entries.map (fun call => (call.id, call)) ∧
      List.Forall₂ (EntryOf P) (blocks.filterMap AnthropicBlock.toolUse?) entries := by
  induction h generalizing calls with
  | nil => exact ⟨[], (List.append_nil _).symm, List.Forall₂.nil⟩
  | other _ ih => exact ih calls hnodup
  | @block block blocks events events' hblock _ ih =>
    have hsplit : (block :: blocks).filterMap AnthropicBlock.toolUse? =
        block.toolUse?.toList ++ blocks.filterMap AnthropicBlock.toolUse? := by
      rw [List.filterMap_cons]
      cases block.toolUse? <;> rfl
    rw [hsplit, List.map_append] at hnodup
    obtain ⟨first, hfirst, hentries⟩ := hblock.entries calls fun use huse hmem => by
      refine List.disjoint_of_nodup_append hnodup hmem (List.mem_append_left _ ?_)
      exact List.mem_map.mpr ⟨use, Option.mem_toList.mpr huse, rfl⟩
    -- The keys are now those of before with the id of the block.
    have hkeys : (events.foldl AnthropicEvent.accumulate calls).keys =
        calls.keys ++ block.toolUse?.toList.map Prod.fst := by
      unfold OrderedMap.keys
      rw [hfirst, List.map_append, List.map_map]
      exact congrArg _ (entries_ids hentries)
    obtain ⟨rest, hrest, hentries'⟩ := ih (events.foldl AnthropicEvent.accumulate calls) (by
      rw [hkeys, List.append_assoc]
      exact hnodup)
    refine ⟨first ++ rest, ?_, ?_⟩
    · rw [List.foldl_append, hrest, hfirst, List.map_append, List.append_assoc]
    · rw [hsplit]
      exact List.rel_append hentries hentries'

/-! ## The whole stream -/

/-- The same tool call, with arguments that decode to the same input. -/
structure SameCall (P : Platform) (tc tc' : ToolCall) : Prop where
  id : Py.Dict.item tc "id" = Py.Dict.item tc' "id"
  name : (do (← Py.Dict.item tc "function").item "name") =
    (do (← Py.Dict.item tc' "function").item "name")
  /-- Both are decoded, undecodable text being read as the empty object. -/
  input : ∃ input, decodeArguments P tc = .ok input ∧ decodeArguments P tc' = .ok input

/-- The fragments of an input decode to it. -/
theorem EncodesInput.decodes {P : Platform} {input : Val} {text id name : String}
    (h : EncodesInput P input text)
    (hempty : ∃ e, P.loads "" = .error e ∧ e.cls = .jsonDecodeError) :
    decodeArguments P (ToolCall.ofParts id "function" name text) = .ok (inputObject input) := by
  rw [decodeArguments_eq (HasArguments.mk ⟨_, rfl, rfl, rfl⟩)]
  unfold EncodesInput at h
  unfold inputObject
  split_ifs at h ⊢ with htruthy
  · rw [h]
  · obtain ⟨e, herror, hcls⟩ := hempty
    rw [h, herror]
    simp [hcls]

/-- The tool call that `_parse_response` makes of a `tool_use` block. -/
def parsedCall (use : String × String × Val) : ToolCall :=
  ToolCall.ofParts use.1 "function" use.2.1 ((inputObject use.2.2).dumps false)

/-- Its tool calls are those of the `tool_use` blocks. -/
theorem parse_tool_calls (response : AnthropicResponse) :
    response.parse.tool_calls =
      (response.content.filterMap AnthropicBlock.toolUse?).map parsedCall := by
  show response.content.filterMap AnthropicBlock.call? = _
  rw [List.map_filterMap]
  refine List.filterMap_congr fun block _ => ?_
  cases block <;> rfl

/-- The entries are yielded as the tool calls that `_parse_response` makes of the blocks. -/
theorem sameCalls {P : Platform} {uses : List (String × String × Val)}
    {entries : List PartialCall} (hempty : ∃ e, P.loads "" = .error e ∧ e.cls = .jsonDecodeError)
    (hdumps : ∀ use ∈ uses, P.loads ((inputObject use.2.2).dumps false) = .ok (inputObject use.2.2))
    (h : List.Forall₂ (EntryOf P) uses entries) :
    List.Forall₂ (SameCall P) (entries.map PartialCall.toolCall) (uses.map parsedCall) := by
  induction h with
  | nil => exact List.Forall₂.nil
  | @cons use call _ _ hentry _ ih =>
    refine List.Forall₂.cons ⟨?_, ?_, inputObject use.2.2, ?_, ?_⟩
      (ih fun use' huse' => hdumps use' (List.mem_cons_of_mem use huse'))
    · exact congrArg (fun id => Except.ok (Val.str id)) hentry.id
    · exact congrArg (fun name => Except.ok (Val.str name)) hentry.name
    · exact hentry.arguments.decodes hempty
    · unfold parsedCall
      rw [decodeArguments_eq (HasArguments.mk ⟨_, rfl, rfl, rfl⟩),
        hdumps use List.mem_cons_self]

/-- The stream yields the tool calls of its entries. -/
theorem anthropicStream_tool_calls (events : List AnthropicEvent) :
    (anthropicStream events).filterMap StreamChunk.tool_call =
      (events.foldl AnthropicEvent.accumulate .empty).values.map PartialCall.toolCall := by
  have hchunks : (events.flatMap AnthropicEvent.chunks).filterMap StreamChunk.tool_call = [] := by
    refine List.filterMap_eq_nil_iff.mpr fun chunk hchunk => ?_
    obtain ⟨e, -, hchunk⟩ := List.mem_flatMap.mp hchunk
    rw [e.chunks_eq] at hchunk
    split_ifs at hchunk
    · cases hchunk
    · rw [List.mem_singleton.mp hchunk]
  unfold anthropicStream
  rw [List.filterMap_append, List.filterMap_append, hchunks, List.nil_append, List.filterMap_map]
  exact (List.append_nil _).trans (congrFun List.filterMap_eq_map' _)

/-- The stream yields the text of its events. -/
theorem anthropicStream_deltas (events : List AnthropicEvent) :
    join "" ((anthropicStream events).map StreamChunk.delta) =
      join "" (events.map AnthropicEvent.textPart) := by
  have hcalls (calls : List PartialCall) : join "" ((calls.map fun call =>
      ({ tool_call := some call.toolCall } : StreamChunk)).map StreamChunk.delta) = "" := by
    refine join_empty_of_forall fun s hs => ?_
    rw [List.map_map] at hs
    obtain ⟨call, -, rfl⟩ := List.mem_map.mp hs
    rfl
  unfold anthropicStream
  rw [List.map_append, List.map_append, join_empty_append, join_empty_append, hcalls,
    deltas_chunks, String.append_empty]
  exact String.append_empty

/-- However the blocks of an answer are split into deltas, the stream yields the text of the answer
and its tool calls in order. -/
theorem anthropic_stream_reassembles (P : Platform) (response : AnthropicResponse)
    (events : List AnthropicEvent) (h : Streamed P response.content events)
    (hids : ((response.content.filterMap AnthropicBlock.toolUse?).map Prod.fst).Nodup)
    (hempty : ∃ e, P.loads "" = .error e ∧ e.cls = .jsonDecodeError)
    (hdumps : ∀ use ∈ response.content.filterMap AnthropicBlock.toolUse?,
      P.loads ((inputObject use.2.2).dumps false) = .ok (inputObject use.2.2)) :
    join "" ((anthropicStream events).map StreamChunk.delta) = response.parse.content.getD "" ∧
      List.Forall₂ (SameCall P) ((anthropicStream events).filterMap StreamChunk.tool_call)
        response.parse.tool_calls := by
  constructor
  -- The text of the deltas is that of the blocks; an empty one is a `None` in the response.
  · rw [anthropicStream_deltas, h.text_eq]
    unfold AnthropicResponse.parse
    simp only
    split_ifs with hcontent
    · exact hcontent
    · rfl
  · obtain ⟨entries, hitems, hentries⟩ := h.entries .empty hids
    -- The calls come out in the order of their entries, whose ids are distinct.
    have hvalues : (events.foldl AnthropicEvent.accumulate .empty).values = entries := by
      unfold OrderedMap.values
      rw [hitems, List.map_append, List.map_map]
      exact List.map_id entries
    rw [anthropicStream_tool_calls, hvalues, parse_tool_calls]
    exact sameCalls hempty hdumps hentries

/-- A platform whose `json.loads` also knows one object. -/
def Platform.reading : Platform where
  loads text :=
    if text = "\x7b\"path\": \"a\"\x7d" then .ok (.dict [("path", .str "a")])
    else Platform.bare.loads text
  tiktoken := Platform.bare.tiktoken
  sha256 := Platform.bare.sha256
  repr := Platform.bare.repr
  seconds := Platform.bare.seconds

/-- An answer with text around a tool call, and a second tool call with an empty input. -/
def readThenList : AnthropicResponse where
  content := [.text "ok", .toolUse "t1" "read" (.dict [("path", .str "a")]), .text "!",
    .toolUse "t2" "list" (.dict [])]

/-- A stream of it. -/
def readThenListEvents : List AnthropicEvent :=
  [.other, .contentBlockStart (.text ""), .contentBlockDelta (some "o") none,
    .contentBlockDelta (some "k") none, .contentBlockStart (.toolUse "t1" "read" (.dict [])),
    .contentBlockDelta none (some ""), .contentBlockDelta none (some "\x7b\"path\":"), .other,
    .contentBlockDelta none (some " \"a\"\x7d"), .contentBlockStart (.text ""),
    .contentBlockDelta (some "!") none, .contentBlockStart (.toolUse "t2" "list" (.dict [])),
    .contentBlockDelta none (some "")]

/-- The events are those of that message. -/
theorem streamed_readThenList :
    Streamed .reading readThenList.content readThenListEvents := by
  have htext : BlockStreamed .reading (.text "ok") (readThenListEvents.extract 1 4) :=
    .text _ _ (by simp [TextEvent.delta]) (by decide)
  have hread : BlockStreamed .reading (.toolUse "t1" "read" (.dict [("path", .str "a")]))
      (readThenListEvents.extract 4 9) :=
    .toolUse _ _ _ _ (by simp [JsonEvent.delta, JsonEvent.other]) (by
      rw [EncodesInput, if_pos (by decide)]
      decide)
  have hmark : BlockStreamed .reading (.text "!") (readThenListEvents.extract 9 11) :=
    .text _ _ (by simp [TextEvent.delta]) (by decide)
  have hlist : BlockStreamed .reading (.toolUse "t2" "list" (.dict []))
      (readThenListEvents.extract 11 13) :=
    .toolUse _ _ _ _ (by simp [JsonEvent.delta]) (by
      rw [EncodesInput, if_neg (by decide)]
      decide)
  exact .other (.block htext (.block hread (.block hmark (.block hlist .nil))))

/-- The stream of text and two tool calls. -/
theorem anthropic_stream_reassembles_two_calls :
    join "" ((anthropicStream readThenListEvents).map StreamChunk.delta) =
        readThenList.parse.content.getD "" ∧
      List.Forall₂ (SameCall .reading)
        ((anthropicStream readThenListEvents).filterMap StreamChunk.tool_call)
        readThenList.parse.tool_calls :=
  anthropic_stream_reassembles .reading readThenList readThenListEvents streamed_readThenList
    (by decide) ⟨_, rfl, rfl⟩ (by decide)

end YellowBull
