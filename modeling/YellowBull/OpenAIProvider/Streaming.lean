import YellowBull.Lib.KeyedFold
import YellowBull.OpenAIProvider

/-!
# Streams of the OpenAI provider

A completion may be sent in any split: its text and the arguments of each tool call in pieces, and
the fragments of different calls in any interleaving (`Splits`). `_stream_chat` keeps one entry for
each index, so that it folds the fragments by key, and the entry of a call has what its own
fragments give (`foldl_addTo`). Hence the stream yields what `_parse_response` makes of the
completion that is sent whole (`openai_stream_reassembles`).
-/

namespace YellowBull

open Py

/-! ## Splits of a completion -/

/-- The fragments of one tool call: the first has its id and the whole name, which later ones may
repeat, and together they have its arguments. -/
inductive FragmentsOf (id name arguments : String) : List ToolCallFragment → Prop
  | mk (first : ToolCallFragment) (rest : List ToolCallFragment) (hid : first.id.getD "" = id)
      (hname : first.name?.getD "" = name)
      (hids : ∀ tc ∈ rest, tc.id.getD "" = "" ∨ tc.id = some id)
      (hnames : ∀ tc ∈ rest, tc.name? = none ∨ tc.name? = some name)
      (harguments : join "" ((first :: rest).map ToolCallFragment.argumentsPart) = arguments) :
      FragmentsOf id name arguments (first :: rest)

/-- The deltas of a stream: those of the first choices, where a chunk has choices. -/
def streamDeltas (chunks : List OpenAIChunk) : List OpenAIDelta :=
  chunks.filterMap fun chunk => chunk.choices.head?

/-- The fragments of tool calls in a stream, in order. -/
def streamFragments (chunks : List OpenAIChunk) : List ToolCallFragment :=
  (streamDeltas chunks).flatMap fun delta => delta.tool_calls.getD []

/-- The chunks are a split of the message. Its tool calls have indexes that increase. -/
structure Splits (message : OpenAIMessage) (calls : List (ℤ × OpenAIToolCall))
    (chunks : List OpenAIChunk) : Prop where
  content : join "" ((streamDeltas chunks).map fun delta => delta.content.getD "") =
    message.content.getD ""
  tool_calls : calls.map Prod.snd = message.tool_calls.getD []
  increasing : (calls.map Prod.fst).Pairwise (· < ·)
  /-- The indexes first appear in their order. -/
  indexes : OrderedMap.firstAppearances ((streamFragments chunks).map ToolCallFragment.index) =
    calls.map Prod.fst
  /-- The fragments of an index are those of its tool call. -/
  fragments : ∀ call ∈ calls, ∃ function, call.2.function = some function ∧
    FragmentsOf call.2.id function.name function.arguments
      ((streamFragments chunks).filter fun tc => tc.index = call.1)

/-- The type of a tool call is that of a function, or missing. -/
def OpenAIToolCall.IsFunction (tc : OpenAIToolCall) : Prop :=
  (truthy? tc.type).getD "function" = "function"

/-! ## The fragments of one call -/

/-- `text or default`. -/
theorem getD_truthy? (text : Option String) (default : String) :
    (truthy? text).getD default = if text.getD "" = "" then default else text.getD "" := by
  cases text with
  | none => rfl
  | some s =>
    rw [Option.getD_some]
    unfold truthy?
    by_cases h : s = ""
    · rw [Option.filter_some_neg (by simpa using h), if_pos h]
      rfl
    · rw [Option.filter_some_pos (by simpa using h), if_neg h, Option.getD_some]

/-- The entry that the first fragment makes. -/
theorem addTo_start (tc : ToolCallFragment) :
    ToolCallFragment.addTo tc.start tc = ⟨tc.id.getD "", tc.name?.getD "", tc.argumentsPart⟩ := by
  have hid : (truthy? tc.id).getD (tc.id.getD "") = tc.id.getD "" := by
    rw [getD_truthy?]
    split_ifs <;> rfl
  unfold ToolCallFragment.addTo ToolCallFragment.start
  rw [hid]
  simp

/-- Later fragments add to the arguments. -/
theorem foldl_addTo {id name : String} {rest : List ToolCallFragment}
    (hids : ∀ tc ∈ rest, tc.id.getD "" = "" ∨ tc.id = some id)
    (hnames : ∀ tc ∈ rest, tc.name? = none ∨ tc.name? = some name) (arguments : String) :
    rest.foldl ToolCallFragment.addTo ⟨id, name, arguments⟩ =
      ⟨id, name, arguments ++ join "" (rest.map ToolCallFragment.argumentsPart)⟩ := by
  induction rest generalizing arguments with
  | nil => simp [join]
  | cons tc rest ih =>
    -- An id that comes again is the same, and an empty one is skipped.
    have hid : (truthy? tc.id).getD id = id := by
      rw [getD_truthy?]
      rcases hids tc List.mem_cons_self with h | h
      · rw [if_pos h]
      · rw [h, Option.getD_some]
        split_ifs <;> rfl
    -- So it is with the name.
    have hname : tc.name?.getD name = name := by
      rcases hnames tc List.mem_cons_self with h | h <;> rw [h] <;> rfl
    have hadd : ToolCallFragment.addTo ⟨id, name, arguments⟩ tc =
        ⟨id, name, arguments ++ tc.argumentsPart⟩ := by
      unfold ToolCallFragment.addTo
      rw [hid, hname]
    rw [List.foldl_cons, hadd, ih (fun tc' h => hids tc' (List.mem_cons_of_mem _ h))
      (fun tc' h => hnames tc' (List.mem_cons_of_mem _ h)), List.map_cons, join_empty_cons,
      String.append_assoc]

/-- The fragments of a call make its entry. -/
theorem FragmentsOf.entry {id name arguments : String} {fragments : List ToolCallFragment}
    (h : FragmentsOf id name arguments fragments) :
    ∃ first rest, fragments = first :: rest ∧
      rest.foldl ToolCallFragment.addTo (ToolCallFragment.addTo first.start first) =
        ⟨id, name, arguments⟩ := by
  obtain ⟨first, rest, hid, hname, hids, hnames, harguments⟩ := h
  refine ⟨first, rest, rfl, ?_⟩
  rw [addTo_start, hid, hname, foldl_addTo hids hnames, ← harguments, List.map_cons,
    join_empty_cons]

/-! ## The whole stream -/

/-- The loop over the chunks folds the fragments by their index. -/
theorem accumulate_eq_keyedFold (deltas : List OpenAIDelta) (calls : OrderedMap ℤ PartialCall) :
    deltas.foldl (fun calls delta =>
        (delta.tool_calls.getD []).foldl ToolCallFragment.accumulate calls) calls =
      OrderedMap.keyedFold ToolCallFragment.index ToolCallFragment.start ToolCallFragment.addTo
        calls (deltas.flatMap fun delta => delta.tool_calls.getD []) := by
  induction deltas generalizing calls with
  | nil => rfl
  | cons delta deltas ih =>
    rw [List.foldl_cons, ih, List.flatMap_cons]
    unfold OrderedMap.keyedFold
    rw [List.foldl_append]
    rfl

/-- The entry that a tool call leaves. -/
def OpenAIToolCall.entry (tc : OpenAIToolCall) : PartialCall :=
  match tc.function with
  | some function => ⟨tc.id, function.name, function.arguments⟩
  | none => ⟨tc.id, "", ""⟩

/-- The entries at the end of a split of a message are those of its tool calls. -/
theorem Splits.values {message : OpenAIMessage} {calls : List (ℤ × OpenAIToolCall)}
    {chunks : List OpenAIChunk} (h : Splits message calls chunks) :
    (OrderedMap.keyedFold ToolCallFragment.index ToolCallFragment.start ToolCallFragment.addTo
        .empty (streamFragments chunks)).values =
      (message.tool_calls.getD []).map OpenAIToolCall.entry := by
  rw [← h.tool_calls, List.map_map]
  refine OrderedMap.values_keyedFold h.indexes fun call hcall => ?_
  obtain ⟨function, hfunction, hfragments⟩ := h.fragments call hcall
  obtain ⟨first, rest, hfilter, hentry⟩ := hfragments.entry
  refine ⟨first, rest, hfilter, hentry.trans ?_⟩
  rw [Function.comp_apply, OpenAIToolCall.entry, hfunction]

/-- The entry of a tool call is yielded as what `_parse_response` makes of the call. -/
theorem entry_toolCall {tc : OpenAIToolCall} (htype : tc.IsFunction) {function : OpenAIFunction}
    (hfunction : tc.function = some function) : tc.entry.toolCall = tc.toolCall := by
  unfold OpenAIToolCall.toolCall OpenAIToolCall.entry PartialCall.toolCall
  rw [hfunction, htype]

/-- Every split of a completion streams to its text and then to the tool calls that
`_parse_response` gives for it. -/
theorem openai_stream_reassembles {message : OpenAIMessage} {calls : List (ℤ × OpenAIToolCall)}
    {chunks : List OpenAIChunk} (h : Splits message calls chunks)
    (htypes : ∀ tc ∈ message.tool_calls.getD [], tc.IsFunction) (others : List OpenAIMessage)
    (usage : Option OpenAIUsage) :
    join "" ((openAIStream chunks).map StreamChunk.delta) = message.content.getD "" ∧
      ∃ texts : List StreamChunk,
        openAIStream chunks = texts ++
          ((OpenAICompletion.parse ⟨message :: others, usage⟩).tool_calls.map
            fun call => { tool_call := some call }) ++ [{ done := true }] ∧
        ∀ chunk ∈ texts, chunk.tool_call = none ∧ chunk.done = false := by
  have hcalls : (message.tool_calls.getD []).map (fun tc => tc.entry.toolCall) =
      (OpenAICompletion.parse ⟨message :: others, usage⟩).tool_calls := by
    refine List.map_congr_left fun tc htc => ?_
    obtain ⟨call, hcall, rfl⟩ := List.mem_map.mp (h.tool_calls ▸ htc)
    obtain ⟨function, hfunction, -⟩ := h.fragments call hcall
    exact entry_toolCall (htypes _ htc) hfunction
  have hstream : openAIStream chunks =
      (streamDeltas chunks).map (fun delta => { delta := delta.content.getD "" }) ++
        ((OpenAICompletion.parse ⟨message :: others, usage⟩).tool_calls.map
          fun call => { tool_call := some call }) ++ [{ done := true }] := by
    unfold openAIStream
    simp only
    rw [accumulate_eq_keyedFold]
    change _ ++ (OrderedMap.keyedFold _ _ _ _ (streamFragments chunks)).values.map _ ++ _ = _
    rw [h.values, ← hcalls, List.map_map, List.map_map]
    rfl
  refine ⟨?_, _, hstream, ?_⟩
  · rw [hstream, List.map_append, List.map_append, join_empty_append, join_empty_append,
      List.map_map, List.map_map]
    -- Only the deltas have text.
    have hnone : join "" ((OpenAICompletion.parse ⟨message :: others, usage⟩).tool_calls.map
        (StreamChunk.delta ∘ fun call => { tool_call := some call })) = "" :=
      join_empty_of_forall fun s hs => by
        obtain ⟨call, -, rfl⟩ := List.mem_map.mp hs
        rfl
    rw [hnone]
    refine Eq.trans ?_ h.content
    simp only [String.append_empty, List.map_cons, List.map_nil, join]
    rfl
  · intro chunk hchunk
    obtain ⟨delta, -, rfl⟩ := List.mem_map.mp hchunk
    exact ⟨rfl, rfl⟩

/-- A completion with two tool calls. -/
def twoCalls : OpenAIMessage where
  content := some "ok"
  tool_calls := some [{ id := "c1", function := some ⟨"read", "\x7b\x7d"⟩ },
    { id := "c2", function := some ⟨"list", "\x7b\x7d"⟩ }]

/-- The fragments of its tool calls, interleaved. -/
def twoCallsFragments : List ToolCallFragment :=
  [{ index := 0, id := some "c1", function := some { name := some "read" } },
    { index := 1, id := some "c2", function := some ⟨some "list", some "\x7b"⟩ },
    { index := 0, id := some "c1", function := some { arguments := some "\x7b\x7d" } },
    { index := 1, function := some { arguments := some "\x7d" } }]

/-- A stream of it, with a chunk without choices. -/
def twoCallsChunks : List OpenAIChunk :=
  [⟨[{ content := some "o" }]⟩, ⟨[]⟩,
    ⟨[{ content := some "k", tool_calls := some (twoCallsFragments.take 2) }]⟩,
    ⟨[{ tool_calls := some (twoCallsFragments.drop 2) }]⟩]

/-- A split of the two calls into deltas. -/
theorem splits_twoCalls :
    Splits twoCalls [(0, { id := "c1", function := some ⟨"read", "\x7b\x7d"⟩ }),
      (1, { id := "c2", function := some ⟨"list", "\x7b\x7d"⟩ })] twoCallsChunks where
  content := by decide
  tool_calls := rfl
  increasing := by decide
  indexes := by decide
  fragments := by
    intro call hcall
    simp only [List.mem_cons, List.not_mem_nil, or_false] at hcall
    rcases hcall with rfl | rfl
    · refine ⟨_, rfl, ?_⟩
      exact .mk _ [_] rfl rfl (by decide) (by decide) (by decide)
    · refine ⟨_, rfl, ?_⟩
      exact .mk _ [_] rfl rfl (by decide) (by decide) (by decide)

/-- The stream of two interleaved tool calls. -/
theorem openai_stream_reassembles_two_calls :
    join "" ((openAIStream twoCallsChunks).map StreamChunk.delta) = "ok" ∧
      ∃ texts : List StreamChunk,
        openAIStream twoCallsChunks = texts ++
          ((OpenAICompletion.parse ⟨[twoCalls], none⟩).tool_calls.map
            fun call => { tool_call := some call }) ++ [{ done := true }] ∧
        ∀ chunk ∈ texts, chunk.tool_call = none ∧ chunk.done = false :=
  openai_stream_reassembles splits_twoCalls (by
    intro tc htc
    simp only [twoCalls, Option.getD_some, List.mem_cons, List.not_mem_nil, or_false] at htc
    rcases htc with rfl | rfl <;> rfl) [] none

end YellowBull
