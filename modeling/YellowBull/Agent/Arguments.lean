import YellowBull.Agent
import YellowBull.AnthropicProvider

/-!
# The two decoders of tool arguments

`Agent._build_tool_requests` and `AnthropicLLM._parse_args` decode the same texts. Neither looks at
what `json.loads` returns: the agent passes it on, and the provider replaces what is false by the
empty object. So they agree on an object just for the texts that are an object or no JSON at all
(`decoders_agree_iff`).
-/

namespace YellowBull

open Py

/-- A tool call that gives its function a name and arguments as a text. -/
structure HasArguments (tc : ToolCall) (name : Val) (text : String) : Prop where
  function : ∃ fc : Dict, Py.Dict.item tc "function" = .ok (.dict fc) ∧
    (Val.dict fc).item "name" = .ok name ∧ (Val.dict fc).item "arguments" = .ok (.str text)

/-- Both decoders give the same object: the one that the text is, or the empty one. -/
structure DecodeToObject (P : Platform) (tc : ToolCall) (name : Val) (text : String)
    (items : Dict) : Prop where
  agent : buildToolRequest P tc = .ok { tool_name := name, arguments := .dict items }
  provider : parseArgs P (.str text) = .ok (.dict items)
  decoded : ∀ items', P.loads text = .ok (.dict items') → items = items'
  otherwise : (∀ items', P.loads text ≠ .ok (.dict items')) → items = []

section Decoders

variable {P : Platform} {tc : ToolCall} {name : Val} {text : String}

/-- The `try` block on arguments that are a text. -/
theorem decodeArguments_eq (h : HasArguments tc name text) :
    decodeArguments P tc =
      match P.loads text with
      | .ok v => .ok v
      | .error e =>
        if e.cls = .jsonDecodeError ∨ e.cls = .keyError then .ok (.dict []) else .error e := by
  obtain ⟨fc, hfunction, -, harguments⟩ := h.function
  -- The two lookups in front of `json.loads` succeed, so that only its own exceptions are left.
  have htry : (do jsonLoads P (← (← Py.Dict.item tc "function").item "arguments")) =
      P.loads text := by
    rw [hfunction]
    change ((Val.dict fc).item "arguments").bind _ = _
    rw [harguments]
    rfl
  unfold decodeArguments
  rw [htry]
  cases P.loads text with
  | ok v => rfl
  -- A `KeyError` can come from `json.loads` too, which is a parameter: the handler catches both.
  | error e => cases hcls : e.cls <;> simp [hcls]

/-- What the agent makes of a tool call with arguments as a text. -/
theorem buildToolRequest_eq (h : HasArguments tc name text) :
    buildToolRequest P tc =
      match P.loads text with
      | .ok v => .ok { tool_name := name, arguments := v }
      | .error e =>
        if e.cls = .jsonDecodeError ∨ e.cls = .keyError then
          .ok { tool_name := name, arguments := .dict [] }
        else .error e := by
  obtain ⟨fc, hfunction, hname, -⟩ := h.function
  unfold buildToolRequest
  -- The name is looked up before the arguments are decoded, and is there.
  rw [hfunction, decodeArguments_eq h]
  change ((Val.dict fc).item "name").bind _ = _
  rw [hname]
  cases P.loads text with
  | ok v => rfl
  | error e =>
    simp only
    split_ifs <;> rfl

/-- What the provider makes of such arguments. -/
theorem parseArgs_eq : parseArgs P (.str text) =
    match P.loads text with
    | .ok v => .ok (if v.truthy then v else .dict [])
    | .error e =>
      if e.cls = .jsonDecodeError ∨ e.cls = .typeError then .ok (.dict []) else .error e := by
  unfold parseArgs jsonLoads
  simp only
  cases P.loads text with
  | ok v => rfl
  | error e => cases hcls : e.cls <;> simp [hcls]

/-- The decoders agree on an object just if `json.loads` returns one or does not take the text for
JSON. -/
theorem decoders_agree_iff (h : HasArguments tc name text) :
    (∃ items, DecodeToObject P tc name text items) ↔
      (∃ items, P.loads text = .ok (.dict items)) ∨
        ∃ e, P.loads text = .error e ∧ e.cls = .jsonDecodeError := by
  constructor
  · rintro ⟨items, hagent, hprovider, -, -⟩
    rw [buildToolRequest_eq h] at hagent
    rw [parseArgs_eq] at hprovider
    cases hloads : P.loads text with
    | ok v =>
      -- The agent passes on what it is.
      rw [hloads] at hagent
      have hv : v = .dict items := congrArg ToolCallRequest.arguments (Except.ok.inj hagent)
      exact .inl ⟨items, by rw [hv]⟩
    | error e =>
      -- Only one class of exceptions is caught by both.
      rw [hloads] at hagent hprovider
      refine .inr ⟨e, rfl, ?_⟩
      cases hcls : e.cls <;> simp [hcls] at hagent hprovider ⊢
  · rintro (⟨items, hloads⟩ | ⟨e, hloads, hcls⟩)
    · refine ⟨items, ?_, ?_, ?_, ?_⟩
      · rw [buildToolRequest_eq h, hloads]
      · rw [parseArgs_eq, hloads]
        cases items <;> rfl
      · intro items' hitems
        exact Val.dict.inj (Except.ok.inj (hloads.symm.trans hitems))
      · intro hnone
        exact absurd hloads (hnone items)
    · refine ⟨[], ?_, ?_, ?_, fun _ => rfl⟩
      · rw [buildToolRequest_eq h, hloads]
        simp [hcls]
      · rw [parseArgs_eq, hloads]
        simp [hcls]
      · intro items' hitems
        rw [hloads] at hitems
        cases hitems

end Decoders

/-- A platform whose `json.loads` also knows a list and an object. -/
def Platform.listing : Platform where
  loads text :=
    if text = "[1]" then .ok (.list [.int 1])
    else if text = "\x7b\"n\": 1\x7d" then .ok (.dict [("n", .int 1)])
    else Platform.bare.loads text
  tiktoken := Platform.bare.tiktoken
  sha256 := Platform.bare.sha256
  repr := Platform.bare.repr
  seconds := Platform.bare.seconds

/-- An object as the arguments. -/
theorem decoders_agree_iff_object :
    ∃ items, DecodeToObject .listing
      (ToolCall.ofParts "c1" "function" "read" "\x7b\"n\": 1\x7d") (.str "read")
        "\x7b\"n\": 1\x7d" items :=
  (decoders_agree_iff ⟨⟨_, rfl, rfl, rfl⟩⟩).mpr (.inl ⟨[("n", .int 1)], by decide⟩)

/-- A list as the arguments goes through both decoders. -/
theorem decoders_pass_list :
    buildToolRequest .listing (ToolCall.ofParts "c1" "function" "read" "[1]") =
        .ok { tool_name := .str "read", arguments := .list [.int 1] } ∧
      parseArgs .listing (.str "[1]") = .ok (.list [.int 1]) ∧
      ¬ ∃ items, DecodeToObject .listing (ToolCall.ofParts "c1" "function" "read" "[1]")
        (.str "read") "[1]" items := by
  have hagent : buildToolRequest .listing (ToolCall.ofParts "c1" "function" "read" "[1]") =
      .ok { tool_name := .str "read", arguments := .list [.int 1] } := by decide
  refine ⟨hagent, by decide, ?_⟩
  rintro ⟨items, hobject, -, -, -⟩
  rw [hagent] at hobject
  have harguments := congrArg ToolCallRequest.arguments (Except.ok.inj hobject)
  cases harguments

end YellowBull
