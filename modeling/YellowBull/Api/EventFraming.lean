import YellowBull.Api.StreamAgreement
import YellowBull.Lib.EventStream

/-!
# The frames of the streaming chat

What a reader of the event stream gets back from `sse_stream(stream_chat_response(..))`. As the code
stands the generator raises before its first chunk, so that the stream is empty, and the deltas come
back if there are none but empty ones.

The rest of the function would not do better. `stream_chat_response` yields a delta in a frame of
its own, and `sse_stream` puts a frame around it: the first event of the stream starts with `data: `
and the first line of the first delta.
-/

namespace YellowBull

open Py EventStream

/-- The events of a response but for the last two, which announce the session and the end, are the
deltas that are not empty. -/
def Lossless (body : String) (deltas : List String) : Prop :=
  (events body.toList).dropLast.dropLast.map String.ofList = deltas.filter (· ≠ "")

instance (body : String) (deltas : List String) : Decidable (Lossless body deltas) :=
  inferInstanceAs (Decidable (_ = _))

/-- A frame in a frame. -/
theorem toList_dataFrame_dataFrame_append (text rest : String) :
    (dataFrame (dataFrame text) ++ rest).toList =
      'd' :: 'a' :: 't' :: 'a' :: ':' :: ' ' ::
        (("data: " ++ text).toList ++ '\n' :: '\n' :: '\n' :: '\n' :: rest.toList) := by
  simp [dataFrame]

/-- What is first when the last two are dropped was first before. -/
theorem head?_of_dropLast_dropLast {α : Type*} {l xs : List α} {x : α}
    (h : l.dropLast.dropLast = x :: xs) : l.head? = some x := by
  have hprefix : x :: xs <+: l := h ▸ (List.dropLast_prefix _).trans (List.dropLast_prefix l)
  obtain ⟨ys, rfl⟩ := hprefix
  rfl

/-- A stream that starts with a frame in a frame around a delta does not give the delta back. -/
theorem events_ne_of_dataFrame_dataFrame (delta rest : String) (deltas : List String) :
    (events (dataFrame (dataFrame delta) ++ rest).toList).dropLast.dropLast.map String.ofList ≠
      delta :: deltas := by
  intro h
  rw [toList_dataFrame_dataFrame_append] at h
  obtain ⟨event, others, hevents, hevent, -⟩ := List.map_eq_cons_iff.mp h
  have hfirst := firstLine_of_head (head?_of_dropLast_dropLast hevents)
  -- The first line of the event is longer than that of the delta.
  obtain rfl : event = delta.toList := by rw [← hevent, String.toList_ofList]
  rw [String.toList_append, firstLine_append (by simp [OneLine])] at hfirst
  have hlength := congrArg List.length hfirst
  simp at hlength
  omega

/-- A frame in a frame around a text within one line, and the last frame. -/
theorem events_session_done {text : String} (htext : OneLine text.toList) :
    events (dataFrame (dataFrame text) ++ dataFrame "[DONE]").toList =
      [("data: " ++ text).toList, "[DONE]".toList] := by
  have hline : OneLine ("data: " ++ text).toList := by
    rw [String.toList_append]
    exact .append (by simp [OneLine]) htext
  have hdone : events (dataFrame "[DONE]").toList = ["[DONE]".toList] := by decide
  rw [toList_dataFrame_dataFrame_append, events_frame hline, events_blank, events_blank, hdone]

/-- The text of the session event is one line if the id is. -/
theorem oneLine_sessionText {session_id : String} (hid : OneLine session_id.toList) :
    OneLine (sessionText session_id).toList := by
  unfold sessionText
  rw [String.toList_append, String.toList_append]
  refine .append (.append ?_ hid) ?_
  · simp [OneLine]
  · simp [OneLine]

section Framing

variable {P : Platform} {cfg : AgentConfig} {reg : ToolRegistry} {S : StreamBehaviour}

/-- No delta is left just if all are empty. -/
theorem filter_ne_empty (deltas : List String) :
    deltas.filter (· ≠ "") = [] ↔ ∀ d ∈ deltas, d = "" := by
  simp [List.filter_eq_nil_iff]

/-- If the lookup of the class succeeded, the deltas would come back if none but empty ones were
yielded. -/
theorem streamTurn_lossless_iff {s : Session} {request : ChatRequest} {deltas : List String}
    (hstream : S.llm = .ok (.iterator (deltaChunks deltas) none)) {context : List LLMMessage}
    (hbuild : ContextBuilder.build P ⟨cfg.system_prompt⟩ (s.addMessages (S.clock 0)
      [userMessage request]) cfg.context_window {} none = .ok context)
    (hid : OneLine s.session_id.toList) :
    Lossless (sseStream (streamTurn P cfg reg S s request).2) deltas ↔ ∀ d ∈ deltas, d = "" := by
  rw [← filter_ne_empty, (streamTurn_deltas hstream hbuild).2]
  unfold Lossless sseStream
  simp only [if_true]
  -- Without a delta the two announcements are the whole stream. The first delta is spoilt by its
  -- second frame.
  cases hdeltas : deltas.filter (· ≠ "") with
  | nil =>
    have hevents : (events (dataFrame (dataFrame (sessionText s.session_id)) ++
        dataFrame "[DONE]").toList).dropLast.dropLast = [] := by
      rw [events_session_done (oneLine_sessionText hid)]
      rfl
    rw [List.map_nil, List.nil_append, List.map_singleton, List.singleton_append, join_empty_cons,
      join, hevents]
    simp
  | cons delta more =>
    rw [List.map_cons, List.cons_append, List.map_cons, List.cons_append, join_empty_cons]
    simp only [events_ne_of_dataFrame_dataFrame, List.cons_ne_nil]

end Framing

section Whole

variable {σ : Type} (P : Platform) (cfg : AgentConfig) (reg : ToolRegistry) (M : SessionManager σ)
variable (clock : ℕ → Time) (request : ChatRequest) (session_id : String) (now : Time)
variable (h : AgentState σ) (deltas : List String)

/-- What the event stream says of the deltas that the LLM yields. -/
structure DeltasComeBack (S : StreamBehaviour) : Prop where
  /-- As the code stands, they come back if none but empty ones are yielded. -/
  stands : Lossless (sseStream (h.streamChatResponse P cfg reg S M request session_id now).2)
    deltas ↔ ∀ d ∈ deltas, d = ""
  /-- Nor would more of them come back if the lookup of the class succeeded. -/
  past_lookup : ∀ s context, OneLine s.session_id.toList →
    ContextBuilder.build P ⟨cfg.system_prompt⟩ (s.addMessages (S.clock 0) [userMessage request])
      cfg.context_window {} none = .ok context →
    (Lossless (sseStream (streamTurn P cfg reg S s request).2) deltas ↔ ∀ d ∈ deltas, d = "")

/-- The deltas of a stream come back just when none but empty ones are yielded. -/
theorem deltas_come_back_iff : DeltasComeBack P cfg reg M request session_id now h deltas
    { llm := .ok (.iterator (deltaChunks deltas) none), clock } where
  stands := by
    rw [streamChatResponse_eq, ← filter_ne_empty]
    exact eq_comm
  past_lookup _ _ hid hbuild := streamTurn_lossless_iff rfl hbuild hid

end Whole

/-- A stream of one word. -/
theorem not_lossless_one_word :
    ¬ Lossless (sseStream ((AgentState.start .empty).streamChatResponse .bare
      { system_prompt := "p" } .empty (.deltas ["hi"]) (memorySessionManager 7200)
      { user_id := "u", message := "hello" } "s" 0).2) ["hi"] := by
  decide

end YellowBull
