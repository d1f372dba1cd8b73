import YellowBull.Agent.Context
import YellowBull.Lib.Interleaving
import YellowBull.Lib.Machine

/-!
# Chats that run at once on one session

Calls of `Agent.chat` on one session in one event loop, for any number of calls. A call gives up
control only where it awaits `llm.chat` or `execute_batch`, so that its segments, those of
`Agent.lean`, are the steps of the machine. What the LLM and the tools come back with is part of an
event, and the batch of a call may end in any results, one for each request.

Each segment appends what it records, so that the messages of the session always interleave those of
the calls. But the TOOL messages of a round are recorded in another segment than its ASSISTANT
message, and no lock keeps the other calls out in between. The invariant (`Intact`) holds as long as
none of them records anything there: the log is made of blocks, but for the one at its end whose
call awaits its batch.
-/

namespace YellowBull

open Py CallBlocks Interleaving

/-- Where a call of `chat` is. -/
inductive Phase where
  /-- Not started. -/
  | ready
  /-- Awaits `llm.chat`, with `rest` rounds left after this one. -/
  | awaitsLlm (rest : ℕ) (log : List ExecutionResult)
  /-- Awaits `execute_batch(requests)` for the calls of a reply. -/
  | awaitsBatch (rest : ℕ) (log : List ExecutionResult) (calls : List ToolCall)
      (requests : List ToolCallRequest)
  /-- Returned or raised. -/
  | finished (result : Except Exn ChatResponse)

/-- What makes a call of `chat` go on, with the clock reading of its segment. -/
inductive Event where
  | start (request : ChatRequest) (now : Time)
  | llm (reply : Except Exn LLMResponse) (now : Time)
  | batch (results : List ExecutionResult) (now : Time)
  /-- An exception is thrown into the call while it awaits its batch. -/
  | interrupt (e : Exn)

/-- The calls on one session, by their index, the session that they share, and what each of them has
recorded. -/
structure Chats (ι : Type*) where
  session : Session
  phases : ι → Phase
  sent : ι → List Message

section Segments

variable (P : Platform) (cfg : AgentConfig) (reg : ToolRegistry)

/-- A segment after what it records first: the head of the next round, or the code after the loop.
The result is the session, all that the segment recorded, and where the call is then. -/
def enterRound (s : Session) (now : Time) (recorded : List Message) (log : List ExecutionResult) :
    ℕ → Session × List Message × Phase
  | 0 =>
    (s.addMessages now (recorded ++ [fallbackMessage P log]), recorded ++ [fallbackMessage P log],
      .finished (.ok { content := fallbackText P log, session_id := s.session_id }))
  | rest + 1 =>
    match roundHead P cfg reg (s.addMessages now recorded) with
    | (s, .error e) => (s, recorded, .finished (.error e))
    | (s, .ok _) => (s, recorded, .awaitsLlm rest log)

/-- One segment of a call. -/
def segment (s : Session) : Phase → Event → Option (Session × List Message × Phase)
  | .ready, .start request now =>
    some (enterRound P cfg reg s now [userMessage request] [] cfg.max_chain_depth.toNat)
  | .awaitsLlm rest log, .llm reply now =>
    let recorded := onReply P cfg s.session_id reply
    some (s.addMessages now recorded.1, recorded.1,
      match recorded.2 with
      | .returns response => .finished (.ok response)
      | .raises e => .finished (.error e)
      | .executes calls requests => .awaitsBatch rest log calls requests)
  | .awaitsBatch rest log calls requests, .batch results now =>
    if results.length = requests.length then
      some (enterRound P cfg reg s now (resultMessages calls results) (log ++ results) rest)
    else none
  | .awaitsBatch .., .interrupt e => some (s, [], .finished (.error e))
  | _, _ => none

variable {ι : Type*} [DecidableEq ι]

/-- One segment of the call `i` on the shared session. -/
def Chats.step (c : Chats ι) (a : ι × Event) : Option (Chats ι) :=
  (segment P cfg reg c.session (c.phases a.1) a.2).map fun next =>
    { session := next.1
      phases := Function.update c.phases a.1 next.2.2
      sent := Function.update c.sent a.1 (c.sent a.1 ++ next.2.1) }

/-- No call has started. -/
def Chats.start (s : Session) : Chats ι := ⟨s, fun _ => .ready, fun _ => []⟩

end Segments

/-- The call awaits its batch. -/
def Phase.AwaitsBatch : Phase → Prop
  | .awaitsBatch .. => True
  | _ => False

instance : DecidablePred Phase.AwaitsBatch
  | .awaitsBatch .. => .isTrue trivial
  | .ready | .awaitsLlm .. | .finished _ => .isFalse id

/-- The call has raised. -/
def Phase.Raised : Phase → Prop
  | .finished (.error _) => True
  | _ => False

/-- The call has returned, or it was never made. -/
def Phase.Returned : Phase → Prop
  | .ready => True
  | .finished (.ok _) => True
  | _ => False

instance : DecidablePred Phase.Returned
  | .ready | .finished (.ok _) => .isTrue trivial
  | .awaitsLlm .. | .awaitsBatch .. | .finished (.error _) => .isFalse id

/-- The event makes its call record something: every event does but a failure of the LLM and an
exception that is thrown in. -/
def Event.Records : Event → Prop
  | .llm (.error _) _ => False
  | .interrupt _ => False
  | _ => True

instance : DecidablePred Event.Records
  | .llm (.error _) _ | .interrupt _ => .isFalse id
  | .llm (.ok _) _ | .start .. | .batch .. => .isTrue trivial

/-! ## One segment -/

section Segment

variable {P : Platform} {cfg : AgentConfig} {reg : ToolRegistry}

/-- A message that neither makes nor answers a call. -/
def Message.Plain (m : Message) : Prop := m.answerId = none ∧ m.callIds = []

variable (P cfg reg) in
/-- A segment up to the next await: it appends what it records, with a plain message at most behind
what it recorded first, and does not await a batch. -/
theorem enterRound_spec (s : Session) (now : Time) (recorded : List Message)
    (log : List ExecutionResult) (n : ℕ) :
    ∃ plain, (∀ m ∈ plain, m.Plain) ∧
      (enterRound P cfg reg s now recorded log n).2.1 = recorded ++ plain ∧
      (enterRound P cfg reg s now recorded log n).1.messages =
        s.messages ++ (recorded ++ plain) ∧
      ¬ (enterRound P cfg reg s now recorded log n).2.2.AwaitsBatch := by
  cases n with
  -- No round is left: the fallback is recorded, and it has no call.
  | zero =>
    refine ⟨[fallbackMessage P log], ?_, rfl, by simp [enterRound], id⟩
    intro m hm
    obtain rfl := List.mem_singleton.mp hm
    exact ⟨rfl, rfl⟩
  | succ rest =>
    -- Building the context records nothing, whether it succeeds or not.
    have hmsgs := roundHead_messages P cfg reg (s.addMessages now recorded)
    rw [Session.addMessages_messages] at hmsgs
    unfold enterRound
    generalize roundHead P cfg reg (s.addMessages now recorded) = head at hmsgs
    obtain ⟨s', context⟩ := head
    cases context with
    | error e => exact ⟨[], by simp, by simp, by simpa using hmsgs, id⟩
    | ok call => exact ⟨[], by simp, by simp, by simpa using hmsgs, id⟩

/-- What a segment may do. -/
inductive SegmentSpec (P : Platform) (cfg : AgentConfig) :
    Phase → Event → List Message → Phase → Prop
  /-- It starts the call or ends it, and records plain messages only. -/
  | plain {phase phase' : Phase} {event : Event} {recorded : List Message}
      (hevent : event.Records) (hlive : ¬ phase.Raised) (hphase : ¬ phase.AwaitsBatch)
      (hphase' : ¬ phase'.AwaitsBatch) (hplain : ∀ m ∈ recorded, m.Plain) :
      SegmentSpec P cfg phase event recorded phase'
  /-- The LLM fails. -/
  | fails {rest : ℕ} {log : List ExecutionResult} (e : Exn) (now : Time) :
      SegmentSpec P cfg (.awaitsLlm rest log) (.llm (.error e) now) [] (.finished (.error e))
  /-- The LLM returns tool calls, which are decoded, or raise. -/
  | calls {rest : ℕ} {log : List ExecutionResult} (response : LLMResponse) (now : Time)
      {phase' : Phase} (hphase' : phase'.Raised ∨
        ∃ requests, phase' = .awaitsBatch rest log response.tool_calls requests) :
      SegmentSpec P cfg (.awaitsLlm rest log) (.llm (.ok response) now) [callMessage response]
        phase'
  /-- The batch ends, and its results answer the calls. -/
  | answers {rest : ℕ} {log : List ExecutionResult} {calls : List ToolCall}
      {requests : List ToolCallRequest} (results : List ExecutionResult) (now : Time)
      {plain : List Message} {phase' : Phase} (hplain : ∀ m ∈ plain, m.Plain)
      (hphase' : ¬ phase'.AwaitsBatch) :
      SegmentSpec P cfg (.awaitsBatch rest log calls requests) (.batch results now)
        (resultMessages calls results ++ plain) phase'
  /-- An exception ends the call, and its calls stay open. -/
  | interrupted {rest : ℕ} {log : List ExecutionResult} {calls : List ToolCall}
      {requests : List ToolCallRequest} (e : Exn) :
      SegmentSpec P cfg (.awaitsBatch rest log calls requests) (.interrupt e) []
        (.finished (.error e))

/-- A segment appends what it records, and does one of the five things. -/
theorem segment_spec {s s' : Session} {phase phase' : Phase} {event : Event}
    {recorded : List Message} (h : segment P cfg reg s phase event = some (s', recorded, phase')) :
    s'.messages = s.messages ++ recorded ∧ SegmentSpec P cfg phase event recorded phase' := by
  cases phase with
  | finished result => cases event <;> cases h
  | ready =>
    cases event with
    | llm reply now => cases h
    | batch results now => cases h
    | interrupt e => cases h
    | start request now =>
      obtain ⟨plain, hplain, hrec, hmsgs, hphase⟩ :=
        enterRound_spec P cfg reg s now [userMessage request] [] cfg.max_chain_depth.toNat
      rw [Option.some.inj h] at hrec hmsgs hphase
      obtain rfl : recorded = _ := hrec
      refine ⟨hmsgs, .plain trivial id id hphase fun m hm => ?_⟩
      rcases List.mem_append.mp hm with hm | hm
      · obtain rfl := List.mem_singleton.mp hm
        exact ⟨rfl, rfl⟩
      · exact hplain m hm
  | awaitsLlm rest log =>
    cases event with
    | start request now => cases h
    | batch results now => cases h
    | interrupt e => cases h
    | llm reply now =>
      have hseg := Option.some.inj h
      rcases onReply_cases P cfg s.session_id reply with ⟨e, rfl, hon⟩ |
        ⟨response, rfl, hc, hon⟩ | ⟨response, e, rfl, hc, hb, hon⟩ |
        ⟨response, requests, rfl, hc, hb, hon⟩
      all_goals
        rw [hon] at hseg
        simp only [Prod.mk.injEq] at hseg
        obtain ⟨rfl, rfl, rfl⟩ := hseg
        refine ⟨Session.addMessages_messages _ _ _, ?_⟩
      · exact .fails e now
      · -- The last message of the call makes no tool calls.
        refine .plain trivial id id id fun m hm => ?_
        obtain rfl := List.mem_singleton.mp hm
        exact ⟨rfl, rfl⟩
      · exact .calls response now (.inl trivial)
      · exact .calls response now (.inr ⟨requests, rfl⟩)
  | awaitsBatch rest log calls requests =>
    cases event with
    | start request now => cases h
    | llm reply now => cases h
    | interrupt e =>
      cases h
      exact ⟨by simp, .interrupted e⟩
    | batch results now =>
      simp only [segment] at h
      split_ifs at h
      obtain ⟨plain, hplain, hrec, hmsgs, hphase⟩ :=
        enterRound_spec P cfg reg s now (resultMessages calls results) (log ++ results) rest
      rw [Option.some.inj h] at hrec hmsgs hphase
      obtain rfl : recorded = _ := hrec
      exact ⟨hmsgs, .answers results now hplain hphase⟩

/-- A call that has raised makes no step. -/
theorem SegmentSpec.not_raised {phase phase' : Phase} {event : Event} {recorded : List Message}
    (h : SegmentSpec P cfg phase event recorded phase') : ¬ phase.Raised := by
  cases h with
  | plain _ hlive => exact hlive
  | fails => exact id
  | calls => exact id
  | answers => exact id
  | interrupted => exact id

end Segment

/-! ## Runs -/

section Runs

variable {P : Platform} {cfg : AgentConfig} {reg : ToolRegistry} {ι : Type*}

/-- The calls that a tagged message makes, with their owner. -/
def tagCalls (x : ι × Message) : List (ι × Val) := x.2.callIds.map (Prod.mk x.1)

/-- The call that a tagged message answers, with its owner. -/
def tagAnswer (x : ι × Message) : Option (ι × Val) := x.2.answerId.map (Prod.mk x.1)

/-- A tagged answer makes no calls. -/
theorem tagCalls_of_answer (x : ι × Message) (h : (tagAnswer x).isSome) : tagCalls x = [] := by
  have hcalls := x.2.callIds_of_answer (by simpa [tagAnswer] using h)
  simp [tagCalls, hcalls]

/-- Plain messages are blocks, whoever records them. -/
theorem blocks_of_plain (i : ι) {msgs : List Message} (h : ∀ m ∈ msgs, m.Plain) :
    Blocks tagCalls tagAnswer (msgs.map (Prod.mk i)) := by
  induction msgs with
  | nil => exact .nil
  | cons m msgs ih =>
    obtain ⟨hanswer, hcalls⟩ := h m (by simp)
    exact (Blocks.singleton (by simp [tagAnswer, hanswer]) (by simp [tagCalls, hcalls])).append
      (ih fun m' hm' => h m' (by simp [hm']))

/-- An ASSISTANT message and the results of its calls are a block. -/
theorem blocks_of_results (i : ι) (response : LLMResponse) (results : List ExecutionResult) :
    Blocks tagCalls tagAnswer ((i, callMessage response) ::
      (resultMessages response.tool_calls results).map (Prod.mk i)) := by
  have hanswers : ((resultMessages response.tool_calls results).map (Prod.mk i)).map tagAnswer =
      (tagCalls (i, callMessage response)).map some := by
    have h := congrArg (List.map (Option.map (Prod.mk i)))
      (map_answerId (resultMessages_answers response.tool_calls results))
    simpa [tagAnswer, tagCalls, Message.callIds, Message.calls, callMessage, Function.comp_def]
      using h
  have hblock := Blocks.cons (a := (i, callMessage response)) rfl hanswers .nil
  rwa [List.append_nil] at hblock

variable [DecidableEq ι]

/-- The log behind the messages of `s`, tagged with the calls that recorded it: each of them finds
what it recorded under its tag. -/
structure Chats.Log (s : Session) (c : Chats ι) (log : List (ι × Message)) : Prop where
  messages : c.session.messages = s.messages ++ log.map Prod.snd
  own : ∀ i, proj i log = c.sent i

/-- The property of a state: the log interleaves what the calls recorded, and when all of them have
returned, it is made of blocks, each an ASSISTANT message and the TOOL messages of the same call
that answer it, with nothing in between. -/
structure BlocksIntact (s : Session) (c : Chats ι) : Prop where
  interleaved : ∃ log, c.session.messages = s.messages ++ log ∧ IsInterleaving c.sent log
  blocks : (∀ i, (c.phases i).Returned) →
    ∃ log, c.Log s log ∧ Blocks tagCalls tagAnswer log

/-- A step that does not come between an ASSISTANT message and its TOOL messages: it records
nothing, or no other call awaits its batch. -/
def QuietStep (c : Chats ι) (a : ι × Event) : Prop :=
  a.2.Records → ∀ j, j ≠ a.1 → ¬ (c.phases j).AwaitsBatch

instance (c : Chats Bool) (a : Bool × Event) : Decidable (QuietStep c a) :=
  inferInstanceAs (Decidable (_ → ∀ _ : Bool, _))

/-- What a step does to the log. -/
theorem Chats.step_spec {s : Session} {c c' : Chats ι} {a : ι × Event}
    (h : c.step P cfg reg a = some c') {log : List (ι × Message)} (hlog : c.Log s log) :
    ∃ recorded phase', c'.Log s (log ++ recorded.map (Prod.mk a.1)) ∧
      SegmentSpec P cfg (c.phases a.1) a.2 recorded phase' ∧
      c'.phases = Function.update c.phases a.1 phase' := by
  obtain ⟨⟨s', recorded, phase'⟩, hseg, rfl⟩ := Option.map_eq_some_iff.mp h
  obtain ⟨hmsgs, hspec⟩ := segment_spec hseg
  refine ⟨recorded, phase', ⟨?_, proj_append_tag hlog.own a.1 recorded⟩, hspec, rfl⟩
  show s'.messages = _
  rw [hmsgs, hlog.messages]
  simp [Function.comp_def]

/-- In every reachable state, the session's messages interleave what the calls recorded. -/
theorem chats_interleaved {s : Session} {events : List (ι × Event)} {c : Chats ι}
    (hrun : Machine.run (Chats.step P cfg reg) (Chats.start s) events = some c) :
    ∃ log, c.Log s log := by
  refine Machine.run_invariant (fun c : Chats ι => ∃ log, c.Log s log) ?_
    ⟨[], by simp [Chats.start], fun _ => rfl⟩ (Machine.EveryRunStep.trivial _ _ events) hrun
  rintro c a c' ⟨log, hlog⟩ - hstep
  obtain ⟨recorded, -, hlog', -⟩ := Chats.step_spec hstep hlog
  exact ⟨_, hlog'⟩

/-- The shape of the log in a run of quiet steps, as long as no call has raised: it is made of
blocks, or there is one open block, at its end, whose call awaits its batch. -/
inductive Chats.Shape (c : Chats ι) : List (ι × Message) → Prop
  | closed {log : List (ι × Message)} (hphases : ∀ i, ¬ (c.phases i).AwaitsBatch)
      (hlog : Blocks tagCalls tagAnswer log) : Shape c log
  | opened {log : List (ι × Message)} {j : ι} {rest : ℕ} {results : List ExecutionResult}
      {response : LLMResponse} {requests : List ToolCallRequest}
      (hj : c.phases j = .awaitsBatch rest results response.tool_calls requests)
      (hothers : ∀ i, i ≠ j → ¬ (c.phases i).AwaitsBatch)
      (hlog : Blocks tagCalls tagAnswer log) : Shape c (log ++ [(j, callMessage response)])

/-- The invariant of runs of quiet steps. -/
def Chats.Intact (s : Session) (c : Chats ι) : Prop :=
  ∃ log, c.Log s log ∧ ((∃ i, (c.phases i).Raised) ∨ c.Shape log)

/-- A quiet step keeps the invariant. -/
theorem Chats.intact_step {s : Session} {c c' : Chats ι} {a : ι × Event} (h : c.Intact s)
    (hquiet : QuietStep c a) (hstep : c.step P cfg reg a = some c') : c'.Intact s := by
  obtain ⟨log, hlog, h⟩ := h
  obtain ⟨i, event⟩ := a
  obtain ⟨recorded, phase', hlog', hspec, hphases⟩ := Chats.step_spec hstep hlog
  refine ⟨_, hlog', ?_⟩
  simp only at hspec hphases hquiet
  -- The phases of the step: `i` is in `phase'`, and the others are where they were.
  have hself : c'.phases i = phase' := by rw [hphases, Function.update_self]
  have hother : ∀ k, k ≠ i → c'.phases k = c.phases k := fun k hk => by
    rw [hphases, Function.update_of_ne hk]
  rcases h with ⟨k, hk⟩ | hshape
  · -- A call that has raised stays so.
    refine .inl ⟨k, ?_⟩
    rwa [hother k fun hki => hspec.not_raised (hki ▸ hk)]
  cases hshape with
  | closed hphases₀ hblocks =>
    -- No block is open, and the step may do anything but end a batch.
    have hclosed (hphase' : ¬ phase'.AwaitsBatch) : ∀ k, ¬ (c'.phases k).AwaitsBatch := by
      intro k
      by_cases hki : k = i
      · rwa [hki, hself]
      · rw [hother k hki]
        exact hphases₀ k
    have hi := hphases₀ i
    generalize c.phases i = phase at hspec hi
    cases hspec with
    | plain _ _ _ hphase' hplain =>
      exact .inr (.closed (hclosed hphase') (hblocks.append (blocks_of_plain i hplain)))
    | fails e now => exact .inl ⟨i, by rw [hself]; trivial⟩
    | calls response now hphase' =>
      rcases hphase' with hraised | ⟨requests, rfl⟩
      · exact .inl ⟨i, by rwa [hself]⟩
      · -- The new block is open.
        refine .inr (.opened hself (fun k hk => ?_) hblocks)
        rw [hother k hk]
        exact hphases₀ k
    | answers => exact absurd trivial hi
    | interrupted => exact absurd trivial hi
  | @opened log j rest results response requests hj hothers hblocks =>
    by_cases hij : i = j
    · -- The batch of the open block ends.
      subst hij
      rw [hj] at hspec
      cases hspec with
      | plain _ _ hphase => exact absurd trivial hphase
      | interrupted e => exact .inl ⟨i, by rw [hself]; trivial⟩
      | answers results now hplain hphase' =>
        have hblock := (hblocks.append (blocks_of_results i response results)).append
          (blocks_of_plain i hplain)
        refine .inr (.closed (fun k => ?_) (by simpa using hblock))
        by_cases hki : k = i
        · rwa [hki, hself]
        · rw [hother k hki]
          exact hothers k hki
    · -- Another call may only fail meanwhile.
      have hsilent : ¬ event.Records := fun hrec =>
        hquiet hrec j (Ne.symm hij) (by rw [hj]; trivial)
      generalize c.phases i = phase at hspec
      cases hspec with
      | plain hevent => exact absurd hevent hsilent
      | fails e now => exact .inl ⟨i, by rw [hself]; trivial⟩
      | interrupted e => exact .inl ⟨i, by rw [hself]; trivial⟩
      | calls => exact absurd trivial hsilent
      | answers => exact absurd trivial hsilent

/-- The machine of a session on which no call has started is intact. -/
theorem Chats.intact_start (s : Session) : (Chats.start (ι := ι) s).Intact s :=
  ⟨[], ⟨by simp [Chats.start], fun _ => rfl⟩, .inr (.closed (fun _ => id) .nil)⟩

/-- A machine that is intact, and whose calls have all returned, holds a log made of blocks. -/
theorem Chats.Intact.blocks {c : Chats ι} {s : Session} (hintact : c.Intact s)
    (hreturned : ∀ i, (c.phases i).Returned) :
    ∃ log, c.Log s log ∧ Blocks tagCalls tagAnswer log := by
  obtain ⟨log, hlog, ⟨i, hi⟩ | hshape⟩ := hintact
  · -- No call has raised.
    have hi' := hreturned i
    generalize c.phases i = phase at hi hi'
    cases phase with
    | finished result => cases result <;> contradiction
    | _ => contradiction
  · refine ⟨log, hlog, ?_⟩
    cases hshape with
    | closed _ hblocks => exact hblocks
    | @opened _ j _ _ _ _ hj =>
      -- No call awaits its batch any more.
      have hj' := hreturned j
      rw [hj] at hj'
      exact hj'.elim

/-- In every run in which no call records anything while another one awaits its batch, every state
has the property. -/
theorem chats_intact {s : Session} {events : List (ι × Event)} {c : Chats ι}
    (hquiet : Machine.EveryRunStep (Chats.step P cfg reg) QuietStep (Chats.start s) events)
    (hrun : Machine.run (Chats.step P cfg reg) (Chats.start s) events = some c) :
    BlocksIntact s c := by
  have hintact : c.Intact s := Machine.run_invariant (Chats.Intact s)
    (fun _ _ _ h hquiet hstep => Chats.intact_step h hquiet hstep) (Chats.intact_start s) hquiet
    hrun
  have hblocks := hintact.blocks
  obtain ⟨log, hlog, -⟩ := hintact
  exact ⟨⟨_, hlog.messages, log, rfl, hlog.own⟩, hblocks⟩

end Runs

/-- A run of two chats on a new session. -/
def twoChats (events : List (Bool × Event)) : Option (Chats Bool) :=
  Machine.run (Chats.step .bare { system_prompt := "p" } .empty)
    (Chats.start { session_id := "s" }) events

/-- The first chat has a round, and then the second starts. -/
def oneAfterTheOther : List (Bool × Event) :=
  [(false, .start { user_id := "u", message := "hi" } 0),
    (false, .llm (.ok { tool_calls := [plainCall "c1" "read"] }) 1),
    (false, .batch [{ tool_name := .str "read", status := .success, content := "text" }] 2),
    (false, .llm (.ok { content := some "done" }) 3),
    (true, .start { user_id := "u", message := "and now?" } 4),
    (true, .llm (.ok { content := some "done" }) 5)]

/-- The second chat starts while the first awaits its batch. -/
def oneInBetween : List (Bool × Event) :=
  [(false, .start { user_id := "u", message := "hi" } 0),
    (false, .llm (.ok { tool_calls := [plainCall "c1" "read"] }) 1),
    (true, .start { user_id := "u", message := "and now?" } 2),
    (false, .batch [{ tool_name := .str "read", status := .success, content := "text" }] 3),
    (false, .llm (.ok { content := some "done" }) 4),
    (true, .llm (.ok { content := some "done" }) 5)]

/-- The first run, whose steps are quiet. -/
theorem chats_intact_one_after_the_other :
    ∃ c, twoChats oneAfterTheOther = some c ∧ BlocksIntact { session_id := "s" } c :=
  have hsome : (twoChats oneAfterTheOther).isSome := by decide
  have hrun : twoChats oneAfterTheOther = some ((twoChats oneAfterTheOther).get hsome) := by simp
  have hquiet : Machine.EveryRunStep (Chats.step .bare { system_prompt := "p" } .empty) QuietStep
    (Chats.start { session_id := "s" }) oneAfterTheOther := by decide
  ⟨_, hrun, chats_intact hquiet hrun⟩

/-- The second run has a step for each event. -/
theorem oneInBetween_runs : (twoChats oneInBetween).isSome := by decide

/-- In the second run, the request of one chat stands between the tool call of the other and its
answer. -/
theorem chats_broken :
    ∃ c, twoChats oneInBetween = some c ∧ (∀ i, (c.phases i).Returned) ∧
      ¬ BlocksIntact { session_id := "s" } c := by
  have hreturned : ∀ i, (((twoChats oneInBetween).get oneInBetween_runs).phases i).Returned := by
    decide
  have hmsgs : ((twoChats oneInBetween).get oneInBetween_runs).session.messages =
      userMessage { user_id := "u", message := "hi" } ::
        callMessage { tool_calls := [plainCall "c1" "read"] } ::
        userMessage { user_id := "u", message := "and now?" } ::
        [{ role := .tool, content := some "text", tool_call_id := .str "c1" },
          finalMessage { content := some "done" }, finalMessage { content := some "done" }] := by
    decide
  refine ⟨(twoChats oneInBetween).get oneInBetween_runs, by simp, hreturned, fun h => ?_⟩
  obtain ⟨log, hlog, hblocks⟩ := h.blocks hreturned
  have hlog' := hlog.messages.symm.trans hmsgs
  obtain ⟨x₀, log₁, rfl, -, h₁⟩ := List.map_eq_cons_iff.mp hlog'
  obtain ⟨x₁, log₂, rfl, hx₁, h₂⟩ := List.map_eq_cons_iff.mp h₁
  obtain ⟨x₂, log₃, rfl, hx₂, -⟩ := List.map_eq_cons_iff.mp h₂
  -- Whoever the messages belong to, no answer follows the tool call at once.
  have hopen := hblocks.everyCallAnswered tagCalls_of_answer [x₀] x₁ (x₂ :: log₃) rfl
    (x₁.1, .str "c1") (by simp [tagCalls, hx₁]; decide)
  simp [tagAnswer, hx₂, Message.answerId, userMessage] at hopen

section Runs

variable {P : Platform} {cfg : AgentConfig} {reg : ToolRegistry} {ι : Type*} [DecidableEq ι]

/-! ## A chat on its own -/

/-- A call on its own, from the head of a round on, makes the segments of `chatLoop`. -/
theorem chatLoop_is_run (i : ι) (O : Behaviour) {n d : ℕ} {s : Session} {recorded : List Message}
    {cache : Cache} {log : List ExecutionResult} {c : Chats ι}
    (hsession : c.session = (enterRound P cfg reg s (O.clock (2 * d)) recorded log n).1)
    (hphase : c.phases i = (enterRound P cfg reg s (O.clock (2 * d)) recorded log n).2.2) :
    let run := chatLoop P cfg reg O n d (s.addMessages (O.clock (2 * d)) recorded) cache log
    ∃ events c', (∀ a ∈ events, a.1 = i) ∧
      Machine.run (Chats.step P cfg reg) c events = some c' ∧
      c'.session = run.session ∧ c'.phases i = .finished run.result := by
  induction n generalizing d s recorded cache log c with
  | zero =>
    -- The call has ended in the segment that entered the round.
    refine ⟨[], c, by simp, rfl, ?_, ?_⟩
    · rw [hsession]
      simp [enterRound, chatLoop, Session.addMessages]
    · rw [hphase]
      simp [enterRound, chatLoop]
  | succ n ih =>
    simp only [chatLoop]
    unfold enterRound at hsession hphase
    generalize roundHead P cfg reg (s.addMessages (O.clock (2 * d)) recorded) = head
      at hsession hphase ⊢
    obtain ⟨s₁, context⟩ := head
    cases context with
    | error e => exact ⟨[], c, by simp, rfl, hsession, hphase⟩
    | ok call =>
      simp only at hsession hphase ⊢
      -- The LLM replies, which is an event of its own.
      have hreply : c.step P cfg reg (i, .llm (O.llm d) (O.clock (2 * d + 1))) = some
          { session := s₁.addMessages (O.clock (2 * d + 1))
              (onReply P cfg s₁.session_id (O.llm d)).1
            phases := Function.update c.phases i
              (match (onReply P cfg s₁.session_id (O.llm d)).2 with
                | .returns response => .finished (.ok response)
                | .raises e => .finished (.error e)
                | .executes calls requests => .awaitsBatch n log calls requests)
            sent := Function.update c.sent i
              (c.sent i ++ (onReply P cfg s₁.session_id (O.llm d)).1) } := by
        unfold Chats.step
        rw [hsession, hphase]
        rfl
      cases hon : (onReply P cfg s₁.session_id (O.llm d)).2 with
      | returns response =>
        rw [hon] at hreply
        exact ⟨[(i, _)], _, by simp, by rw [Machine.run, hreply]; rfl, rfl, Function.update_self ..⟩
      | raises e =>
        rw [hon] at hreply
        exact ⟨[(i, _)], _, by simp, by rw [Machine.run, hreply]; rfl, rfl, Function.update_self ..⟩
      | executes calls requests =>
        rw [hon] at hreply
        simp only
        generalize s₁.addMessages (O.clock (2 * d + 1))
          (onReply P cfg s₁.session_id (O.llm d)).1 = s₂ at hreply ⊢
        obtain ⟨c₁, hc₁, hsession₁, hphase₁⟩ : ∃ c₁, c.step P cfg reg
            (i, .llm (O.llm d) (O.clock (2 * d + 1))) = some c₁ ∧ c₁.session = s₂ ∧
            c₁.phases i = .awaitsBatch n log calls requests :=
          ⟨_, hreply, rfl, Function.update_self ..⟩
        rcases awaitBatch_cases P cfg reg O d requests cache with
          ⟨-, hawait⟩ | ⟨e, -, hawait⟩
        · -- The batch ends with the results that the executor gives, and the next round begins.
          simp only [hawait]
          generalize hbatch : cfg.toolExecutor.executeParallel P reg requests (O.tools d)
            (O.schedule d) cache = batch
          have hlen : batch.1.length = requests.length := by
            rw [← hbatch]
            simp [ToolExecutor.executeParallel]
          obtain ⟨c₂, hc₂, hsession₂, hphase₂⟩ : ∃ c₂, c₁.step P cfg reg
              (i, .batch batch.1 (O.clock (2 * (d + 1)))) = some c₂ ∧
              c₂.session = (enterRound P cfg reg s₂ (O.clock (2 * (d + 1)))
                (resultMessages calls batch.1) (log ++ batch.1) n).1 ∧
              c₂.phases i = (enterRound P cfg reg s₂ (O.clock (2 * (d + 1)))
                (resultMessages calls batch.1) (log ++ batch.1) n).2.2 := by
            unfold Chats.step
            rw [hsession₁, hphase₁]
            simp only [segment, hlen, if_true]
            exact ⟨_, rfl, rfl, Function.update_self ..⟩
          obtain ⟨events, c', howner, hrun, hsession', hphase'⟩ :=
            @ih (d + 1) s₂ _ batch.2 _ c₂ hsession₂ hphase₂
          refine ⟨(i, .llm (O.llm d) (O.clock (2 * d + 1))) ::
            (i, .batch batch.1 (O.clock (2 * (d + 1)))) :: events, c', by simpa using howner, ?_,
            hsession', hphase'⟩
          rw [Machine.run, hc₁, Option.bind_some, Machine.run, hc₂, Option.bind_some]
          exact hrun
        · -- The exception is thrown in while the call awaits its batch.
          simp only [hawait]
          obtain ⟨c₂, hc₂, hsession₂, hphase₂⟩ : ∃ c₂,
              c₁.step P cfg reg (i, .interrupt e) = some c₂ ∧ c₂.session = s₂ ∧
                c₂.phases i = .finished (.error e) := by
            unfold Chats.step
            rw [hsession₁, hphase₁]
            exact ⟨_, rfl, rfl, Function.update_self ..⟩
          refine ⟨[(i, .llm (O.llm d) (O.clock (2 * d + 1))), (i, .interrupt e)], c₂, by simp, ?_,
            hsession₂, hphase₂⟩
          rw [Machine.run, hc₁, Option.bind_some, Machine.run, hc₂]
          rfl

/-- `chat` with no other writer is a run of the machine in which its call alone makes steps. -/
theorem chat_is_run (i : ι) (O : Behaviour) (s : Session) (cache : Cache) (request : ChatRequest) :
    ∃ events c, (∀ a ∈ events, a.1 = i) ∧
      Machine.run (Chats.step P cfg reg) (Chats.start s) events = some c ∧
      c.session = (chat P cfg reg O s cache request).session ∧
      c.phases i = .finished (chat P cfg reg O s cache request).result := by
  obtain ⟨c₁, hc₁, hsession, hphase⟩ : ∃ c₁, (Chats.start s).step P cfg reg
      (i, .start request (O.clock 0)) = some c₁ ∧
      c₁.session = (enterRound P cfg reg s (O.clock (2 * 0)) [userMessage request] []
        cfg.max_chain_depth.toNat).1 ∧
      c₁.phases i = (enterRound P cfg reg s (O.clock (2 * 0)) [userMessage request] []
        cfg.max_chain_depth.toNat).2.2 := ⟨_, rfl, rfl, Function.update_self ..⟩
  obtain ⟨events, c, howner, hrun, hsession', hphase'⟩ :=
    chatLoop_is_run (P := P) i O hsession hphase
  refine ⟨(i, .start request (O.clock 0)) :: events, c, by simpa using howner, ?_, hsession',
    hphase'⟩
  rw [Machine.run, hc₁, Option.bind_some]
  exact hrun

end Runs

end YellowBull
