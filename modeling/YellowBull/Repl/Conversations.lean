import YellowBull.Api.Histories
import YellowBull.Repl.WorkDir

/-!
# The conversations of the command line

`run_cli` is a client of the session store: each of its passes makes the operations of
`Stage.operations`, so that a run of lines leaves the agent as these operations do
(`agent_of_run`). What is known of any run of operations then holds behind the prompt as well.

What the user has typed is a list of texts for each conversation (`Conversations`), of which the
start and `/new` begin one and any line that is no command goes to the last. The sessions of the
agent are just these conversations after every run (`repl_keeps_conversations`): a text that the
chat failed on is kept, and no command loses one.
-/

namespace YellowBull

open Py

/-! ## What the user has typed -/

/-- The texts of each conversation, by the id of its session, and the current one, if any. -/
structure Conversations where
  texts : Logs
  current : Option String

namespace Conversations

/-- Before a directory is chosen. -/
def start : Conversations := ⟨fun _ => none, none⟩

/-- A new conversation, in which nothing is said yet. -/
def begin (c : Conversations) (id : String) : Conversations :=
  ⟨Function.update c.texts id (some []), some id⟩

/-- A text goes to the conversation. -/
def say (c : Conversations) (id text : String) : Conversations :=
  { c with texts := Function.update c.texts id ((c.texts id).map (· ++ [text])) }

/-- A line is typed. -/
def hear (C : Console) (c : Conversations) (line : Line) : Conversations :=
  match c.current with
  | none => if (Stage.asking.chosen C line).isSome then c.begin line.session_id else c
  | some id =>
    match line.command C with
    | .new => c.begin line.session_id
    | .message text => c.say id text
    | _ => c

end Conversations

/-! ## The operations of a line -/

/-- The agent behind the prompt. `run_cli` has made it before it asks for the directory. -/
def Stage.agent : Stage → AgentState MemoryStore
  | .asking => .start .empty
  | .prompt repl => repl.agent

/-- The conversations that the agent has. -/
def Stage.conversations : Stage → Conversations
  | .asking => .start
  | .prompt repl => ⟨repl.agent.logs, some repl.current_session_id⟩

/-- The operations on the store that a line comes to. -/
def Stage.operations (C : Console) (stage : Stage) (line : Line) : List Operation :=
  match stage with
  | .asking => (stage.chosen C line).toList.map (.newSession cliUser line.session_id line.now ·)
  | .prompt repl =>
    match line.command C with
    | .workdir path =>
      (path.bind line.choose).toList.map (.workdir repl.current_session_id ·)
    | .new => [.newSession cliUser line.session_id line.now repl.work_dir]
    | .message text => [.chat (repl.request text) line.session_id line.now line.behaviour]
    | _ => []

section Passes

variable {C : Console} {P : Platform} {cfg : AgentConfig} {reg : ToolRegistry}
variable {repl repl' : Repl} {line : Line}

variable (P cfg reg) in
/-- The agent after some operations. -/
def AgentState.after (h : AgentState MemoryStore) (ops : List Operation) : AgentState MemoryStore :=
  Machine.state (AgentState.step P cfg reg cliSessions) h ops

/-- `/workdir` sets the directory of the current session, if one is chosen. -/
theorem Repl.Governed.workdir_agent (h : repl.Governed) {path : Option String}
    (hpass : repl.workdir C path line = .ok repl') :
    repl'.agent = repl.agent.after P cfg reg
        ((path.bind line.choose).toList.map (.workdir repl.current_session_id ·)) ∧
      repl'.current_session_id = repl.current_session_id := by
  -- The change itself, behind the message about it.
  have hchange {dir : String} (hdir : repl.changeDir C dir = .ok repl') :
      repl'.agent = repl.agent.after P cfg reg [.workdir repl.current_session_id dir] ∧
        repl'.current_session_id = repl.current_session_id := by
    obtain ⟨-, hdir⟩ := print_then hdir
    rw [if_neg h.id_ne] at hdir
    obtain rfl := Except.ok.inj hdir
    exact ⟨rfl, rfl⟩
  obtain ⟨-, -, hpass⟩ := Except.bind_eq_ok.mp hpass
  cases path with
  | none =>
    obtain rfl := Except.ok.inj hpass
    exact ⟨rfl, rfl⟩
  | some path =>
    obtain ⟨dir, habspath, hpass⟩ := Except.bind_eq_ok.mp hpass
    simp only [Option.bind_some, Line.choose, habspath]
    by_cases hisdir : line.isdir dir = true
    · have havailable : line.Available dir := Or.inl hisdir
      rw [if_pos hisdir] at hpass
      rw [if_pos havailable]
      exact hchange hpass
    · rw [if_neg hisdir] at hpass
      cases hmake : line.makedirs dir with
      | made =>
        have havailable : line.Available dir := Or.inr hmake
        rw [hmake] at hpass
        rw [if_pos havailable]
        exact hchange hpass
      | osError text =>
        have hnot : ¬ line.Available dir := by simp [Line.Available, hisdir, hmake]
        rw [hmake] at hpass
        obtain ⟨-, hpass⟩ := print_then hpass
        obtain rfl := Except.ok.inj hpass
        rw [if_neg hnot]
        exact ⟨rfl, rfl⟩
      | raises e =>
        rw [hmake] at hpass
        cases hpass

/-- An answer names the current session. -/
theorem Repl.Governed.response_session_id (h : repl.Governed) {text : String}
    {response : ChatResponse}
    (hresponse : (repl.agent.chat P cfg reg cliSessions (repl.request text) line.session_id line.now
      line.behaviour).2 = .ok response) : response.session_id = repl.current_session_id := by
  obtain ⟨session, -, hid, -, hfound⟩ := h.getOrCreateSession text line.session_id line.now
  unfold AgentState.chat at hresponse
  simp only [hfound] at hresponse
  exact (chat_response_session_id hresponse).trans hid

/-- A message is a chat, whether it is answered, fails, or its answer cannot be shown. -/
theorem Repl.Governed.message_agent (h : repl.Governed) {text : String}
    (hpass : repl.message C P cfg reg text line = .ok repl') :
    repl'.agent = repl.agent.after P cfg reg
        [.chat (repl.request text) line.session_id line.now line.behaviour] ∧
      repl'.current_session_id = repl.current_session_id := by
  have hresult := @Repl.Governed.response_session_id P cfg reg repl line h text
  have hafter : repl.agent.after P cfg reg
      [.chat (repl.request text) line.session_id line.now line.behaviour] =
      (repl.agent.chat P cfg reg cliSessions (repl.request text) line.session_id line.now
        line.behaviour).1 := rfl
  rw [hafter]
  unfold Repl.message at hpass
  generalize repl.agent.chat P cfg reg cliSessions (repl.request text) line.session_id line.now
    line.behaviour = out at hpass hresult ⊢
  -- Whether the agent fails, answers, or its answer cannot be printed, the chat has been made.
  obtain ⟨agent, e | response⟩ := out
  · obtain rfl := Repl.failed_eq_ok hpass
    exact ⟨rfl, rfl⟩
  · have hid : response.session_id = repl.current_session_id := hresult rfl
    simp only [hid] at hpass
    cases hprint : C.printMarkdown (shownContent response) with
    | ok u =>
      rw [hprint] at hpass
      obtain rfl := Except.ok.inj hpass
      exact ⟨rfl, rfl⟩
    | error e =>
      rw [hprint] at hpass
      obtain rfl := Repl.failed_eq_ok hpass
      exact ⟨rfl, rfl⟩

/-- A pass of the loop comes to its operations, and only `/new` changes the current session. -/
theorem Repl.Governed.pass_agent (h : repl.Governed)
    (hpass : repl.pass C P cfg reg line = .ok (some repl')) :
    repl'.agent = repl.agent.after P cfg reg ((Stage.prompt repl).operations C line) ∧
      repl'.current_session_id =
        if line.command C = .new then line.session_id else repl.current_session_id := by
  unfold Repl.pass at hpass
  unfold Stage.operations
  -- `/workdir`, `/new` and a message make an operation, the others leave the agent as it is.
  cases hcmd : line.command C with
  | quit =>
    rw [hcmd] at hpass
    cases hpass
  | workdir path =>
    rw [hcmd] at hpass
    exact h.workdir_agent (map_some_eq_ok hpass)
  | new =>
    rw [hcmd] at hpass
    obtain rfl := Option.some.inj (Except.ok.inj hpass)
    rw [h.new]
    exact ⟨rfl, (if_pos rfl).symm⟩
  | sessions =>
    rw [hcmd] at hpass
    have hsessions := map_some_eq_ok hpass
    rw [h.sessions] at hsessions
    cases hsessions
  | history =>
    rw [hcmd] at hpass
    obtain ⟨-, -, hhistory⟩ := Except.bind_eq_ok.mp (map_some_eq_ok hpass)
    obtain rfl := Except.ok.inj hhistory
    exact ⟨rfl, rfl⟩
  | unknown cmd =>
    rw [hcmd] at hpass
    obtain ⟨-, hunknown⟩ := print_then (map_some_eq_ok hpass)
    obtain rfl := Except.ok.inj hunknown
    exact ⟨rfl, rfl⟩
  | message text =>
    rw [hcmd] at hpass
    exact h.message_agent (map_some_eq_ok hpass)
  | _ =>
    rw [hcmd] at hpass
    obtain rfl := Option.some.inj (Except.ok.inj hpass)
    exact ⟨rfl, rfl⟩

/-- What a line that the program goes on from does to the agent, and to the current session. -/
theorem Stage.agent_of_step {stage stage' : Stage} {dirs : List String} (h : stage.Governed dirs)
    (hstep : stage.step C P cfg reg line = some stage') :
    stage'.agent = stage.agent.after P cfg reg (stage.operations C line) ∧
      stage'.conversations.current = (stage.conversations.hear C line).current := by
  -- The pass comes through, since there is a next stage.
  have hpass : stage.pass C P cfg reg line = .ok (some stage') := by
    unfold Stage.step at hstep
    cases hnext : stage.pass C P cfg reg line with
    | error e => simp [hnext] at hstep
    | ok next =>
      rw [hnext] at hstep
      exact congrArg Except.ok hstep
  cases stage with
  | asking =>
    have hhear : Stage.asking.conversations.hear C line =
        if (Stage.asking.chosen C line).isSome then Conversations.start.begin line.session_id
        else Conversations.start := rfl
    rw [hhear]
    unfold Stage.operations
    -- Before the first directory there is no session; the end of `_ask_work_dir` makes it.
    rcases Line.askWorkDir_cases hpass with ⟨rfl, hnone⟩ | ⟨dir, hchosen, hwelcome⟩
    · rw [hnone]
      exact ⟨rfl, rfl⟩
    · obtain ⟨-, hwelcome⟩ := print_then hwelcome
      obtain rfl := Option.some.inj (Except.ok.inj hwelcome)
      rw [hchosen]
      exact ⟨rfl, rfl⟩
  | prompt repl =>
    obtain ⟨next, hnext, hstage⟩ := Except.map_eq_ok.mp hpass
    obtain ⟨repl', rfl, rfl⟩ := Option.map_eq_some_iff.mp hstage
    obtain ⟨hagent, hcurrent⟩ := h.1.pass_agent hnext
    refine ⟨hagent, ?_⟩
    show some repl'.current_session_id = _
    rw [hcurrent]
    -- No command but `/new` changes the conversation, and `pass_agent` has said which.
    unfold Conversations.hear Stage.conversations
    simp only
    cases hcmd : line.command C <;> rfl

/-- The texts of the conversations are what is said in the stored sessions. -/
theorem Stage.conversations_texts (stage : Stage) :
    stage.conversations.texts = stage.agent.logs := by
  cases stage with
  | asking => rfl
  | prompt repl => rfl

/-- The current session is stored, so that its conversation is there. -/
theorem Repl.Governed.isSome_logs (h : repl.Governed) :
    (repl.agent.logs repl.current_session_id).isSome := by
  obtain ⟨session, hget, -⟩ := h.current
  have hstored : repl.agent.world.store.get? repl.current_session_id = some session := hget
  simp [AgentState.logs, memoryContents, dictView, hstored]

/-- A line makes of the conversations what it says. -/
theorem Stage.conversations_of_step {stage stage' : Stage} {dirs : List String}
    (h : stage.Governed dirs) (hkeyed : stage.agent.world.Keyed)
    (hstep : stage.step C P cfg reg line = some stage') :
    stage'.conversations = stage.conversations.hear C line := by
  obtain ⟨hagent, hcurrent⟩ := Stage.agent_of_step h hstep
  -- What an operation does to the logs.
  have hlog (op : Operation) : (stage.agent.after P cfg reg [op]).logs =
      op.log (stage.agent.step P cfg reg cliSessions op).2 stage.agent.logs :=
    logs_step P cfg reg 7200 hkeyed op
  have htexts : stage'.agent.logs = (stage.conversations.hear C line).texts := by
    rw [hagent]
    cases stage with
    | asking =>
      unfold Stage.operations Conversations.hear
      cases hchosen : Stage.asking.chosen C line with
      | none => rfl
      | some dir => exact hlog (.newSession cliUser line.session_id line.now dir)
    | prompt repl =>
      unfold Stage.operations Conversations.hear Stage.conversations
      simp only
      cases hcmd : line.command C with
      | workdir path =>
        simp only
        cases path.bind line.choose with
        | none => rfl
        | some dir => exact hlog (.workdir repl.current_session_id dir)
      | new => exact hlog (.newSession cliUser line.session_id line.now repl.work_dir)
      | message text =>
        refine (hlog (.chat (repl.request text) line.session_id line.now line.behaviour)).trans ?_
        have hnamed : (truthy? (repl.request text).session_id).filter
            (fun id => ((Stage.prompt repl).agent.logs id).isSome) =
              some repl.current_session_id := by
          show (truthy? (some repl.current_session_id)).filter _ = _
          rw [h.1.truthy_id]
          exact if_pos h.1.isSome_logs
        unfold Operation.log
        simp only
        rw [hnamed]
        rfl
      | _ => rfl
  rw [← Stage.conversations_texts] at htexts
  cases hc : stage'.conversations with
  | mk texts current =>
    cases hc' : stage.conversations.hear C line with
    | mk texts' current' =>
      rw [hc, hc'] at htexts hcurrent
      exact congrArg₂ Conversations.mk htexts hcurrent

/-! ## Runs -/

variable (C P cfg reg) in
/-- The operations of a run of lines, in order. -/
def lineOperations (lines : List Line) : List Operation :=
  Machine.trace (Stage.step C P cfg reg) (Stage.operations C) .asking lines

/-- A run of lines leaves the agent as its operations do. -/
theorem agent_of_run {lines : List Line} (hlines : ∀ line ∈ lines, line.Regular) {stage : Stage}
    (hrun : Machine.run (Stage.step C P cfg reg) .asking lines = some stage) :
    stage.agent = afterOperations P cfg reg 7200 (lineOperations C P cfg reg lines) := by
  have hstart : (∃ dirs, Stage.asking.Governed dirs) ∧
      Stage.asking.agent = afterOperations P cfg reg 7200 [] := ⟨⟨[], rfl⟩, rfl⟩
  refine (Machine.run_trace_invariant
    (fun (stage : Stage) ops => (∃ dirs, stage.Governed dirs) ∧
      stage.agent = afterOperations P cfg reg 7200 ops) ?_ hstart
    (Machine.EveryRunStep.of_forall (Stage.step C P cfg reg) hlines .asking) hrun).2
  rintro stage ops line stage' ⟨⟨dirs, hgoverned⟩, hagent⟩ hline hstep
  refine ⟨⟨_, hgoverned.step hline hstep⟩, ?_⟩
  calc stage'.agent
      = stage.agent.after P cfg reg (stage.operations C line) :=
        (Stage.agent_of_step hgoverned hstep).1
    _ = afterOperations P cfg reg 7200 (ops ++ stage.operations C line) := by
        rw [hagent]
        exact (Machine.state_append ..).symm

/-- The agent of a run has its sessions under their ids. -/
theorem keyed_of_run {lines : List Line} (hlines : ∀ line ∈ lines, line.Regular) {stage : Stage}
    (hrun : Machine.run (Stage.step C P cfg reg) .asking lines = some stage) :
    stage.agent.world.Keyed := by
  rw [agent_of_run hlines hrun]
  exact (inTurns_run P cfg reg 7200 _).1

/-- After a run of lines, the conversations are what the lines say. -/
theorem conversations_of_run {lines : List Line} (hlines : ∀ line ∈ lines, line.Regular)
    {stage : Stage} (hrun : Machine.run (Stage.step C P cfg reg) .asking lines = some stage) :
    stage.conversations = lines.foldl (Conversations.hear C) .start := by
  -- The last line comes behind a run that stands at a stage which is governed.
  induction lines using List.reverseRecOn generalizing stage with
  | nil =>
    obtain rfl := Option.some.inj hrun
    rfl
  | append_singleton lines line ih =>
    have hregular : ∀ line ∈ lines, line.Regular := fun line hline => hlines line (by simp [hline])
    rw [Machine.run_append] at hrun
    obtain ⟨stage₀, hrun₀, hlast⟩ := Option.bind_eq_some_iff.mp hrun
    obtain ⟨stage₁, hstep, hlast⟩ := Option.bind_eq_some_iff.mp hlast
    obtain rfl := Option.some.inj hlast
    calc stage₁.conversations
        = stage₀.conversations.hear C line :=
          Stage.conversations_of_step (stage_governed_of_run hregular hrun₀)
            (keyed_of_run hregular hrun₀) hstep
      _ = (lines ++ [line]).foldl (Conversations.hear C) .start := by
          rw [List.foldl_append, ih hregular hrun₀]
          rfl

/-- After any run of lines, the agent has just the conversations that were typed: the session of
each, under its id, holds the texts of its lines as USER messages, in order and each once, also
where the chat raised or its answer could not be shown, and the turns that they led to. The texts go
to the conversation that the start or the last `/new` began, and nothing else is stored. -/
theorem repl_keeps_conversations {lines : List Line} (hlines : ∀ line ∈ lines, line.Regular)
    {stage : Stage} (hrun : Machine.run (Stage.step C P cfg reg) .asking lines = some stage) :
    stage.conversations = lines.foldl (Conversations.hear C) .start ∧
      ∀ id s, memoryContents.view stage.agent.world id = some s →
        s.session_id = id ∧ s.InTurns := by
  refine ⟨conversations_of_run hlines hrun, ?_⟩
  intro id s hs
  rw [agent_of_run hlines hrun] at hs
  obtain ⟨hkeyed, hturns⟩ := inTurns_run P cfg reg 7200 (lineOperations C P cfg reg lines)
  obtain ⟨r, hr, rfl⟩ := Option.map_eq_some_iff.mp hs
  exact ⟨(hkeyed id r hr).2, hturns id _ hs⟩

end Passes

/-- A conversation, and another one in which the LLM fails. -/
def typedLines : List Line :=
  [.typed "/w" "a", .typed "hi" "b", .typed "/new" "c",
    { Line.typed " and now? " "d" with behaviour := .scripted [] (.ok {}) }]

example : (typedLines.foldl (Conversations.hear .plain) .start).texts "c" = some ["and now?"] := by
  decide

/-- The agent after these lines. -/
theorem repl_keeps_conversations_typed : ∃ stage,
    Machine.run (Stage.step .plain .bare { system_prompt := "p" } .empty) .asking typedLines =
      some stage ∧
    stage.conversations = typedLines.foldl (Conversations.hear .plain) .start ∧
    ∀ id s, memoryContents.view stage.agent.world id = some s → s.session_id = id ∧ s.InTurns := by
  have hsome : (Machine.run (Stage.step .plain .bare { system_prompt := "p" } .empty) .asking
    typedLines).isSome := by decide
  obtain ⟨stage, hrun⟩ := Option.isSome_iff_exists.mp hsome
  refine ⟨stage, hrun, repl_keeps_conversations (fun line hline => ?_) hrun⟩
  simp only [typedLines, List.mem_cons, List.not_mem_nil, or_false] at hline
  rcases hline with rfl | rfl | rfl | rfl
  · exact Line.typed_regular _ (by decide)
  · exact Line.typed_regular _ (by decide)
  · exact Line.typed_regular _ (by decide)
  · have hregular : (Line.typed " and now? " "d").Regular := Line.typed_regular _ (by decide)
    exact ⟨hregular.session_id_ne, hregular.abspath_ne⟩

end YellowBull
