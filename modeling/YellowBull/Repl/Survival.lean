import YellowBull.Repl.WorkDir

/-!
# What the command line survives

Which lines `run_cli` comes back from. The commands are handled outside of its `try` block, so that
whatever a handler raises ends the program: `/sessions` does on every call, as it asks a dataclass
for `model_dump`, and a command that prints data does where the data is not well formed as markup.
The block around a chat catches every `Exception`, but its handler prints the text of the exception
as markup too.

`Repl.Survivable` is the condition on the line and the state before it, and `repl_survives_iff` says
that a run survives exactly while its steps meet it.
-/

namespace YellowBull

open Py

variable (C : Console) (P : Platform) (cfg : AgentConfig) (reg : ToolRegistry)

/-- The markup of the text is well formed. -/
def Console.Accepts (text : String) : Prop := C.print text = .ok ()

/-- An exception that the handler around a chat gets over. -/
def Console.GetsOver (e : Exn) : Prop := e.IsException ∧ C.Accepts (failedText e)

/-- A path that `/workdir` gets over: `os.makedirs` raises an `OSError` if anything, and the message
about the directory is well formed. -/
def Line.Settles (line : Line) (path : String) : Prop :=
  ∃ dir, line.abspath path = .ok dir ∧
    ((line.Available dir ∧ C.Accepts (changedDirText dir)) ∨
      ∃ text, line.isdir dir = false ∧ line.makedirs dir = .osError text ∧
        C.Accepts (noDirText dir text))

/-- The condition on a line, and on the state before it. -/
def Repl.Survivable (repl : Repl) (line : Line) : Prop :=
  match line.command C with
  | .workdir path =>
    (repl.work_dir ≠ "" → C.Accepts (currentDirText repl.work_dir)) ∧
      ∀ p ∈ path, line.Settles C p
  | .sessions => False
  | .history => ∀ m ∈ repl.shownMessages, C.Accepts (historyLine m)
  | .unknown cmd => C.Accepts (unknownText cmd)
  | .message text =>
    match (repl.agent.chat P cfg reg cliSessions (repl.request text) line.session_id line.now
      line.behaviour).2 with
    | .error e => C.GetsOver e
    | .ok response => ∀ e, C.printMarkdown (shownContent response) = .error e → C.GetsOver e
  | .blank | .quit | .help | .new | .clear => True

/-- The loop is left where the line asks for it, and is back at the prompt after any other line. -/
def Repl.Survives (repl : Repl) (line : Line) : Prop :=
  (line.command C = .quit ∧ repl.pass C P cfg reg line = .ok none) ∨
    (line.command C ≠ .quit ∧ ∃ repl', repl.pass C P cfg reg line = .ok (some repl'))

variable {C P cfg reg} {repl : Repl} {line : Line}

/-! ## The handlers -/

/-- A text that is printed before the rest. -/
theorem exists_print_then {α : Type} {text : String} {x : Except Exn α} :
    (∃ a, (do C.print text; x) = .ok a) ↔ C.Accepts text ∧ ∃ a, x = .ok a := by
  refine Except.exists_bind_eq_ok.trans ⟨?_, ?_⟩
  · rintro ⟨u, htext, hx⟩
    exact ⟨htext, hx⟩
  · rintro ⟨htext, hx⟩
    exact ⟨(), htext, hx⟩

/-- A text that is printed last. -/
theorem exists_print_return {text : String} :
    (∃ repl', (do C.print text; return repl) = Except.ok repl') ↔ C.Accepts text :=
  exists_print_then.trans (and_iff_left ⟨repl, rfl⟩)

/-- Texts that are printed one after another. -/
theorem printAll_eq_ok {texts : List String} :
    C.printAll texts = .ok () ↔ ∀ text ∈ texts, C.Accepts text := by
  induction texts with
  | nil => simp [Console.printAll]
  | cons text texts ih =>
    rw [Console.printAll, List.forall_mem_cons, ← ih]
    constructor
    · exact print_then
    · rintro ⟨htext, htexts⟩
      exact Except.bind_eq_ok.mpr ⟨(), htext, htexts⟩

/-- The handler around a chat. -/
theorem exists_failed {e : Exn} : (∃ repl', repl.failed C e = .ok repl') ↔ C.GetsOver e := by
  unfold Repl.failed Console.GetsOver
  by_cases he : e.IsException
  · rw [if_pos he, exists_print_return]
    exact (and_iff_right he).symm
  · simp [he]

/-- A change of the directory. -/
theorem exists_changeDir {dir : String} :
    (∃ repl', repl.changeDir C dir = .ok repl') ↔ C.Accepts (changedDirText dir) :=
  exists_print_return

/-- `/workdir` with a path. -/
theorem exists_chooseDir {path : String} :
    (∃ repl', repl.chooseDir C path line = .ok repl') ↔ line.Settles C path := by
  unfold Repl.chooseDir Line.Settles
  refine Except.exists_bind_eq_ok.trans (exists_congr fun dir => and_congr_right fun _ => ?_)
  -- Each way out of the `try` block of `makedirs` prints another text.
  by_cases hisdir : line.isdir dir = true
  · have havailable : line.Available dir := Or.inl hisdir
    simp [hisdir, havailable, exists_changeDir]
  · rw [if_neg hisdir]
    have hisdir : line.isdir dir = false := by simpa using hisdir
    cases hmake : line.makedirs dir with
    | made =>
      have havailable : line.Available dir := Or.inr hmake
      simp [havailable, exists_changeDir]
    | osError text =>
      have hnot : ¬ line.Available dir := by simp [Line.Available, hisdir, hmake]
      refine exists_print_return.trans ?_
      simp [hnot, hisdir]
    | raises e =>
      have hnot : ¬ line.Available dir := by simp [Line.Available, hisdir, hmake]
      simp [hnot]

/-- The part of `/workdir` that shows the directory. -/
theorem showDir_eq_ok : repl.showDir C = .ok () ↔
    (repl.work_dir ≠ "" → C.Accepts (currentDirText repl.work_dir)) := by
  unfold Repl.showDir Console.Accepts
  by_cases hdir : repl.work_dir = ""
  · simp [hdir]
  · simp [hdir]

/-- `/workdir`. -/
theorem exists_workdir {path : Option String} : (∃ repl', repl.workdir C path line = .ok repl') ↔
    (repl.work_dir ≠ "" → C.Accepts (currentDirText repl.work_dir)) ∧
      ∀ p ∈ path, line.Settles C p := by
  rw [← showDir_eq_ok]
  refine Except.exists_bind_eq_ok.trans ⟨?_, ?_⟩
  · rintro ⟨u, hshow, hpath⟩
    refine ⟨hshow, ?_⟩
    rintro p rfl
    exact exists_chooseDir.mp hpath
  · rintro ⟨hshow, hpath⟩
    refine ⟨(), hshow, ?_⟩
    cases path with
    | none => exact ⟨repl, rfl⟩
    | some p => exact exists_chooseDir.mpr (hpath p rfl)

/-- `/history`. -/
theorem exists_history : (∃ repl', repl.history C = .ok repl') ↔
    ∀ m ∈ repl.shownMessages, C.Accepts (historyLine m) := by
  rw [← List.forall_mem_map, ← printAll_eq_ok]
  refine Except.exists_bind_eq_ok.trans ⟨?_, ?_⟩
  · rintro ⟨u, hprint, -⟩
    exact hprint
  · intro hprint
    exact ⟨(), hprint, repl, rfl⟩

/-- A chat. -/
theorem exists_message {text : String} :
    (∃ repl', repl.message C P cfg reg text line = .ok repl') ↔
      match (repl.agent.chat P cfg reg cliSessions (repl.request text) line.session_id line.now
        line.behaviour).2 with
      | .error e => C.GetsOver e
      | .ok response => ∀ e, C.printMarkdown (shownContent response) = .error e → C.GetsOver e := by
  unfold Repl.message
  generalize repl.agent.chat P cfg reg cliSessions (repl.request text) line.session_id line.now
    line.behaviour = out
  obtain ⟨agent, e | response⟩ := out
  · exact exists_failed
  · simp only
    cases hprint : C.printMarkdown (shownContent response) with
    | ok u => simp
    | error e =>
      -- The answer could not be shown, which the handler of the chat catches as well.
      refine exists_failed.trans ⟨fun h e' he' => ?_, fun h => h e rfl⟩
      obtain rfl := Except.error.inj he'
      exact h

/-! ## The loop -/

/-- A handler that gets back. -/
theorem exists_map_some {x : Except Exn Repl} :
    (∃ repl', x.map some = .ok (some repl')) ↔ ∃ repl', x = .ok repl' :=
  exists_congr fun repl' => ⟨map_some_eq_ok, fun h => by rw [h]; rfl⟩

/-- A pass of the loop survives exactly where the condition is met. -/
theorem Repl.Governed.survives_iff (h : repl.Governed) :
    repl.Survives C P cfg reg line ↔ repl.Survivable C P cfg reg line := by
  unfold Repl.Survives Repl.Survivable Repl.pass
  -- The commands that print nothing but fixed texts survive, and `/sessions` lists the session that
  -- the invariant has.
  cases line.command C with
  | quit => simp
  | workdir path => simp [exists_map_some, exists_workdir]
  | sessions => simp [h.sessions, Except.map]
  | history => simp [exists_map_some, exists_history]
  | unknown cmd =>
    simp only [reduceCtorEq, false_and, ne_eq, not_false_eq_true, true_and, false_or,
      exists_map_some]
    exact exists_print_return
  | message text => simp [exists_map_some, exists_message]
  | _ => simp

variable (C P cfg reg) in
/-- Wherever a run gets to the prompt, the next line is survived. -/
def SurvivesEveryLine (lines : List Line) : Prop :=
  ∀ pre line, pre ++ [line] <+: lines → ∀ repl,
    Machine.run (Stage.step C P cfg reg) .asking pre = some (.prompt repl) →
      repl.Survives C P cfg reg line

variable (C P cfg reg) in
/-- Wherever a run gets to the prompt, the next line meets the condition. -/
def EveryLineSurvivable (lines : List Line) : Prop :=
  Machine.EveryRunStep (Stage.step C P cfg reg)
    (fun stage line => ∀ repl, stage = .prompt repl → repl.Survivable C P cfg reg line)
    .asking lines

/-- The command line survives just the runs whose lines all meet the condition. -/
theorem repl_survives_iff {lines : List Line} (hlines : ∀ line ∈ lines, line.Regular) :
    SurvivesEveryLine C P cfg reg lines ↔ EveryLineSurvivable C P cfg reg lines := by
  have hgoverned {pre : List Line} {line : Line} (hpre : pre ++ [line] <+: lines) {repl : Repl}
      (hrun : Machine.run (Stage.step C P cfg reg) .asking pre = some (.prompt repl)) :
      repl.Governed := by
    have hmem : ∀ line ∈ pre, line.Regular := fun line hline =>
      hlines line (hpre.subset (List.mem_append_left _ hline))
    exact (stage_governed_of_run hmem hrun).1
  constructor
  · intro h
    -- Where the lines so far were survived, the run is at the prompt, and `h` is about its state.
    refine .of_prefixes fun pre line stage hpre hrun repl hstage => ?_
    subst hstage
    exact (hgoverned hpre hrun).survives_iff.mp (h pre line hpre repl hrun)
  · intro h pre line hpre repl hrun
    have hrepl := hgoverned hpre hrun
    obtain ⟨post, rfl⟩ := hpre
    exact hrepl.survives_iff.mpr (h.left.last hrun repl rfl)

/-- A start, a new session and a message. -/
theorem repl_survives_iff_typed :
    SurvivesEveryLine .plain .bare { system_prompt := "p" } .empty
        [.typed "/w" "a", .typed "/new" "b", .typed "hi" "c"] ↔
      EveryLineSurvivable .plain .bare { system_prompt := "p" } .empty
        [.typed "/w" "a", .typed "/new" "b", .typed "hi" "c"] := by
  refine repl_survives_iff fun line hline => ?_
  simp only [List.mem_cons, List.not_mem_nil, or_false] at hline
  rcases hline with rfl | rfl | rfl
  all_goals exact Line.typed_regular _ (by decide)

/-- `/sessions` as the first command ends the program, on a console that prints every text. -/
theorem sessions_ends_repl :
    ¬ SurvivesEveryLine .plain .bare { system_prompt := "p" } .empty
        [.typed "/w" "a", .typed "/sessions" "b"] := by
  intro h
  have hlast := h [.typed "/w" "a"] (.typed "/sessions" "b") List.prefix_rfl _ rfl
  rcases hlast with ⟨hquit, -⟩ | ⟨-, repl', hpass⟩
  · exact absurd hquit (by decide)
  · cases hpass

end YellowBull
