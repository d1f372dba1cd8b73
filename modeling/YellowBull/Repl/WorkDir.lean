import YellowBull.Agent.Exits
import YellowBull.ContextBuilder.Turns
import YellowBull.Lib.Machine
import YellowBull.Repl
import YellowBull.SessionManager.Interface

/-!
# The working directory of the command line

The directory is kept twice, in a variable of `run_cli` and in the current session, and it is the
second that reaches the LLM. `Repl.Governed` says that the current session is stored and that the
two are the same. Every command that gets back to the prompt keeps it (`Repl.Governed.pass`), and
changes the directory only to the one that the line chose. A chat changes nothing of its session but
the messages, and builds each context with the directory of the session.

So after every run the directory is the last one chosen (`workDir_governs`). The run starts in
`_ask_work_dir`, whose directory is the first.
-/

namespace YellowBull

open Py

/-! ## The directories that are chosen -/

/-- The directory that a path comes to, where it is there or can be made. -/
def Line.choose (line : Line) (path : String) : Option String :=
  match line.abspath path with
  | .ok dir => if line.Available dir then some dir else none
  | .error _ => none

/-- The directory that a line chooses. -/
def Stage.chosen (C : Console) (stage : Stage) (line : Line) : Option String :=
  match stage with
  | .asking =>
    match line.text with
    | none => none
    | some text => if strip text = "" then none else line.choose (strip text)
  | .prompt _ =>
    match line.command C with
    | .workdir (some path) => line.choose path
    | _ => none

/-- The calls of the LLM in the chat that a text starts. -/
def Repl.llmCalls (P : Platform) (cfg : AgentConfig) (reg : ToolRegistry) (repl : Repl)
    (text : String) (line : Line) : List LLMCall :=
  (repl.agent.chatRun P cfg reg cliSessions (repl.request text) line.session_id line.now
    line.behaviour).llm_calls

/-! ## The current session -/

/-- The current session is stored under its id, it is one of the user, and its directory is that of
the loop. -/
structure Repl.Governed (repl : Repl) : Prop where
  id_ne : repl.current_session_id ≠ ""
  current : ∃ session,
    (cliSessions.get repl.current_session_id repl.agent.world).1 = some session ∧
    (repl.agent.world.heap.read session).session_id = repl.current_session_id ∧
    (repl.agent.world.heap.read session).user_id = cliUser ∧
    (repl.agent.world.heap.read session).work_dir = some repl.work_dir

/-- A new session governs. -/
theorem newSession_governed {id : String} (hid : id ≠ "") (now : Time) (dir : String)
    (w : World MemoryStore) (cache : Cache) :
    Repl.Governed ⟨⟨newSession cliSessions cliUser id now dir w, cache⟩, id, dir⟩ := by
  have hread := w.heap.read_alloc { session_id := id, user_id := cliUser, updated_at := now }
  have hnew : (newSession cliSessions cliUser id now dir w).heap.read w.heap.next =
      { session_id := id, user_id := cliUser, updated_at := now, work_dir := some dir } :=
    (Heap.read_write_self ..).trans (congrArg (fun s => { s with work_dir := some dir }) hread)
  -- `create` stores the session under the id that it reads back from it.
  have hset : ∀ s : Session, s.session_id = id →
      (w.store.set s.session_id w.heap.next).get? id = some w.heap.next := by
    rintro s rfl
    exact OrderedMap.get?_set_self ..
  refine ⟨hid, w.heap.next, hset _ (congrArg Session.session_id hread), ?_⟩
  show ((newSession cliSessions cliUser id now dir w).heap.read w.heap.next).session_id = id ∧ _
  simp only [hnew, and_self]

namespace Repl.Governed

variable {repl : Repl} (h : repl.Governed)
include h

/-- The id of the current session is not blank. -/
theorem truthy_id : truthy? (some repl.current_session_id) = some repl.current_session_id := by
  simp [truthy?, h.id_ne]

/-- Writing to the current session, whose id and user stay. -/
theorem write {session : Ref}
    (hsession : repl.agent.world.store.get? repl.current_session_id = some session) {s : Session}
    (hid : s.session_id = (repl.agent.world.heap.read session).session_id)
    (huser : s.user_id = (repl.agent.world.heap.read session).user_id) {dir : String}
    (hdir : s.work_dir = some dir) (cache : Cache) :
    Repl.Governed ⟨⟨⟨repl.agent.world.store, repl.agent.world.heap.write session s⟩, cache⟩,
      repl.current_session_id, dir⟩ := by
  obtain ⟨session', hget, hid', huser', -⟩ := h.current
  obtain rfl : session = session' := Option.some.inj (hsession.symm.trans hget)
  refine ⟨h.id_ne, session, hget, ?_⟩
  simp only [Heap.read_write_self]
  exact ⟨hid.trans hid', huser.trans huser', hdir⟩

/-- `/workdir` changes the session and the variable. -/
theorem setWorkDir (dir : String) :
    Repl.Governed { repl with
      agent.world := YellowBull.setWorkDir cliSessions repl.current_session_id dir repl.agent.world
      work_dir := dir } := by
  obtain ⟨session, hget, -⟩ := h.current
  have hpair : cliSessions.get repl.current_session_id repl.agent.world =
      (some session, repl.agent.world) := Prod.ext hget rfl
  unfold YellowBull.setWorkDir
  rw [hpair]
  have hdir : ({ repl.agent.world.heap.read session with
      work_dir := some dir } : Session).work_dir = some dir := rfl
  refine h.write hget ?_ ?_ hdir _
  · rfl
  · rfl

/-- `/new` hands the directory on. -/
theorem new (line : Line) : repl.new line =
    ⟨⟨newSession cliSessions cliUser line.session_id line.now repl.work_dir repl.agent.world,
      repl.agent.cache⟩, line.session_id, repl.work_dir⟩ := by
  obtain ⟨session, hget, -, -, hdir⟩ := h.current
  unfold Repl.new
  simp only [if_neg h.id_ne, hget, Option.bind_some, hdir]
  -- The session has the directory of the loop, so it does not matter which of them is taken.
  have hsame : (truthy? (some repl.work_dir)).getD repl.work_dir = repl.work_dir := by
    unfold truthy?
    rw [Option.filter_some]
    split_ifs <;> rfl
  rw [hsame]

/-- A chat goes on in the current session. -/
theorem getOrCreateSession (text : String) (id : String) (now : Time) :
    ∃ session, repl.agent.world.store.get? repl.current_session_id = some session ∧
      (repl.agent.world.heap.read session).session_id = repl.current_session_id ∧
      (repl.agent.world.heap.read session).work_dir = some repl.work_dir ∧
      YellowBull.getOrCreateSession cliSessions (repl.request text) id now repl.agent.world =
        (session, repl.agent.world) := by
  obtain ⟨session, hget, hid, -, hdir⟩ := h.current
  refine ⟨session, hget, hid, hdir, ?_⟩
  have hpair : cliSessions.get repl.current_session_id repl.agent.world =
      (some session, repl.agent.world) := Prod.ext hget rfl
  unfold YellowBull.getOrCreateSession Repl.request
  simp only [h.truthy_id, hpair]

omit h in
/-- The in-memory store loads each id that it lists. -/
theorem loadSessions_eq (ids : List String) (w : World MemoryStore) :
    cliSessions.loadSessions ids w =
      (ids.filterMap fun id => (w.store.get? id).map (id, ·), w) := by
  induction ids with
  | nil => rfl
  | cons id ids ih =>
    have hload : cliSessions.adapter.load id w = (w.store.get? id, w) := rfl
    unfold SessionManager.loadSessions
    rw [hload]
    simp only [ih, List.filterMap_cons]
    cases w.store.get? id with
    | none => rfl
    | some session => rfl

/-- The current session is listed, so that `/sessions` raises. -/
theorem sessions : repl.sessions = .error noModelDump := by
  obtain ⟨session, hget, -, huser, -⟩ := h.current
  have hget : repl.agent.world.store.get? repl.current_session_id = some session := hget
  have hlist : cliSessions.listSessions (some cliUser) repl.agent.world =
      cliSessions.loadSessions
        (listedIds repl.agent.world.heap.read repl.agent.world.store (some cliUser))
        repl.agent.world := rfl
  -- It is stored, and one of the user that is asked for.
  have hlisted : repl.current_session_id ∈
      listedIds repl.agent.world.heap.read repl.agent.world.store (some cliUser) := by
    refine (mem_listedIds ..).mpr ⟨_, Option.map_eq_some_iff.mpr ⟨session, hget, rfl⟩, ?_⟩
    rintro user hu
    obtain ⟨hu, -⟩ := Option.filter_eq_some_iff.mp hu
    exact huser.trans (Option.some.inj hu)
  have hmem : (repl.current_session_id, session) ∈
      (cliSessions.listSessions (some cliUser) repl.agent.world).1 := by
    rw [hlist, loadSessions_eq]
    exact List.mem_filterMap.mpr ⟨_, hlisted, by rw [hget]; rfl⟩
  unfold Repl.sessions
  generalize cliSessions.listSessions (some cliUser) repl.agent.world = listed at hmem
  obtain ⟨sessions, world⟩ := listed
  cases sessions with
  | nil => cases hmem
  | cons item sessions => rfl

end Repl.Governed

/-! ## A chat -/

section Chat

variable (P : Platform) (cfg : AgentConfig) (reg : ToolRegistry) (O : Behaviour) (s : Session)
variable (cache : Cache) (request : ChatRequest)

/-- A chat leaves the directory of its session. -/
theorem chat_work_dir : (chat P cfg reg O s cache request).session.work_dir = s.work_dir := by
  unfold chat
  rw [chatLoop_keeps Session.work_dir Session.addMessages_work_dir fun _ => rfl]
  exact Session.addMessages_work_dir ..

variable {P cfg reg O s cache request}

/-- Each context of a chat starts with the prompt for the directory of its session. -/
theorem chat_llm_calls_head {call : LLMCall}
    (h : call ∈ (chat P cfg reg O s cache request).llm_calls) :
    ∃ rest, call.messages =
      systemMessage (ContextBuilder.effectivePrompt ⟨cfg.system_prompt⟩ s.work_dir) :: rest := by
  obtain ⟨rounds, tail, ht⟩ := chat_transcript P cfg reg O s cache request
  obtain ⟨j, hj, rfl⟩ := List.getElem_of_mem h
  obtain ⟨sj, -, hdir, hbuild⟩ := ht.contexts j hj
  rw [hdir, Session.addMessages_work_dir] at hbuild
  rcases build_cases hbuild with ⟨-, hmsgs⟩ | ⟨-, new_tokens, -, hmsgs⟩
  · exact ⟨_, hmsgs⟩
  · exact ⟨_, hmsgs⟩

end Chat

/-! ## One line -/

variable {C : Console} {P : Platform} {cfg : AgentConfig} {reg : ToolRegistry} {repl repl' : Repl}
variable {line : Line}

/-- A text that is printed before the rest does not change what comes out. -/
theorem print_then {α : Type} {text : String} {x : Except Exn α} {a : α}
    (h : (do C.print text; x) = .ok a) : C.print text = .ok () ∧ x = .ok a := by
  obtain ⟨u, hu, hx⟩ := Except.bind_eq_ok.mp h
  exact ⟨hu, hx⟩

/-- The change of the directory, where its message is printed. -/
theorem Repl.Governed.changeDir (h : repl.Governed) {dir : String}
    (hdir : repl.changeDir C dir = .ok repl') : repl'.Governed ∧ repl'.work_dir = dir := by
  unfold Repl.changeDir at hdir
  rw [if_neg h.id_ne] at hdir
  obtain ⟨-, hdir⟩ := print_then hdir
  obtain rfl := Except.ok.inj hdir
  exact ⟨h.setWorkDir dir, rfl⟩

/-- A path changes the directory to the one that it chooses, if it does. -/
theorem Repl.Governed.chooseDir (h : repl.Governed) {path : String}
    (hpass : repl.chooseDir C path line = .ok repl') :
    repl'.Governed ∧ repl'.work_dir = (line.choose path).getD repl.work_dir := by
  obtain ⟨dir, habspath, hpass⟩ := Except.bind_eq_ok.mp hpass
  simp only [Line.choose, habspath]
  -- The directory is there, or it is made, or the old one stays.
  by_cases hisdir : line.isdir dir = true
  · have havailable : line.Available dir := Or.inl hisdir
    rw [if_pos hisdir] at hpass
    rw [if_pos havailable]
    exact h.changeDir hpass
  · rw [if_neg hisdir] at hpass
    cases hmake : line.makedirs dir with
    | made =>
      have havailable : line.Available dir := Or.inr hmake
      rw [hmake] at hpass
      rw [if_pos havailable]
      exact h.changeDir hpass
    | osError text =>
      have hnot : ¬ line.Available dir := by simp [Line.Available, hisdir, hmake]
      rw [hmake] at hpass
      obtain ⟨-, hpass⟩ := print_then hpass
      obtain rfl := Except.ok.inj hpass
      rw [if_neg hnot]
      exact ⟨h, rfl⟩
    | raises e =>
      rw [hmake] at hpass
      cases hpass

/-- `/workdir` changes the directory to the chosen one, if one is chosen. -/
theorem Repl.Governed.workdir (h : repl.Governed) {path : Option String}
    (hpass : repl.workdir C path line = .ok repl') :
    repl'.Governed ∧ repl'.work_dir = (path.bind line.choose).getD repl.work_dir := by
  obtain ⟨-, -, hpass⟩ := Except.bind_eq_ok.mp hpass
  cases path with
  | none =>
    obtain rfl := Except.ok.inj hpass
    exact ⟨h, rfl⟩
  | some path => exact h.chooseDir hpass

/-- The handler around a chat leaves the state as it is. -/
theorem Repl.failed_eq_ok {e : Exn} (h : repl.failed C e = .ok repl') : repl' = repl := by
  unfold Repl.failed at h
  split_ifs at h
  obtain ⟨-, h⟩ := print_then h
  exact (Except.ok.inj h).symm

/-- A chat keeps the current session and its directory. -/
theorem Repl.Governed.message (h : repl.Governed) {text : String}
    (hpass : repl.message C P cfg reg text line = .ok repl') :
    repl'.Governed ∧ repl'.work_dir = repl.work_dir := by
  obtain ⟨session, hget, hid, hdir, hfound⟩ :=
    h.getOrCreateSession text line.session_id line.now
  unfold Repl.message AgentState.chat at hpass
  simp only [hfound] at hpass
  -- All that matters of the chat is that it keeps the id, the user and the directory.
  generalize hchat : chat P cfg reg line.behaviour (repl.agent.world.heap.read session)
    repl.agent.cache (repl.request text) = run at hpass
  have hwrite : Repl.Governed ⟨⟨⟨repl.agent.world.store,
      repl.agent.world.heap.write session run.session⟩, run.cache⟩,
      repl.current_session_id, repl.work_dir⟩ := by
    refine h.write hget ?_ ?_ ?_ _
    · rw [← hchat, chat_session_id]
    · rw [← hchat, chat_user_id]
    · rw [← hchat, chat_work_dir, hdir]
  have hresult {response : ChatResponse} (hok : run.result = .ok response) :
      response.session_id = repl.current_session_id := by
    rw [← hchat] at hok
    exact (chat_response_session_id hok).trans hid
  cases hrun : run.result with
  | error e =>
    rw [hrun] at hpass
    obtain rfl := Repl.failed_eq_ok hpass
    exact ⟨hwrite, rfl⟩
  | ok response =>
    rw [hrun] at hpass
    simp only [hresult hrun] at hpass
    cases hprint : C.printMarkdown (shownContent response) with
    | ok u =>
      rw [hprint] at hpass
      obtain rfl := Except.ok.inj hpass
      exact ⟨hwrite, rfl⟩
    | error e =>
      rw [hprint] at hpass
      obtain rfl := Repl.failed_eq_ok hpass
      exact ⟨hwrite, rfl⟩

/-- A handler that gets back to the prompt. -/
theorem map_some_eq_ok {x : Except Exn Repl} (h : x.map some = .ok (some repl')) :
    x = .ok repl' := by
  cases x with
  | error e => cases h
  | ok repl =>
    obtain rfl := Option.some.inj (Except.ok.inj h)
    rfl

/-- Each pass of the loop keeps the directory in both places, and changes it to the chosen one. -/
theorem Repl.Governed.pass (h : repl.Governed) (hid : line.session_id ≠ "")
    (hpass : repl.pass C P cfg reg line = .ok (some repl')) :
    repl'.Governed ∧ repl'.work_dir = ((Stage.prompt repl).chosen C line).getD repl.work_dir := by
  unfold Repl.pass at hpass
  simp only [Stage.chosen]
  -- `/workdir`, `/new` and a message change the state, the others keep it or leave the loop.
  cases hcmd : line.command C with
  | quit =>
    rw [hcmd] at hpass
    cases hpass
  | workdir path =>
    rw [hcmd] at hpass
    have hdir := h.workdir (map_some_eq_ok hpass)
    cases path with
    | none => exact hdir
    | some path => exact hdir
  | new =>
    rw [hcmd] at hpass
    obtain rfl := Option.some.inj (Except.ok.inj hpass)
    rw [h.new]
    exact ⟨newSession_governed hid .., rfl⟩
  | sessions =>
    rw [hcmd] at hpass
    have hsessions := map_some_eq_ok hpass
    rw [h.sessions] at hsessions
    cases hsessions
  | history =>
    rw [hcmd] at hpass
    obtain ⟨-, -, hhistory⟩ := Except.bind_eq_ok.mp (map_some_eq_ok hpass)
    obtain rfl := Except.ok.inj hhistory
    exact ⟨h, rfl⟩
  | unknown cmd =>
    rw [hcmd] at hpass
    obtain ⟨-, hunknown⟩ := print_then (map_some_eq_ok hpass)
    obtain rfl := Except.ok.inj hunknown
    exact ⟨h, rfl⟩
  | message text =>
    rw [hcmd] at hpass
    exact h.message (map_some_eq_ok hpass)
  | _ =>
    rw [hcmd] at hpass
    obtain rfl := Option.some.inj (Except.ok.inj hpass)
    exact ⟨h, rfl⟩

/-! ## Runs -/

/-- What `uuid4` and `os.path.abspath` promise: an id and a path are not empty. -/
structure Line.Regular (line : Line) : Prop where
  session_id_ne : line.session_id ≠ ""
  abspath_ne : ∀ path dir, line.abspath path = .ok dir → dir ≠ ""

/-- What is so after the directories `dirs` were chosen. -/
def Stage.Governed (stage : Stage) (dirs : List String) : Prop :=
  match stage with
  | .asking => dirs = []
  | .prompt repl => repl.Governed ∧ repl.work_dir ≠ "" ∧ dirs.getLast? = some repl.work_dir

/-- The directory that is chosen is the absolute path of the text. -/
theorem Line.choose_eq_some {path dir : String} (h : line.choose path = some dir) :
    line.abspath path = .ok dir := by
  unfold Line.choose at h
  cases habspath : line.abspath path with
  | error e => simp [habspath] at h
  | ok dir' =>
    simp only [habspath] at h
    split_ifs at h
    exact congrArg Except.ok (Option.some.inj h)

/-- A chosen directory is a path. -/
theorem Stage.chosen_ne {stage : Stage} (hline : line.Regular) {dir : String}
    (h : stage.chosen C line = some dir) : dir ≠ "" := by
  cases stage with
  | asking =>
    simp only [Stage.chosen] at h
    cases htext : line.text with
    | none => simp [htext] at h
    | some text =>
      simp only [htext] at h
      split_ifs at h
      exact hline.abspath_ne _ _ (Line.choose_eq_some h)
  | prompt repl =>
    simp only [Stage.chosen] at h
    split at h
    · exact hline.abspath_ne _ _ (Line.choose_eq_some h)
    · cases h

/-- A pass of `_ask_work_dir` asks again, or welcomes with the chosen directory. -/
theorem Line.askWorkDir_cases {stage : Stage} (h : line.askWorkDir C = .ok (some stage)) :
    (stage = .asking ∧ Stage.asking.chosen C line = none) ∨
      ∃ dir, Stage.asking.chosen C line = some dir ∧ line.welcome C dir = .ok (some stage) := by
  unfold Line.askWorkDir at h
  simp only [Stage.chosen]
  cases htext : line.text with
  | none => simp [htext] at h
  | some text =>
    simp only [htext] at h ⊢
    split_ifs at h ⊢ with hblank
    · exact .inl ⟨(Option.some.inj (Except.ok.inj h)).symm, rfl⟩
    · obtain ⟨dir, habspath, h⟩ := Except.bind_eq_ok.mp h
      simp only [Line.choose, habspath]
      -- The directory is there, or it is made, or the question comes again.
      by_cases hisdir : line.isdir dir = true
      · have havailable : line.Available dir := Or.inl hisdir
        rw [if_pos hisdir] at h
        exact .inr ⟨dir, if_pos havailable, h⟩
      · rw [if_neg hisdir] at h
        cases hmake : line.makedirs dir with
        | made =>
          have havailable : line.Available dir := Or.inr hmake
          rw [hmake] at h
          obtain ⟨-, h⟩ := print_then h
          exact .inr ⟨dir, if_pos havailable, h⟩
        | osError text =>
          have hnot : ¬ line.Available dir := by simp [Line.Available, hisdir, hmake]
          rw [hmake] at h
          obtain ⟨-, h⟩ := print_then h
          exact .inl ⟨(Option.some.inj (Except.ok.inj h)).symm, if_neg hnot⟩
        | raises e =>
          rw [hmake] at h
          cases h

/-- A directory that is welcomed starts the loop. -/
theorem Line.welcome_eq_ok {dir : String} {stage : Stage} (hid : line.session_id ≠ "")
    (h : line.welcome C dir = .ok (some stage)) :
    ∃ repl : Repl, stage = .prompt repl ∧ repl.Governed ∧ repl.work_dir = dir := by
  obtain ⟨-, h⟩ := print_then h
  obtain rfl := Option.some.inj (Except.ok.inj h)
  exact ⟨_, rfl, newSession_governed hid .., rfl⟩

/-- A pass of `_ask_work_dir` asks again, or starts the loop with the chosen directory. -/
theorem Line.askWorkDir_eq_ok {stage : Stage} (hid : line.session_id ≠ "")
    (h : line.askWorkDir C = .ok (some stage)) :
    (stage = .asking ∧ Stage.chosen C .asking line = none) ∨
      ∃ repl : Repl, stage = .prompt repl ∧ repl.Governed ∧
        Stage.chosen C .asking line = some repl.work_dir := by
  rcases Line.askWorkDir_cases h with ⟨hasks, hnone⟩ | ⟨dir, hchosen, hwelcome⟩
  · exact .inl ⟨hasks, hnone⟩
  · obtain ⟨repl, hstage, hgoverned, rfl⟩ := Line.welcome_eq_ok hid hwelcome
    exact .inr ⟨repl, hstage, hgoverned, hchosen⟩

/-- Each line keeps the last chosen directory in both places. -/
theorem Stage.Governed.step {stage stage' : Stage} {dirs : List String} (h : stage.Governed dirs)
    (hline : line.Regular) (hstep : stage.step C P cfg reg line = some stage') :
    stage'.Governed (dirs ++ (stage.chosen C line).toList) := by
  have hpass : stage.pass C P cfg reg line = .ok (some stage') := by
    unfold Stage.step at hstep
    cases hnext : stage.pass C P cfg reg line with
    | error e => simp [hnext] at hstep
    | ok next =>
      rw [hnext] at hstep
      exact congrArg Except.ok hstep
  cases stage with
  | asking =>
    obtain rfl : dirs = [] := h
    rcases Line.askWorkDir_eq_ok hline.session_id_ne hpass with
      ⟨rfl, hnone⟩ | ⟨repl, rfl, hgoverned, hchosen⟩
    · rw [hnone]
      rfl
    · refine ⟨hgoverned, Stage.chosen_ne hline hchosen, ?_⟩
      rw [hchosen]
      rfl
  | prompt repl =>
    obtain ⟨hgoverned, hne, hlast⟩ := h
    have hrepl : ∃ repl', repl.pass C P cfg reg line = .ok (some repl') ∧
        stage' = .prompt repl' := by
      obtain ⟨next, hnext, hstage⟩ := Except.map_eq_ok.mp hpass
      obtain ⟨repl', rfl, rfl⟩ := Option.map_eq_some_iff.mp hstage
      exact ⟨repl', hnext, rfl⟩
    obtain ⟨repl', hnext, rfl⟩ := hrepl
    obtain ⟨hgoverned', hdir⟩ := hgoverned.pass hline.session_id_ne hnext
    -- The last of the directories changes where the line chooses one.
    cases hchosen : (Stage.prompt repl).chosen C line with
    | none =>
      rw [hchosen, Option.getD_none] at hdir
      refine ⟨hgoverned', hdir ▸ hne, ?_⟩
      rw [Option.toList_none, List.append_nil, hlast, hdir]
    | some dir =>
      rw [hchosen, Option.getD_some] at hdir
      refine ⟨hgoverned', hdir ▸ Stage.chosen_ne hline hchosen, ?_⟩
      rw [Option.toList_some, List.getLast?_append, hdir]
      rfl

/-- The contexts of a chat start with the prompt for the directory. -/
theorem Repl.Governed.llmCalls (h : repl.Governed) {text : String} {call : LLMCall}
    (hcall : call ∈ repl.llmCalls P cfg reg text line) : ∃ rest, call.messages =
      systemMessage (ContextBuilder.effectivePrompt ⟨cfg.system_prompt⟩ (some repl.work_dir)) ::
        rest := by
  obtain ⟨session, -, -, hdir, hfound⟩ := h.getOrCreateSession text line.session_id line.now
  unfold Repl.llmCalls AgentState.chatRun at hcall
  simp only [hfound] at hcall
  rw [← hdir]
  exact chat_llm_calls_head hcall

/-- A directory stands in the prompt for it. -/
theorem effectivePrompt_names (b : ContextBuilder) {dir : String} (hdir : dir ≠ "") :
    ("- Your working directory is: `" ++ dir ++ "`\n").toList <:+:
      (b.effectivePrompt (some dir)).toList := by
  unfold ContextBuilder.effectivePrompt
  simp only [Option.getD_some, if_neg hdir, String.toList_append, List.append_assoc]
  refine ⟨b.system_prompt.toList ++ "\n\n## Working Directory\n".toList, ?_, ?eq⟩
  case eq =>
    simp only [List.append_assoc]
    rfl

/-- The directories that a run chose, in order. -/
def chosenDirs (C : Console) (P : Platform) (cfg : AgentConfig) (reg : ToolRegistry)
    (lines : List Line) : List String :=
  Machine.trace (Stage.step C P cfg reg) (fun stage line => (stage.chosen C line).toList)
    .asking lines

/-- The last directory chosen governs the prompt. -/
structure DirGoverns (P : Platform) (cfg : AgentConfig) (reg : ToolRegistry) (dirs : List String)
    (repl : Repl) : Prop where
  /-- The current session exists, with the directory of the loop. -/
  current : ∃ session,
    (cliSessions.get repl.current_session_id repl.agent.world).1 = some session ∧
      (repl.agent.world.heap.read session).work_dir = some repl.work_dir
  /-- It is the last one chosen. -/
  last : dirs.getLast? = some repl.work_dir
  /-- The first message of each context that a chat would send names it. -/
  context : ∀ text line, ∀ call ∈ repl.llmCalls P cfg reg text line, ∃ prompt rest,
    call.messages = systemMessage prompt :: rest ∧
      prompt = ContextBuilder.effectivePrompt ⟨cfg.system_prompt⟩ (some repl.work_dir) ∧
      ("- Your working directory is: `" ++ repl.work_dir ++ "`\n").toList <:+: prompt.toList

/-- Every run keeps the last chosen directory in both places. -/
theorem stage_governed_of_run {lines : List Line} (hlines : ∀ line ∈ lines, line.Regular)
    {stage : Stage} (hrun : Machine.run (Stage.step C P cfg reg) .asking lines = some stage) :
    stage.Governed (chosenDirs C P cfg reg lines) := by
  have hstart : Stage.asking.Governed [] := rfl
  exact Machine.run_trace_invariant Stage.Governed
    (fun stage dirs line stage' h hline hstep => h.step hline hstep) hstart
    (Machine.EveryRunStep.of_forall (Stage.step C P cfg reg) hlines .asking) hrun

/-- Wherever a run gets to the prompt, the last directory chosen governs. -/
theorem workDir_governs {lines : List Line} (hlines : ∀ line ∈ lines, line.Regular)
    (hrun : Machine.run (Stage.step C P cfg reg) .asking lines = some (.prompt repl)) :
    DirGoverns P cfg reg (chosenDirs C P cfg reg lines) repl := by
  obtain ⟨hgoverned, hne, hlast⟩ := stage_governed_of_run hlines hrun
  obtain ⟨session, hget, -, -, hdir⟩ := hgoverned.current
  refine ⟨⟨session, hget, hdir⟩, hlast, fun text line call hcall => ?_⟩
  obtain ⟨rest, hmsgs⟩ := hgoverned.llmCalls hcall
  exact ⟨_, rest, hmsgs, rfl, effectivePrompt_names _ hne⟩

/-- A console for runs on ASCII lines that raises at no text. -/
def Console.plain : Console where
  lower text := String.ofList (text.toList.map Char.toLower)
  print _ := .ok ()
  printMarkdown _ := .ok ()

/-- A line outside of which only `/w` exists, and nothing can be made. -/
def Line.typed (text session_id : String) : Line where
  text := some text
  abspath path := .ok (if path = "" then "/" else path)
  isdir path := path = "/w"
  makedirs _ := .osError "Permission denied"
  session_id := session_id
  now := 0
  behaviour := .scripted [{ content := some "hello" }] (.error ⟨.other, ""⟩)

/-- What `uuid4` and `os.path.abspath` promise holds of a line that is typed. -/
theorem Line.typed_regular (text : String) {session_id : String} (h : session_id ≠ "") :
    (Line.typed text session_id).Regular := by
  refine ⟨h, fun path dir hdir => ?_⟩
  obtain rfl := Except.ok.inj hdir
  split_ifs with hpath
  · decide
  · exact hpath

/-- A directory that cannot be made, one that is there, a path that cannot be made, a new session,
and a message. -/
theorem workDir_governs_typed : ∃ repl,
    Machine.run (Stage.step .plain .bare { system_prompt := "p" } .empty) .asking
      [.typed "/v" "a", .typed "/w" "b", .typed "/workdir /v" "c", .typed "/new" "d",
        .typed "hi" "e"] = some (.prompt repl) ∧
    DirGoverns .bare { system_prompt := "p" } .empty
      (chosenDirs .plain .bare { system_prompt := "p" } .empty
        [.typed "/v" "a", .typed "/w" "b", .typed "/workdir /v" "c", .typed "/new" "d",
          .typed "hi" "e"]) repl := by
  refine ⟨_, rfl, workDir_governs (fun line hline => ?_) rfl⟩
  simp only [List.mem_cons, List.not_mem_nil, or_false] at hline
  rcases hline with rfl | rfl | rfl | rfl | rfl
  all_goals exact Line.typed_regular _ (by decide)

end YellowBull
