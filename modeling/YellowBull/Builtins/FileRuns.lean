import YellowBull.Builtins.FailedWrites
import YellowBull.Builtins.ReadFile
import YellowBull.Lib.Machine
import YellowBull.Lib.Utf8

/-!
# Runs of the file tools

Calls of `write_file` and `create_file_folder` one after another, each under its own answers of the
operating system. To the reader of the files they are the operations of a store of texts
(`TextStore`): what a call does when it succeeds is `FileCall.effect`, on the bytes and on what is
decoded of them alike, because a text comes back from its bytes behind any others.
-/

namespace YellowBull

open Py

/-- A call of a tool that changes files. -/
inductive FileCall where
  | write_file (filepath content append create_dirs : Arg)
  | create_file_folder (path kind content recursive : Arg)

/-- The tool did what it was asked for. -/
def Succeeds (run : Except Exn FileToolResult) : Prop :=
  ∃ result, run = .ok result ∧ result.success = true

/-- The files as they are read, with their texts. -/
abbrev TextStore := FileTree Text CodePoint

namespace FileCall

/-- The argument for the path. -/
def path : FileCall → Arg
  | write_file filepath .. => filepath
  | create_file_folder path .. => path

/-- The call, with the files that it leaves. -/
def execute (os : OS) (fs : FileSystem) : FileCall → Except Exn FileToolResult × FileSystem
  | write_file filepath content append create_dirs =>
    WriteFileTool.execute os fs filepath content append create_dirs
  | create_file_folder path kind content recursive =>
    CreateFileFolderTool.execute os fs path kind content recursive

/-- The path to which the argument resolves, if the tool comes to it. -/
def target? (os : OS) (call : FileCall) : Option Path :=
  match resolvePath os call.path with
  | .ok (.inr target) => some target
  | _ => none

/-- The text that is to be written. -/
def text : FileCall → Text
  | write_file _ content _ _ => content.str
  | create_file_folder _ kind content _ =>
    if kind = .text (Py.text "file") ∧ content.truthy then content.str else []

/-- The directories above the target, if the call may make them. -/
def parents {β : Type} (files : FileTree Text β) (target : Path) : FileCall → FileTree Text β
  | write_file _ _ _ create_dirs =>
    if create_dirs.truthy then files.provide target.dropLast else files
  | create_file_folder _ _ _ recursive =>
    if recursive.truthy then files.provide target.dropLast else files

/-- What the call is there for: to put something into a file, or to make a directory. -/
def effect {β : Type} (call : FileCall) (files : FileTree Text β) (target : Path) (data : List β) :
    FileTree Text β :=
  match call with
  | write_file _ _ append _ => (call.parents files target).write append.truthy target data
  | create_file_folder _ kind _ _ =>
    if kind = .text (Py.text "directory") then files.provide target
    else (call.parents files target).write false target data

/-- One call of a run. -/
def step (fs : FileSystem) (call : OS × FileCall) : FileSystem × Except Exn FileToolResult :=
  (call.2.execute call.1 fs).swap

/-- The same call on a store of texts. -/
def textStep (store : TextStore) (call : OS × FileCall) : TextStore × Unit :=
  (((call.2.target? call.1).elim store fun target => call.2.effect store target call.2.text), ())

end FileCall

/-! ## A call that succeeds -/

/-- A call that gets to a handler does not succeed. -/
theorem not_succeeds_handle (clauses : List (ExnClass × String)) (failed : String)
    (target : Option Path) (e : Exn) : ¬ Succeeds (handle clauses failed target e) := by
  rintro ⟨result, hresult, hsuccess⟩
  unfold handle at hresult
  split at hresult
  · cases hresult
    cases hsuccess
  · cases hresult
  · split_ifs at hresult
    cases hresult
    cases hsuccess

/-- The check of the path and the handlers return failures, so that the body came to the end. -/
theorem succeeds_tryTarget {os : OS} {clauses : List (ExnClass × String)} {failed : String}
    {path : Arg} {body : Path → FileM FileToolResult} {fs : FileSystem}
    (h : Succeeds (tryTarget os clauses failed path body fs).1) :
    ∃ target result, resolvePath os path = .ok (.inr target) ∧ result.success = true ∧
      (body target).runFrom fs = (.ok result, (tryTarget os clauses failed path body fs).2) := by
  unfold tryTarget at h ⊢
  cases hpath : resolvePath os path with
  -- A path that cannot be resolved ends in a handler, whose results are failures.
  | error e =>
    rw [hpath] at h
    exact absurd h (not_succeeds_handle _ _ none e)
  | ok place =>
    rw [hpath] at h
    cases place with
    | inl result =>
      obtain ⟨result', hresult, hsuccess⟩ := h
      cases hresult
      -- A path that is refused has a failure as its result too: relative, or no text.
      unfold resolvePath at hpath
      split at hpath
      · cases hpath
      · split_ifs at hpath
        · cases hpath
          cases hsuccess
        · cases hos : os.resolve _ <;> rw [hos] at hpath <;> cases hpath
    -- The success is the body's own; what a handler makes of its exception is none.
    | inr target =>
      simp only at h ⊢
      rcases hbody : (body target).runFrom fs with ⟨r, fs'⟩
      rw [hbody] at h
      cases r with
      | error e => exact absurd h (not_succeeds_handle _ _ (some target) e)
      | ok result =>
        obtain ⟨result', hresult, hsuccess⟩ := h
        cases hresult
        exact ⟨target, result, rfl, hsuccess, hbody⟩

/-- A directory that is made without an exception is there afterwards, with those above it. -/
theorem OS.runFrom_mkdir_eq_ok {os : OS} {parents : Bool} {path : Path} {fs fs' : FileSystem}
    (h : (os.mkdir parents path).runFrom fs = (.ok (), fs')) : fs' = fs.provide path := by
  rw [OS.mkdir, FileM.runFrom_mk] at h
  unfold FileTree.provide
  -- A directory that is there passes with `exist_ok`; any other node raises.
  cases hnode : fs.node path with
  | some n =>
    rw [hnode] at h
    cases n <;> cases h
    rfl
  -- The directory itself is made, after its parents if they are asked for.
  | none =>
    rw [hnode] at h
    simp only at h
    split_ifs at h
    · cases h
    · cases h
    · split at h
      · cases h
        rfl
      · split_ifs at h
        · cases h
        · cases h
          rfl

/-- A write that does not fail puts all bytes into the file. -/
theorem OS.written_of_failure_eq_none {os : OS} {data : Except Exn (List UInt8)}
    (h : os.failure data = none) : ∃ bytes, data = .ok bytes ∧ (os.written data).1 = bytes := by
  unfold OS.failure OS.blockFault at h
  have hwritten : (os.written data).2 = none := (Option.or_eq_none_iff.mp
    (Option.or_eq_none_iff.mp h).1).2
  unfold OS.written at hwritten ⊢
  split at hwritten
  · cases hwritten
  · next bytes =>
    refine ⟨bytes, rfl, ?_⟩
    cases hroom : os.room with
    | none => rfl
    | some fault =>
      rw [hroom] at hwritten
      simp only at hwritten ⊢
      split_ifs at hwritten ⊢
      · rfl

/-- What both tools do to the files when they succeed. -/
theorem writeTarget_eq_ok {α : Type} {os : OS} {prepare : FileM (FileToolResult ⊕ α)}
    {append : Bool} {target : Path} {data : Except Exn (List UInt8)}
    {report : α → ℕ → FileToolResult} {fs fs' : FileSystem} {result : FileToolResult}
    (h : (writeTarget os prepare append target data report).runFrom fs = (.ok result, fs')) :
    prepare.runFrom fs = (.ok (.inl result), fs') ∨
      ∃ before fs₁ bytes, prepare.runFrom fs = (.ok (.inr before), fs₁) ∧ data = .ok bytes ∧
        fs' = fs₁.write append target bytes ∧ fs₁.node target ≠ some .directory := by
  obtain ⟨place, fs₁, hprepare, hrest⟩ := FileM.runFrom_bind_eq_ok.mp h
  -- The preparation may answer already, and then nothing is written.
  cases place with
  | inl result' =>
    cases hrest
    exact .inl hprepare
  | inr before =>
    obtain ⟨n, fs₂, hwrite, hreport⟩ := FileM.runFrom_bind_eq_ok.mp hrest
    cases hreport
    -- Else the success says that the file was opened, and that all of its bytes were written.
    rcases writeAndStat_cases os append target data fs₁ with ⟨e, -, hrun⟩ | ⟨-, hnode, n', hrun⟩
    · rw [hrun] at hwrite
      cases hwrite
    · rw [hrun] at hwrite
      cases hfailure : os.failure data with
      | some e =>
        rw [hfailure] at hwrite
        cases hwrite
      | none =>
        rw [hfailure] at hwrite
        cases hwrite
        obtain ⟨bytes, hdata, hbytes⟩ := OS.written_of_failure_eq_none hfailure
        exact .inr ⟨before, fs₁, bytes, hprepare, hdata, by rw [hbytes]; rfl, hnode⟩

/-- Before a successful write its parent is made, if that is asked for. -/
theorem WriteFileTool.prepare_eq_ok {os : OS} {target : Path} {create_dirs : Arg}
    {fs fs' : FileSystem} {place : FileToolResult ⊕ ℕ}
    (h : (prepare os target create_dirs).runFrom fs = (.ok place, fs')) :
    (∃ result, place = .inl result ∧ result.success = false) ∨
      ∃ size, place = .inr size ∧
        fs' = if create_dirs.truthy then fs.provide target.dropLast else fs := by
  unfold prepare at h
  obtain ⟨isDirectory, fs₁, hexists, hrest⟩ := FileM.runFrom_bind_eq_ok.mp h
  cases isDirectory with
  -- The target is a directory: a failure.
  | true =>
    cases hrest
    exact .inl ⟨_, rfl, rfl⟩
  | false =>
    -- Neither the test nor the size touches the files, only the parents may have been made.
    obtain ⟨-, -, -, rfl⟩ := existsAsDirectory_eq_false_iff.mp hexists
    obtain ⟨⟨⟩, fs₂, hparent, hrest⟩ := FileM.runFrom_bind_eq_ok.mp hrest
    obtain ⟨size, fs₃, hsize, hrest⟩ := FileM.runFrom_bind_eq_ok.mp hrest
    obtain ⟨-, -, rfl⟩ := sizeBefore_eq_ok_iff.mp ⟨size, hsize⟩
    cases hrest
    refine .inr ⟨size, rfl, ?_⟩
    unfold makeParent at hparent
    split_ifs at hparent ⊢
    · exact OS.runFrom_mkdir_eq_ok hparent
    · cases hparent
      rfl

/-- What is asked for is told as it is. -/
theorem OS.runFrom_pathExists_eq_ok {os : OS} {site : CallSite} {path : Path} {found : Bool}
    {fs fs' : FileSystem} (h : (os.pathExists site path).runFrom fs = (.ok found, fs')) :
    found = (fs.node path).isSome ∧ fs' = fs := by
  rw [OS.pathExists, OS.runFrom_ask] at h
  cases hfault : os.fault site with
  | some e =>
    rw [hfault] at h
    cases h
  | none =>
    rw [hfault] at h
    cases h
    exact ⟨rfl, rfl⟩

/-- The parent is provided if the call is recursive, and nothing else is done about it. -/
theorem CreateFileFolderTool.makeParent_eq_ok {os : OS} {target : Path} {recursive : Arg}
    {fs fs' : FileSystem} (h : (makeParent os target recursive).runFrom fs = (.ok (), fs')) :
    fs' = if recursive.truthy then fs.provide target.dropLast else fs := by
  unfold makeParent at h
  split_ifs at h ⊢
  · obtain ⟨found, fs₁, hfound, hrest⟩ := FileM.runFrom_bind_eq_ok.mp h
    obtain ⟨rfl, rfl⟩ := OS.runFrom_pathExists_eq_ok hfound
    split_ifs at hrest with hexists
    · cases hrest
      unfold FileTree.provide
      rw [if_neg (by simpa using Option.isSome_iff_ne_none.mp hexists)]
    · exact OS.runFrom_mkdir_eq_ok hrest
  · cases h
    rfl

/-- Before a new file its parent is made, if that is asked for. A new directory is made instead. -/
theorem CreateFileFolderTool.prepare_eq_ok {os : OS} {target : Path} {kind recursive : Arg}
    {fs fs' : FileSystem} {place : FileToolResult ⊕ Unit}
    (h : (prepare os target kind recursive).runFrom fs = (.ok place, fs')) :
    (∃ result, place = .inl result ∧ (result.success = true → fs.node target = none ∧
        kind = .text (text "directory") ∧ fs' = fs.provide target)) ∨
      place = .inr () ∧ fs.node target = none ∧ kind = .text (text "file") ∧
        fs' = if recursive.truthy then fs.provide target.dropLast else fs := by
  unfold prepare at h
  -- The existence test touches no file.
  obtain ⟨found, fs₁, hfound, hrest⟩ := FileM.runFrom_bind_eq_ok.mp h
  obtain ⟨rfl, rfl⟩ := OS.runFrom_pathExists_eq_ok hfound
  split_ifs at hrest with hexists hdirectory hfile
  · cases hrest
    exact .inl ⟨_, rfl, fun h => absurd h Bool.false_ne_true⟩
  · obtain ⟨⟨⟩, fs₂, hmade, hrest⟩ := FileM.runFrom_bind_eq_ok.mp hrest
    cases hrest
    -- A directory is the whole call; there is nothing to write.
    have habsent := Option.not_isSome_iff_eq_none.mp hexists
    exact .inl ⟨_, rfl, fun _ => ⟨habsent, hdirectory, OS.runFrom_mkdir_eq_ok hmade⟩⟩
  -- For a file the parents may have been made, as for `write_file`.
  · obtain ⟨⟨⟩, fs₂, hparent, hrest⟩ := FileM.runFrom_bind_eq_ok.mp hrest
    cases hrest
    exact .inr ⟨rfl, Option.not_isSome_iff_eq_none.mp hexists, hfile, makeParent_eq_ok hparent⟩
  · cases hrest
    exact .inl ⟨_, rfl, fun h => absurd h Bool.false_ne_true⟩

/-- The call has done what it is there for. -/
structure FileCall.Done (os : OS) (fs : FileSystem) (call : FileCall) (target : Path)
    (bytes : List UInt8) : Prop where
  target_eq : call.target? os = some target
  encoded : call.text.encode = .ok bytes
  files_eq : (call.execute os fs).2 = call.effect fs target bytes
  /-- What `create_file_folder` makes was not there. -/
  created : ∀ path kind content recursive,
    call = .create_file_folder path kind content recursive → fs.node target = none ∧
      (kind = .text (Py.text "file") ∨ kind = .text (Py.text "directory"))
  /-- What is opened is no directory. -/
  opened : (∀ path content recursive,
      call ≠ .create_file_folder path (.text (Py.text "directory")) content recursive) →
    (call.parents fs target).node target ≠ some .directory

/-- A call that succeeds has done to the files what it is there for. -/
theorem FileCall.done_of_succeeds {os : OS} {fs : FileSystem} {call : FileCall}
    (h : Succeeds (call.execute os fs).1) : ∃ target bytes, Done os fs call target bytes := by
  -- The target of the call is the path that was resolved.
  have htarget {target : Path} (hpath : resolvePath os call.path = .ok (.inr target)) :
      call.target? os = some target := by
    unfold target?
    rw [hpath]
  cases call with
  | write_file filepath content append create_dirs =>
    obtain ⟨target, result, hpath, hsuccess, hrun⟩ := succeeds_tryTarget h
    rcases writeTarget_eq_ok hrun with hprepare | ⟨size, fs₁, bytes, hprepare, hdata, hfs, hnode⟩
    -- The preparation of `write_file` answers with failures only, so the file was written.
    · obtain ⟨result', hplace, hfailure⟩ | ⟨size, hplace, -⟩ :=
        WriteFileTool.prepare_eq_ok hprepare
      · cases hplace
        rw [hsuccess] at hfailure
        cases hfailure
      · cases hplace
    · obtain ⟨result', hplace, -⟩ | ⟨size', -, rfl⟩ := WriteFileTool.prepare_eq_ok hprepare
      · cases hplace
      refine ⟨target, bytes, htarget hpath, ?_, hfs, nofun, fun _ => hnode⟩
      -- A content that is no text has no bytes.
      cases content with
      | text t => exact hdata
      | other typeName truthy str => cases hdata
  | create_file_folder path kind content recursive =>
    have hkinds : Arg.text (Py.text "file") ≠ .text (Py.text "directory") := by decide
    obtain ⟨target, result, hpath, hsuccess, hrun⟩ := succeeds_tryTarget h
    rcases writeTarget_eq_ok hrun with hprepare | ⟨_, fs₁, bytes, hprepare, hdata, hfs, hnode⟩
    · obtain ⟨result', hplace, hmade⟩ | ⟨hplace, -⟩ := CreateFileFolderTool.prepare_eq_ok hprepare
      · cases hplace
        -- The call made a directory: nothing is written, and the path was free.
        obtain ⟨habsent, rfl, hfs⟩ := hmade hsuccess
        refine ⟨target, [], htarget hpath, ?_, hfs.trans (by rw [effect, if_pos rfl]),
          fun _ _ _ _ h => ⟨habsent, by cases h; exact .inr rfl⟩, fun h => absurd rfl (h _ _ _)⟩
        rw [text, if_neg fun h => hkinds h.1.symm]
        rfl
      · cases hplace
    · obtain ⟨result', hplace, -⟩ | ⟨-, habsent, rfl, rfl⟩ :=
        CreateFileFolderTool.prepare_eq_ok hprepare
      -- The call made a file, where nothing was before.
      · cases hplace
      refine ⟨target, bytes, htarget hpath, ?_, hfs.trans (by rw [effect, if_neg hkinds, parents]),
        fun _ _ _ _ h => ⟨habsent, by cases h; exact .inl rfl⟩, fun _ => hnode⟩
      unfold CreateFileFolderTool.data at hdata
      rw [text]
      -- An empty content writes nothing, and its text is empty.
      by_cases htruthy : content.truthy
      · rw [if_pos htruthy] at hdata
        rw [if_pos ⟨rfl, htruthy⟩]
        cases content with
        | text t => exact hdata
        | other typeName truthy str => cases hdata
      · rw [if_neg htruthy] at hdata
        rw [if_neg fun h => htruthy h.2, ← hdata]
        rfl

/-! ## The store of texts -/

/-- The effect of a call on the bytes is its effect on the texts. -/
theorem FileCall.seen_effect {t : Text} {bytes : List UInt8} (h : t.encode = .ok bytes)
    (fs : FileSystem) (target : Path) (call : FileCall) :
    (call.effect fs target bytes).seen decodeReplace =
      call.effect (fs.seen decodeReplace) target t := by
  -- Text after text is bytes after bytes: decoding respects the concatenation.
  have hwrite (fs : FileSystem) (append : Bool) :
      (fs.write append target bytes).seen decodeReplace =
        (fs.seen decodeReplace).write append target t :=
    FileTree.seen_write _ (decodeReplace_encode h) (decodeReplace_append_encode h) fs append target
  -- The directories that are made hold no text.
  have hparents : (call.parents fs target).seen decodeReplace =
      call.parents (fs.seen decodeReplace) target := by
    cases call <;> rw [parents, parents] <;> split_ifs <;>
      first | rfl | exact FileTree.seen_provide ..
  cases call with
  | write_file filepath content append create_dirs =>
    rw [effect, effect, hwrite, hparents]
  | create_file_folder path kind content recursive =>
    rw [effect, effect]
    split_ifs
    · exact FileTree.seen_provide ..
    · rw [hwrite, hparents]

/-- One call that succeeds does on the files what it does on the store. -/
theorem FileCall.seen_step {fs : FileSystem} {call : OS × FileCall}
    (h : Succeeds (step fs call).2) :
    (step fs call).1.seen decodeReplace = (textStep (fs.seen decodeReplace) call).1 := by
  obtain ⟨target, bytes, hdone⟩ := done_of_succeeds h
  have hstep : (step fs call).1 = call.2.effect fs target bytes := hdone.files_eq
  rw [hstep, seen_effect hdone.encoded, textStep, hdone.target_eq]
  rfl

/-- The calls of a run succeed, each in the state before it. -/
def CallsSucceed : FileSystem → List (OS × FileCall) → Prop :=
  Machine.EveryStep FileCall.step fun fs call => Succeeds (FileCall.step fs call).2

/-- From any files on, calls that succeed leave the texts that they leave in a store of texts. -/
theorem fileRuns_refine_textStore {fs : FileSystem} {calls : List (OS × FileCall)}
    (h : CallsSucceed fs calls) :
    (Machine.state FileCall.step fs calls).seen decodeReplace =
      Machine.state FileCall.textStep (fs.seen decodeReplace) calls :=
  Machine.state_related (R := fun fs store => fs.seen decodeReplace = store)
    (fun fs _ call hR hok => by subst hR; exact FileCall.seen_step hok) rfl h

/-- Two lines for a file, one after the other, and a new directory. -/
def noteCalls : List (OS × FileCall) :=
  [(calmOS, .write_file (.text (text "/notes")) (.text (text "one\n")) (.bool false) (.bool true)),
    (calmOS, .write_file (.text (text "/notes")) (.text (text "two")) (.bool true) (.bool true)),
    (calmOS, .create_file_folder (.text (text "/old")) (.text (text "directory")) .none
      (.bool true))]

/-- All of them succeed. -/
theorem callsSucceed_noteCalls : CallsSucceed oneFile noteCalls :=
  ⟨⟨_, rfl, rfl⟩, ⟨_, rfl, rfl⟩, ⟨_, rfl, rfl⟩, trivial⟩

/-- The store has the two lines. -/
theorem fileRuns_refine_textStore_notes :
    (Machine.state FileCall.step oneFile noteCalls).seen decodeReplace =
        Machine.state FileCall.textStep (oneFile.seen decodeReplace) noteCalls ∧
      (Machine.state FileCall.textStep (oneFile.seen decodeReplace) noteCalls).file?
        [text "notes"] = some (text "one\ntwo") :=
  ⟨fileRuns_refine_textStore callsSucceed_noteCalls, by decide⟩

/-! ## A call with any outcome -/

/-- What both tools leave, whatever raises: new directories, and a file that is written to if
nothing raised before it was opened. -/
theorem writeTarget_leaves {α : Type} {os : OS} {prepare : FileM (FileToolResult ⊕ α)}
    (hprepare : prepare.OnlyMakesDirectories) (append : Bool) (target : Path)
    (data : Except Exn (List UInt8)) (report : α → ℕ → FileToolResult) (fs : FileSystem) :
    ∃ paths, ((writeTarget os prepare append target data report).runFrom fs).2 =
        fs.makeDirectories paths ∨
      (∃ before, (prepare.runFrom fs).1 = .ok (.inr before)) ∧ ∃ bytes,
        ((writeTarget os prepare append target data report).runFrom fs).2 =
          (fs.makeDirectories paths).write append target bytes := by
  -- What the preparation does to the files is to make directories, however it ends.
  obtain ⟨r, paths, hrun⟩ := hprepare fs
  refine ⟨paths, ?_⟩
  unfold writeTarget
  cases r with
  | error e => exact .inl (by rw [FileM.runFrom_bind_of_error hrun])
  | ok place =>
    rw [FileM.runFrom_bind_of_ok hrun, hrun]
    cases place with
    | inl result => exact .inl rfl
    -- The data go to the target only if it could be opened, all of them or a part.
    | inr before =>
      rcases writeAndStat_cases os append target data (fs.makeDirectories paths) with
        ⟨e, -, hwrite⟩ | ⟨-, -, n, hwrite⟩
      · exact .inl (by rw [FileM.runFrom_bind_of_error hwrite])
      · refine .inr ⟨⟨before, rfl⟩, (os.written data).1, ?_⟩
        cases hfailure : os.failure data with
        | none =>
          rw [hfailure] at hwrite
          rw [FileM.runFrom_bind_of_ok hwrite]
          rfl
        | some e =>
          rw [hfailure] at hwrite
          rw [FileM.runFrom_bind_of_error hwrite]
          rfl

namespace FileCall

/-- The call is one of `write_file`. -/
def IsWrite : FileCall → Prop
  | write_file .. => True
  | create_file_folder .. => False

/-- Whatever raises, a call makes directories, and then writes to its target or not.
`create_file_folder` only writes where nothing stood. -/
theorem step_cases (fs : FileSystem) (call : OS × FileCall) :
    ∃ paths, (step fs call).1 = fs.makeDirectories paths ∨
      ∃ target append bytes, call.2.target? call.1 = some target ∧
        (¬ call.2.IsWrite → fs.node target = none) ∧
          (step fs call).1 = (fs.makeDirectories paths).write append target bytes := by
  obtain ⟨os, call⟩ := call
  have hnothing : ∃ paths, fs = fs.makeDirectories paths := ⟨[], by simp⟩
  -- What a `try` block leaves is what its body leaves, if it comes to it.
  have htry (clauses : List (ExnClass × String)) (failed : String)
      (body : Path → FileM FileToolResult) :
      (tryTarget os clauses failed call.path body fs).2 = fs ∨
        ∃ target, call.target? os = some target ∧
          (tryTarget os clauses failed call.path body fs).2 = ((body target).runFrom fs).2 := by
    unfold tryTarget target?
    cases resolvePath os call.path with
    | error e => exact .inl rfl
    | ok place =>
      cases place with
      | inl result => exact .inl rfl
      | inr target =>
        refine .inr ⟨target, rfl, ?_⟩
        rcases hrun : (body target).runFrom fs with ⟨r, fs'⟩
        simp only [hrun]
        cases r <;> rfl
  cases call with
  | write_file filepath content append create_dirs =>
    rcases htry [(.permissionError, "Permission denied: ")] "Write failed: "
        (WriteFileTool.body os content append create_dirs) with hfs | ⟨target, htarget, hfs⟩
    · exact hnothing.imp fun paths h => .inl (hfs.trans h)
    · obtain ⟨paths, hleft | ⟨-, bytes, hleft⟩⟩ := writeTarget_leaves
        (WriteFileTool.onlyMakesDirectories_prepare create_dirs) append.truthy target content.data
        (WriteFileTool.wrote target content append) fs
      · exact ⟨paths, .inl (hfs.trans hleft)⟩
      · exact ⟨paths, .inr ⟨target, _, bytes, htarget, fun h => absurd trivial h,
          hfs.trans hleft⟩⟩
  | create_file_folder path kind content recursive =>
    rcases htry [(.permissionError, "Permission denied: "),
        (.fileExistsError, "Path already exists: ")] "Create failed: "
        (CreateFileFolderTool.body os kind content recursive) with hfs | ⟨target, htarget, hfs⟩
    · exact hnothing.imp fun paths h => .inl (hfs.trans h)
    · obtain ⟨paths, hleft | ⟨⟨_, hprepare⟩, bytes, hleft⟩⟩ := writeTarget_leaves
        (CreateFileFolderTool.onlyMakesDirectories_prepare kind recursive) false target
        (CreateFileFolderTool.data content) (fun _ => CreateFileFolderTool.created target) fs
      · exact ⟨paths, .inl (hfs.trans hleft)⟩
      · refine ⟨paths, .inr ⟨target, _, bytes, htarget, fun _ => ?_, hfs.trans hleft⟩⟩
        obtain ⟨_, hplace, -⟩ | ⟨-, habsent, -⟩ :=
          CreateFileFolderTool.prepare_eq_ok (Prod.ext hprepare rfl)
        · cases hplace
        · exact habsent

/-- The call may change what the file at a path has. -/
def MayChange (call : OS × FileCall) (path : Path) : Prop :=
  call.2.IsWrite ∧ call.2.target? call.1 = some path

/-- One call keeps what stands anywhere, but for the content of a file that is the target of a
`write_file`. -/
theorem keepsNodes_step (fs : FileSystem) (call : OS × FileCall) :
    fs.KeepsNodes (MayChange call) (step fs call).1 := by
  obtain ⟨paths, hfs | ⟨target, append, bytes, htarget, habsent, hfs⟩⟩ := step_cases fs call
  · rw [hfs]
    exact (fs.keepsNodes_makeDirectories paths).mono fun _ _ h => h.elim
  · rw [hfs]
    refine (((fs.keepsNodes_makeDirectories paths).mono fun _ _ h => h.elim).trans
      ((fs.makeDirectories paths).keepsNodes_write append target bytes)).mono ?_
    rintro path hnode rfl
    exact ⟨by_contra fun h => hnode (habsent h), htarget⟩

end FileCall

/-- Over any run, whatever raises, what stands somewhere stays there: no call removes a file or a
directory or makes one into the other, and what a file has changes only by a `write_file` that is
for this file. `create_file_folder` never changes a file that exists. -/
theorem fileRuns_keep (fs : FileSystem) (calls : List (OS × FileCall)) :
    fs.KeepsNodes (fun path => ∃ call ∈ calls, FileCall.MayChange call path)
      (Machine.state FileCall.step fs calls) := by
  induction calls generalizing fs with
  | nil => exact .refl _ fs
  | cons call calls ih =>
    refine ((FileCall.keepsNodes_step fs call).mono ?_).trans ((ih _).mono ?_)
    · exact fun path _ h => ⟨call, List.mem_cons_self, h⟩
    · exact fun path _ ⟨call', hmem, h⟩ => ⟨call', List.mem_cons_of_mem call hmem, h⟩

/-! ## What is read back -/

/-- The text of a file, as it is read. -/
def fileText (fs : FileSystem) (path : Path) : Option Text := (fs.file? path).map decodeReplace

/-- What the text of the target is after a call that is done. -/
def FileCall.newText (call : FileCall) (old : Option Text) : Option Text :=
  match call with
  | write_file _ _ append _ => some ((if append.truthy then old.getD [] else []) ++ call.text)
  | create_file_folder _ kind _ _ =>
    if kind = .text (Py.text "file") then some (old.getD call.text) else old

/-- The text of the file at a path after a call, which changes it if it is for this path. -/
def textAfter (path : Path) (old : Option Text) (call : OS × FileCall) : Option Text :=
  if call.2.target? call.1 = some path then call.2.newText old else old

/-- A call that is for this path succeeds, or it is a `create_file_folder` where the file is already
there. -/
def Settled (path : Path) (fs : FileSystem) (call : OS × FileCall) : Prop :=
  call.2.target? call.1 = some path →
    Succeeds (FileCall.step fs call).2 ∨ ¬ call.2.IsWrite ∧ (fs.file? path).isSome

namespace FileCall

/-- No device appears. -/
theorem node_eq_special_of_step {fs : FileSystem} {call : OS × FileCall} {path : Path}
    (h : (step fs call).1.node path = some .special) : fs.node path = some .special := by
  have hmade (paths : List Path) (h : (fs.makeDirectories paths).node path = some .special) :
      fs.node path = some .special := by
    rwa [FileTree.node_makeDirectories (by simp [h])] at h
  obtain ⟨paths, hfs | ⟨target, append, bytes, -, -, hfs⟩⟩ := step_cases fs call
  · exact hmade paths (by rwa [hfs] at h)
  · rw [hfs] at h
    exact hmade paths (FileTree.node_eq_special_of_write h)

/-- A file that is not the target of the call stays as it is, or stays absent. -/
theorem file?_step_of_ne {fs : FileSystem} {call : OS × FileCall} {path : Path}
    (h : call.2.target? call.1 ≠ some path) : (step fs call).1.file? path = fs.file? path := by
  obtain ⟨paths, hfs | ⟨target, append, bytes, htarget, -, hfs⟩⟩ := step_cases fs call
  · rw [hfs]
    exact fs.sameFiles_makeDirectories paths path
  · have hne : path ≠ target := fun heq => h (heq ▸ htarget)
    rw [hfs, ← fs.sameFiles_makeDirectories paths path]
    unfold FileTree.file?
    rw [FileTree.node_write_of_ne hne]

/-- Where no directory stands above or at a target, nothing has changed. -/
theorem node_parents {call : FileCall} {fs : FileSystem} {target path : Path}
    (h : (call.parents fs target).node path ≠ some .directory) :
    (call.parents fs target).node path = fs.node path := by
  cases call <;> rw [parents] at h ⊢ <;> split_ifs at h ⊢ <;>
    first | rfl | exact FileTree.node_provide h

/-- What a file has that is opened and written to, where no device stands. -/
theorem file?_write_parents {fs : FileSystem} {call : FileCall} {target : Path}
    (hdevice : fs.node target ≠ some .special)
    (hopened : (call.parents fs target).node target ≠ some .directory) (append : Bool)
    (bytes : List UInt8) : ((call.parents fs target).write append target bytes).file? target =
      some ((if append then (fs.file? target).getD [] else []) ++ bytes) := by
  have hnode := node_parents hopened
  have hfile : (call.parents fs target).file? target = fs.file? target := by
    unfold FileTree.file?
    rw [hnode]
  rw [← hfile]
  refine FileTree.file?_eq_some_iff.mpr (FileTree.node_write_self (fun n hn => ?_) append bytes)
  cases n with
  | file content => exact ⟨content, rfl⟩
  | directory => exact absurd hn hopened
  | special => exact absurd (hnode ▸ hn) hdevice

/-- What a call has done to the text of its target. -/
theorem fileText_of_done {os : OS} {fs : FileSystem} {call : FileCall} {target : Path}
    {bytes : List UInt8} (hdone : Done os fs call target bytes)
    (hdevice : fs.node target ≠ some .special) :
    fileText (call.effect fs target bytes) target = call.newText (fileText fs target) := by
  -- The old content stays in front for an append, and is gone otherwise.
  have hold (old : Option (List UInt8)) (append : Bool) :
      decodeReplace ((if append then old.getD [] else []) ++ bytes) =
        (if append then (old.map decodeReplace).getD [] else []) ++ call.text := by
    rw [decodeReplace_append_encode hdone.encoded]
    cases append <;> cases old <;> rfl
  unfold fileText
  cases call with
  | write_file filepath content append create_dirs =>
    have hfile := file?_write_parents hdevice (hdone.opened nofun) append.truthy bytes
    rw [effect, hfile, Option.map_some, hold, newText]
  -- A creation finds nothing at the path, so the new text is all of it.
  | create_file_folder path kind content recursive =>
    obtain ⟨habsent, hkind⟩ := hdone.created _ _ _ _ rfl
    have hnone : fs.file? target = none := by
      unfold FileTree.file?
      rw [habsent]
    have hkinds : Arg.text (Py.text "file") ≠ .text (Py.text "directory") := by decide
    rcases hkind with rfl | rfl
    · have hfile := file?_write_parents hdevice (hdone.opened nofun) false bytes
      rw [effect, if_neg hkinds, hfile, Option.map_some, hold, newText, if_pos rfl, hnone]
      rfl
    -- A directory changes no file.
    · have hsame : (fs.provide target).file? target = fs.file? target := by
        unfold FileTree.provide
        split_ifs
        · exact fs.sameFiles_makeDirectories _ target
        · rfl
      rw [effect, if_pos rfl, hsame, newText, if_neg hkinds.symm]

/-- A settled call leaves the text that it says. -/
theorem fileText_step {fs : FileSystem} {call : OS × FileCall} {path : Path}
    (hdevice : fs.node path ≠ some .special) (h : Settled path fs call) :
    fileText (step fs call).1 path = textAfter path (fileText fs path) call := by
  obtain ⟨os, call⟩ := call
  unfold textAfter
  -- The call is about the path: it succeeds, or it creates what is there already.
  by_cases htarget : call.target? os = some path
  · rw [if_pos htarget]
    rcases h htarget with hsucceeds | ⟨hcreate, hfile⟩
    · obtain ⟨target, bytes, hdone⟩ := done_of_succeeds hsucceeds
      obtain rfl : target = path := Option.some.inj (hdone.target_eq.symm.trans htarget)
      have hfs : (step fs (os, call)).1 = call.effect fs target bytes := hdone.files_eq
      rw [hfs]
      exact fileText_of_done hdone hdevice
    -- A creation leaves the file that it finds.
    · obtain ⟨content, hfile⟩ := Option.isSome_iff_exists.mp hfile
      have hkept : (step fs (os, call)).1.file? path = some content :=
        FileTree.file?_eq_some_iff.mpr ((keepsNodes_step fs (os, call) path _
          (FileTree.file?_eq_some_iff.mp hfile)).resolve_right fun h => hcreate h.1.1)
      unfold fileText
      rw [hkept, hfile]
      cases call with
      | write_file filepath content append create_dirs => exact absurd trivial hcreate
      | create_file_folder path kind content recursive =>
        unfold newText
        simp only [Option.map_some, Option.getD_some, ite_self]
  -- A call about another path leaves this one.
  · rw [if_neg htarget]
    exact congrArg _ (file?_step_of_ne htarget)

end FileCall

/-- The text of a file after a run in which every call that is for it is settled. -/
theorem fileText_run {path : Path} {fs : FileSystem} (hdevice : fs.node path ≠ some .special)
    {calls : List (OS × FileCall)} (h : Machine.EveryStep FileCall.step (Settled path) fs calls) :
    fileText (Machine.state FileCall.step fs calls) path =
      calls.foldl (textAfter path) (fileText fs path) := by
  induction calls generalizing fs with
  | nil => rfl
  | cons call calls ih =>
    rw [Machine.state, ih (fun h => hdevice (FileCall.node_eq_special_of_step h)) h.2,
      FileCall.fileText_step hdevice h.1, List.foldl_cons]

/-- The lines of a text with their ends are the text. -/
theorem flatten_splitLines (t : Text) : (splitLines t).flatten = t := by
  induction t using splitLines.induct with
  | case1 t ih => exact congrArg ([chr 13, chr 10] ++ ·) ih
  -- `\r\n` is one line break; the other breaks are single characters.
  | case2 c t hcr hbreak ih =>
    have hstep : splitLines (c :: t) = [c] :: splitLines t := by
      delta splitLines
      dsimp only [List.brecOn, List.brecOn.go, splitLines._f]
      simp only [hbreak, if_true]
    rw [hstep, List.flatten_cons, ih]
    rfl
  -- The last line has no break behind it.
  | case3 c t hcr hbreak hnil ih =>
    have hstep : splitLines (c :: t) = [[c]] := by
      delta splitLines at hnil ⊢
      dsimp only [List.brecOn, List.brecOn.go, splitLines._f] at hnil ⊢
      simp only [hbreak, if_false, hnil]
    rw [hstep, ← ih, hnil]
    rfl
  -- A character in front of a break joins the first of the lines.
  | case4 c t hcr hbreak line lines hlines ih =>
    have hstep : splitLines (c :: t) = (c :: line) :: lines := by
      delta splitLines at hlines ⊢
      dsimp only [List.brecOn, List.brecOn.go, splitLines._f] at hlines ⊢
      simp only [hbreak, if_false, hlines]
    rw [hstep, ← ih, hlines]
    rfl
  | case5 => rfl

namespace ReadFileTool

variable {os : OS} {fs : FileSystem} {filepath : Text} {target : Path} {max_bytes : ℤ}

/-- Where no call raises, a file within the limit is read. -/
theorem execute_of_file (hresolve : os.resolve filepath = .ok target)
    (hfault : ∀ site, os.fault site = none) {content : List UInt8}
    (hfile : fs.file? target = some content) (hsize : content.length ≤ max_bytes * 10)
    (start_line : ℤ) (end_line : Option ℤ) :
    execute os fs filepath start_line end_line max_bytes =
      .ok (report target content.length (splitLines (universalNewlines (decodeReplace content)))
        start_line end_line) := by
  have hnode := FileTree.file?_eq_some_iff.mp hfile
  have hlimit : ¬ max_bytes * 10 < content.length := by omega
  have hbody : (body os start_line end_line max_bytes target).runFrom fs =
      (.ok (report target content.length (splitLines (universalNewlines (decodeReplace content)))
        start_line end_line), fs) := by
    simp [-bind_pure_comp, body, FileM.runFrom_bind, OS.pathExists, OS.isFile, OS.stSize,
      OS.readText, OS.runFrom_ask, hfault, hnode, hfile, hlimit]
  unfold execute
  rw [hresolve]
  simp only [hbody]

/-- What is no file is told to be none. -/
theorem execute_of_no_file (hresolve : os.resolve filepath = .ok target)
    (hfault : ∀ site, os.fault site = none) (hfile : fs.file? target = none) (start_line : ℤ)
    (end_line : Option ℤ) :
    ∃ result, execute os fs filepath start_line end_line max_bytes = .ok result ∧
      result.success = false := by
  have hbody : ∃ result, (body os start_line end_line max_bytes target).runFrom fs =
      (.ok result, fs) ∧ result.success = false := by
    cases hnode : fs.node target <;>
      simp [-bind_pure_comp, body, FileM.runFrom_bind, OS.pathExists, OS.isFile, OS.runFrom_ask,
        hfault, hnode, hfile]
  obtain ⟨result, hbody, hfailure⟩ := hbody
  refine ⟨result, ?_, hfailure⟩
  unfold execute
  rw [hresolve]
  simp only [hbody]

/-- The result that has a whole text, up to trailing whitespace. -/
def whole (target : Path) (size : ℕ) (t : Text) : FileToolResult where
  content := header (infoParts target (splitLines t).length size 1 none) ++ rstrip t

/-- It is the one without a range. -/
theorem report_all (target : Path) (size : ℕ) (t : Text) :
    report target size (splitLines t) 1 none = whole target size t := by
  have hall : slice (splitLines t) (1 - 1) none = splitLines t := by simp [slice, sliceIndex]
  unfold report whole
  simp only [lt_self_iff_false, if_false, hall, flatten_splitLines]

end ReadFileTool

/-- `read_file` reads back what a run has written: after calls of the other tools in which each that
is for a file succeeds, or finds the file there and makes no other, the text is what the calls say,
behind what the file had. A path without a file is told to be one. -/
theorem read_file_after_run {path : Path} {fs : FileSystem}
    (hdevice : fs.node path ≠ some .special) {calls : List (OS × FileCall)}
    (hsettled : Machine.EveryStep FileCall.step (Settled path) fs calls) {os : OS} {filepath : Text}
    (hresolve : os.resolve filepath = .ok path) (hfault : ∀ site, os.fault site = none)
    {max_bytes : ℤ} (hsize : ∀ content,
      (Machine.state FileCall.step fs calls).file? path = some content →
        content.length ≤ max_bytes * 10) :
    let fs' := Machine.state FileCall.step fs calls
    let after := calls.foldl (textAfter path) (fileText fs path)
    (∀ t, after = some t → ∃ size,
      (∀ start_line end_line, ReadFileTool.execute os fs' filepath start_line end_line max_bytes =
        .ok (ReadFileTool.report path size (splitLines (universalNewlines t)) start_line
          end_line)) ∧
      ReadFileTool.execute os fs' filepath 1 none max_bytes =
        .ok (ReadFileTool.whole path size (universalNewlines t))) ∧
    (after = none → ∀ start_line end_line, ∃ result,
      ReadFileTool.execute os fs' filepath start_line end_line max_bytes = .ok result ∧
        result.success = false) := by
  intro fs' after
  -- The text at the path after the run is what the calls, one after another, make of it.
  have htext : (fs'.file? path).map decodeReplace = after := fileText_run hdevice hsettled
  constructor
  · intro t ht
    rw [ht, Option.map_eq_some_iff] at htext
    obtain ⟨content, hfile, rfl⟩ := htext
    have hread := ReadFileTool.execute_of_file hresolve hfault hfile (hsize content hfile)
    refine ⟨content.length, hread, ?_⟩
    rw [hread, ReadFileTool.report_all]
  -- Nothing was written there, so there is no file to read.
  · intro hnone start_line end_line
    rw [hnone, Option.map_eq_none_iff] at htext
    exact ReadFileTool.execute_of_no_file hresolve hfault htext start_line end_line

/-- Both lines are read. -/
theorem read_file_after_run_notes :
    ∃ size, ReadFileTool.execute calmOS (Machine.state FileCall.step oneFile noteCalls)
      (text "/notes") 1 none 102400 =
        .ok (ReadFileTool.whole [text "notes"] size (text "one\ntwo")) := by
  have hsettled : Machine.EveryStep FileCall.step (Settled [text "notes"]) oneFile noteCalls :=
    callsSucceed_noteCalls.mono fun _ _ h _ => .inl h
  have hresolve : calmOS.resolve (text "/notes") = .ok [text "notes"] := rfl
  have hsize : ∀ content, (Machine.state FileCall.step oneFile noteCalls).file? [text "notes"] =
      some content → content.length ≤ (102400 : ℤ) * 10 := by
    -- The file after the calls is short enough to be read.
    have hfile : (Machine.state FileCall.step oneFile noteCalls).file? [text "notes"] =
        some [111, 110, 101, 10, 116, 119, 111] := by decide
    intro content hcontent
    rw [hfile] at hcontent
    obtain rfl := Option.some.inj hcontent
    decide
  obtain ⟨size, -, hread⟩ := (read_file_after_run (by decide) hsettled hresolve (fun _ => rfl)
    hsize).1 (text "one\ntwo") (by decide)
  exact ⟨size, hread⟩

end YellowBull
