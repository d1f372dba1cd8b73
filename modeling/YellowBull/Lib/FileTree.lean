import Mathlib.Data.List.Infix
import Mathlib.Logic.Function.Basic

/-!
# File trees

A file system as a tree of directories and files, told by what stands at each path. A path is the
list of its components from the root on, so that its parent drops the last one. Opening a file for
writing creates or empties it before anything is written (`openFile`), and writing puts bytes at its
end (`appendTo`). What the two leave of the files is `sameFiles_write_iff`. The contents may be seen
through a function, as texts for instance, and writing bytes is then writing what is seen of them
(`seen_write`).
-/

/-- What stands at a path. -/
inductive FileNode (β : Type*) where
  | file (content : List β)
  | directory
  /-- A device, a pipe or a socket. -/
  | special
  deriving DecidableEq

/-- The node with its content seen through a function. -/
def FileNode.seen {β γ : Type*} (f : List β → List γ) : FileNode β → FileNode γ
  | .file content => .file (f content)
  | .directory => .directory
  | .special => .special

/-- A tree of files with components of one type and bytes of another. -/
structure FileTree (κ β : Type*) where
  node : List κ → Option (FileNode β)

namespace FileTree

variable {κ β : Type*} [DecidableEq κ]

/-- The content of the file at a path. -/
def file? (fs : FileTree κ β) (path : List κ) : Option (List β) :=
  match fs.node path with
  | some (.file content) => some content
  | _ => none

omit [DecidableEq κ] in
/-- A file is read where there is one. -/
theorem file?_eq_some_iff {fs : FileTree κ β} {path : List κ} {content : List β} :
    fs.file? path = some content ↔ fs.node path = some (.file content) := by
  unfold file?
  split
  · next h => rw [h, Option.some.injEq, Option.some.injEq, FileNode.file.injEq]
  · next hno => exact iff_of_false nofun (hno content)

/-- Every file is still there with its content, and there is no other file. -/
def SameFiles (fs fs' : FileTree κ β) : Prop := ∀ path, fs'.file? path = fs.file? path

omit [DecidableEq κ] in
/-- A tree has the files that it has. -/
theorem SameFiles.refl (fs : FileTree κ β) : fs.SameFiles fs := fun _ => rfl

omit [DecidableEq κ] in
/-- Trees with the same files as a third have the same files. -/
theorem SameFiles.trans {fs fs' fs'' : FileTree κ β} (h : fs.SameFiles fs')
    (h' : fs'.SameFiles fs'') : fs.SameFiles fs'' := fun path => (h' path).trans (h path)

omit [DecidableEq κ] in
/-- Having the same files goes both ways. -/
theorem SameFiles.symm {fs fs' : FileTree κ β} (h : fs.SameFiles fs') : fs'.SameFiles fs :=
  fun path => (h path).symm

/-! ## Directories -/

/-- The paths from the root down to this one where nothing stands. -/
def missing (fs : FileTree κ β) (path : List κ) : List (List κ) :=
  path.inits.filter fun above => (fs.node above).isNone

/-- Makes directories of these paths, where nothing stands. -/
def makeDirectories (fs : FileTree κ β) (paths : List (List κ)) : FileTree κ β :=
  ⟨fun path => if path ∈ paths ∧ (fs.node path).isNone then some .directory else fs.node path⟩

/-- Makes a directory and those above it, unless something stands there already. -/
def provide (fs : FileTree κ β) (path : List κ) : FileTree κ β :=
  if (fs.node path).isNone then fs.makeDirectories (fs.missing path) else fs

/-- A path where something stands stays as it is. -/
theorem node_makeDirectories_of_some {fs : FileTree κ β} {path : List κ} {n : FileNode β}
    (h : fs.node path = some n) (paths : List (List κ)) :
    (fs.makeDirectories paths).node path = some n := by
  unfold makeDirectories
  simp [h]

/-- Another path stays empty or becomes a directory. -/
theorem node_makeDirectories_of_none {fs : FileTree κ β} {path : List κ}
    (h : fs.node path = none) (paths : List (List κ)) :
    (fs.makeDirectories paths).node path = none ∨
      (fs.makeDirectories paths).node path = some .directory := by
  unfold makeDirectories
  by_cases hpath : path ∈ paths
  · exact .inr (by simp [h, hpath])
  · exact .inl (by simp [h, hpath])

/-- Where no directory stands then, nothing has changed. -/
theorem node_makeDirectories {fs : FileTree κ β} {path : List κ} {paths : List (List κ)}
    (h : (fs.makeDirectories paths).node path ≠ some .directory) :
    (fs.makeDirectories paths).node path = fs.node path := by
  cases hnode : fs.node path with
  | some n => exact node_makeDirectories_of_some hnode paths
  | none => exact (node_makeDirectories_of_none hnode paths).resolve_right h

/-- The same for a directory and those above it. -/
theorem node_provide {fs : FileTree κ β} {path path' : List κ}
    (h : (fs.provide path').node path ≠ some .directory) :
    (fs.provide path').node path = fs.node path := by
  unfold provide at h ⊢
  split_ifs at h ⊢
  · exact node_makeDirectories h
  · rfl

/-- No directories to make leave the tree as it is. -/
@[simp]
theorem makeDirectories_nil (fs : FileTree κ β) : fs.makeDirectories [] = fs := by
  unfold makeDirectories
  simp

/-- Directories made in two steps. -/
theorem makeDirectories_append (fs : FileTree κ β) (paths paths' : List (List κ)) :
    (fs.makeDirectories paths).makeDirectories paths' = fs.makeDirectories (paths ++ paths') := by
  refine congrArg mk (funext fun path => ?_)
  cases h : fs.node path with
  | some n => simp [node_makeDirectories_of_some h]
  | none =>
    by_cases hpath : path ∈ paths
    · simp [makeDirectories, h, hpath]
    · simp [makeDirectories, h, hpath]

/-- New directories leave the files as they are. -/
theorem sameFiles_makeDirectories (fs : FileTree κ β) (paths : List (List κ)) :
    fs.SameFiles (fs.makeDirectories paths) := by
  intro path
  unfold file?
  cases h : fs.node path with
  | some n => rw [node_makeDirectories_of_some h]
  | none => rcases node_makeDirectories_of_none h paths with h' | h' <;> rw [h']

/-! ## Writing -/

/-- Puts a file at a path. -/
def setFile (fs : FileTree κ β) (path : List κ) (content : List β) : FileTree κ β :=
  ⟨Function.update fs.node path (some (.file content))⟩

/-- Opens what stands at a path for writing. An absent file is created, and one that is not opened
for appending is emptied. -/
def openFile (fs : FileTree κ β) (append : Bool) (path : List κ) : FileTree κ β :=
  match fs.node path with
  | none => fs.setFile path []
  | some (.file _) => if append then fs else fs.setFile path []
  | some _ => fs

/-- Writes at the end of the file at a path. What is no file takes the bytes without a change. -/
def appendTo (fs : FileTree κ β) (path : List κ) (bytes : List β) : FileTree κ β :=
  match fs.node path with
  | some (.file content) => fs.setFile path (content ++ bytes)
  | _ => fs

/-- Opens what stands at a path and writes to it. -/
def write (fs : FileTree κ β) (append : Bool) (path : List κ) (bytes : List β) : FileTree κ β :=
  (fs.openFile append path).appendTo path bytes

/-- To open what stands at a path and then to write these bytes is to change a file, or to make
one. -/
def Overwrites (append : Bool) (bytes : List β) : Option (FileNode β) → Prop
  | none => True
  | some (.file old) => (if append then old else []) ++ bytes ≠ old
  | some _ => False

/-- A file that is written is there, with its content. -/
@[simp]
theorem node_setFile_self (fs : FileTree κ β) (path : List κ) (content : List β) :
    (fs.setFile path content).node path = some (.file content) := Function.update_self ..

/-- Of two contents for a file, the second stays. -/
theorem setFile_setFile (fs : FileTree κ β) (path : List κ) (content content' : List β) :
    (fs.setFile path content).setFile path content' = fs.setFile path content' :=
  congrArg mk (Function.update_idem ..)

/-- The files stay the same just if the file had this content. -/
theorem sameFiles_setFile_iff {fs : FileTree κ β} {path : List κ} {content : List β} :
    fs.SameFiles (fs.setFile path content) ↔ fs.file? path = some content := by
  have hself : (fs.setFile path content).file? path = some content := by
    unfold file?
    rw [node_setFile_self]
  constructor
  · exact fun h => (h path).symm.trans hself
  · intro h path'
    by_cases hpath : path' = path
    · rw [hpath, hself, h]
    · unfold file? setFile
      simp only
      rw [Function.update_of_ne hpath]

/-- What writing to an opened file leaves: all bytes in it, behind the old ones when it was opened
for appending. -/
theorem appendTo_openFile_of_file {fs : FileTree κ β} {path : List κ} {old : List β}
    (h : fs.node path = some (.file old)) (append : Bool) (bytes : List β) :
    (fs.openFile append path).appendTo path bytes =
      fs.setFile path ((if append then old else []) ++ bytes) := by
  unfold openFile
  rw [h]
  cases append with
  | true => simp [appendTo, h]
  | false => simp [appendTo, setFile_setFile]

/-- An absent file is there afterwards, with the bytes. -/
theorem appendTo_openFile_of_none {fs : FileTree κ β} {path : List κ} (h : fs.node path = none)
    (append : Bool) (bytes : List β) :
    (fs.openFile append path).appendTo path bytes = fs.setFile path bytes := by
  unfold openFile
  rw [h]
  simp [appendTo, setFile_setFile]

/-- What is no file stays as it is. -/
theorem appendTo_openFile_of_no_file {fs : FileTree κ β} {path : List κ} {n : FileNode β}
    (h : fs.node path = some n) (hn : ∀ content, n ≠ .file content) (append : Bool)
    (bytes : List β) : (fs.openFile append path).appendTo path bytes = fs := by
  cases n with
  | file content => exact absurd rfl (hn content)
  | directory | special => simp [openFile, appendTo, h]

/-- To open a file and write to it leaves the files as they are just if it overwrites nothing. -/
theorem sameFiles_write_iff {fs : FileTree κ β} {append : Bool} {path : List κ} {bytes : List β} :
    fs.SameFiles ((fs.openFile append path).appendTo path bytes) ↔
      ¬ Overwrites append bytes (fs.node path) := by
  cases h : fs.node path with
  | none =>
    rw [appendTo_openFile_of_none h, sameFiles_setFile_iff]
    simp [Overwrites, file?, h]
  | some n =>
    cases n with
    | file old =>
      rw [appendTo_openFile_of_file h, sameFiles_setFile_iff]
      simp [Overwrites, file?, h, eq_comm]
    | directory | special =>
      rw [appendTo_openFile_of_no_file h (by simp)]
      exact iff_of_true (SameFiles.refl fs) id

/-- Something stands at a path that has been opened. -/
theorem exists_node_openFile (fs : FileTree κ β) (append : Bool) (path : List κ) (bytes : List β) :
    ∃ n, ((fs.openFile append path).appendTo path bytes).node path = some n := by
  cases h : fs.node path with
  | none =>
    rw [appendTo_openFile_of_none h]
    exact ⟨_, node_setFile_self ..⟩
  | some n =>
    cases n with
    | file old =>
      rw [appendTo_openFile_of_file h]
      exact ⟨_, node_setFile_self ..⟩
    | directory | special =>
      rw [appendTo_openFile_of_no_file h (by simp)]
      exact ⟨_, h⟩

/-- Another path than the one that is written to stays as it is. -/
theorem node_write_of_ne {path path' : List κ} (h : path' ≠ path) (fs : FileTree κ β)
    (append : Bool) (bytes : List β) : (fs.write append path bytes).node path' = fs.node path' := by
  have hset (content : List β) : (fs.setFile path content).node path' = fs.node path' :=
    Function.update_of_ne h ..
  unfold write
  cases hnode : fs.node path with
  | none => rw [appendTo_openFile_of_none hnode, hset]
  | some n =>
    cases n with
    | file old => rw [appendTo_openFile_of_file hnode, hset]
    | directory | special => rw [appendTo_openFile_of_no_file hnode (by simp)]

/-- What a file has that is written to, or made. -/
theorem node_write_self {fs : FileTree κ β} {path : List κ}
    (h : ∀ n, fs.node path = some n → ∃ content, n = .file content) (append : Bool)
    (bytes : List β) : (fs.write append path bytes).node path =
      some (.file ((if append then (fs.file? path).getD [] else []) ++ bytes)) := by
  unfold write file?
  cases hnode : fs.node path with
  | none =>
    rw [appendTo_openFile_of_none hnode, node_setFile_self]
    simp
  | some n =>
    obtain ⟨old, rfl⟩ := h n hnode
    rw [appendTo_openFile_of_file hnode, node_setFile_self]
    simp

/-- No device appears. -/
theorem node_eq_special_of_write {fs : FileTree κ β} {append : Bool} {path path' : List κ}
    {bytes : List β} (h : (fs.write append path bytes).node path' = some .special) :
    fs.node path' = some .special := by
  by_cases hpath : path' = path
  · subst hpath
    by_cases hfile : ∀ n, fs.node path' = some n → ∃ content, n = .file content
    · rw [node_write_self hfile] at h
      cases h
    · push Not at hfile
      obtain ⟨n, hnode, hn⟩ := hfile
      rwa [write, appendTo_openFile_of_no_file hnode hn] at h
  · rwa [node_write_of_ne hpath] at h

/-! ## What stays -/

/-- Whatever stands somewhere stays there, and is what it was, but that the files at some paths may
have another content. -/
def KeepsNodes (changed : List κ → Prop) (fs fs' : FileTree κ β) : Prop :=
  ∀ path n, fs.node path = some n →
    fs'.node path = some n ∨
      changed path ∧ (∃ content, n = .file content) ∧
        ∃ content, fs'.node path = some (.file content)

omit [DecidableEq κ] in
/-- A tree keeps its own nodes. -/
theorem KeepsNodes.refl (changed : List κ → Prop) (fs : FileTree κ β) :
    fs.KeepsNodes changed fs := fun _ _ h => .inl h

omit [DecidableEq κ] in
/-- Nodes that are kept twice are kept. -/
theorem KeepsNodes.trans {changed : List κ → Prop} {fs fs' fs'' : FileTree κ β}
    (h : fs.KeepsNodes changed fs') (h' : fs'.KeepsNodes changed fs'') :
    fs.KeepsNodes changed fs'' := by
  intro path n hn
  rcases h path n hn with hsame | ⟨hchanged, hfile, content, hcontent⟩
  · exact h' path n hsame
  · rcases h' path _ hcontent with hsame | ⟨-, -, hother⟩
    · exact .inr ⟨hchanged, hfile, content, hsame⟩
    · exact .inr ⟨hchanged, hfile, hother⟩

omit [DecidableEq κ] in
/-- More nodes may be allowed to change. -/
theorem KeepsNodes.mono {changed changed' : List κ → Prop} {fs fs' : FileTree κ β}
    (h : fs.KeepsNodes changed fs')
    (himp : ∀ path, fs.node path ≠ none → changed path → changed' path) :
    fs.KeepsNodes changed' fs' := fun path n hn =>
  (h path n hn).imp_right fun ⟨hchanged, hfile⟩ => ⟨himp path (by simp [hn]) hchanged, hfile⟩

/-- Making directories changes no node that is there. -/
theorem keepsNodes_makeDirectories (fs : FileTree κ β) (paths : List (List κ)) :
    fs.KeepsNodes (fun _ => False) (fs.makeDirectories paths) :=
  fun _ _ hn => .inl (node_makeDirectories_of_some hn paths)

/-- To open a file and to write to it may change the content of this one. -/
theorem keepsNodes_write (fs : FileTree κ β) (append : Bool) (path : List κ) (bytes : List β) :
    fs.KeepsNodes (· = path) (fs.write append path bytes) := by
  intro path' n hn
  by_cases hpath : path' = path
  · subst hpath
    cases n with
    | file old =>
      exact .inr ⟨rfl, ⟨old, rfl⟩, _,
        node_write_self (fun n h => ⟨old, by simpa [hn] using h.symm⟩) ..⟩
    | directory | special =>
      rw [write, appendTo_openFile_of_no_file hn (by simp)]
      exact .inl hn
  · exact .inl (by rw [node_write_of_ne hpath, hn])

/-! ## Contents seen through a function -/

section Seen

variable {γ : Type*}

/-- The tree with every content seen through a function. -/
def seen (f : List β → List γ) (fs : FileTree κ β) : FileTree κ γ :=
  ⟨fun path => (fs.node path).map (FileNode.seen f)⟩

variable (f : List β → List γ)

omit [DecidableEq κ] in
/-- Seeing files otherwise changes nothing about where there are nodes. -/
theorem isNone_node_seen (fs : FileTree κ β) (path : List κ) :
    ((fs.seen f).node path).isNone = (fs.node path).isNone := Option.isNone_map ..

/-- Directories are made alike, however files are seen. -/
theorem seen_makeDirectories (fs : FileTree κ β) (paths : List (List κ)) :
    (fs.makeDirectories paths).seen f = (fs.seen f).makeDirectories paths := by
  refine congrArg mk (funext fun path => ?_)
  rw [isNone_node_seen]
  unfold makeDirectories
  simp only
  split_ifs
  · rfl
  · rfl

/-- A directory is provided alike, however files are seen. -/
theorem seen_provide (fs : FileTree κ β) (path : List κ) :
    (fs.provide path).seen f = (fs.seen f).provide path := by
  have hmissing : (fs.seen f).missing path = fs.missing path :=
    List.filter_congr fun above _ => isNone_node_seen f fs above
  unfold provide
  rw [isNone_node_seen, hmissing]
  split_ifs
  · exact seen_makeDirectories ..
  · rfl

/-- A file is written as it is seen. -/
theorem seen_setFile (fs : FileTree κ β) (path : List κ) (content : List β) :
    (fs.setFile path content).seen f = (fs.seen f).setFile path (f content) := by
  refine congrArg mk (funext fun path' => ?_)
  by_cases hpath : path' = path
  · subst hpath
    rw [node_setFile_self, Function.update_self]
    rfl
  · rw [Function.update_of_ne hpath]
    exact congrArg _ (Function.update_of_ne hpath ..)

/-- What is written is seen behind what the file had. -/
theorem seen_write {bytes : List β} {text : List γ} (hnew : f bytes = text)
    (hbehind : ∀ old, f (old ++ bytes) = f old ++ text) (fs : FileTree κ β) (append : Bool)
    (path : List κ) : (fs.write append path bytes).seen f = (fs.seen f).write append path text := by
  -- An append reads the old content, a write does not; the two sides do the same.
  unfold write
  cases h : fs.node path with
  | none =>
    have h' : (fs.seen f).node path = none := congrArg (Option.map _) h
    rw [appendTo_openFile_of_none h, appendTo_openFile_of_none h', seen_setFile, hnew]
  | some n =>
    have h' : (fs.seen f).node path = some (n.seen f) := congrArg (Option.map _) h
    cases n with
    | file old =>
      rw [appendTo_openFile_of_file h, appendTo_openFile_of_file h', seen_setFile]
      cases append with
      | true => rw [if_pos rfl, if_pos rfl, hbehind]
      | false => rw [if_neg Bool.false_ne_true, if_neg Bool.false_ne_true, List.nil_append,
          List.nil_append, hnew]
    | directory | special =>
      rw [appendTo_openFile_of_no_file h (by simp),
        appendTo_openFile_of_no_file h' (by simp [FileNode.seen])]

end Seen

end FileTree
