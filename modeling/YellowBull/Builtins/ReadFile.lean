import YellowBull.Builtins.FailedWrites

/-!
# The tool that reads files

`ReadFileTool` of `tools/builtins/file_read.py`. A range of lines is asked for by the numbers of its
first and its last line, and read by the slice `lines[start_line - 1 : end_line]`, with `start_line`
raised to 1. The slice is right but for a negative `end_line`, which counts from the end of the
file: it gives all but the last lines where the range is empty (`reads_iff`).
-/

namespace YellowBull

open Py

namespace ReadFileTool

/-- The line of the header that tells the range. -/
def showing (first last : ℤ) : Text :=
  text ("Showing lines " ++ toString first ++ "-" ++ toString last)

/-- `info_parts`, for `start_line` raised to 1. -/
def infoParts (target : Path) (total_lines size : ℕ) (start_line : ℤ) (end_line : Option ℤ) :
    List Text :=
  let file := text "File: " ++ target.str ++
    text (" (" ++ toString total_lines ++ " lines, " ++ toString size ++ " bytes)")
  if start_line ≠ 1 ∨ end_line ≠ none then
    -- `end_line or total_lines`
    let actual_end := min ((end_line.filter (· ≠ 0)).getD total_lines) total_lines
    [file, showing start_line actual_end]
  else [file]

/-- What stands before the lines in a result. -/
def header (info_parts : List Text) : Text := (text "\n").intercalate info_parts ++ text "\n---\n"

/-- The result for a file with these lines. -/
def report (target : Path) (size : ℕ) (lines : List Text) (start_line : ℤ) (end_line : Option ℤ) :
    FileToolResult :=
  let start_line := if start_line < 1 then 1 else start_line
  let sliced := slice lines (start_line - 1) end_line
  let content := sliced.flatten
  { content := header (infoParts target lines.length size start_line end_line) ++ rstrip content }

/-- The result for a file above the limit. -/
def tooLarge (size : ℕ) (max_bytes : ℤ) : FileToolResult where
  content := text ("File too large (" ++ toString size ++ " bytes). " ++
    "Use start_line/end_line to read a specific range, " ++
    "or increase max_bytes (current limit: " ++ toString max_bytes ++ ").")
  success := false

/-- The body of the `try` block, from the resolved path on. -/
def body (os : OS) (start_line : ℤ) (end_line : Option ℤ) (max_bytes : ℤ) (target : Path) :
    FileM FileToolResult := do
  if ← os.pathExists .found target then
    if ← os.isFile target then
      let size ← os.stSize .sizeBefore target
      if max_bytes * 10 < size then
        return tooLarge size max_bytes
      else
        let text ← os.readText target
        return report target size (splitLines text) start_line end_line
    else
      return { content := text "Not a file: " ++ target.str, success := false }
  else
    return { content := text "File not found: " ++ target.str, success := false }

/-- `ReadFileTool.execute`. -/
def execute (os : OS) (fs : FileSystem) (filepath : Text) (start_line : ℤ := 1)
    (end_line : Option ℤ := none) (max_bytes : ℤ := 102400) : Except Exn FileToolResult :=
  let clauses := [(.permissionError, "Permission denied: ")]
  match os.resolve filepath with
  | .error e => handle clauses "Read failed: " none e
  | .ok target =>
    match ((body os start_line end_line max_bytes target).runFrom fs).1 with
    | .ok result => .ok result
    | .error e => handle clauses "Read failed: " (some target) e

/-! ## What is read -/

/-- The number of the first line that is asked for. -/
def firstLine (start_line : ℤ) : ℤ := max 1 start_line

/-- The number of the last line that is asked for, of so many. -/
def lastLine (total_lines : ℕ) (end_line : Option ℤ) : ℤ :=
  (end_line.map (min · (total_lines : ℤ))).getD total_lines

/-- The result for a file with these lines has the lines that are asked for, up to trailing
whitespace, and a header that tells their numbers if it tells any. -/
def ReadsRange (target : Path) (size : ℕ) (lines : List Text) (start_line : ℤ)
    (end_line : Option ℤ) (result : Except Exn FileToolResult) : Prop :=
  let first := firstLine start_line
  let last := lastLine lines.length end_line
  let info_parts := infoParts target lines.length size first end_line
  ∃ body, result = .ok { content := header info_parts ++ body } ∧
    rstrip body = rstrip (linesBetween lines first last).flatten ∧
    (first ≤ last → ∀ part ∈ info_parts.tail, part = showing first last)

/-- A negative `end_line` that, counted from the end, leaves something else than whitespace of the
lines from the first one on. -/
def CutFromEnd (lines : List Text) (start_line : ℤ) (end_line : Option ℤ) : Prop :=
  ∃ e ∈ end_line, e < 0 ∧
    rstrip (linesBetween lines (firstLine start_line) (lines.length + e)).flatten ≠ []

/-- The header tells the range, where it is not empty. -/
theorem eq_showing_of_mem_infoParts {target : Path} {n size : ℕ} {first : ℤ} {end_line : Option ℤ}
    (h : first ≤ lastLine n end_line) (hfirst : 1 ≤ first) {part : Text}
    (hpart : part ∈ (infoParts target n size first end_line).tail) :
    part = showing first (lastLine n end_line) := by
  unfold infoParts at hpart
  split at hpart
  · obtain rfl := List.mem_singleton.mp hpart
    refine congrArg (showing first) ?_
    cases end_line with
    | none => simp [lastLine]
    | some e =>
      simp only [lastLine, Option.map_some, Option.getD_some] at h ⊢
      have he : e ≠ 0 := by omega
      rw [Option.filter_some, if_pos (by simpa using he), Option.getD_some]
  · cases hpart

/-- The slice has the lines that are asked for, or where `end_line` is negative the lines that it
leaves when it is counted from the end. -/
theorem slice_eq (lines : List Text) (start_line : ℤ) (end_line : Option ℤ) :
    slice lines (firstLine start_line - 1) end_line =
      linesBetween lines (firstLine start_line)
        (match end_line with
          | none => lines.length
          | some e => if e < 0 then lines.length + e else min e lines.length) := by
  -- The first line is at least one, so the index of the slice is not negative.
  have hfirst : 1 ≤ firstLine start_line := le_max_left ..
  have hstart : sliceIndex lines.length (firstLine start_line - 1) =
      (firstLine start_line).toNat - 1 := by
    rw [sliceIndex, if_neg (by omega)]
    omega
  rw [linesBetween_eq lines hfirst, slice, hstart]
  cases end_line with
  | none => simp
  | some e =>
    simp only [Option.map_some, Option.getD_some, sliceIndex]
    -- A negative end counts from the end, in the slice as in the formula.
    split_ifs with he
    · rfl
    -- A position after the last line takes all of them, as the slice does.
    · have hmin : (min e (lines.length : ℤ)).toNat = min e.toNat lines.length := by omega
      rw [hmin]
      rcases Nat.le_total e.toNat lines.length with hle | hle
      · rw [Nat.min_eq_left hle]
      · rw [Nat.min_eq_right hle, List.take_of_length_le hle, List.take_length]

/-- The report has the lines that are asked for just if `end_line` does not cut from the end. -/
theorem report_readsRange_iff (target : Path) (size : ℕ) (lines : List Text) (start_line : ℤ)
    (end_line : Option ℤ) :
    ReadsRange target size lines start_line end_line
        (.ok (report target size lines start_line end_line)) ↔
      ¬ CutFromEnd lines start_line end_line := by
  -- The `if` of the code is a maximum.
  have hclamp : (if start_line < 1 then 1 else start_line) = firstLine start_line := by
    unfold firstLine
    split_ifs <;> omega
  have hfirst : 1 ≤ firstLine start_line := le_max_left ..
  have hbody : ReadsRange target size lines start_line end_line
        (.ok (report target size lines start_line end_line)) ↔
      rstrip (slice lines (firstLine start_line - 1) end_line).flatten =
        rstrip (linesBetween lines (firstLine start_line)
          (lastLine lines.length end_line)).flatten := by
    unfold ReadsRange report
    -- The header is the same on both sides, so only the lines behind it are compared.
    simp only [hclamp, Except.ok.injEq, FileToolResult.mk.injEq, List.append_cancel_left_eq,
      and_true]
    constructor
    · rintro ⟨body, rfl, hbody, -⟩
      rwa [rstrip_rstrip] at hbody
    · intro hbody
      exact ⟨_, rfl, by rwa [rstrip_rstrip], fun hle part hpart =>
        eq_showing_of_mem_infoParts hle hfirst hpart⟩
  rw [hbody, slice_eq]
  unfold CutFromEnd
  cases end_line with
  | none => simp [lastLine]
  | some e =>
    -- With a negative end the code takes lines that the range does not have.
    by_cases he : e < 0
    · have hnone : linesBetween lines (firstLine start_line) (min e lines.length) = [] := by
        have hlast : (min e (lines.length : ℤ)).toNat = 0 := by omega
        rw [linesBetween_eq lines hfirst, hlast, List.take_zero, List.drop_nil]
      simp [lastLine, he, hnone]
    · simp [lastLine, he]

/-- A file within the limit, where no call of the operating system fails: `read_file` returns just
the lines that are asked for, unless `end_line` cuts from the end. -/
theorem reads_iff {os : OS} {fs : FileSystem} {filepath : Text} {target : Path}
    {content : List UInt8} {max_bytes : ℤ} (hresolve : os.resolve filepath = .ok target)
    (hfile : fs.node target = some (.file content)) (hsize : content.length ≤ max_bytes * 10)
    (hfault : ∀ site, os.fault site = none) (start_line : ℤ) (end_line : Option ℤ) :
    let lines := splitLines (universalNewlines (decodeReplace content))
    ReadsRange target content.length lines start_line end_line
        (execute os fs filepath start_line end_line max_bytes) ↔
      ¬ CutFromEnd lines start_line end_line := by
  intro lines
  -- Nothing fails and the file is small enough, so the call gets to the report.
  have hrun : execute os fs filepath start_line end_line max_bytes =
      .ok (report target content.length lines start_line end_line) := by
    have hcontent : fs.file? target = some content := by
      unfold FileTree.file?
      rw [hfile]
    have hlimit : ¬ max_bytes * 10 < content.length := by omega
    have hbody : (body os start_line end_line max_bytes target).runFrom fs =
        (.ok (report target content.length lines start_line end_line), fs) := by
      simp [-bind_pure_comp, body, FileM.runFrom_bind, OS.pathExists, OS.isFile, OS.stSize,
        OS.readText, OS.runFrom_ask, hfault, hfile, hcontent, hlimit, lines]
    unfold execute
    rw [hresolve]
    simp only [hbody]
  rw [hrun]
  exact report_readsRange_iff ..

/-- A file system with a file of three lines. -/
def threeLines : FileSystem where
  node path :=
    if path = [] then some .directory
    else if path = [text "notes"] then some (.file [97, 10, 98, 10, 99, 10])
    else none

/-- The second and the third line of the file. -/
theorem reads_iff_second_third :
    ReadsRange [text "notes"] 6 (splitLines (universalNewlines (decodeReplace
        [97, 10, 98, 10, 99, 10]))) 2 (some 3)
      (execute calmOS threeLines (text "/notes") 2 (some 3)) := by
  refine (reads_iff rfl (by decide) (by decide) (fun _ => rfl) 2 (some 3)).mpr ?_
  rintro ⟨e, he, hneg, -⟩
  obtain rfl := Option.some.inj he
  exact absurd hneg (by decide)

/-- With the end line `-1` the first two lines come back, where none is asked for. -/
theorem reads_from_end :
    ¬ ∀ (os : OS) (fs : FileSystem) (filepath : Text) (target : Path) (content : List UInt8)
      (start_line : ℤ) (end_line : Option ℤ) (max_bytes : ℤ), os.resolve filepath = .ok target →
      fs.node target = some (.file content) → content.length ≤ max_bytes * 10 →
      (∀ site, os.fault site = none) →
        ReadsRange target content.length (splitLines (universalNewlines (decodeReplace content)))
          start_line end_line (execute os fs filepath start_line end_line max_bytes) := by
  intro h
  -- The range `1` to `-1` is empty, but the tool shows the first two of the three lines.
  have hrun : execute calmOS threeLines (text "/notes") 1 (some (-1)) =
      .ok { content := header (infoParts [text "notes"] 3 6 1 (some (-1))) ++ [97, 10, 98] } := by
    decide
  obtain ⟨body, hread, hbody, -⟩ := h calmOS threeLines (text "/notes") [text "notes"] _ 1
    (some (-1)) 102400 rfl rfl (by decide) fun _ => rfl
  obtain rfl : [97, 10, 98] = body := by
    rw [hrun] at hread
    exact List.append_cancel_left (congrArg FileToolResult.content (Except.ok.inj hread))
  revert hbody
  decide

end ReadFileTool

end YellowBull
