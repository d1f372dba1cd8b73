import Mathlib.Data.List.Induction

/-!
# What the latest write left

A register that some of the operations of a history write: `write op` is the value that `op` puts
there, none where `op` leaves the register alone. What the register holds after a history is the
value of the latest write, and its initial value where no operation wrote (`latest_eq_iff`).
Operations that do not write may be put anywhere into a history (`latest_filter`).
-/

namespace Latest

variable {ι β : Type*} (write : ι → Option β)

/-- What a register that starts as `init` holds after the operations. -/
def latest (init : β) (ops : List ι) : β := ops.foldl (fun b op => (write op).getD b) init

/-- Without operations the value is the one at the start. -/
@[simp]
theorem latest_nil (init : β) : latest write init [] = init := rfl

/-- The first operation may write a value for the others to start with. -/
theorem latest_cons (init : β) (op : ι) (ops : List ι) :
    latest write init (op :: ops) = latest write ((write op).getD init) ops := rfl

/-- Later operations start with what the earlier ones have written. -/
theorem latest_append (init : β) (ops ops' : List ι) :
    latest write init (ops ++ ops') = latest write (latest write init ops) ops' :=
  List.foldl_append

/-- The operation at the end of a history has the last word. -/
@[simp]
theorem latest_concat (init : β) (ops : List ι) (op : ι) :
    latest write init (ops ++ [op]) = (write op).getD (latest write init ops) :=
  latest_append write init ops [op]

variable {write}

/-- A history without writes leaves the register as it is. -/
theorem latest_of_forall_none {ops : List ι} (h : ∀ op ∈ ops, write op = none) (init : β) :
    latest write init ops = init := by
  induction ops with
  | nil => rfl
  | cons op ops ih =>
    rw [latest_cons, h op (by simp), Option.getD_none]
    exact ih fun op' hop' => h op' (by simp [hop'])

/-- What a write left stays until the next one. -/
theorem latest_of_write {pre post : List ι} {op : ι} {b : β} (hop : write op = some b)
    (hpost : ∀ op' ∈ post, write op' = none) (init : β) :
    latest write init (pre ++ op :: post) = b := by
  rw [latest_append, latest_cons, hop, Option.getD_some]
  exact latest_of_forall_none hpost b

variable (write) in
/-- A history has a latest write or none at all. -/
theorem latest_cases (ops : List ι) :
    (∃ pre op post b, ops = pre ++ op :: post ∧ write op = some b ∧
        ∀ op' ∈ post, write op' = none) ∨
      ∀ op ∈ ops, write op = none := by
  induction ops using List.reverseRecOn with
  | nil => exact Or.inr (by simp)
  | append_singleton ops op ih =>
    -- The last operation is the latest write, or leaves the one before it the latest.
    cases hop : write op with
    | some b => exact Or.inl ⟨ops, op, [], b, rfl, hop, by simp⟩
    | none =>
      rcases ih with ⟨pre, op', post, b, rfl, hop', hpost⟩ | hnone
      · refine Or.inl ⟨pre, op', post ++ [op], b, by simp, hop', fun op'' hop'' => ?_⟩
        rcases List.mem_append.mp hop'' with hmem | hmem
        · exact hpost op'' hmem
        · rw [List.mem_singleton.mp hmem, hop]
      · refine Or.inr fun op' hop' => ?_
        rcases List.mem_append.mp hop' with hmem | hmem
        · exact hnone op' hmem
        · rw [List.mem_singleton.mp hmem, hop]

/-- The register holds what the latest write put there, or what it started with. -/
theorem latest_eq_iff {init b : β} {ops : List ι} : latest write init ops = b ↔
    (∃ pre op post, ops = pre ++ op :: post ∧ write op = some b ∧
        ∀ op' ∈ post, write op' = none) ∨
      ((∀ op ∈ ops, write op = none) ∧ init = b) := by
  constructor
  · intro h
    rcases latest_cases write ops with ⟨pre, op, post, b', rfl, hop, hpost⟩ | hnone
    · rw [latest_of_write hop hpost] at h
      exact Or.inl ⟨pre, op, post, rfl, h ▸ hop, hpost⟩
    · rw [latest_of_forall_none hnone] at h
      exact Or.inr ⟨hnone, h⟩
  · rintro (⟨pre, op, post, rfl, hop, hpost⟩ | ⟨hnone, rfl⟩)
    · exact latest_of_write hop hpost init
    · exact latest_of_forall_none hnone init

/-- Operations under another name. -/
theorem latest_map {κ : Type*} (f : κ → ι) (init : β) (ops : List κ) :
    latest write init (ops.map f) = latest (fun op => write (f op)) init ops :=
  List.foldl_map ..

/-- Operations that do not write may be left out. -/
theorem latest_filter {keep : ι → Bool} {ops : List ι}
    (h : ∀ op ∈ ops, keep op = false → write op = none) (init : β) :
    latest write init (ops.filter keep) = latest write init ops := by
  induction ops generalizing init with
  | nil => rfl
  | cons op ops ih =>
    have hops (init : β) := ih (fun op' hop' => h op' (by simp [hop'])) init
    rw [latest_cons, ← hops]
    cases hkeep : keep op with
    | true => rw [List.filter_cons_of_pos hkeep, latest_cons]
    | false =>
      rw [List.filter_cons_of_neg (by simp [hkeep]), h op (by simp) hkeep, Option.getD_none]

end Latest
