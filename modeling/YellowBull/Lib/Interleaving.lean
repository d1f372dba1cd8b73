import Mathlib.Data.List.Basic
import Mathlib.Logic.Function.Basic

/-!
# Interleavings

A shared log is an interleaving of the sequences `own i` of its writers when its entries can be
tagged with a writer each so that every writer finds its own sequence, complete and in order, under
its tag (`IsInterleaving`). Nothing is lost, nothing is duplicated, and only the order between
different writers is open. The tags stay right when a writer appends to the log what it also appends
to its own sequence (`proj_append_tag`).
-/

namespace Interleaving

variable {ι α : Type*} [DecidableEq ι]

/-- The entries that carry the tag `i`, in order. -/
def proj (i : ι) (log : List (ι × α)) : List α := (log.filter fun x => x.1 = i).map Prod.snd

/-- The log can be tagged so that the entries with the tag `i` are `own i`. -/
def IsInterleaving (own : ι → List α) (log : List α) : Prop :=
  ∃ tagged : List (ι × α), tagged.map Prod.snd = log ∧ ∀ i, proj i tagged = own i

/-- The part of one in two runs is that in the first and that in the second. -/
theorem proj_append (i : ι) (l m : List (ι × α)) : proj i (l ++ m) = proj i l ++ proj i m := by
  simp [proj]

/-- A writer's own entries, tagged, give the entries back. -/
theorem proj_tag_self (i : ι) (xs : List α) : proj i (xs.map (Prod.mk i)) = xs := by
  simp [proj, List.filter_eq_self.mpr, Function.comp_def]

/-- Another writer's entries are not under the tag. -/
theorem proj_tag_of_ne {i j : ι} (h : j ≠ i) (xs : List α) : proj i (xs.map (Prod.mk j)) = [] := by
  simp [proj, h]

/-- What the tags show of each writer after the writer `i` appends `xs`. -/
theorem proj_append_tag {own : ι → List α} {tagged : List (ι × α)}
    (h : ∀ i, proj i tagged = own i) (i : ι) (xs : List α) (j : ι) :
    proj j (tagged ++ xs.map (Prod.mk i)) = Function.update own i (own i ++ xs) j := by
  rw [proj_append, h]
  by_cases hji : j = i
  · subst hji
    rw [Function.update_self, proj_tag_self]
  · rw [Function.update_of_ne hji, proj_tag_of_ne (Ne.symm hji), List.append_nil]

end Interleaving
