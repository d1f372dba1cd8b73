import YellowBull.Lib.OrderedMap

/-!
# Folding a stream by key

A stream of items of several keys, in any interleaving, is folded into one accumulator for each key,
which the first item of the key starts. Each key gets what the fold makes of its own items alone
(`get?_keyedFold`), and the keys stand in the order of their first items (`keys_keyedFold`), so that
nothing else of the interleaving is left in the result (`values_keyedFold`).
-/

namespace OrderedMap

variable {κ ν α β : Type*} [DecidableEq κ]

/-- The keys of a stream in the order in which they first appear. -/
def firstAppearances : List κ → List κ
  | [] => []
  | k :: ks => k :: (firstAppearances ks).filter (· ≠ k)

/-- A key that is set stays where it is, or goes to the end. -/
theorem keys_set (d : OrderedMap κ ν) (key : κ) (value : ν) :
    (d.set key value).keys = if key ∈ d.keys then d.keys else d.keys ++ [key] := by
  show (setItem key value d.items).map Prod.fst = if key ∈ d.items.map Prod.fst then _ else _
  unfold keys
  generalize d.items = items
  induction items with
  | nil => simp [setItem]
  | cons item items ih =>
    unfold setItem
    by_cases h : item.1 = key
    · simp [h]
    · rw [if_neg h, List.map_cons, ih, List.map_cons]
      simp only [List.mem_cons, Ne.symm h, false_or]
      split_ifs <;> rfl

/-- The values are those that the keys have. -/
theorem map_values (d : OrderedMap κ ν) : d.values.map some = d.keys.map d.get? := by
  unfold values keys
  rw [List.map_map, List.map_map]
  refine List.map_congr_left fun item hitem => ?_
  exact (d.mem_items_iff.mp hitem).symm

section Fold

variable (key : α → κ) (start : α → ν) (f : ν → α → ν)

/-- One item more: its key's accumulator, started by the item if there is none yet. -/
def keyedStep (d : OrderedMap κ ν) (x : α) : OrderedMap κ ν :=
  d.set (key x) (f ((d.get? (key x)).getD (start x)) x)

/-- The accumulators of the keys after a stream of items. -/
def keyedFold (d : OrderedMap κ ν) (xs : List α) : OrderedMap κ ν :=
  xs.foldl (keyedStep key start f) d

variable {key start f}

/-- The accumulator of a key, from what it was before. -/
theorem get?_keyedFold_from (d : OrderedMap κ ν) (xs : List α) (k : κ) :
    (keyedFold key start f d xs).get? k =
      (xs.filter (key · = k)).foldl (fun v x => some (f (v.getD (start x)) x)) (d.get? k) := by
  induction xs generalizing d with
  | nil => rfl
  | cons x xs ih =>
    change (keyedFold key start f (keyedStep key start f d x) xs).get? k = _
    rw [ih]
    by_cases hk : key x = k
    · subst hk
      rw [List.filter_cons_of_pos (by simp), List.foldl_cons]
      unfold keyedStep
      rw [get?_set_self]
    · rw [List.filter_cons_of_neg (by simpa using hk)]
      unfold keyedStep
      rw [get?_set_of_ne d (Ne.symm hk)]

/-- A started accumulator is folded on. -/
theorem foldl_started (xs : List α) (v : ν) :
    xs.foldl (fun v x => some (f (v.getD (start x)) x)) (some v) = some (xs.foldl f v) := by
  induction xs generalizing v with
  | nil => rfl
  | cons x xs ih => exact ih (f v x)

/-- From the empty map, a key has what the fold makes of its own items. -/
theorem get?_keyedFold {xs : List α} {k : κ} {x : α} {rest : List α}
    (h : xs.filter (key · = k) = x :: rest) :
    (keyedFold key start f empty xs).get? k = some (rest.foldl f (f (start x) x)) := by
  rw [get?_keyedFold_from, h, List.foldl_cons]
  exact foldl_started rest _

/-- The keys are those there were, and then the new ones as they first appear. -/
theorem keys_keyedFold_from (d : OrderedMap κ ν) (xs : List α) :
    (keyedFold key start f d xs).keys =
      d.keys ++ (firstAppearances (xs.map key)).filter (· ∉ d.keys) := by
  induction xs generalizing d with
  | nil => simp [keyedFold, firstAppearances]
  | cons x xs ih =>
    change (keyedFold key start f (keyedStep key start f d x) xs).keys = _
    rw [ih, List.map_cons, firstAppearances]
    unfold keyedStep
    rw [keys_set]
    -- A key that is there keeps its place; a new one is put behind the others.
    by_cases hk : key x ∈ d.keys
    · rw [if_pos hk, List.filter_cons_of_neg (by simpa using hk), List.filter_filter]
      congr 1
      refine List.filter_congr fun k _ => ?_
      by_cases hne : k = key x
      · simp [hne, hk]
      · simp [hne]
    · rw [if_neg hk, List.filter_cons_of_pos (by simpa using hk), List.append_assoc,
        List.singleton_append, List.filter_filter]
      congr 2
      refine List.filter_congr fun k _ => ?_
      simp [Bool.and_comm]

/-- From the empty map, the keys stand in the order of their first appearance. -/
theorem keys_keyedFold (xs : List α) :
    (keyedFold key start f empty xs).keys = firstAppearances (xs.map key) := by
  rw [keys_keyedFold_from]
  simp [keys, empty]

/-- A stream whose keys first appear in the order of a list, and in which each of them has items
that fold to its element's value, folds to the values of the list. -/
theorem values_keyedFold {xs : List α} {ys : List β} {k : β → κ} {v : β → ν}
    (hkeys : firstAppearances (xs.map key) = ys.map k)
    (hvalues : ∀ y ∈ ys, ∃ x rest, xs.filter (key · = k y) = x :: rest ∧
      rest.foldl f (f (start x) x) = v y) :
    (keyedFold key start f empty xs).values = ys.map v := by
  have hsome : (keyedFold key start f empty xs).values.map some = (ys.map v).map some := by
    rw [map_values, keys_keyedFold, hkeys, List.map_map, List.map_map]
    refine List.map_congr_left fun y hy => ?_
    obtain ⟨x, rest, hfilter, hfold⟩ := hvalues y hy
    exact (get?_keyedFold hfilter).trans (congrArg some hfold)
  exact List.map_injective_iff.mpr (fun _ _ h => Option.some.inj h) hsome

end Fold

end OrderedMap
