import Mathlib.Data.List.Basic
import Mathlib.Logic.Function.Basic

/-!
# Insertion-ordered maps

A Python `dict` as a value: its items in insertion order, with the proof that no key occurs twice.
Setting a key that is present replaces its value in place; a new key goes to the end; a deleted key
that is set again goes to the end too. Each operation has the two lookup lemmas by which proofs use
it, for the key itself and for the others.
-/

/-- A finite map whose items are kept in the order in which their keys were first set. -/
structure OrderedMap (κ ν : Type*) where
  items : List (κ × ν)
  /-- No key occurs twice. -/
  nodup : (items.map Prod.fst).Nodup

namespace OrderedMap

variable {κ ν : Type*} [DecidableEq κ]

/-- The map without items. -/
def empty : OrderedMap κ ν := ⟨[], List.nodup_nil⟩

/-- `d.get(key)`. -/
def get? (d : OrderedMap κ ν) (key : κ) : Option ν := d.items.lookup key

/-- The values, in the order of the keys. -/
def values (d : OrderedMap κ ν) : List ν := d.items.map Prod.snd

/-- The keys, in order. -/
def keys (d : OrderedMap κ ν) : List κ := d.items.map Prod.fst

/-- Replaces the value of a key in place, or puts a new item at the end. -/
def setItem (key : κ) (value : ν) : List (κ × ν) → List (κ × ν)
  | [] => [(key, value)]
  | item :: items =>
    if item.1 = key then (key, value) :: items else item :: setItem key value items

/-- The keys of the items after `setItem`. -/
theorem mem_keys_setItem {key k : κ} {value : ν} {items : List (κ × ν)} :
    k ∈ (setItem key value items).map Prod.fst ↔ k = key ∨ k ∈ items.map Prod.fst := by
  induction items with
  | nil => simp [setItem]
  | cons item items ih =>
    unfold setItem
    split_ifs with h
    · simp only [List.map_cons, List.mem_cons, h]
      tauto
    · simp only [List.map_cons, List.mem_cons, ih]
      tauto

/-- `setItem` repeats no key. -/
theorem nodup_setItem (key : κ) (value : ν) {items : List (κ × ν)}
    (h : (items.map Prod.fst).Nodup) : ((setItem key value items).map Prod.fst).Nodup := by
  induction items with
  | nil => simp [setItem]
  | cons item items ih =>
    obtain ⟨hnot, h⟩ := List.nodup_cons.mp h
    unfold setItem
    split_ifs with heq
    · exact List.nodup_cons.mpr ⟨heq ▸ hnot, h⟩
    · refine List.nodup_cons.mpr ⟨?_, ih h⟩
      rw [mem_keys_setItem, not_or]
      exact ⟨heq, hnot⟩

/-- `d[key] = value`. -/
def set (d : OrderedMap κ ν) (key : κ) (value : ν) : OrderedMap κ ν :=
  ⟨setItem key value d.items, nodup_setItem key value d.nodup⟩

/-- `d.pop(key, None)`, the map that it leaves. -/
def erase (d : OrderedMap κ ν) (key : κ) : OrderedMap κ ν :=
  ⟨d.items.filter fun item => item.1 ≠ key, (List.filter_sublist.map Prod.fst).nodup d.nodup⟩

/-- An empty map has nothing under a key. -/
@[simp]
theorem get?_empty (key : κ) : (empty : OrderedMap κ ν).get? key = none := rfl

/-- A key has just the value it was set to. -/
@[simp]
theorem get?_set_self (d : OrderedMap κ ν) (key : κ) (value : ν) :
    (d.set key value).get? key = some value := by
  show (setItem key value d.items).lookup key = some value
  generalize d.items = items
  induction items with
  | nil => simp [setItem]
  | cons item items ih =>
    obtain ⟨k, v⟩ := item
    unfold setItem
    split_ifs with h
    · simp
    · rw [List.lookup_cons, beq_eq_false_iff_ne.mpr (Ne.symm h), ih]

/-- Setting a key leaves the others as they are. -/
theorem get?_set_of_ne (d : OrderedMap κ ν) {key k : κ} (hk : k ≠ key) (value : ν) :
    (d.set key value).get? k = d.get? k := by
  show (setItem key value d.items).lookup k = d.items.lookup k
  generalize d.items = items
  have hkey : (k == key) = false := beq_eq_false_iff_ne.mpr hk
  induction items with
  | nil => simp [setItem, hkey, List.lookup_cons]
  | cons item items ih =>
    obtain ⟨k', v⟩ := item
    unfold setItem
    split_ifs with h
    · obtain rfl : k' = key := h
      rw [List.lookup_cons, List.lookup_cons, hkey]
    · rw [List.lookup_cons, List.lookup_cons, ih]

/-- A new key goes to the end. -/
theorem items_set_of_not_mem (d : OrderedMap κ ν) {key : κ} (h : key ∉ d.keys) (value : ν) :
    (d.set key value).items = d.items ++ [(key, value)] := by
  show setItem key value d.items = _
  have hkey : key ∉ d.items.map Prod.fst := h
  revert hkey
  generalize d.items = items
  intro hkey
  induction items with
  | nil => rfl
  | cons item items ih =>
    rw [List.map_cons, List.mem_cons, not_or] at hkey
    rw [setItem, if_neg (Ne.symm hkey.1), ih hkey.2]
    rfl

/-- The last key keeps its place. -/
theorem items_set_last {d : OrderedMap κ ν} {items : List (κ × ν)} {key : κ} {old : ν}
    (h : d.items = items ++ [(key, old)]) (value : ν) :
    (d.set key value).items = items ++ [(key, value)] := by
  show setItem key value d.items = _
  have hnodup := d.nodup
  rw [h] at hnodup ⊢
  clear h
  induction items with
  | nil => simp [setItem]
  | cons item items ih =>
    rw [List.cons_append, List.map_cons, List.nodup_cons] at hnodup
    have hne : item.1 ≠ key := by
      rintro rfl
      exact hnodup.1 (by simp)
    rw [List.cons_append, setItem, if_neg hne, ih hnodup.2]
    rfl

/-- A deleted key is absent. -/
@[simp]
theorem get?_erase_self (d : OrderedMap κ ν) (key : κ) : (d.erase key).get? key = none := by
  show (d.items.filter fun item => item.1 ≠ key).lookup key = none
  generalize d.items = items
  induction items with
  | nil => rfl
  | cons item items ih =>
    obtain ⟨k, v⟩ := item
    by_cases h : k = key
    · rw [List.filter_cons_of_neg (by simpa using h), ih]
    · rw [List.filter_cons_of_pos (by simpa using h), List.lookup_cons,
        beq_eq_false_iff_ne.mpr (Ne.symm h), ih]

/-- Deleting a key leaves the others as they are. -/
theorem get?_erase_of_ne (d : OrderedMap κ ν) {key k : κ} (hk : k ≠ key) :
    (d.erase key).get? k = d.get? k := by
  show (d.items.filter fun item => item.1 ≠ key).lookup k = d.items.lookup k
  generalize d.items = items
  induction items with
  | nil => rfl
  | cons item items ih =>
    obtain ⟨k', v⟩ := item
    by_cases h : k' = key
    · rw [List.filter_cons_of_neg (by simpa using h), List.lookup_cons,
        beq_eq_false_iff_ne.mpr (h ▸ hk), ih]
    · rw [List.filter_cons_of_pos (by simpa using h), List.lookup_cons, List.lookup_cons, ih]

/-- Setting a key changes the lookup there. -/
theorem get?_set (d : OrderedMap κ ν) (key : κ) (value : ν) :
    (d.set key value).get? = Function.update d.get? key (some value) := by
  funext k
  by_cases hk : k = key
  · rw [hk, get?_set_self, Function.update_self]
  · rw [get?_set_of_ne d hk, Function.update_of_ne hk]

/-- Deleting a key changes the lookup there. -/
theorem get?_erase (d : OrderedMap κ ν) (key : κ) :
    (d.erase key).get? = Function.update d.get? key none := by
  funext k
  by_cases hk : k = key
  · rw [hk, get?_erase_self, Function.update_self]
  · rw [get?_erase_of_ne d hk, Function.update_of_ne hk]

/-- Deleting keys one by one. -/
theorem get?_foldl_erase (d : OrderedMap κ ν) (ks : List κ) (k : κ) :
    (ks.foldl erase d).get? k = if k ∈ ks then none else d.get? k := by
  induction ks generalizing d with
  | nil => rfl
  | cons key ks ih =>
    rw [List.foldl_cons, ih, get?_erase]
    by_cases hk : k = key
    · simp [hk]
    · simp [hk]

/-- Sets items one by one. -/
def setAll (d : OrderedMap κ ν) (items : List (κ × ν)) : OrderedMap κ ν :=
  items.foldl (fun d item => d.set item.1 item.2) d

/-- Items are set one after the other. -/
theorem setAll_append (d : OrderedMap κ ν) (items items' : List (κ × ν)) :
    d.setAll (items ++ items') = (d.setAll items).setAll items' := List.foldl_append

/-- What a key has after several items were set comes from one of them, or was there before. -/
theorem get?_setAll_some {d : OrderedMap κ ν} {items : List (κ × ν)} {key : κ} {value : ν}
    (h : (d.setAll items).get? key = some value) :
    (key, value) ∈ items ∨ d.get? key = some value := by
  induction items generalizing d with
  | nil => exact Or.inr h
  | cons item items ih =>
    rcases ih h with hmem | hset
    · exact Or.inl (List.mem_cons_of_mem item hmem)
    · rw [get?_set, Function.update_apply] at hset
      by_cases hk : key = item.1
      · rw [if_pos hk] at hset
        obtain rfl := Option.some.inj hset
        exact Or.inl (by simp [hk])
      · rw [if_neg hk] at hset
        exact Or.inr hset

/-- A key that has no value after several items were set is none of theirs. -/
theorem get?_setAll_none {d : OrderedMap κ ν} {items : List (κ × ν)} {key : κ} :
    (d.setAll items).get? key = none ↔ d.get? key = none ∧ ∀ item ∈ items, item.1 ≠ key := by
  induction items generalizing d with
  | nil => simp [setAll]
  | cons item items ih =>
    refine (ih (d := d.set item.1 item.2)).trans ?_
    rw [get?_set, Function.update_apply, List.forall_mem_cons, ← and_assoc]
    by_cases hk : key = item.1
    · simp [hk]
    · simp [hk, Ne.symm hk]

/-- A key that is none of the items keeps what it had. -/
theorem get?_setAll_of_ne {d : OrderedMap κ ν} {items : List (κ × ν)} {key : κ}
    (h : ∀ item ∈ items, item.1 ≠ key) : (d.setAll items).get? key = d.get? key := by
  induction items generalizing d with
  | nil => rfl
  | cons item items ih =>
    have hset : (d.setAll (item :: items)).get? key = (d.set item.1 item.2).get? key :=
      ih fun item' hitem' => h item' (by simp [hitem'])
    rw [hset, get?_set_of_ne d (Ne.symm (h item (by simp)))]

/-- The maps have the same under the keys of a kind. -/
def AgreeOn (K : κ → Prop) (d d' : OrderedMap κ ν) : Prop := ∀ key, K key → d.get? key = d'.get? key

/-- A key that both set stays the same, and so do the others. -/
theorem AgreeOn.set {K : κ → Prop} {d d' : OrderedMap κ ν} (h : AgreeOn K d d') (key : κ)
    (value : ν) : AgreeOn K (d.set key value) (d'.set key value) := by
  intro k hk
  rw [get?_set, get?_set, Function.update_apply, Function.update_apply, h k hk]

/-- The items are the keys with their values. -/
theorem mem_items_iff (d : OrderedMap κ ν) {key : κ} {value : ν} :
    (key, value) ∈ d.items ↔ d.get? key = some value := by
  obtain ⟨items, hnodup⟩ := d
  unfold get?
  simp only
  induction items with
  | nil => simp
  | cons item items ih =>
    obtain ⟨k, v⟩ := item
    obtain ⟨hnot, hnodup⟩ := List.nodup_cons.mp hnodup
    by_cases h : key = k
    · -- No other item has the key, so that the lookup finds this one.
      subst h
      have hout : (key, value) ∉ items := fun hmem => hnot (List.mem_map.mpr ⟨_, hmem, rfl⟩)
      simp only [List.mem_cons, Prod.mk.injEq, true_and, hout, or_false, List.lookup_cons,
        beq_self_eq_true, Option.some.injEq]
      exact eq_comm
    · simp only [List.mem_cons, Prod.mk.injEq, h, false_and, false_or, ih hnodup,
        List.lookup_cons, beq_eq_false_iff_ne.mpr h]

/-- The keys are those that have a value. -/
theorem mem_keys_iff (d : OrderedMap κ ν) {k : κ} : k ∈ d.keys ↔ ∃ v, d.get? k = some v := by
  simp only [keys, List.mem_map, Prod.exists, exists_and_right, exists_eq_right, mem_items_iff]

/-- The keys of the items that a condition picks: those whose value meets it. -/
theorem mem_keys_filter (d : OrderedMap κ ν) (p : ν → Prop) [DecidablePred p] {k : κ} :
    k ∈ (d.items.filter fun item => p item.2).map Prod.fst ↔ ∃ v, d.get? k = some v ∧ p v := by
  simp only [List.mem_map, List.mem_filter, decide_eq_true_eq, Prod.exists, mem_items_iff]
  constructor
  · rintro ⟨k', v, ⟨hv, hp⟩, rfl⟩
    exact ⟨v, hv, hp⟩
  · rintro ⟨v, hv, hp⟩
    exact ⟨k, v, ⟨hv, hp⟩, rfl⟩

omit [DecidableEq κ] in
/-- The keys of picked items are not repeated. -/
theorem nodup_keys_filter (d : OrderedMap κ ν) (p : κ × ν → Bool) :
    ((d.items.filter p).map Prod.fst).Nodup :=
  (List.filter_sublist.map Prod.fst).nodup d.nodup

end OrderedMap
