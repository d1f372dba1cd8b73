import YellowBull.Lib.JsonText

/-!
# Equality of JSON values

`Val.SameJson` is the equality of JSON values: it regards the order of the elements of arrays, but
not that of the members of objects, at any depth. It is the equality of the canonical values
(`Val.sameJson_iff_canonical`), which `json.dumps` writes with `sort_keys`.
-/

namespace Py

/-- The values are equal, up to the order of the keys of objects. -/
inductive Val.SameJson : Val → Val → Prop
  | refl (v : Val) : SameJson v v
  | list {xs ys : List Val} (hlen : xs.length = ys.length)
    (h : ∀ i (hi : i < xs.length) (hi' : i < ys.length), SameJson xs[i] ys[i]) :
    SameJson (.list xs) (.list ys)
  | dict {items items' : Dict}
    (hkeys : ∀ key, key ∈ items.map Prod.fst ↔ key ∈ items'.map Prod.fst)
    (h : ∀ kv ∈ items, ∀ kv' ∈ items', kv.1 = kv'.1 → SameJson kv.2 kv'.2) :
    SameJson (.dict items) (.dict items')

/-! ## Sorted items -/

section SortItems

variable {α : Type*} {items items' : List (String × α)}

/-- Sorting loses no item and adds none. -/
theorem perm_sortItems (sort_keys : Bool) (items : List (String × α)) :
    (sortItems sort_keys items).Perm items := by
  unfold sortItems
  split
  · exact List.perm_insertionSort _ items
  · exact List.Perm.refl items

/-- Sorted items come in the order of their keys. -/
theorem pairwise_sortItems (items : List (String × α)) :
    (sortItems true items).Pairwise fun a b => a.1 ≤ b.1 := by
  rw [sortItems, if_pos rfl]
  exact List.pairwise_insertionSort _ items

/-- An item is determined by its key, where no key stands twice. -/
theorem eq_of_nodup_keys (hkeys : (items.map Prod.fst).Nodup) {kv kv' : String × α}
    (h : kv ∈ items) (h' : kv' ∈ items) (hkey : kv.1 = kv'.1) : kv = kv' :=
  List.inj_on_of_nodup_map hkeys h h' hkey

/-- Sorting by the keys depends only on what the items are, if no key stands twice. -/
theorem sortItems_eq_iff (hkeys : (items.map Prod.fst).Nodup) :
    sortItems true items = sortItems true items' ↔ items.Perm items' := by
  constructor
  · intro h
    have hperm := perm_sortItems true items'
    rw [← h] at hperm
    exact (perm_sortItems true items).symm.trans hperm
  · intro h
    have hperm := ((perm_sortItems true items).trans h).trans (perm_sortItems true items').symm
    refine hperm.eq_of_pairwise (fun a b ha hb hle hge => ?_) (pairwise_sortItems items)
      (pairwise_sortItems items')
    exact eq_of_nodup_keys hkeys ((perm_sortItems true items).mem_iff.mp ha)
      (h.mem_iff.mpr ((perm_sortItems true items').mem_iff.mp hb)) (String.le_antisymm hle hge)

end SortItems

/-! ## Canonical values -/

/-- The canonical form of a list is that of its elements. -/
theorem Val.canonicalList_eq (xs : List Val) :
    Val.canonicalList xs = xs.map Val.canonical := by
  induction xs with
  | nil => rfl
  | cons x xs ih => rw [Val.canonicalList, ih, List.map_cons]

/-- The canonical forms of the items keep their keys. -/
theorem Val.canonicalItems_eq (items : Dict) :
    Val.canonicalItems items = items.map fun kv => (kv.1, kv.2.canonical) := by
  induction items with
  | nil => rfl
  | cons kv items ih =>
    obtain ⟨k, v⟩ := kv
    rw [Val.canonicalItems, ih]
    rfl

/-- They have the same keys, in the same order. -/
theorem Val.keys_canonicalItems (items : Dict) :
    (Val.canonicalItems items).map Prod.fst = items.map Prod.fst := by
  rw [canonicalItems_eq, List.map_map]
  rfl

/-- The canonical value is a JSON value. -/
theorem Val.IsJson.canonical {v : Val} (hjson : v.IsJson) : v.canonical.IsJson := by
  induction hjson with
  | none => exact .none
  | bool b => exact .bool b
  | int n => exact .int n
  | float hr => exact .float hr
  | str s => exact .str s
  | list hxs ih =>
    rw [Val.canonical, canonicalList_eq]
    refine .list fun y hy => ?_
    obtain ⟨x, hx, rfl⟩ := List.mem_map.mp hy
    exact ih x hx
  | @dict items hkeys hitems ih =>
    -- Sorting the members changes neither the keys nor the values.
    rw [Val.canonical]
    have hperm := perm_sortItems true (canonicalItems items)
    refine .dict ?_ fun kv hkv => ?_
    · rw [(hperm.map Prod.fst).nodup_iff, keys_canonicalItems]
      exact hkeys
    · rw [hperm.mem_iff, canonicalItems_eq] at hkv
      obtain ⟨kv', hkv', rfl⟩ := List.mem_map.mp hkv
      exact ih kv' hkv'

/-- Items that have their keys among others, with the same canonical values, have their canonical
items among those of the others. -/
theorem Val.canonicalItems_subset {items items' : Dict}
    (hkeys : ∀ key ∈ items.map Prod.fst, key ∈ items'.map Prod.fst)
    (h : ∀ kv ∈ items, ∀ kv' ∈ items', kv.1 = kv'.1 → kv.2.canonical = kv'.2.canonical) :
    Val.canonicalItems items ⊆ Val.canonicalItems items' := by
  intro p hp
  rw [canonicalItems_eq] at hp ⊢
  obtain ⟨kv, hkv, rfl⟩ := List.mem_map.mp hp
  obtain ⟨kv', hkv', hkey⟩ := List.mem_map.mp (hkeys _ (List.mem_map_of_mem hkv))
  refine List.mem_map.mpr ⟨kv', hkv', ?_⟩
  rw [hkey, h kv hkv kv' hkv' hkey.symm]

/-- Values that are the same as JSON have one canonical form. -/
theorem Val.SameJson.canonical_eq {v w : Val} (h : v.SameJson w) (hv : v.IsJson) (hw : w.IsJson) :
    v.canonical = w.canonical := by
  -- The dicts have the same keys with the same values, in an order of their own.
  induction h with
  | refl v => rfl
  | list hlen h ih =>
    cases hv with
    | list hxs =>
    cases hw with
    | list hys =>
    rw [Val.canonical, Val.canonical, canonicalList_eq, canonicalList_eq]
    refine congrArg Val.list (List.ext_getElem (by simpa using hlen) fun i hi hi' => ?_)
    rw [List.getElem_map, List.getElem_map]
    exact ih i _ _ (hxs _ (List.getElem_mem _)) (hys _ (List.getElem_mem _))
  | dict hkeys h ih =>
    cases hv with
    | dict hnodup hitems =>
    cases hw with
    | dict hnodup' hitems' =>
    have hnodup_canonical : ∀ {items : Dict}, (items.map Prod.fst).Nodup →
        ((canonicalItems items).map Prod.fst).Nodup := fun h => by rwa [keys_canonicalItems]
    -- Sorted by distinct keys the members stand in one order only.
    rw [Val.canonical, Val.canonical, (sortItems_eq_iff (hnodup_canonical hnodup)).mpr]
    rw [List.perm_ext_iff_of_nodup (hnodup_canonical hnodup).of_map
      (hnodup_canonical hnodup').of_map]
    refine fun p => ⟨fun hp => ?_, fun hp => ?_⟩
    · refine canonicalItems_subset (fun key => (hkeys key).mp) (fun kv hkv kv' hkv' hkey => ?_) hp
      exact ih kv hkv kv' hkv' hkey (hitems kv hkv) (hitems' kv' hkv')
    · refine canonicalItems_subset (fun key => (hkeys key).mpr) (fun kv hkv kv' hkv' hkey => ?_) hp
      exact (ih kv' hkv' kv hkv hkey.symm (hitems kv' hkv') (hitems' kv hkv)).symm

/-- A value that is neither an array nor an object is the only one with its canonical value. -/
theorem Val.eq_of_canonical_eq {v w : Val} (hlist : ∀ xs, v ≠ .list xs)
    (hdict : ∀ items, v ≠ .dict items) (h : v.canonical = w.canonical) : v = w := by
  have hv : v.canonical = v := by
    cases v with
    | list xs => exact absurd rfl (hlist xs)
    | dict items => exact absurd rfl (hdict items)
    | _ => rfl
  rw [hv] at h
  cases w with
  | list ys => exact absurd h (by rw [Val.canonical]; exact hlist _)
  | dict items => exact absurd h (by rw [Val.canonical]; exact hdict _)
  | _ => exact h

/-- Values with one canonical form are the same as JSON. -/
theorem Val.SameJson.of_canonical {v w : Val} (hv : v.IsJson) (hw : w.IsJson)
    (h : v.canonical = w.canonical) : v.SameJson w := by
  induction hv generalizing w with
  | none => exact Val.eq_of_canonical_eq (by simp) (by simp) h ▸ .refl _
  | bool b => exact Val.eq_of_canonical_eq (by simp) (by simp) h ▸ .refl _
  | int n => exact Val.eq_of_canonical_eq (by simp) (by simp) h ▸ .refl _
  | float hr => exact Val.eq_of_canonical_eq (by simp) (by simp) h ▸ .refl _
  | str s => exact Val.eq_of_canonical_eq (by simp) (by simp) h ▸ .refl _
  | @list xs hxs ih =>
    cases hw with
    | @list ys hys =>
      rw [Val.canonical, Val.canonical, canonicalList_eq, canonicalList_eq] at h
      have hmap := Val.list.inj h
      have hlen : xs.length = ys.length := by simpa using congrArg List.length hmap
      refine .list hlen fun i hi hi' => ih _ (List.getElem_mem hi) (hys _ (List.getElem_mem hi')) ?_
      have hi₁ : i < (xs.map Val.canonical).length := by rwa [List.length_map]
      have helem := List.getElem_of_eq hmap hi₁
      rwa [List.getElem_map, List.getElem_map] at helem
    | _ => simp [Val.canonical] at h
  | @dict items hkeys hitems ih =>
    cases hw with
    | @dict items' hkeys' hitems' =>
      rw [Val.canonical, Val.canonical, Val.dict.injEq,
        sortItems_eq_iff (by rwa [keys_canonicalItems])] at h
      refine .dict (fun key => ?_) fun kv hkv kv' hkv' hkey => ?_
      · rw [← keys_canonicalItems items, ← keys_canonicalItems items']
        exact (h.map Prod.fst).mem_iff
      · -- The two items with the key have one place among the canonical items.
        refine ih kv hkv (hitems' kv' hkv') ?_
        have hmem : (kv.1, kv.2.canonical) ∈ canonicalItems items' := by
          rw [← h.mem_iff, canonicalItems_eq]
          exact List.mem_map_of_mem hkv
        have hmem' : (kv'.1, kv'.2.canonical) ∈ canonicalItems items' := by
          rw [canonicalItems_eq]
          exact List.mem_map_of_mem hkv'
        exact congrArg Prod.snd
          (eq_of_nodup_keys (by rwa [keys_canonicalItems]) hmem hmem' hkey)
    | _ => simp [Val.canonical] at h

/-- Sameness as JSON is equality of the canonical forms. -/
theorem Val.sameJson_iff_canonical {v w : Val} (hv : v.IsJson) (hw : w.IsJson) :
    v.SameJson w ↔ v.canonical = w.canonical :=
  ⟨fun h => h.canonical_eq hv hw, .of_canonical hv hw⟩

end Py
