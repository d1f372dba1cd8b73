import Mathlib.Data.Int.Notation
import Mathlib.Data.List.Dedup
import Mathlib.Data.List.Sort

/-!
# Python values and exceptions

The dynamically typed values that the code under verification passes around without a schema: what
`json.loads` returns and what a field typed `Any` may hold. A `dict` is its list of items in
insertion order; the code builds them with string keys only. A `float` is carried by its `repr`,
which determines it, because no function here computes with one.

Subscripts, `.get`, `len` and truth values follow Python, the exceptions that they raise included.
`Val.dumps` is `json.dumps` with its default separators and `ensure_ascii=True`.
-/

namespace Py

/-- A JSON-like Python object. -/
inductive Val where
  /-- `None` -/
  | none
  | bool (b : Bool)
  | int (n : ℤ)
  /-- A float, by its `repr`. -/
  | float (repr : String)
  | str (s : String)
  | list (xs : List Val)
  /-- A `dict` with string keys, its items in insertion order. -/
  | dict (items : List (String × Val))
  deriving Inhabited

/-- A `dict` with string keys, `dict[str, Any]` in the source. -/
abbrev Dict := List (String × Val)

/-! ## Decidable equality -/

mutual

/-- Structural equality, as a test. -/
def Val.beq : Val → Val → Bool
  | .none, .none => true
  | .bool a, .bool b => a == b
  | .int a, .int b => a == b
  | .float a, .float b => a == b
  | .str a, .str b => a == b
  | .list a, .list b => Val.beqList a b
  | .dict a, .dict b => Val.beqDict a b
  | _, _ => false

/-- `Val.beq` on lists. -/
def Val.beqList : List Val → List Val → Bool
  | [], [] => true
  | a :: as, b :: bs => Val.beq a b && Val.beqList as bs
  | _, _ => false

/-- `Val.beq` on the items of dicts. -/
def Val.beqDict : Dict → Dict → Bool
  | [], [] => true
  | (k, a) :: as, (l, b) :: bs => k == l && Val.beq a b && Val.beqDict as bs
  | _, _ => false

end

mutual

/-- The test decides equality. -/
theorem Val.beq_iff : ∀ a b : Val, a.beq b = true ↔ a = b
  | .none, b => by cases b <;> simp [Val.beq]
  | .bool _, b => by cases b <;> simp [Val.beq]
  | .int _, b => by cases b <;> simp [Val.beq]
  | .float _, b => by cases b <;> simp [Val.beq]
  | .str _, b => by cases b <;> simp [Val.beq]
  | .list xs, b => by
    cases b with
    | list ys => simp [Val.beq, Val.beqList_iff xs ys]
    | _ => simp [Val.beq]
  | .dict xs, b => by
    cases b with
    | dict ys => simp [Val.beq, Val.beqDict_iff xs ys]
    | _ => simp [Val.beq]

/-- The test on lists decides equality. -/
theorem Val.beqList_iff : ∀ xs ys : List Val, Val.beqList xs ys = true ↔ xs = ys
  | [], ys => by cases ys <;> simp [Val.beqList]
  | x :: xs, ys => by
    cases ys with
    | nil => simp [Val.beqList]
    | cons y ys => simp [Val.beqList, Val.beq_iff x y, Val.beqList_iff xs ys]

/-- The test on items decides equality. -/
theorem Val.beqDict_iff : ∀ xs ys : Dict, Val.beqDict xs ys = true ↔ xs = ys
  | [], ys => by cases ys <;> simp [Val.beqDict]
  | (k, x) :: xs, ys => by
    cases ys with
    | nil => simp [Val.beqDict]
    | cons y ys =>
      obtain ⟨l, y⟩ := y
      simp [Val.beqDict, Val.beq_iff x y, Val.beqDict_iff xs ys]

end

instance : DecidableEq Val := fun a b => decidable_of_iff _ (Val.beq_iff a b)

/-! ## Exceptions -/

/-- The class of an exception, as far as the `except` clauses of the source tell classes apart.
`cancelledError` is the only one that `except Exception` lets through. -/
inductive ExnClass where
  | keyError
  | typeError
  | attributeError
  | valueError
  | jsonDecodeError
  | recursionError
  | timeoutError
  | permissionError
  | fileExistsError
  | fileNotFoundError
  | unicodeDecodeError
  | cancelledError
  | other
  deriving DecidableEq

/-- An exception: its class and its `str`, which is taken to give a text, as the protocol of
`__str__` asks of it. -/
structure Exn where
  cls : ExnClass
  text : String
  deriving DecidableEq

/-- `except Exception` catches it. -/
def Exn.IsException (e : Exn) : Prop := e.cls ≠ .cancelledError

instance : DecidablePred Exn.IsException := fun e =>
  inferInstanceAs (Decidable (e.cls ≠ .cancelledError))

/-- `KeyError(key)`, whose `str` is the key's `repr`. -/
def Exn.keyError (key : String) : Exn := ⟨.keyError, "'" ++ key ++ "'"⟩

/-- `type(value).__name__`. -/
def Val.typeName : Val → String
  | .none => "NoneType"
  | .bool _ => "bool"
  | .int _ => "int"
  | .float _ => "float"
  | .str _ => "str"
  | .list _ => "list"
  | .dict _ => "dict"

/-! ## Operations on values -/

/-- `bool(value)`. -/
def Val.truthy : Val → Bool
  | .none => false
  | .bool b => b
  | .int n => n != 0
  | .float r => r != "0.0" && r != "-0.0"
  | .str s => s != ""
  | .list xs => !xs.isEmpty
  | .dict items => !items.isEmpty

/-- `value[key]` for a string `key`. -/
def Val.item (value : Val) (key : String) : Except Exn Val :=
  match value with
  | .dict items =>
    match items.lookup key with
    | some v => .ok v
    | .none => .error (Exn.keyError key)
  | .list _ => .error ⟨.typeError, "list indices must be integers or slices, not str"⟩
  | .str _ => .error ⟨.typeError, "string indices must be integers, not 'str'"⟩
  | v => .error ⟨.typeError, "'" ++ v.typeName ++ "' object is not subscriptable"⟩

/-- `value.get(key, default)`. -/
def Val.get (value : Val) (key : String) (default : Val) : Except Exn Val :=
  match value with
  | .dict items => .ok ((items.lookup key).getD default)
  | v => .error ⟨.attributeError, "'" ++ v.typeName ++ "' object has no attribute 'get'"⟩

/-- `len(value)`. -/
def Val.len : Val → Except Exn ℕ
  | .str s => .ok s.length
  | .list xs => .ok xs.length
  | .dict items => .ok items.length
  | v => .error ⟨.typeError, "object of type '" ++ v.typeName ++ "' has no len()"⟩

/-- `d.get(key, default)` on a value known to be a dict. -/
def Dict.get (d : Dict) (key : String) (default : Val) : Val := (d.lookup key).getD default

/-- `d[key]` on a value known to be a dict. -/
def Dict.item (d : Dict) (key : String) : Except Exn Val := (Val.dict d).item key

/-! ## Sets -/

/-- `hash(value)` does not raise. -/
def Val.hashable : Val → Bool
  | .list _ => false
  | .dict _ => false
  | _ => true

/-- `isinstance(value, (int, float))`, the values among which `==` is not equality of the model. -/
def Val.isNumber : Val → Bool
  | .bool _ => true
  | .int _ => true
  | .float _ => true
  | _ => false

/-- The elements of a `set` of values in the order in which Python goes through them, which depends
on their hashes. Of values that are equal in Python one is an element. -/
structure SetOrder where
  elements : List Val → List Val
  subset : ∀ xs, elements xs ⊆ xs
  nodup : ∀ xs, (elements xs).Nodup
  equal : ∀ xs, ∀ v ∈ xs, ∃ w ∈ elements xs, w = v ∨ (w.isNumber ∧ v.isNumber)

/-- The elements in the order of their last occurrences. -/
def SetOrder.listed : SetOrder where
  elements := List.dedup
  subset := List.dedup_subset
  nodup := List.nodup_dedup
  equal _ v hv := ⟨v, List.mem_dedup.mpr hv, Or.inl rfl⟩

/-- `set(value)`, of which the elements are those of a list, the characters of a string or the keys
of a dict. -/
def SetOrder.set (O : SetOrder) : Val → Except Exn (List Val)
  | .list xs =>
    match xs.find? (!·.hashable) with
    | some v => .error ⟨.typeError, "unhashable type: '" ++ v.typeName ++ "'"⟩
    | .none => .ok (O.elements xs)
  | .str s => .ok (O.elements (s.toList.map fun c => .str (String.ofList [c])))
  | .dict items => .ok (O.elements (items.map fun kv => .str kv.1))
  | v => .error ⟨.typeError, "'" ++ v.typeName ++ "' object is not iterable"⟩

/-! ## `json.dumps` -/

/-- `sep.join(parts)`. -/
def join (sep : String) : List String → String
  | [] => ""
  | [s] => s
  | s :: parts => s ++ sep ++ join sep parts

/-- Parts joined with nothing in between. -/
theorem join_empty_cons (s : String) (parts : List String) :
    join "" (s :: parts) = s ++ join "" parts := by
  cases parts with
  | nil => simp [join]
  | cons t parts => simp [join]

/-- The join of two lists of parts. -/
theorem join_empty_append (parts parts' : List String) :
    join "" (parts ++ parts') = join "" parts ++ join "" parts' := by
  induction parts with
  | nil => simp [join]
  | cons s parts ih =>
    rw [List.cons_append, join_empty_cons, ih, join_empty_cons, String.append_assoc]

/-- Empty parts join to the empty text. -/
theorem join_empty_of_forall {parts : List String} (h : ∀ s ∈ parts, s = "") :
    join "" parts = "" := by
  induction parts with
  | nil => rfl
  | cons s parts ih =>
    rw [join_empty_cons, h s List.mem_cons_self, ih fun s' hs' => h s' (List.mem_cons_of_mem _ hs')]
    rfl

/-- A part stands in the joined text. -/
theorem infix_join (sep : String) {parts : List String} {s : String} (h : s ∈ parts) :
    s.toList <:+: (join sep parts).toList := by
  induction parts with
  | nil => cases h
  | cons first parts ih =>
    cases parts with
    | nil =>
      obtain rfl := List.mem_singleton.mp h
      exact List.infix_refl _
    | cons second parts =>
      rw [join, String.toList_append, String.toList_append]
      · rcases List.mem_cons.mp h with rfl | h
        · rw [List.append_assoc]
          exact (List.prefix_append _ _).isInfix
        · exact (ih h).trans (List.suffix_append _ _).isInfix
      · simp

/-- The digit of `n < 16` in lower-case hexadecimal. -/
def hexDigit (n : ℕ) : Char := if n < 10 then Char.ofNat (48 + n) else Char.ofNat (87 + n)

/-- `\uXXXX` for a 16-bit code unit. -/
def escapeUnit (n : ℕ) : List Char :=
  ['\\', 'u', hexDigit (n / 4096 % 16), hexDigit (n / 256 % 16), hexDigit (n / 16 % 16),
    hexDigit (n % 16)]

/-- A character of a string in JSON text: escaped unless it is printable ASCII, with a surrogate
pair beyond the 16-bit plane. -/
def escapeChar (c : Char) : List Char :=
  match c.toNat with
  | 8 => ['\\', 'b']
  | 9 => ['\\', 't']
  | 10 => ['\\', 'n']
  | 12 => ['\\', 'f']
  | 13 => ['\\', 'r']
  | 34 => ['\\', c]
  | 92 => ['\\', c]
  | n =>
    if 32 ≤ n ∧ n ≤ 126 then [c]
    else if n < 65536 then escapeUnit n
    else escapeUnit (55296 + (n - 65536) / 1024) ++ escapeUnit (56320 + (n - 65536) % 1024)

/-- A string as a JSON text. -/
def dumpsStr (s : String) : String := "\"" ++ String.ofList (s.toList.flatMap escapeChar) ++ "\""

/-- The items of a dict in the order in which `json.dumps` writes them. -/
def sortItems {α : Type*} (sort_keys : Bool) (items : List (String × α)) : List (String × α) :=
  if sort_keys then items.insertionSort (fun a b => a.1 ≤ b.1) else items

mutual

/-- `json.dumps(value, sort_keys=sort_keys)`. -/
def Val.dumps (sort_keys : Bool) : Val → String
  | .none => "null"
  | .bool b => if b then "true" else "false"
  | .int n => toString n
  | .float r =>
    if r = "nan" then "NaN" else if r = "inf" then "Infinity"
    else if r = "-inf" then "-Infinity" else r
  | .str s => dumpsStr s
  | .list xs => "[" ++ join ", " (Val.dumpsList sort_keys xs) ++ "]"
  | .dict items =>
    "\x7b" ++ join ", " ((sortItems sort_keys (Val.dumpsItems sort_keys items)).map
      fun kv => dumpsStr kv.1 ++ ": " ++ kv.2) ++ "\x7d"

/-- `Val.dumps` on each element. -/
def Val.dumpsList (sort_keys : Bool) : List Val → List String
  | [] => []
  | x :: xs => Val.dumps sort_keys x :: Val.dumpsList sort_keys xs

/-- `Val.dumps` on each value of a dict. -/
def Val.dumpsItems (sort_keys : Bool) : Dict → List (String × String)
  | [] => []
  | (k, v) :: items => (k, Val.dumps sort_keys v) :: Val.dumpsItems sort_keys items

end

example : (Val.dict [("b", .list [.int (-3), .str "é\n"]), ("a", .none)]).dumps true =
    "\x7b\"a\": null, \"b\": [-3, \"\\u00e9\\n\"]\x7d" := by decide

/-! ## Equality up to the order of keys

Python compares dicts without regard to the order of their items. Values that are equal so have the
same `canonical` value, which is also what `sort_keys` writes.
-/

mutual

/-- The value with the items of its dicts in the order of their keys. -/
def Val.canonical : Val → Val
  | .list xs => .list (Val.canonicalList xs)
  | .dict items => .dict (sortItems true (Val.canonicalItems items))
  | v => v

/-- `Val.canonical` on each element. -/
def Val.canonicalList : List Val → List Val
  | [] => []
  | x :: xs => Val.canonical x :: Val.canonicalList xs

/-- `Val.canonical` on each value of a dict. -/
def Val.canonicalItems : Dict → Dict
  | [] => []
  | (k, v) :: items => (k, Val.canonical v) :: Val.canonicalItems items

end

/-- Items are sorted by their keys, whatever becomes of the values. -/
theorem sortItems_map {α β : Type*} (f : α → β) (items : List (String × α)) :
    sortItems true (items.map fun kv => (kv.1, f kv.2)) =
      (sortItems true items).map fun kv => (kv.1, f kv.2) := by
  unfold sortItems
  rw [if_pos rfl, if_pos rfl]
  exact (List.map_insertionSort _ _ (fun kv : String × α => (kv.1, f kv.2)) items
    fun a _ b _ => Iff.rfl).symm

/-- The items of an object are written one by one. -/
theorem Val.dumpsItems_eq (sort_keys : Bool) (items : Dict) :
    Val.dumpsItems sort_keys items = items.map fun kv => (kv.1, kv.2.dumps sort_keys) := by
  induction items with
  | nil => rfl
  | cons kv items ih =>
    obtain ⟨k, v⟩ := kv
    rw [Val.dumpsItems, ih]
    rfl

mutual

/-- Sorting the keys first and writing the value as it stands is `sort_keys`. -/
theorem Val.dumps_canonical : ∀ v : Val, v.canonical.dumps false = v.dumps true
  | .none => rfl
  | .bool _ => rfl
  | .int _ => rfl
  | .float _ => rfl
  | .str _ => rfl
  | .list xs => by rw [Val.canonical, Val.dumps, Val.dumps, Val.dumpsList_canonical xs]
  | .dict items => by
    rw [Val.canonical, Val.dumps, Val.dumps, ← Val.dumpsItems_canonical items,
      Val.dumpsItems_eq, Val.dumpsItems_eq, sortItems_map]
    rfl

/-- `dumps_canonical` of the elements of a list. -/
theorem Val.dumpsList_canonical : ∀ xs : List Val,
    Val.dumpsList false (Val.canonicalList xs) = Val.dumpsList true xs
  | [] => rfl
  | x :: xs => by
    rw [Val.canonicalList, Val.dumpsList, Val.dumpsList, Val.dumps_canonical x,
      Val.dumpsList_canonical xs]

/-- `dumps_canonical` of the items of an object. -/
theorem Val.dumpsItems_canonical : ∀ items : Dict,
    Val.dumpsItems false (Val.canonicalItems items) = Val.dumpsItems true items
  | [] => rfl
  | (k, v) :: items => by
    rw [Val.canonicalItems, Val.dumpsItems, Val.dumpsItems, Val.dumps_canonical v,
      Val.dumpsItems_canonical items]

end

/-- Only dicts are equal to a dict up to the order of keys. -/
theorem Val.eq_dict_of_canonical {v : Val} {items : Dict}
    (h : v.canonical = (Val.dict items).canonical) : ∃ items', v = .dict items' := by
  cases v with
  | dict items' => exact ⟨items', rfl⟩
  | _ => simp [Val.canonical] at h

end Py
