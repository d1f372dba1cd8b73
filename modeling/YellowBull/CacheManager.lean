import Mathlib.Order.Defs.LinearOrder
import YellowBull.Lib.OrderedMap
import YellowBull.Lib.Value

/-!
# The cache with expiry

`CacheManager` of `core/cache/manager.py`, over any linearly ordered type of clock readings that
durations can be added to. The readings of `time.monotonic` are inputs of the operations;
`cleanup_expired` reads the clock once for each entry.

A value is any object but `None`, or none: the cache answers with `None` both for a stored `None`
and for a missing key. What `json` does to values is a parameter (`JsonCodec`).
-/

namespace YellowBull

open Py

/-- Objects and their JSON texts: `isinstance(raw, str)`, strings as objects,
`json.dumps(value, ensure_ascii=False, default=str)` and `json.loads`. -/
structure JsonCodec (α : Type*) where
  str? : α → Option String
  ofStr : String → α
  dumps : Option α → Except Exn String
  loads : String → Except Exn (Option α)

/-- `_CacheEntry`. -/
structure CacheEntry (α τ : Type*) where
  value : Option α
  /-- None means no expiry. -/
  expires_at : Option τ

/-- `CacheManager`, what it is configured with. -/
structure CacheManager (τ : Type*) where
  default_ttl : Option τ

/-- `CacheManager._store`. -/
abbrev CacheStore (α τ : Type*) := OrderedMap String (CacheEntry α τ)

/-- A call of a method, with its readings of the clock. -/
inductive CacheOp (α τ : Type*) where
  | set (key : String) (value : Option α) (ttl : Option τ) (now : τ)
  | setJson (key : String) (value : Option α) (ttl : Option τ) (now : τ)
  | get (key : String) (now : τ)
  | getJson (key : String) (now : τ)
  | delete (key : String)
  | clear
  | cleanup (now : String → τ)

/-- What a call gives back. -/
inductive CacheResult (α : Type*) where
  | value (value : Option α)
  | json (value : Except Exn (Option α))
  | stored (result : Except Exn Unit)
  | deleted (existed : Bool)
  | removed (count : ℕ)

/-- `CacheManager._is_expired`, at a reading of the clock. -/
def CacheEntry.isExpired {α τ : Type*} [LinearOrder τ] (entry : CacheEntry α τ) (now : τ) : Bool :=
  match entry.expires_at with
  | none => false
  | some expires_at => expires_at < now

namespace CacheManager

variable {α τ : Type*} (cm : CacheManager τ) (codec : JsonCodec α)

/-- `CacheManager.get`. -/
def get [LinearOrder τ] (key : String) (now : τ) (store : CacheStore α τ) :
    CacheStore α τ × Option α :=
  match store.get? key with
  | none => (store, none)
  | some entry =>
    if entry.isExpired now then (store.erase key, none) else (store, entry.value)

/-- The entry that `set` makes. A reading of the clock is only used where there is a TTL. -/
def entry [Add τ] (value : Option α) (ttl : Option τ) (now : τ) : CacheEntry α τ :=
  let effective_ttl := if ttl.isSome then ttl else cm.default_ttl
  { value, expires_at := effective_ttl.map (now + ·) }

/-- `CacheManager.set`. -/
def set [Add τ] (key : String) (value : Option α) (ttl : Option τ) (now : τ)
    (store : CacheStore α τ) : CacheStore α τ :=
  OrderedMap.set store key (cm.entry value ttl now)

/-- `CacheManager.delete`. -/
def delete (key : String) (store : CacheStore α τ) : CacheStore α τ × Bool :=
  if (store.get? key).isSome then (store.erase key, true) else (store, false)

/-- What `get_json` makes of the value that `get` gave it. -/
def decoded (raw : Option α) : Except Exn (Option α) :=
  match raw with
  | none => .ok none
  | some object =>
    match codec.str? object with
    | none => .ok raw
    | some text =>
      match codec.loads text with
      | .ok value => .ok value
      | .error e =>
        match e.cls with
        | .jsonDecodeError => .ok raw
        | .typeError => .ok raw
        | _ => .error e

/-- `CacheManager.get_json`. -/
def getJson [LinearOrder τ] (key : String) (now : τ) (store : CacheStore α τ) :
    CacheStore α τ × Except Exn (Option α) :=
  let (store, raw) := get key now store
  (store, decoded codec raw)

/-- `CacheManager.set_json`. Nothing is stored where `json.dumps` raises. -/
def setJson [Add τ] (key : String) (value : Option α) (ttl : Option τ) (now : τ)
    (store : CacheStore α τ) : CacheStore α τ × Except Exn Unit :=
  match codec.dumps value with
  | .error e => (store, .error e)
  | .ok serialized => (cm.set key (some (codec.ofStr serialized)) ttl now store, .ok ())

/-- `CacheManager.clear`. -/
def clear (store : CacheStore α τ) : CacheStore α τ × ℕ := (.empty, store.items.length)

/-- The keys that `cleanup_expired` deletes, with the readings of the clock at the keys. -/
def expiredKeys [LinearOrder τ] (now : String → τ) (store : CacheStore α τ) : List String :=
  (store.items.filter fun item => item.2.isExpired (now item.1)).map Prod.fst

/-- `CacheManager.cleanup_expired`. -/
def cleanupExpired [LinearOrder τ] (now : String → τ) (store : CacheStore α τ) :
    CacheStore α τ × ℕ :=
  let expired_keys := expiredKeys now store
  (expired_keys.foldl OrderedMap.erase store, expired_keys.length)

/-- One call. -/
def step [Add τ] [LinearOrder τ] (store : CacheStore α τ) :
    CacheOp α τ → CacheStore α τ × CacheResult α
  | .set key value ttl now => (cm.set key value ttl now store, .stored (.ok ()))
  | .setJson key value ttl now =>
    let (store, result) := cm.setJson codec key value ttl now store
    (store, .stored result)
  | .get key now =>
    let (store, value) := get key now store
    (store, .value value)
  | .getJson key now =>
    let (store, value) := getJson codec key now store
    (store, .json value)
  | .delete key =>
    let (store, existed) := delete key store
    (store, .deleted existed)
  | .clear =>
    let (store, count) := clear store
    (store, .removed count)
  | .cleanup now =>
    let (store, count) := cleanupExpired now store
    (store, .removed count)

end CacheManager

end YellowBull
