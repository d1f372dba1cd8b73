import YellowBull.Lib.JsonEquality
import YellowBull.Lib.JsonScan
import YellowBull.ToolExecutor.Modes

/-!
# The identity of a call

The text that `cache_key` hashes identifies the call: it is the same for two requests exactly if
they have the same tool name and the same arguments as JSON values (`rawKey_eq_iff`), although the
name may contain the separator and JSON texts of its own. The cache looks no further than the first
16 digits of the digest of that text, so that a request that is answered with the result of another
call exhibits a collision of those digits (`cache_identity`).
-/

namespace YellowBull

open Py

/-- The name is a string, and the arguments are an object built from JSON values. -/
structure ToolCallRequest.JsonTyped (req : ToolCallRequest) : Prop extends req.WellTyped where
  json : req.arguments.IsJson

/-- The two texts differ, but the digits that the cache keeps of their digests do not. -/
def Platform.Collision (P : Platform) (text text' : String) : Prop :=
  text ≠ text' ∧ (P.sha256 text).toList.take 16 = (P.sha256 text').toList.take 16

namespace ToolCallRequest

variable {req req' : ToolCallRequest}

/-- The text is the name, a colon and the arguments as they stand in the canonical order. -/
theorem toList_rawKey (P : Platform) {name : String} (hname : req.tool_name = .str name) :
    (req.rawKey P).toList = name.toList ++ ':' :: req.arguments.canonical.chars := by
  unfold rawKey
  rw [hname, ← Val.dumps_canonical, String.toList_append, String.toList_append, List.append_assoc]
  rfl

/-- The text determines the call. -/
theorem JsonTyped.sameCall (h : req.JsonTyped) (h' : req'.JsonTyped) {P : Platform}
    (hkey : req.rawKey P = req'.rawKey P) : req.SameCall req' := by
  obtain ⟨⟨⟨name, hname⟩, items, hitems⟩, hjson⟩ := h
  obtain ⟨⟨⟨name', hname'⟩, items', hitems'⟩, hjson'⟩ := h'
  have hcanonical := hjson.canonical
  have hcanonical' := hjson'.canonical
  have hlist := congrArg String.toList hkey
  rw [toList_rawKey P hname, toList_rawKey P hname'] at hlist
  rw [hitems, Val.canonical] at hcanonical hlist
  rw [hitems', Val.canonical] at hcanonical' hlist
  obtain ⟨hsame, hsorted⟩ := name_dict_injective hcanonical hcanonical' hlist
  constructor
  · rw [hname, hname', String.toList_inj.mp hsame]
  · rw [hitems, hitems', Val.canonical, Val.canonical, hsorted]

/-- Two calls are the same if their names are, and their arguments are as JSON. -/
theorem JsonTyped.sameCall_iff (h : req.JsonTyped) (h' : req'.JsonTyped) :
    req.SameCall req' ↔
      req.tool_name = req'.tool_name ∧ req.arguments.SameJson req'.arguments :=
  and_congr_right fun _ => (Val.sameJson_iff_canonical h.json h'.json).symm

/-- The text that is hashed is the same exactly if the names are equal, and the arguments up to the
order of keys. -/
theorem JsonTyped.rawKey_eq_iff (h : req.JsonTyped) (h' : req'.JsonTyped) (P : Platform) :
    req.rawKey P = req'.rawKey P ↔
      req.tool_name = req'.tool_name ∧ req.arguments.SameJson req'.arguments := by
  rw [← h.sameCall_iff h']
  exact ⟨h.sameCall h', fun hcall => hcall.rawKey_eq P⟩

/-- Requests with one key make one call, or their texts collide. -/
theorem sameCall_or_collision (h : req.JsonTyped) (h' : req'.JsonTyped) {P : Platform}
    (hkey : req.cacheKey P = req'.cacheKey P) :
    (req.tool_name = req'.tool_name ∧ req.arguments.SameJson req'.arguments) ∨
      P.Collision (req.rawKey P) (req'.rawKey P) := by
  by_cases hraw : req.rawKey P = req'.rawKey P
  · exact .inl ((h.rawKey_eq_iff h' P).mp hraw)
  · exact .inr ⟨hraw, String.ofList_injective hkey⟩

end ToolCallRequest

namespace ToolExecutor

variable {P : Platform} {ex : ToolExecutor}

/-- The cache identifies calls. The text that is hashed is the same for two requests exactly if they
have the same tool name and, up to the order of keys, the same arguments. And whatever a request
finds in the cache, at any moment of any batch and after any operations, is the result of a success
since the last `clear_cache`, either of the same call, or of one whose text collides with that of
the request. -/
theorem cache_identity (reg : ToolRegistry) (ops : List Op) (requests : List ToolCallRequest)
    (outcomes : ℕ → ℕ → Except Exn ToolResult) (pre : List ℕ) {req : ToolCallRequest}
    (hreq : req.JsonTyped) :
    (∀ req' : ToolCallRequest, req'.JsonTyped → (req'.rawKey P = req.rawKey P ↔
        req'.tool_name = req.tool_name ∧ req'.arguments.SameJson req.arguments)) ∧
      ∀ cached, ex.lookup P
          ((ex.stateAfter P reg ops).batchAt P ex requests outcomes pre).cache req = some cached →
        ∃ su ∈ (ex.stateAfter P reg ops).logAt P ex requests outcomes pre,
          cached = su.result.val ∧ (su.req.JsonTyped →
            (su.req.tool_name = req.tool_name ∧ su.req.arguments.SameJson req.arguments) ∨
              P.Collision (su.req.rawKey P) (req.rawKey P)) := by
  refine ⟨fun req' hreq' => hreq'.rawKey_eq_iff hreq P, fun cached hlookup => ?_⟩
  rw [cache_batchAt (cache_stateAfter reg ops)] at hlookup
  obtain ⟨-, su, hsu, hkey, hcached⟩ := lookup_some hlookup
  exact ⟨su, hsu, hcached, fun hjson => ToolCallRequest.sameCall_or_collision hjson hreq hkey⟩

/-- A request whose name looks like the text of a request. -/
def nestedRequest (p q : String × Val) : ToolCallRequest :=
  ⟨.str "a:\x7b\x7d", .dict [("x", .list [.dict [p, q]])]⟩

/-- Its name and its arguments are of the types that JSON has. -/
theorem nestedRequest_jsonTyped {p q : String × Val} (hkey : p.1 ≠ q.1) (hp : p.2.IsJson)
    (hq : q.2.IsJson) : (nestedRequest p q).JsonTyped where
  name := ⟨_, rfl⟩
  arguments := ⟨_, rfl⟩
  json := by
    have hinner : (Val.dict [p, q]).IsJson := by
      refine .dict (by simpa using hkey) fun kv hkv => ?_
      rcases List.mem_cons.mp hkv with rfl | hkv
      · exact hp
      · rw [List.mem_singleton.mp hkv]
        exact hq
    refine .dict (by simp) fun kv hkv => ?_
    rw [List.mem_singleton.mp hkv]
    exact .list fun x hx => List.mem_singleton.mp hx ▸ hinner

/-- The order of keys in an object inside an array does not matter to the cache. -/
theorem cache_identity_reordered :
    let reg := ToolRegistry.empty.register { info := ⟨"a:\x7b\x7d", "", []⟩ }
    let req := nestedRequest ("p", .int 1) ("q", .none)
    let req' := nestedRequest ("q", .none) ("p", .int 1)
    let ops : List Op := [.batch [req'] (fun _ _ => .ok { content := "one" }) []]
    req'.rawKey .bare = req.rawKey .bare ∧
      ∃ su ∈ (caching.stateAfter .bare reg ops).logAt .bare caching [req] (fun _ _ => .ok {}) [],
        su.result.val.content = "one" := by
  intro reg req req' ops
  -- The two requests write the members of a dict in another order, which is the same JSON.
  have hreq : req.JsonTyped := nestedRequest_jsonTyped (by decide) (.int 1) .none
  have hreq' : req'.JsonTyped := nestedRequest_jsonTyped (by decide) .none (.int 1)
  obtain ⟨hidentity, hfound⟩ :=
    @cache_identity .bare caching reg ops [req] (fun _ _ => .ok {}) [] req hreq
  obtain ⟨su, hsu, hcached, -⟩ := hfound
    -- Equal dicts have equal sorted texts, so the first request's success stands under the second's
    -- key.
    { tool_name := req.tool_name, status := .success, content := "one" } (by decide)
  refine ⟨(hidentity req' hreq').mpr ⟨rfl, ?_⟩, su, hsu, ?_⟩
  · exact (Val.sameJson_iff_canonical hreq'.json hreq.json).mpr (by decide)
  · rw [← hcached]

end ToolExecutor

end YellowBull
