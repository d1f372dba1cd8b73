import YellowBull.CacheManager.TimedMap

/-!
# JSON values in the cache

`get_json` decodes a stored text whether `set_json` serialized it or `set` stored it as it is. So a
value always comes back after `set_json`, and after `set` it does unless it is a text that
`json.loads` reads as something else (`json_survives_iff`): the text `123` comes back as a number.
What happens to other keys in between, and whether expired entries are cleaned up, does not matter.
-/

namespace YellowBull

open Py

variable {α τ : Type*}

/-- `json.loads` gives the value back from its text. -/
def JsonCodec.Inverts (codec : JsonCodec α) (v : α) : Prop :=
  ∃ text, codec.dumps (some v) = .ok text ∧ codec.loads text = .ok (some v)

/-- `get_json` leaves a stored value as it is: it is not a text, or `json.loads` does not take the
text for JSON, or it reads it as the text itself. -/
def JsonCodec.ReadsAsIs (codec : JsonCodec α) (v : α) : Prop :=
  ∀ text, codec.str? v = some text →
    codec.loads text = .ok (some v) ∨
      ∃ e, codec.loads text = .error e ∧ (e.cls = .jsonDecodeError ∨ e.cls = .typeError)

/-- `get_json` shows a serialized value again. -/
theorem decoded_serialized {codec : JsonCodec α} {v : α} {text : String}
    (hstr : ∀ text, codec.str? (codec.ofStr text) = some text)
    (hloads : codec.loads text = .ok (some v)) :
    CacheManager.decoded codec (some (codec.ofStr text)) = .ok (some v) := by
  simp only [CacheManager.decoded, hstr, hloads]

/-- It shows a value that was stored as it is just if it leaves it so. -/
theorem decoded_eq_self_iff {codec : JsonCodec α} {v : α} :
    CacheManager.decoded codec (some v) = .ok (some v) ↔ codec.ReadsAsIs v := by
  unfold CacheManager.decoded JsonCodec.ReadsAsIs
  cases htext : codec.str? v with
  | none => simp [htext]
  | some text =>
    cases hloads : codec.loads text with
    | ok value => simp [htext, hloads]
    | error e => cases hcls : e.cls <;> simp [htext, hloads, hcls]

variable [Add τ] [LinearOrder τ] (cm : CacheManager τ) (codec : JsonCodec α)

/-- After a call that writes an entry and calls that are harmless to its key, `get_json` decodes the
value of the entry while it is live. -/
theorem getJson_after_write {pre post : List (CacheOp α τ)} {op : CacheOp α τ} {key : String}
    {entry : CacheEntry α τ} {t : τ} (hwrite : op.write cm codec key = some (some entry))
    (hpost : ∀ op' ∈ post, op'.Harmless key)
    (hclock : Clocked (pre ++ op :: post ++ [.getJson key t])) (hlive : entry.LiveAt t) :
    (CacheManager.getJson codec key t (cm.after codec (pre ++ op :: post))).2 =
      CacheManager.decoded codec entry.value := by
  have hlatest : latestEntry cm codec key (pre ++ op :: post) = some entry :=
    (latestEntry_eq_some_iff cm codec).mpr
      ⟨pre, op, post, rfl, hwrite, fun op' hop' => (hpost op' hop').write_eq_none cm codec⟩
  have hshown : shownAt cm codec key t (pre ++ op :: post) = entry.value := by
    unfold shownAt
    rw [hlatest, Option.filter_some, if_pos (by simpa using hlive), Option.bind_some]
  rw [← hshown, ← get_after cm codec hclock rfl]
  rfl

/-- As long as its TTL is not over, a JSON value comes back just if `set_json` stored it or
`get_json` leaves it as it is. -/
theorem json_survives_iff (hstr : ∀ text, codec.str? (codec.ofStr text) = some text)
    {IsJson : α → Prop} (hinverts : ∀ v, IsJson v → codec.Inverts v) {v : α} (hv : IsJson v)
    {pre post : List (CacheOp α τ)} {op : CacheOp α τ} {key : String} {ttl : Option τ} {now t : τ}
    (hop : op = .set key (some v) ttl now ∨ op = .setJson key (some v) ttl now)
    (hpost : ∀ op' ∈ post, op'.Harmless key)
    (hclock : Clocked (pre ++ op :: post ++ [.getJson key t]))
    (hlive : (cm.entry (some v) ttl now).LiveAt t) :
    (CacheManager.getJson codec key t (cm.after codec (pre ++ op :: post))).2 = .ok (some v) ↔
      op = .setJson key (some v) ttl now ∨ codec.ReadsAsIs v := by
  rcases hop with rfl | rfl
  · have hwrite : (CacheOp.set key (some v) ttl now).write cm codec key =
        some (some (cm.entry (some v) ttl now)) := if_pos rfl
    rw [getJson_after_write cm codec hwrite hpost hclock hlive]
    exact decoded_eq_self_iff.trans (or_iff_right (by simp)).symm
  · obtain ⟨text, hdumps, hloads⟩ := hinverts v hv
    have hwrite : (CacheOp.setJson key (some v) ttl now).write cm codec key =
        some (some (cm.entry (some (codec.ofStr text)) ttl now)) := by
      simp [CacheOp.write, hdumps]
    -- The text expires when the value would.
    rw [getJson_after_write cm codec hwrite hpost hclock hlive]
    exact iff_of_true (decoded_serialized hstr hloads) (Or.inl rfl)

/-- A codec that knows the string `123` and the number, and their texts. -/
def digitsCodec : JsonCodec Val where
  str?
    | .str s => some s
    | _ => none
  ofStr := .str
  dumps value := .ok ((value.getD .none).dumps false)
  loads text :=
    if text = "123" then .ok (some (.int 123))
    else if text = "\"123\"" then .ok (some (.str "123"))
    else .error ⟨.jsonDecodeError, "Expecting value: line 1 column 1 (char 0)"⟩

/-- It reads back what it writes of the two values. -/
theorem digitsCodec_inverts : ∀ v, v = .str "123" ∨ v = .int 123 → digitsCodec.Inverts v := by
  rintro v (rfl | rfl)
  · exact ⟨"\"123\"", by decide, by decide⟩
  · exact ⟨"123", by decide, by decide⟩

/-- The number comes back after `set`, though the cache is read and cleaned up in between. -/
theorem json_survives_iff_number :
    (CacheManager.getJson digitsCodec "k" 9 (CacheManager.after ⟨some (5 : ℤ)⟩ digitsCodec
      ([.clear] ++ .set "k" (some (.int 123)) (some 10) 1 ::
        [.get "k" 2, .set "j" none none 3, .cleanup fun _ => 8]))).2 = .ok (some (.int 123)) :=
  (json_survives_iff ⟨some (5 : ℤ)⟩ digitsCodec (fun _ => rfl) digitsCodec_inverts (Or.inr rfl)
    (Or.inl rfl) (by simp [CacheOp.Harmless]) (by simp [Clocked, CacheOp.ReadsClock])
    (by decide)).mpr (Or.inr fun text htext => by cases htext)

/-- The string `123` comes back after `set` as the number. -/
theorem json_text_changes :
    ¬ ∀ (codec : JsonCodec Val) (IsJson : Val → Prop),
      (∀ text, codec.str? (codec.ofStr text) = some text) →
      (∀ v, IsJson v → codec.Inverts v) → ∀ v, IsJson v →
        (CacheManager.getJson codec "k" 1 (CacheManager.after ⟨some (5 : ℤ)⟩ codec
          [.set "k" (some v) none 0])).2 = .ok (some v) := by
  intro h
  have hback := h digitsCodec _ (fun _ => rfl) digitsCodec_inverts (.str "123") (Or.inl rfl)
  revert hback
  decide

end YellowBull
