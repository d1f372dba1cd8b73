import Mathlib.Data.List.DropRight
import YellowBull.ContextBuilder.SummaryCut
import YellowBull.ContextBuilder.Turns

/-!
# The messages of a built context

`build_recent_suffix` says which messages of the session a built context holds: behind the system
prompt and at most one summary, the images of a suffix of the message window, which is the window
itself or its last `min_turns_to_keep` turns. A turn is what a USER message opens, so that the turns
of a suffix that starts with a USER message are counted by its USER messages (`keptMessages_users`).
The window may start within a turn; that first part is never among the turns kept.
-/

namespace YellowBull

open Py

/-! ## Images -/

/-- The role that a message of the session has for the LLM. -/
def MessageRole.toLLM : MessageRole → Role
  | .system => .system
  | .user => .user
  | .assistant => .assistant
  | .tool => .tool

/-- A message for the LLM says what the message of the session does. -/
structure Carries (msg : Message) (m : LLMMessage) : Prop where
  role : m.role = msg.role.toLLM
  content : m.content = msg.content
  tool_calls : msg.role = .assistant → m.tool_calls = msg.tool_calls
  tool_call_id : msg.role = .tool → m.tool_call_id = msg.tool_call_id

/-- A message that is not a SYSTEM message has an image. -/
theorem Message.toLLM_carries {msg : Message} (h : msg.role ≠ .system) :
    ∃ m, msg.toLLM = some m ∧ Carries msg m := by
  unfold Message.toLLM
  cases hrole : msg.role with
  | system => exact absurd hrole h
  | user =>
    exact ⟨_, rfl, by simp [hrole, MessageRole.toLLM], rfl, by simp [hrole], by simp [hrole]⟩
  | assistant =>
    exact ⟨_, rfl, by simp [hrole, MessageRole.toLLM], rfl, fun _ => rfl, by simp [hrole]⟩
  | tool =>
    exact ⟨_, rfl, by simp [hrole, MessageRole.toLLM], rfl, by simp [hrole], fun _ => rfl⟩

/-- Without SYSTEM messages, every message has its image, in the same place. -/
theorem forall₂_carries {msgs : List Message} (h : ∀ msg ∈ msgs, msg.role ≠ .system) :
    List.Forall₂ Carries msgs (msgs.filterMap Message.toLLM) := by
  induction msgs with
  | nil => exact .nil
  | cons msg msgs ih =>
    obtain ⟨m, hm, hcarries⟩ := Message.toLLM_carries (h msg List.mem_cons_self)
    rw [List.filterMap_cons_some hm]
    exact .cons hcarries (ih fun msg' hmsg => h msg' (List.mem_cons_of_mem _ hmsg))

/-- A USER message is the image of a USER message. -/
theorem Carries.user_iff {msg : Message} {m : LLMMessage} (h : Carries msg m) :
    m.role = .user ↔ msg.role = .user := by
  rw [h.role]
  cases msg.role <;> simp [MessageRole.toLLM]

/-- Lists of messages and of their images have as many USER messages. -/
theorem countP_user_of_carries {msgs : List Message} {ms : List LLMMessage}
    (h : List.Forall₂ Carries msgs ms) :
    ms.countP (·.role = .user) = msgs.countP (·.role = .user) := by
  induction h with
  | nil => rfl
  | cons hcarries _ ih =>
    rw [List.countP_cons, List.countP_cons, ih]
    simp only [decide_eq_true_eq, hcarries.user_iff]

/-- A suffix of the images is the images of a suffix. -/
theorem exists_suffix_of_carries {msgs : List Message} {ms kept : List LLMMessage}
    (h : List.Forall₂ Carries msgs ms) (hkept : kept <:+ ms) :
    ∃ kept' : List Message, kept' <:+ msgs ∧ List.Forall₂ Carries kept' kept := by
  refine ⟨msgs.drop (ms.length - kept.length), List.drop_suffix _ _, ?_⟩
  have hdrop := List.forall₂_drop (ms.length - kept.length) h
  rwa [← List.suffix_iff_eq_drop.mp hkept] at hdrop

/-! ## The turns kept -/

/-- Every turn but the first has one USER message. -/
theorem groupTurns_users (msgs : List LLMMessage) :
    ∀ turn ∈ (groupTurns msgs [] []).tail, turn.countP (·.role = .user) = 1 := by
  refine groupTurns_tail (by simp) ?_ ?_ msgs [] [] (by simp)
  · intro msg huser
    simp [huser]
  · intro turn msg hturn hother
    simp [hturn, hother]

/-- Lists that count one each count together as many as they are. -/
theorem countP_flatten_of_one {α : Type} {p : α → Bool} {turns : List (List α)}
    (h : ∀ turn ∈ turns, turn.countP p = 1) : turns.flatten.countP p = turns.length := by
  have hone : turns.map (List.countP p) = turns.map fun _ => 1 := List.map_congr_left h
  rw [List.countP_flatten, hone]
  simp

/-- When there are more turns than are kept, the kept messages have one USER message for each turn
kept. -/
theorem keptMessages_users {msgs : List LLMMessage} {min_keep : ℤ} (hkeep : 1 ≤ min_keep)
    (hlt : min_keep < (groupTurns msgs [] []).length) :
    ((keptMessages msgs min_keep).countP (·.role = .user) : ℤ) = min_keep := by
  have husers := groupTurns_users msgs
  unfold keptMessages
  rw [sliceFrom_neg _ (by omega)]
  generalize groupTurns msgs [] [] = turns at *
  -- At least one turn is cut, so that those kept are in the tail.
  obtain ⟨n, hn⟩ : ∃ n, turns.length - min_keep.toNat = n + 1 :=
    ⟨turns.length - min_keep.toNat - 1, by omega⟩
  have hdrop : turns.drop (n + 1) = turns.tail.drop n := by
    rw [List.drop_tail]
  have hone : ∀ turn ∈ turns.drop (n + 1), turn.countP (·.role = .user) = 1 := by
    intro turn hturn
    rw [hdrop] at hturn
    exact husers turn (List.mem_of_mem_drop hturn)
  rw [hn, countP_flatten_of_one hone, List.length_drop]
  omega

/-- No turn is empty. -/
theorem groupTurns_ne_nil (msgs : List LLMMessage) (turns : List (List LLMMessage))
    (current : List LLMMessage) (h : ∀ turn ∈ turns, turn ≠ []) :
    ∀ turn ∈ groupTurns msgs turns current, turn ≠ [] := by
  induction msgs generalizing turns current with
  -- The turn that is open at the end is recorded if it has messages.
  | nil =>
    unfold groupTurns
    split_ifs with hc
    · exact h
    · intro turn hturn
      rcases List.mem_append.mp hturn with hturn | hturn
      · exact h turn hturn
      · exact List.mem_singleton.mp hturn ▸ hc
  | cons msg msgs ih =>
    unfold groupTurns
    split_ifs with hm
    -- A USER message closes the open turn, which has messages by the test in front.
    · refine ih (turns ++ [current]) [msg] fun turn hturn => ?_
      rcases List.mem_append.mp hturn with hturn | hturn
      · exact h turn hturn
      · exact List.mem_singleton.mp hturn ▸ hm.2
    · exact ih turns (current ++ [msg]) h

/-- When there are more turns than are kept, messages are left out. -/
theorem keptMessages_ne {msgs : List LLMMessage} {min_keep : ℤ} (hkeep : 1 ≤ min_keep)
    (hlt : min_keep < (groupTurns msgs [] []).length) : keptMessages msgs min_keep ≠ msgs := by
  have hflat := groupTurns_flatten msgs [] []
  have hne := groupTurns_ne_nil msgs [] [] (by simp)
  unfold keptMessages
  rw [sliceFrom_neg _ (by omega)]
  generalize groupTurns msgs [] [] = turns at *
  intro hall
  -- The turns that are cut would be empty.
  have hcut : (turns.take (turns.length - min_keep.toNat)).flatten = [] := by
    have hsplit := congrArg List.flatten
      (List.take_append_drop (turns.length - min_keep.toNat) turns)
    rw [List.flatten_append, hall, hflat] at hsplit
    simpa using hsplit
  obtain ⟨turn, rest, rfl⟩ : ∃ turn rest, turns = turn :: rest :=
    List.exists_cons_of_length_pos (by omega)
  refine hne turn List.mem_cons_self (List.flatten_eq_nil_iff.mp hcut turn ?_)
  exact List.mem_take_iff_getElem.mpr ⟨0, by simp only [List.length_cons] at hlt ⊢; omega, rfl⟩

/-! ## The suffix of the session -/

/-- The last messages of a session, so many of those that are not SYSTEM messages. -/
def Session.lastMessages (s : Session) (window_size : ℤ) : List Message :=
  (s.messages.filter (·.role ≠ .system)).rtake window_size.toNat

/-- Messages kept of a slice of the session, beside a summary or without one. -/
structure RecentSuffix (slice : List Message) (min_keep : ℤ) (summary : Option String)
    (kept : List Message) : Prop where
  suffix : kept <:+ slice
  /-- All of the slice, or so many of its turns, the newest ones. -/
  whole_or_turns : kept = slice ∨
    (∃ first rest, kept = first :: rest ∧ first.role = .user) ∧
      (kept.countP (·.role = .user) : ℤ) = min_keep
  /-- A summary stands for messages that are left out. -/
  left_out : summary ≠ none → kept ≠ slice

/-- The window is the image of the last messages. -/
theorem windowMessages_carries (s : Session) {window_size : ℤ} (hwindow : 1 ≤ window_size) :
    List.Forall₂ Carries (s.lastMessages window_size) (windowMessages s window_size) := by
  rw [windowMessages_eq, sliceFrom_neg _ (by omega)]
  refine forall₂_carries fun msg hmsg => ?_
  simpa using (List.mem_filter.mp (List.mem_of_mem_drop hmsg)).2

/-- What `build` returns for a window and a number of turns to keep of at least 1: behind the system
prompt at most one summary, and the images of a suffix of the last messages of the session. -/
theorem build_recent_suffix {P : Platform} {b : ContextBuilder} {s : Session} {window_size : ℤ}
    {compression : CompressionConfig} {work_dir : Option String} {msgs : List LLMMessage}
    (hwindow : 1 ≤ window_size) (hkeep : 1 ≤ compression.min_turns_to_keep)
    (h : b.build P s window_size compression work_dir = .ok msgs) :
    ∃ (summary : Option String) (kept : List Message) (images : List LLMMessage),
      msgs = systemMessage (b.effectivePrompt work_dir) ::
        ((summary.map systemMessage).toList ++ images) ∧
      List.Forall₂ Carries kept images ∧
      RecentSuffix (s.lastMessages window_size) compression.min_turns_to_keep summary kept := by
  have hslice := windowMessages_carries s hwindow
  rcases build_cases h with ⟨-, rfl⟩ | ⟨hcut, new_tokens, -, rfl⟩
  · -- The whole window.
    exact ⟨none, _, _, rfl, hslice, List.suffix_rfl, .inl rfl, fun hnone => absurd rfl hnone⟩
  obtain ⟨⟨first, rest, hfirst, huser⟩, hsuffix⟩ := keptMessages_spec hkeep hcut.2.2
  obtain ⟨kept, hkept, himages⟩ := exists_suffix_of_carries hslice hsuffix
  have hstart : ∃ first' rest', kept = first' :: rest' ∧ first'.role = .user := by
    rw [hfirst] at himages
    obtain ⟨first', rest', hcarries, -, rfl⟩ := List.forall₂_cons_right_iff.mp himages
    exact ⟨first', rest', rfl, hcarries.user_iff.mp huser⟩
  have husers : (kept.countP (·.role = .user) : ℤ) = compression.min_turns_to_keep := by
    rw [← countP_user_of_carries himages]
    exact keptMessages_users hkeep hcut.2.2
  have hleft : kept ≠ s.lastMessages window_size := by
    rintro rfl
    refine keptMessages_ne hkeep hcut.2.2 (hsuffix.eq_of_length ?_)
    rw [← himages.length_eq, ← hslice.length_eq]
  obtain ⟨summary, hsummary⟩ : ∃ summary : Option String,
      summaryMessages P b s window_size compression new_tokens =
        (summary.map systemMessage).toList := by
    unfold summaryMessages
    split_ifs
    · exact ⟨some _, rfl⟩
    · exact ⟨none, rfl⟩
  exact ⟨summary, kept, _, by rw [hsummary], himages, hkept, .inr ⟨hstart, husers⟩, fun _ => hleft⟩

/-- A session with a long request, its answer and a short request. -/
def longRequest : Session where
  session_id := "s"
  messages := [{ role := .user, content := some (String.ofList (List.replicate 400 'a')) },
    { role := .assistant, content := some "b" }, { role := .user, content := some "c" }]

/-- The summary of its first turn, for a budget of 95 tokens. -/
def longRequestSummary : String :=
  "[Earlier conversation (1 turns):\nUser: " ++ String.ofList (List.replicate 335 'a')

/-- The messages that it has for the LLM. -/
theorem windowMessages_longRequest : windowMessages longRequest 48 =
    [{ role := .user, content := some (String.ofList (List.replicate 400 'a')) },
      { role := .assistant, content := some "b" }, { role := .user, content := some "c" }] := rfl

/-- The request costs 100 of the 114 tokens. -/
theorem countTokens_longRequest :
    countTokens .bare (String.ofList (List.replicate 400 'a')) = 100 := by
  rw [countTokens_eq_heuristic fun _ => rfl, heuristicTokens_of_not_cjk (hasCjk_replicate 400),
    String.length_ofList, List.length_replicate]
  rfl

/-- With its answer and the short request it is these 114. -/
theorem sumTokens_longRequest :
    sumTokens (messageTokens .bare) (windowMessages longRequest 48) = .ok 114 := by
  have hb : countTokens .bare "b" = 1 := by decide
  have hc : countTokens .bare "c" = 1 := by decide
  rw [windowMessages_longRequest]
  simp only [sumTokens, messageTokens, Option.getD_some, Option.getD_none,
    countTokens_longRequest, hb, hc]
  rfl

/-- A turn of a request of at most 100 tokens and an answer. -/
theorem turnSummary_of_le {P : Platform} {request answer : String}
    (h : ¬ 100 < countTokens P request) :
    turnSummary P [{ role := .user, content := some request },
        { role := .assistant, content := some answer }] =
      "User: " ++ request ++ "\nAssistant: " ++ answer := by
  change "User: " ++ (if 100 < countTokens P request then _ else request) ++ _ ++ answer = _
  rw [if_neg h]

/-- The text that is cut when it is the only turn. -/
theorem earlierConversation_of_le {P : Platform} {request answer : String}
    (h : ¬ 100 < countTokens P request) :
    earlierConversation P [[{ role := .user, content := some request },
        { role := .assistant, content := some answer }]] =
      "[Earlier conversation (1 turns):\nUser: " ++
        (request ++ ("\nAssistant: " ++ (answer ++ "\n]"))) := by
  have hhead : "[Earlier conversation (1 turns):\nUser: " =
      "[Earlier conversation (" ++ toString 1 ++ " turns):\n" ++ "User: " := rfl
  calc earlierConversation P [[{ role := .user, content := some request },
        { role := .assistant, content := some answer }]]
      = "[Earlier conversation (" ++ toString 1 ++ " turns):\n" ++
          turnSummary P [{ role := .user, content := some request },
            { role := .assistant, content := some answer }] ++ "\n]" := rfl
    _ = _ := by simp only [turnSummary_of_le h, hhead, String.append_assoc]

/-- Four cuts make it fit. -/
theorem summarizeTurns_longRequest :
    summarizeTurns .bare (sliceTo (groupTurns (windowMessages longRequest 48) [] []) (-1)) 95 =
      longRequestSummary := by
  -- Only the first of the two turns is summarized.
  have hturns : sliceTo (groupTurns (windowMessages longRequest 48) [] []) (-1) =
      [[{ role := .user, content := some (String.ofList (List.replicate 400 'a')) },
        { role := .assistant, content := some "b" }]] := rfl
  have hnotlong : ¬ 100 < countTokens .bare (String.ofList (List.replicate 400 'a')) := by
    rw [countTokens_longRequest]
    omega
  have hheadcjk : hasCjk "[Earlier conversation (1 turns):\nUser: " = false := by decide
  have htailcjk : hasCjk ("\nAssistant: " ++ ("b" ++ "\n]")) = false := by decide
  have hheadlen : "[Earlier conversation (1 turns):\nUser: ".length = 39 := by decide
  have htaillen : ("\nAssistant: " ++ ("b" ++ "\n]")).length = 15 := by decide
  -- The text in front of the request and the one behind are fixed; only their lengths matter.
  rw [summarizeTurns_eq, hturns, earlierConversation_of_le hnotlong]
  unfold longRequestSummary
  generalize "[Earlier conversation (1 turns):\nUser: " = head at *
  generalize "\nAssistant: " ++ ("b" ++ "\n]") = tail at *
  generalize htext : head ++ (String.ofList (List.replicate 400 'a') ++ tail) = text
  -- 454 characters without CJK cost 113 tokens, and each cut takes off five.
  have hlength : text.length = 454 := by
    rw [← htext, String.length_append, String.length_append, String.length_ofList,
      List.length_replicate, hheadlen, htaillen]
  have hcjk : hasCjk text = false := by
    rw [← htext, hasCjk_append, hasCjk_append, hheadcjk, hasCjk_replicate, htailcjk]
    rfl
  have hcost (j : ℕ) : countTokens .bare (cutText j text) = max 1 ((454 - 20 * j) / 4) := by
    rw [countTokens_eq_heuristic fun _ => rfl, heuristicTokens_of_not_cjk (hasCjk_cutText hcjk j),
      length_cutText, hlength]
  obtain ⟨k, hk, hfits, hfirst⟩ := truncateSummary_spec (P := .bare) (fun _ => rfl)
    (show (50 : ℤ) < 95 by decide) _ text le_rfl
  -- Three cuts leave 98 tokens, over the 95 of the budget; the fourth leaves 93.
  have hfour : k = 4 := by
    have hlt : ¬ 4 < k := fun hlt => by
      have hover := hfirst 4 hlt
      rw [hcost] at hover
      omega
    rw [hcost] at hfits
    omega
  -- The four cuts take the end of the summary and a part of the request.
  have hcut : cutText 4 text = head ++ String.ofList (List.replicate 335 'a') := by
    refine String.toList_inj.mp ?_
    rw [cutText, hlength, ← htext, String.toList_ofList, String.toList_append,
      String.toList_append, String.toList_ofList, String.toList_append, String.toList_ofList,
      List.take_append, String.length_toList, hheadlen,
      List.take_of_length_le (by rw [String.length_toList, hheadlen]; omega),
      List.take_append_of_le_length (by rw [List.length_replicate]; omega), List.take_replicate]
    rfl
  rw [hk, hfour, hcut]

/-- Its context, with one turn to keep. -/
theorem build_longRequest :
    ContextBuilder.build .bare ⟨"p"⟩ longRequest 48 { min_turns_to_keep := 1 } none =
      .ok [systemMessage "p", systemMessage longRequestSummary,
        { role := .user, content := some "c" }] := by
  have havailable : ContextBuilder.available .bare ⟨"p"⟩ 48 = 100 := by decide
  have hkept : (sliceFrom (groupTurns (windowMessages longRequest 48) [] []) (-1)).flatten =
      [{ role := .user, content := some "c" }] := rfl
  have hnew : sumTokens (messageTokens .bare) [{ role := .user, content := some "c" }] = .ok 5 := by
    decide
  have hlength : (groupTurns (windowMessages longRequest 48) [] []).length = 2 := rfl
  have hbudget : min 300 (100 - ((5 : ℕ) : ℤ)) = 95 := by decide
  unfold ContextBuilder.build
  simp only [sumTokens_longRequest, havailable, hkept, hnew, hlength, hbudget,
    summarizeTurns_longRequest]
  rfl

/-- The last of the two turns behind a summary of the first. -/
theorem build_recent_suffix_long_request :
    ∃ (summary : Option String) (kept : List Message) (images : List LLMMessage),
      [systemMessage "p", systemMessage longRequestSummary,
        { role := .user, content := some "c" }] =
          systemMessage (ContextBuilder.effectivePrompt ⟨"p"⟩ none) ::
            ((summary.map systemMessage).toList ++ images) ∧
      List.Forall₂ Carries kept images ∧
      RecentSuffix (longRequest.lastMessages 48) 1 summary kept :=
  build_recent_suffix (by decide) (by decide) build_longRequest

end YellowBull
