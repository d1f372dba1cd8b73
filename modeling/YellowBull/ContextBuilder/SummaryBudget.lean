import YellowBull.ContextBuilder.Budget

/-!
# The budget of a summary

The summary that `build` inserts is cut until its text fits `summaryBudget`, what the kept turns
leave of `available`. A message costs four tokens more than its text, and the budget does not hold
them back. What the loop returns is known from `countTokens_summarizeTurns_le_iff`, so that
`summary_within_iff` gives the inputs for which a context with a summary stays within `available`.
-/

namespace YellowBull

open Py

/-! ## The built context -/

/-- The messages of the newest turns, at most so many. -/
def newestTurns (msgs : List LLMMessage) (min_keep : ℤ) : List LLMMessage :=
  ((groupTurns msgs [] []).rtake min_keep.toNat).flatten

/-- These are the messages kept, where a turn is to be kept. For a `min_keep` of 0 all turns are. -/
theorem keptMessages_eq_newestTurns (msgs : List LLMMessage) {min_keep : ℤ} (h : 1 ≤ min_keep) :
    keptMessages msgs min_keep = newestTurns msgs min_keep := by
  unfold keptMessages newestTurns
  rw [sliceFrom_neg _ (by omega)]
  rfl

/-- What must hold of a session for its compressed context to stay within `available`. -/
structure SummaryFits (P : Platform) (b : ContextBuilder) (s : Session) (window_size : ℤ)
    (compression : CompressionConfig) : Prop where
  /-- When no turn is to be kept, the turns that the slice keeps all the same fit. -/
  kept : compression.min_turns_to_keep ≤ 0 →
    WithinTokens P (b.available P window_size)
      (keptMessages (windowMessages s window_size) compression.min_turns_to_keep)
  /-- Every cut of the summary that fits its budget leaves four tokens for the message. -/
  overhead : ∀ new_tokens : ℕ,
    sumTokens (messageTokens P)
      (keptMessages (windowMessages s window_size) compression.min_turns_to_keep) =
        .ok new_tokens →
    50 < summaryBudget P b window_size compression new_tokens →
    ∀ k, (countTokens P (cutText k (earlierConversation P
        (sliceTo (groupTurns (windowMessages s window_size) [] [])
          (-compression.min_turns_to_keep)))) : ℤ) ≤
        summaryBudget P b window_size compression new_tokens →
      (countTokens P (cutText k (earlierConversation P
        (sliceTo (groupTurns (windowMessages s window_size) [] [])
          (-compression.min_turns_to_keep)))) : ℤ) ≤
        b.available P window_size - new_tokens - 4

/-- When `build` cuts older turns and the newest ones, that are to be kept, cost no more than
`available`, the messages behind the system prompt cost no more just if the kept turns fit and the
summary leaves its overhead. -/
theorem summary_within_iff {P : Platform} (hheuristic : ∀ text, P.tiktoken text = none)
    {b : ContextBuilder} {s : Session} {window_size : ℤ} {compression : CompressionConfig}
    {work_dir : Option String} (hcut : Compresses P b s window_size compression)
    (hnewest : WithinTokens P (b.available P window_size)
      (newestTurns (windowMessages s window_size) compression.min_turns_to_keep))
    {msgs : List LLMMessage} (h : b.build P s window_size compression work_dir = .ok msgs) :
    WithinTokens P (b.available P window_size) msgs.tail ↔
      SummaryFits P b s window_size compression := by
  rcases build_cases h with ⟨hwhole, -⟩ | ⟨-, new_tokens, hnew, rfl⟩
  · exact absurd hcut hwhole
  rw [List.tail_cons]
  rw [withinTokens_summary_append, withinTokens_iff hnew]
  -- Where a turn is to be kept, the kept turns are the newest ones, which fit.
  have hkept : (new_tokens : ℤ) ≤ b.available P window_size ↔
      (compression.min_turns_to_keep ≤ 0 → WithinTokens P (b.available P window_size)
        (keptMessages (windowMessages s window_size) compression.min_turns_to_keep)) := by
    rw [withinTokens_iff hnew]
    refine ⟨fun hle _ => hle, fun hall => ?_⟩
    by_cases hkeep : 1 ≤ compression.min_turns_to_keep
    · rwa [← keptMessages_eq_newestTurns _ hkeep, withinTokens_iff hnew] at hnewest
    · exact hall (by omega)
  unfold summaryTokens
  split_ifs with hbudget
  · -- A summary: its text costs a token at least, so that the message costs four more.
    have hcut_text := countTokens_summarizeTurns_le_iff hheuristic hbudget
      (sliceTo (groupTurns (windowMessages s window_size) [] [])
        (-compression.min_turns_to_keep)) (b.available P window_size - new_tokens - 4)
    have hone := one_le_heuristicTokens (summarizeTurns P
      (sliceTo (groupTurns (windowMessages s window_size) [] [])
        (-compression.min_turns_to_keep)) (summaryBudget P b window_size compression new_tokens))
    rw [← countTokens_eq_heuristic hheuristic] at hone
    unfold systemTokens
    constructor
    · intro hle
      refine ⟨hkept.mp (by omega), fun n hn _ => ?_⟩
      obtain rfl := Except.ok.inj (hn.symm.trans hnew)
      refine hcut_text.mp ?_
      push_cast at hle
      omega
    · rintro ⟨-, hoverhead⟩
      have hle := hcut_text.mpr (hoverhead new_tokens hnew hbudget)
      push_cast
      omega
  · constructor
    · intro hle
      refine ⟨hkept.mp (by omega), fun n hn hbudget' => ?_⟩
      obtain rfl := Except.ok.inj (hn.symm.trans hnew)
      exact absurd hbudget' hbudget
    · intro hfits
      have hle := hkept.mpr hfits.kept
      omega

/-- With one turn to keep, the long request is cut. -/
theorem longRequest_compresses :
    Compresses .bare ⟨"p"⟩ longRequest 48 { min_turns_to_keep := 1 } := by
  have hlength : (groupTurns (windowMessages longRequest 48) [] []).length = 2 := rfl
  refine ⟨rfl, ⟨114, sumTokens_longRequest, by decide⟩, ?_⟩
  rw [hlength]
  decide

/-- Its newest turn costs 5 tokens. -/
theorem longRequest_newest :
    WithinTokens .bare (ContextBuilder.available .bare ⟨"p"⟩ 48)
      (newestTurns (windowMessages longRequest 48) 1) := by
  have hnewest : newestTurns (windowMessages longRequest 48) 1 =
      [{ role := .user, content := some "c" }] := rfl
  rw [hnewest]
  exact ⟨5, by decide, by decide⟩

/-- The summary of the long request. -/
theorem summary_within_iff_long_request :
    WithinTokens .bare (ContextBuilder.available .bare ⟨"p"⟩ 48)
        [systemMessage longRequestSummary, { role := .user, content := some "c" }] ↔
      SummaryFits .bare ⟨"p"⟩ longRequest 48 { min_turns_to_keep := 1 } :=
  summary_within_iff (fun _ => rfl) longRequest_compresses longRequest_newest build_longRequest

/-- The text of the summary costs 93 tokens. -/
theorem countTokens_longRequestSummary : countTokens .bare longRequestSummary = 93 := by
  have hheadcjk : hasCjk "[Earlier conversation (1 turns):\nUser: " = false := by decide
  have hheadlen : "[Earlier conversation (1 turns):\nUser: ".length = 39 := by decide
  unfold longRequestSummary
  generalize "[Earlier conversation (1 turns):\nUser: " = head at *
  have hcjk : hasCjk (head ++ String.ofList (List.replicate 335 'a')) = false := by
    rw [hasCjk_append, hheadcjk, hasCjk_replicate]
    rfl
  rw [countTokens_eq_heuristic fun _ => rfl, heuristicTokens_of_not_cjk hcjk,
    String.length_append, String.length_ofList, List.length_replicate, hheadlen]
  rfl

/-- It fits its budget of 95 tokens with 93, and as a message behind which the newest turn stands it
is over the 100 tokens that are available. -/
theorem summary_over_budget :
    Compresses .bare ⟨"p"⟩ longRequest 48 { min_turns_to_keep := 1 } ∧
      WithinTokens .bare (ContextBuilder.available .bare ⟨"p"⟩ 48)
        (newestTurns (windowMessages longRequest 48) 1) ∧
      ContextBuilder.build .bare ⟨"p"⟩ longRequest 48 { min_turns_to_keep := 1 } none =
        .ok (systemMessage "p" :: [systemMessage longRequestSummary,
          { role := .user, content := some "c" }]) ∧
      ¬ WithinTokens .bare (ContextBuilder.available .bare ⟨"p"⟩ 48)
        [systemMessage longRequestSummary, { role := .user, content := some "c" }] := by
  refine ⟨longRequest_compresses, longRequest_newest, build_longRequest, ?_⟩
  -- The summary was cut until its text fits the budget; its message costs more than its text.
  have hcost : sumTokens (messageTokens .bare)
      [systemMessage longRequestSummary, { role := .user, content := some "c" }] = .ok 102 := by
    have hc : countTokens .bare "c" = 1 := by decide
    simp only [sumTokens, messageTokens, systemMessage, Option.getD_some, Option.getD_none,
      countTokens_longRequestSummary, hc]
    rfl
  rw [withinTokens_iff hcost]
  decide

end YellowBull
