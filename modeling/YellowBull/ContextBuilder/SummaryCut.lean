import YellowBull.ContextBuilder
import YellowBull.Lib.Loop

/-!
# How a summary is cut

`_summarize_turns` cuts its text by 20 characters at a time until it fits a budget or has 50
characters left. Whatever counts the tokens, what the loop returns is the first of these cuts at
which that is so (`truncateSummary_first`). Under the heuristic it is the first that fits
(`truncateSummary_spec`), and since a prefix has no more tokens than the text, a bound holds of it
just if it holds of every cut that fits (`countTokens_summarizeTurns_le_iff`).

Whatever counts the tokens, the loop ends, and the fuel of `truncateSummary` is enough for it
(`cutRound_returns`).
-/

namespace YellowBull

open Py

/-! ## The heuristic on prefixes -/

/-- The heuristic gives every text a token. -/
theorem one_le_heuristicTokens (text : String) : 1 ≤ heuristicTokens text := le_max_left _ _

/-- It gives a text at most one token for two characters. -/
theorem heuristicTokens_le (text : String) : heuristicTokens text ≤ max 1 (text.length / 2) := by
  unfold heuristicTokens
  split_ifs <;> omega

/-- It gives a text without Chinese characters a token for four characters. -/
theorem heuristicTokens_of_not_cjk {text : String} (h : hasCjk text = false) :
    heuristicTokens text = max 1 (text.length / 4) := by
  unfold heuristicTokens
  rw [h]
  rfl

/-- Two texts have Chinese characters together if one of them has. -/
theorem hasCjk_append (text text' : String) :
    hasCjk (text ++ text') = (hasCjk text || hasCjk text') := by
  unfold hasCjk
  rw [String.toList_append, List.any_append]

/-- Copies of a letter are none. -/
theorem hasCjk_replicate (n : ℕ) : hasCjk (String.ofList (List.replicate n 'a')) = false := by
  unfold hasCjk
  rw [String.toList_ofList, List.any_eq_false]
  intro c hc
  rw [List.eq_of_mem_replicate hc]
  decide

/-- A part of a text has Chinese characters only if the text has. -/
theorem hasCjk_of_part {part text : String} (h : part.toList <+: text.toList)
    (hpart : hasCjk part = true) : hasCjk text = true := by
  obtain ⟨c, hc, hrange⟩ := List.any_eq_true.mp hpart
  exact List.any_eq_true.mpr ⟨c, h.subset hc, hrange⟩

/-- It gives a prefix at most the tokens of the text. -/
theorem heuristicTokens_mono {part text : String} (h : part.toList <+: text.toList) :
    heuristicTokens part ≤ heuristicTokens text := by
  have hlen : part.length ≤ text.length := by
    rw [← String.length_toList, ← String.length_toList]
    exact h.length_le
  unfold heuristicTokens
  split_ifs with hpart htext
  · omega
  · exact absurd (hasCjk_of_part h hpart) htext
  · omega
  · omega

/-! ## The loop that cuts a summary -/

/-- A text without so many times its last 20 characters. -/
def cutText (k : ℕ) (text : String) : String :=
  String.ofList (text.toList.take (text.length - 20 * k))

/-- No cut leaves the text. -/
theorem cutText_zero (text : String) : cutText 0 text = text := by
  unfold cutText
  rw [Nat.mul_zero, Nat.sub_zero, ← String.length_toList, List.take_length, String.ofList_toList]

/-- Each cut takes 20 characters, as long as there are some. -/
theorem length_cutText (k : ℕ) (text : String) :
    (cutText k text).length = text.length - 20 * k := by
  unfold cutText
  rw [String.length_ofList, List.length_take, String.length_toList]
  omega

/-- Cuts add up. -/
theorem cutText_cutText (j k : ℕ) (text : String) :
    cutText j (cutText k text) = cutText (k + j) text := by
  have hlen := length_cutText k text
  unfold cutText at hlen ⊢
  rw [hlen, String.toList_ofList, List.take_take]
  congr 2
  omega

/-- More cuts leave a prefix. -/
theorem cutText_mono {j k : ℕ} (h : j ≤ k) (text : String) :
    (cutText k text).toList <+: (cutText j text).toList := by
  unfold cutText
  rw [String.toList_ofList, String.toList_ofList]
  exact List.take_prefix_take_left (by omega)

/-- A cut adds no Chinese characters. -/
theorem hasCjk_cutText {text : String} (h : hasCjk text = false) (k : ℕ) :
    hasCjk (cutText k text) = false := by
  have hpart := cutText_mono (Nat.zero_le k) text
  rw [cutText_zero] at hpart
  by_contra hcut
  have htext := hasCjk_of_part hpart (by simpa using hcut)
  rw [h] at htext
  cases htext

/-- One round of the loop makes one cut. -/
theorem sliceTo_eq_cutText {text : String} (h : 50 < text.length) :
    String.ofList (sliceTo text.toList (-20)) = cutText 1 text := by
  have hindex : sliceIndex text.toList.length (-20) = text.length - 20 * 1 := by
    unfold sliceIndex
    rw [if_pos (by decide), String.length_toList]
    omega
  unfold cutText sliceTo
  rw [hindex]

/-- The loop cuts on from this cut of a text: it is over the budget, and has more than 50
characters. -/
def CutsOn (P : Platform) (budget : ℤ) (text : String) (k : ℕ) : Prop :=
  budget < countTokens P (cutText k text) ∧ 50 < (cutText k text).length

/-- At the text itself, the loop looks at the text. -/
theorem cutsOn_zero {P : Platform} {budget : ℤ} {text : String} :
    CutsOn P budget text 0 ↔ budget < countTokens P text ∧ 50 < text.length := by
  rw [CutsOn, cutText_zero]

/-- The cuts of a text that is cut already come after its own. -/
theorem cutsOn_succ {P : Platform} {budget : ℤ} {text : String} {k : ℕ} :
    CutsOn P budget text (k + 1) ↔ CutsOn P budget (cutText 1 text) k := by
  rw [CutsOn, CutsOn, cutText_cutText, Nat.add_comm]

/-- The loop returns the first cut from which it does not cut on. -/
theorem truncateSummary_first (P : Platform) (budget : ℤ) (fuel : ℕ) (text : String)
    (hfuel : text.length ≤ fuel) :
    ∃ k, truncateSummary P budget fuel text = cutText k text ∧ ¬ CutsOn P budget text k ∧
      ∀ j < k, CutsOn P budget text j := by
  -- Each round takes characters away, so that the fuel lasts.
  induction fuel generalizing text with
  | zero =>
    have hstop : ¬ CutsOn P budget text 0 := fun hon => by
      have hlength := (cutsOn_zero.mp hon).2
      omega
    exact ⟨0, (cutText_zero text).symm, hstop, fun j hj => absurd hj j.not_lt_zero⟩
  | succ fuel ih =>
    unfold truncateSummary
    split_ifs with hmore
    · -- The round makes one cut, and the loop goes on with the text that is left.
      rw [sliceTo_eq_cutText hmore.2]
      have hlength := length_cutText 1 text
      obtain ⟨k, hk, hstop, hbefore⟩ := ih (cutText 1 text) (by omega)
      rw [cutText_cutText, Nat.add_comm] at hk
      refine ⟨k + 1, hk, fun hon => hstop (cutsOn_succ.mp hon), fun j hj => ?_⟩
      cases j with
      | zero => exact cutsOn_zero.mpr hmore
      | succ j => exact cutsOn_succ.mpr (hbefore j (Nat.lt_of_succ_lt_succ hj))
    · exact ⟨0, (cutText_zero text).symm, fun hon => hmore (cutsOn_zero.mp hon),
        fun j hj => absurd hj j.not_lt_zero⟩

/-- There is one such cut alone. -/
theorem firstCut_unique {P : Platform} {budget : ℤ} {text : String} {k k' : ℕ}
    (hk : ¬ CutsOn P budget text k) (hbefore : ∀ j < k, CutsOn P budget text j)
    (hk' : ¬ CutsOn P budget text k') (hbefore' : ∀ j < k', CutsOn P budget text j) : k = k' := by
  have hle : k ≤ k' := not_lt.mp fun hlt => hk' (hbefore k' hlt)
  have hge : k' ≤ k := not_lt.mp fun hlt => hk (hbefore' k hlt)
  exact le_antisymm hle hge

section Heuristic

variable {P : Platform} (hheuristic : ∀ text, P.tiktoken text = none)
include hheuristic

/-- Without `tiktoken`, tokens are counted by the heuristic. -/
theorem countTokens_eq_heuristic (text : String) : countTokens P text = heuristicTokens text := by
  unfold countTokens
  rw [hheuristic]
  rfl

/-- The loop returns the first cut that fits the budget. A text of 50 characters, at which it stops
in any case, fits every budget for which a summary is made. -/
theorem truncateSummary_spec {budget : ℤ} (hbudget : 50 < budget) (fuel : ℕ) (text : String)
    (hfuel : text.length ≤ fuel) :
    ∃ k, truncateSummary P budget fuel text = cutText k text ∧
      (countTokens P (cutText k text) : ℤ) ≤ budget ∧
      ∀ j < k, budget < countTokens P (cutText j text) := by
  obtain ⟨k, hk, hstop, hbefore⟩ := truncateSummary_first P budget fuel text hfuel
  refine ⟨k, hk, ?_, fun j hj => (hbefore j hj).1⟩
  have hle := heuristicTokens_le (cutText k text)
  rw [← countTokens_eq_heuristic hheuristic] at hle
  unfold CutsOn at hstop
  omega

/-- A bound holds of the text that the loop returns just if it holds of every cut that fits the
budget. -/
theorem countTokens_truncateSummary_le_iff {budget : ℤ} (hbudget : 50 < budget) {fuel : ℕ}
    {text : String} (hfuel : text.length ≤ fuel) (bound : ℤ) :
    (countTokens P (truncateSummary P budget fuel text) : ℤ) ≤ bound ↔
      ∀ k, (countTokens P (cutText k text) : ℤ) ≤ budget →
        (countTokens P (cutText k text) : ℤ) ≤ bound := by
  obtain ⟨first, heq, hfits, hfirst⟩ :=
    truncateSummary_spec hheuristic hbudget fuel text hfuel
  rw [heq]
  constructor
  · intro hle k hk
    -- The cuts before the first one do not fit, and those after it are shorter.
    have hge : first ≤ k := by
      by_contra hlt
      have hover := hfirst k (by omega)
      omega
    have hmono := heuristicTokens_mono (cutText_mono hge text)
    rw [← countTokens_eq_heuristic hheuristic, ← countTokens_eq_heuristic hheuristic] at hmono
    omega
  · intro hall
    exact hall first hfits

end Heuristic

/-! ## The end of the loop -/

/-- A round of the `while` loop of `_summarize_turns`. -/
def cutRound (P : Platform) (budget : ℤ) (summary : String) : String ⊕ String :=
  if budget < countTokens P summary ∧ 50 < summary.length then
    .inl (String.ofList (sliceTo summary.toList (-20)))
  else .inr summary

/-- The loop ends, and its result is that of the fuel. -/
theorem cutRound_returns (P : Platform) (budget : ℤ) {fuel : ℕ} {text : String}
    (hfuel : text.length ≤ fuel) :
    Loop.Returns (cutRound P budget) text (truncateSummary P budget fuel text) := by
  induction fuel generalizing text with
  | zero =>
    have hstop : ¬ (budget < countTokens P text ∧ 50 < text.length) := by omega
    exact Loop.returns_of_done (if_neg hstop)
  | succ fuel ih =>
    unfold truncateSummary
    split_ifs with hmore
    · -- A round shortens the text.
      have hlen := length_cutText 1 text
      rw [← sliceTo_eq_cutText hmore.2] at hlen
      exact .of_next (if_pos hmore) (ih (by omega))
    · exact Loop.returns_of_done (if_neg hmore)

/-- What the loop returns is a prefix of the text, at which the loop stops. -/
theorem cutRound_returns_prefix {P : Platform} {budget : ℤ} {text summary : String}
    (h : Loop.Returns (cutRound P budget) text summary) :
    summary.toList <+: text.toList ∧
      ¬ (budget < countTokens P summary ∧ 50 < summary.length) := by
  -- A round that goes on cuts at the end, so what it leaves is a prefix of what it got.
  have hkeep : ∀ s s', s.toList <+: text.toList → cutRound P budget s = .inl s' →
      s'.toList <+: text.toList := by
    intro s s' hs hround
    unfold cutRound at hround
    split_ifs at hround with hmore
    cases hround
    rw [sliceTo_eq_cutText hmore.2]
    have hcut := cutText_mono (Nat.zero_le 1) s
    rw [cutText_zero] at hcut
    exact hcut.trans hs
  -- The last round went no further, which is the second part.
  obtain ⟨last, hlast, hround⟩ := h.invariant _ hkeep (List.prefix_refl _)
  unfold cutRound at hround
  split_ifs at hround with hmore
  cases hround
  exact ⟨hlast, hmore⟩

/-! ## The summary of turns -/

/-- The text that `_summarize_turns` cuts. -/
def earlierConversation (P : Platform) (turns : List (List LLMMessage)) : String :=
  "[Earlier conversation (" ++ toString turns.length ++ " turns):\n" ++
    join "\n---\n" (turns.map (turnSummary P)) ++ "\n]"

/-- The summary is what the loop makes of that text. -/
theorem summarizeTurns_eq (P : Platform) (turns : List (List LLMMessage)) (budget : ℤ) :
    summarizeTurns P turns budget =
      truncateSummary P budget (earlierConversation P turns).length
        (earlierConversation P turns) := rfl

/-- The loop that cuts the summary of turns ends with every budget. Under the heuristic, for every
budget for which a summary is made, it ends with a prefix of the text that fits the budget. -/
theorem summarizeTurns_ends (P : Platform) (turns : List (List LLMMessage)) (budget : ℤ) :
    Loop.Returns (cutRound P budget) (earlierConversation P turns)
        (summarizeTurns P turns budget) ∧
      ((∀ text, P.tiktoken text = none) → 50 < budget →
        (countTokens P (summarizeTurns P turns budget) : ℤ) ≤ budget ∧
          (summarizeTurns P turns budget).toList <+: (earlierConversation P turns).toList) := by
  have hends : Loop.Returns (cutRound P budget) (earlierConversation P turns)
      (summarizeTurns P turns budget) := by
    rw [summarizeTurns_eq]
    exact cutRound_returns P budget (le_refl _)
  refine ⟨hends, fun hheuristic hbudget => ?_⟩
  obtain ⟨hpart, hstop⟩ := cutRound_returns_prefix hends
  refine ⟨?_, hpart⟩
  -- A text at the floor of 50 characters has at most 25 tokens.
  have hle := heuristicTokens_le (summarizeTurns P turns budget)
  rw [← countTokens_eq_heuristic hheuristic] at hle
  omega

/-- A long message is cut to a budget of 60 tokens. -/
theorem summarizeTurns_ends_long :
    let turns := [[{ role := .user, content := some (String.ofList (List.replicate 300 'a')) }]]
    Loop.Returns (cutRound .bare 60) (earlierConversation .bare turns)
        (summarizeTurns .bare turns 60) ∧
      (countTokens .bare (summarizeTurns .bare turns 60) : ℤ) ≤ 60 ∧
      (summarizeTurns .bare turns 60).toList <+: (earlierConversation .bare turns).toList :=
  let h := summarizeTurns_ends .bare _ 60
  ⟨h.1, h.2 (fun _ => rfl) (by decide)⟩

/-- A bound holds of a summary just if it holds of every cut of the text that fits the budget. -/
theorem countTokens_summarizeTurns_le_iff {P : Platform}
    (hheuristic : ∀ text, P.tiktoken text = none) {budget : ℤ} (hbudget : 50 < budget)
    (turns : List (List LLMMessage)) (bound : ℤ) :
    (countTokens P (summarizeTurns P turns budget) : ℤ) ≤ bound ↔
      ∀ k, (countTokens P (cutText k (earlierConversation P turns)) : ℤ) ≤ budget →
        (countTokens P (cutText k (earlierConversation P turns)) : ℤ) ≤ bound := by
  rw [summarizeTurns_eq]
  exact countTokens_truncateSummary_le_iff hheuristic hbudget (le_refl _) bound

end YellowBull
