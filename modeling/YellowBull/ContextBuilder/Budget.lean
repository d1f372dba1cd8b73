import YellowBull.ContextBuilder.Window
import YellowBull.Lib.Except

/-!
# The token budget

`build` measures the messages of the window against `available`, in which the system prompt counts
without the working directory and of which at least 100 tokens are granted, and it returns them
whole where there is no turn to cut. `room` is what the prompt that is sent really leaves of the
window. `Overshoots` has the four kinds of inputs on which the two measures come apart, and
`build_within_iff` says that on all others the built context is within the window.
`ContextBuilder.available_le_room` tells where the first kind does not occur.
-/

namespace YellowBull

open Py

/-! ## Sums of tokens -/

section Sums

variable {α : Type} {f : α → Except Exn ℕ}

/-- A sum of costs is the first cost and the sum of the others, where none raises. -/
theorem sumTokens_cons_eq_ok {x : α} {xs : List α} {n : ℕ} :
    sumTokens f (x :: xs) = .ok n ↔
      ∃ a b, f x = .ok a ∧ sumTokens f xs = .ok b ∧ n = a + b := by
  rw [sumTokens]
  constructor
  · intro h
    obtain ⟨a, ha, h⟩ := Except.bind_eq_ok.mp h
    obtain ⟨b, hb, h⟩ := Except.bind_eq_ok.mp h
    exact ⟨a, b, ha, hb, (Except.ok.inj h).symm⟩
  · rintro ⟨a, b, ha, hb, rfl⟩
    rw [ha, hb]
    rfl

/-- The cost of a SYSTEM message. -/
def systemTokens (P : Platform) (content : String) : ℕ := 4 + max 1 (countTokens P content)

/-- This is what `_message_tokens` gives for it. -/
theorem messageTokens_systemMessage (P : Platform) (content : String) :
    messageTokens P (systemMessage content) = .ok (systemTokens P content) := rfl

/-- The messages cost at most so many tokens. -/
def WithinTokens (P : Platform) (window_size : ℤ) (msgs : List LLMMessage) : Prop :=
  ∃ total, sumTokens (messageTokens P) msgs = .ok total ∧ (total : ℤ) ≤ window_size

/-- Messages of a known cost. -/
theorem withinTokens_iff {P : Platform} {window_size : ℤ} {msgs : List LLMMessage} {total : ℕ}
    (h : sumTokens (messageTokens P) msgs = .ok total) :
    WithinTokens P window_size msgs ↔ (total : ℤ) ≤ window_size := by
  constructor
  · rintro ⟨n, hn, hle⟩
    obtain rfl := Except.ok.inj (hn.symm.trans h)
    exact hle
  · exact fun hle => ⟨total, h, hle⟩

/-- A SYSTEM message takes its cost from the others. -/
theorem withinTokens_system_cons {P : Platform} {window_size : ℤ} {content : String}
    {msgs : List LLMMessage} :
    WithinTokens P window_size (systemMessage content :: msgs) ↔
      WithinTokens P (window_size - systemTokens P content) msgs := by
  constructor
  · rintro ⟨total, htotal, hle⟩
    obtain ⟨a, n, ha, hn, rfl⟩ := sumTokens_cons_eq_ok.mp htotal
    obtain rfl := Except.ok.inj ((messageTokens_systemMessage P content).symm.trans ha)
    exact ⟨n, hn, by push_cast at hle; omega⟩
  · rintro ⟨n, hn, hle⟩
    refine ⟨_, sumTokens_cons_eq_ok.mpr ⟨_, n, messageTokens_systemMessage P content, hn, rfl⟩, ?_⟩
    push_cast
    omega

end Sums

/-! ## What is left for the messages -/

section Budget

variable {P : Platform} {b : ContextBuilder} {s : Session} {window_size : ℤ}
variable {compression : CompressionConfig} {work_dir : Option String}

/-- What the system prompt, as it is sent, leaves of the window. -/
def ContextBuilder.room (P : Platform) (b : ContextBuilder) (window_size : ℤ)
    (work_dir : Option String) : ℤ :=
  window_size - systemTokens P (b.effectivePrompt work_dir)

/-- Above the floor of 100 tokens, and with a prompt that is not empty and does not grow, the
measured budget is not more than the room there is. -/
theorem ContextBuilder.available_le_room
    (hfloor : (countTokens P b.system_prompt : ℤ) + 104 ≤ window_size)
    (hprompt : max 1 (countTokens P (b.effectivePrompt work_dir)) ≤
      countTokens P b.system_prompt) :
    b.available P window_size ≤ b.room P window_size work_dir := by
  unfold available room systemTokens
  push_cast
  omega

/-- What the last USER message opens, all messages where there is none. -/
def newestTurn : List LLMMessage → List LLMMessage
  | [] => []
  | msg :: msgs => if msgs.any (·.role = .user) then newestTurn msgs else msg :: msgs

/-- The cost of the summary before kept turns of so many tokens. -/
def summaryTokens (P : Platform) (b : ContextBuilder) (s : Session) (window_size : ℤ)
    (compression : CompressionConfig) (new_tokens : ℕ) : ℕ :=
  if 50 < summaryBudget P b window_size compression new_tokens then
    systemTokens P (summarizeTurns P
      (sliceTo (groupTurns (windowMessages s window_size) [] []) (-compression.min_turns_to_keep))
      (summaryBudget P b window_size compression new_tokens))
  else 0

/-- The summary is at most one more SYSTEM message. -/
theorem withinTokens_summary_append {total : ℤ} {new_tokens : ℕ} {msgs : List LLMMessage} :
    WithinTokens P total (summaryMessages P b s window_size compression new_tokens ++ msgs) ↔
      WithinTokens P (total - summaryTokens P b s window_size compression new_tokens) msgs := by
  unfold summaryMessages summaryTokens
  split_ifs
  · exact withinTokens_system_cons
  · simp

/-- The cost of a summary is that of the first cut of its text from which the loop does not cut
on. -/
theorem summaryTokens_of_cut {kept k : ℕ}
    (hbudget : 50 < summaryBudget P b window_size compression kept)
    (hstop : ¬ CutsOn P (summaryBudget P b window_size compression kept)
      (earlierConversation P (sliceTo (groupTurns (windowMessages s window_size) [] [])
        (-compression.min_turns_to_keep))) k)
    (hbefore : ∀ j < k, CutsOn P (summaryBudget P b window_size compression kept)
      (earlierConversation P (sliceTo (groupTurns (windowMessages s window_size) [] [])
        (-compression.min_turns_to_keep))) j) :
    summaryTokens P b s window_size compression kept =
      systemTokens P (cutText k (earlierConversation P
        (sliceTo (groupTurns (windowMessages s window_size) [] [])
          (-compression.min_turns_to_keep)))) := by
  -- The loop stops at the first round that asks for no further cut, and there is only one such
  -- round.
  obtain ⟨k', hk', hstop', hbefore'⟩ := truncateSummary_first P
    (summaryBudget P b window_size compression kept) _
    (earlierConversation P (sliceTo (groupTurns (windowMessages s window_size) [] [])
      (-compression.min_turns_to_keep))) le_rfl
  obtain rfl := firstCut_unique hstop hbefore hstop' hbefore'
  rw [summaryTokens, if_pos hbudget, summarizeTurns_eq, hk']

/-- The four kinds of inputs on which a built context costs more than the window. -/
inductive Overshoots (P : Platform) (b : ContextBuilder) (s : Session) (window_size : ℤ)
    (compression : CompressionConfig) (work_dir : Option String) : Prop where
  /-- The messages of the window fit `available`, of which 100 tokens are granted and in which the
  working directory does not count, but not the room. -/
  | granted (total : ℕ)
      (htotal : sumTokens (messageTokens P) (windowMessages s window_size) = .ok total)
      (hfits : (total : ℤ) ≤ b.available P window_size)
      (hover : b.room P window_size work_dir < total)
  /-- They do not fit `available`, and there is no turn to cut. -/
  | fewTurns (total : ℕ)
      (htotal : sumTokens (messageTokens P) (windowMessages s window_size) = .ok total)
      (hbudget : b.available P window_size < total)
      (hfew : (groupTurns (windowMessages s window_size) [] []).length ≤
        compression.min_turns_to_keep)
      (hover : b.room P window_size work_dir < total)
  /-- Turns are cut, and those that are kept do not fit the room. -/
  | keptTurns (kept : ℕ) (hcut : Compresses P b s window_size compression)
      (hkept : sumTokens (messageTokens P)
        (keptMessages (windowMessages s window_size) compression.min_turns_to_keep) = .ok kept)
      (hover : b.room P window_size work_dir < kept)
  /-- They do not fit it with the summary of the others: the first cut of its text that fits its
  budget or has at most 50 characters. -/
  | summary (kept k : ℕ) (hcut : Compresses P b s window_size compression)
      (hkept : sumTokens (messageTokens P)
        (keptMessages (windowMessages s window_size) compression.min_turns_to_keep) = .ok kept)
      (hbudget : 50 < summaryBudget P b window_size compression kept)
      (hstop : ¬ CutsOn P (summaryBudget P b window_size compression kept)
        (earlierConversation P (sliceTo (groupTurns (windowMessages s window_size) [] [])
          (-compression.min_turns_to_keep))) k)
      (hbefore : ∀ j < k, CutsOn P (summaryBudget P b window_size compression kept)
        (earlierConversation P (sliceTo (groupTurns (windowMessages s window_size) [] [])
          (-compression.min_turns_to_keep))) j)
      (hover : b.room P window_size work_dir < kept + systemTokens P
        (cutText k (earlierConversation P (sliceTo
          (groupTurns (windowMessages s window_size) [] []) (-compression.min_turns_to_keep)))))

/-- Where no turn is cut, the messages of the window are over the room. -/
theorem overshoots_whole (hwhole : ¬ Compresses P b s window_size compression)
    (henabled : compression.enabled = true) {total : ℕ}
    (htotal : sumTokens (messageTokens P) (windowMessages s window_size) = .ok total) :
    Overshoots P b s window_size compression work_dir ↔ b.room P window_size work_dir < total := by
  constructor
  · rintro (⟨n, hn, -, hover⟩ | ⟨n, hn, -, -, hover⟩ | ⟨-, hcut, -⟩ | ⟨-, -, hcut, -⟩)
    · obtain rfl := Except.ok.inj (hn.symm.trans htotal)
      exact hover
    · obtain rfl := Except.ok.inj (hn.symm.trans htotal)
      exact hover
    · exact absurd hcut hwhole
    · exact absurd hcut hwhole
  · intro hover
    by_cases hfits : (total : ℤ) ≤ b.available P window_size
    · exact .granted total htotal hfits hover
    · -- Over the budget, a window is whole for want of turns.
      have hfew : (groupTurns (windowMessages s window_size) [] []).length ≤
          compression.min_turns_to_keep :=
        not_lt.mp fun hmany => hwhole ⟨henabled, ⟨total, htotal, not_le.mp hfits⟩, hmany⟩
      exact .fewTurns total htotal (not_le.mp hfits) hfew hover

/-- Where turns are cut, what is kept with the summary is over the room. -/
theorem overshoots_cut (hcut : Compresses P b s window_size compression) {kept : ℕ}
    (hkept : sumTokens (messageTokens P)
      (keptMessages (windowMessages s window_size) compression.min_turns_to_keep) = .ok kept) :
    Overshoots P b s window_size compression work_dir ↔
      b.room P window_size work_dir <
        kept + summaryTokens P b s window_size compression kept := by
  obtain ⟨-, ⟨total, htotal, hover⟩, hmany⟩ := id hcut
  constructor
  -- Of the four ways to overshoot, the first two are of messages that are not compressed.
  · rintro (⟨n, hn, hfits, -⟩ | ⟨-, -, -, hfew, -⟩ | ⟨n, -, hn, hover⟩ |
      ⟨n, k, -, hn, hbudget, hstop, hbefore, hover⟩)
    · obtain rfl := Except.ok.inj (hn.symm.trans htotal)
      omega
    · omega
    · obtain rfl := Except.ok.inj (hn.symm.trans hkept)
      omega
    · obtain rfl := Except.ok.inj (hn.symm.trans hkept)
      rwa [summaryTokens_of_cut hbudget hstop hbefore]
  -- Conversely the summary is either granted a budget, and cut to it, or left out.
  · intro hover
    by_cases hbudget : 50 < summaryBudget P b window_size compression kept
    · obtain ⟨k, -, hstop, hbefore⟩ := truncateSummary_first P
        (summaryBudget P b window_size compression kept) _
        (earlierConversation P (sliceTo (groupTurns (windowMessages s window_size) [] [])
          (-compression.min_turns_to_keep))) le_rfl
      rw [summaryTokens_of_cut hbudget hstop hbefore] at hover
      exact .summary kept k hcut hkept hbudget hstop hbefore hover
    · have hnone : summaryTokens P b s window_size compression kept = 0 := if_neg hbudget
      exact .keptTurns kept hcut hkept (by omega)

/-- With compression on, `build` counts the tokens of the window, and raises where that does. -/
theorem sumTokens_of_build (henabled : compression.enabled = true) {msgs : List LLMMessage}
    (h : b.build P s window_size compression work_dir = .ok msgs) :
    ∃ total, sumTokens (messageTokens P) (windowMessages s window_size) = .ok total := by
  cases htotal : sumTokens (messageTokens P) (windowMessages s window_size) with
  | error e => simp [ContextBuilder.build, henabled, htotal] at h
  | ok total => exact ⟨total, rfl⟩

/-- The built context is within the window just if the input is of none of the four kinds. -/
theorem withinTokens_build_iff (henabled : compression.enabled = true) {msgs : List LLMMessage}
    (h : b.build P s window_size compression work_dir = .ok msgs) :
    WithinTokens P window_size msgs ↔ ¬ Overshoots P b s window_size compression work_dir := by
  obtain ⟨total, htotal⟩ := sumTokens_of_build henabled h
  rcases build_cases h with ⟨hwhole, rfl⟩ | ⟨hcut, kept, hkept, rfl⟩
  · rw [withinTokens_system_cons, overshoots_whole hwhole henabled htotal, not_lt,
      withinTokens_iff htotal]
    rfl
  · rw [withinTokens_system_cons, overshoots_cut hcut hkept, not_lt, withinTokens_summary_append,
      withinTokens_iff hkept]
    unfold ContextBuilder.room
    omega

/-- A summary of at most 60 tokens for the long request, in a window of 110. -/
def shortSummaries : CompressionConfig := { min_turns_to_keep := 1, max_summary_tokens := 60 }

/-- The summary of the long request, of at most 60 tokens. -/
theorem countTokens_shortSummary :
    (countTokens .bare (summarizeTurns .bare
      (sliceTo (groupTurns (windowMessages longRequest 48) [] []) (-1)) 60) : ℤ) ≤ 60 :=
  (countTokens_summarizeTurns_le_iff (fun _ => rfl) (by decide) _ 60).mpr fun _ hk => hk

/-- Behind the prompt of 5 tokens, a message with such a summary costs at most 64, and the newest
turn 5. -/
theorem withinTokens_shortSummary {summary : String}
    (hshort : (countTokens .bare summary : ℤ) ≤ 60) :
    WithinTokens .bare 110
      [systemMessage "p", systemMessage summary, { role := .user, content := some "c" }] := by
  have hprompt : systemTokens .bare "p" = 5 := by decide
  rw [withinTokens_system_cons, withinTokens_system_cons, hprompt]
  refine ⟨5, by decide, ?_⟩
  unfold systemTokens
  omega

/-- Two turns of short messages. -/
def twoTurns : Session where
  session_id := "s"
  messages := [{ role := .user, content := some "a" }, { role := .assistant, content := some "b" },
    { role := .user, content := some "c" }]

/-- The messages of the two turns, for the LLM. -/
def twoTurnsWindow : List LLMMessage :=
  [{ role := .user, content := some "a" }, { role := .assistant, content := some "b" },
    { role := .user, content := some "c" }]

end Budget

end YellowBull
