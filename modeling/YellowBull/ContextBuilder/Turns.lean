import YellowBull.ContextBuilder
import YellowBull.Lib.CallBlocks
import YellowBull.Lib.Except

/-!
# What a built context keeps

`build_eq_ok` gives every list that `ContextBuilder.build` returns: the system prompt, then either
the whole message window, or, when older turns are cut (`Compresses`), an optional summary and the
turns kept. The kept turns are a suffix of the window that starts with a USER message
(`keptMessages_spec`), because every turn but the first does (`groupTurns_spec`). The window itself
may start anywhere.
-/

namespace YellowBull

open Py CallBlocks

/-! ## Turns -/

/-- A turn that starts with a USER message. -/
def StartsWithUser (turn : List LLMMessage) : Prop :=
  ∃ msg rest, turn = msg :: rest ∧ msg.role = .user

/-- The loop that groups messages loses none of them. -/
theorem groupTurns_flatten (msgs : List LLMMessage) (turns : List (List LLMMessage))
    (current : List LLMMessage) :
    (groupTurns msgs turns current).flatten = turns.flatten ++ current ++ msgs := by
  induction msgs generalizing turns current with
  | nil =>
    unfold groupTurns
    split_ifs with hc
    · simp [hc]
    · simp
  | cons msg msgs ih =>
    unfold groupTurns
    split_ifs with hm
    · rw [ih]
      simp
    · rw [ih]
      simp

/-- A property that a single USER message has, and that a turn keeps when a message of another role
comes to it, holds of every turn but the first. -/
theorem groupTurns_tail {Q : List LLMMessage → Prop} (hnil : ¬ Q [])
    (hopen : ∀ msg : LLMMessage, msg.role = .user → Q [msg])
    (hext : ∀ turn (msg : LLMMessage), Q turn → msg.role ≠ .user → Q (turn ++ [msg]))
    (msgs : List LLMMessage) (turns : List (List LLMMessage)) (current : List LLMMessage)
    (h : ∀ turn ∈ (turns ++ [current]).tail, Q turn) :
    ∀ turn ∈ (groupTurns msgs turns current).tail, Q turn := by
  induction msgs generalizing turns current with
  | nil =>
    unfold groupTurns
    split_ifs with hc
    · intro turn ht
      refine h turn ?_
      rw [List.tail_append]
      split_ifs with hturns
      · simp [List.isEmpty_iff.mp hturns] at ht
      · exact List.mem_append_left _ ht
    · exact h
  | cons msg msgs ih =>
    unfold groupTurns
    split_ifs with hm
    · -- A USER message closes the current turn.
      refine ih (turns ++ [current]) [msg] fun turn ht => ?_
      rw [List.tail_append_of_ne_nil (by simp)] at ht
      rcases List.mem_append.mp ht with ht | ht
      · exact h turn ht
      · obtain rfl := List.mem_singleton.mp ht
        exact hopen msg hm.1
    · -- The message goes to the current turn, which is not empty unless it is the first.
      refine ih turns (current ++ [msg]) fun turn ht => ?_
      cases turns with
      | nil => simp at ht
      | cons first turns =>
        rcases List.mem_append.mp ht with ht | ht
        · exact h turn (List.mem_append_left _ ht)
        · obtain rfl := List.mem_singleton.mp ht
          have hcurrent : Q current := h current (List.mem_append_right _ (by simp))
          have hne : current ≠ [] := fun hc => hnil (hc ▸ hcurrent)
          exact hext current msg hcurrent fun huser => hm ⟨huser, hne⟩

/-- The loop that groups messages loses none of them and starts every turn but the first with a
USER message. -/
theorem groupTurns_spec (msgs : List LLMMessage) (turns : List (List LLMMessage))
    (current : List LLMMessage) (h : ∀ turn ∈ (turns ++ [current]).tail, StartsWithUser turn) :
    (groupTurns msgs turns current).flatten = turns.flatten ++ current ++ msgs ∧
      ∀ turn ∈ (groupTurns msgs turns current).tail, StartsWithUser turn := by
  refine ⟨groupTurns_flatten msgs turns current, groupTurns_tail ?_ ?_ ?_ msgs turns current h⟩
  · rintro ⟨msg, rest, hnil, -⟩
    cases hnil
  · exact fun msg huser => ⟨msg, [], rfl, huser⟩
  · rintro turn msg ⟨first, rest, rfl, huser⟩ -
    exact ⟨first, rest ++ [msg], rfl, huser⟩

/-- The messages of the turns that are kept when older ones are cut. -/
def keptMessages (msgs : List LLMMessage) (min_keep : ℤ) : List LLMMessage :=
  (sliceFrom (groupTurns msgs [] []) (-min_keep)).flatten

/-- When there are more turns than are kept, and one is kept, the kept messages are a suffix of all
messages that starts with a USER message. -/
theorem keptMessages_spec {msgs : List LLMMessage} {min_keep : ℤ} (hkeep : 1 ≤ min_keep)
    (hlt : min_keep < (groupTurns msgs [] []).length) :
    StartsWithUser (keptMessages msgs min_keep) ∧ keptMessages msgs min_keep <:+ msgs := by
  obtain ⟨hflat, htail⟩ := groupTurns_spec msgs [] [] (by simp)
  unfold keptMessages
  rw [sliceFrom_neg _ (by omega)]
  generalize groupTurns msgs [] [] = turns at *
  constructor
  · -- At least one turn is cut, so that the first one kept is in the tail.
    obtain ⟨n, hn⟩ : ∃ n, turns.length - min_keep.toNat = n + 1 :=
      ⟨turns.length - min_keep.toNat - 1, by omega⟩
    have hlen : turns.length - min_keep.toNat < turns.length := by omega
    rw [hn] at hlen ⊢
    rw [List.drop_eq_getElem_cons hlen, List.flatten_cons]
    have hmem : turns[n + 1] ∈ turns.tail := by
      rw [← List.getElem_tail (h := by simp; omega)]
      exact List.getElem_mem _
    obtain ⟨msg, rest, hturn, hrole⟩ := htail _ hmem
    exact ⟨msg, rest ++ _, by rw [hturn]; rfl, hrole⟩
  · refine ⟨(turns.take (turns.length - min_keep.toNat)).flatten, ?_⟩
    rw [← List.flatten_append, List.take_append_drop]
    simpa using hflat

/-! ## The window -/

/-- The window is a slice of the messages that are not SYSTEM messages. -/
theorem windowMessages_eq (s : Session) (window_size : ℤ) :
    windowMessages s window_size =
      (sliceFrom (s.messages.filter (·.role ≠ .system)) (-window_size)).filterMap
        Message.toLLM := by
  unfold windowMessages Session.getContextMessages
  rw [List.filterMap_append]
  have hsystem : (s.messages.filter (·.role = .system)).filterMap Message.toLLM = [] := by
    rw [List.filterMap_eq_nil_iff]
    intro msg hmsg
    have hrole : msg.role = .system := by simpa using (List.mem_filter.mp hmsg).2
    simp [Message.toLLM, hrole]
  rw [hsystem, List.nil_append]

/-- No message of the window is a SYSTEM message. -/
theorem role_ne_system_of_mem_windowMessages {s : Session} {window_size : ℤ} {msg : LLMMessage}
    (h : msg ∈ windowMessages s window_size) : msg.role ≠ .system := by
  obtain ⟨m, -, hm⟩ := List.mem_filterMap.mp h
  intro hsystem
  unfold Message.toLLM at hm
  split at hm
  case h_4 => cases hm
  all_goals
    rw [← Option.some.inj hm] at hsystem
    cases hsystem

/-! ## The branches of `build` -/

section Build

variable (P : Platform) (b : ContextBuilder) (s : Session) (window_size : ℤ)
variable (compression : CompressionConfig)

/-- `build` cuts older turns: the window is over the token budget, and it has more turns than are
kept. -/
def Compresses : Prop :=
  compression.enabled = true ∧
    (∃ total, sumTokens (messageTokens P) (windowMessages s window_size) = .ok total ∧
      b.available P window_size < total) ∧
    compression.min_turns_to_keep < (groupTurns (windowMessages s window_size) [] []).length

/-- `build` cuts older turns, and the kept ones leave more than 50 tokens for a summary. -/
def InsertsSummary : Prop :=
  Compresses P b s window_size compression ∧
    ∃ new_tokens,
      sumTokens (messageTokens P)
        (keptMessages (windowMessages s window_size) compression.min_turns_to_keep) =
          .ok new_tokens ∧
      50 < min compression.max_summary_tokens (b.available P window_size - new_tokens)

/-- What `build` may return. -/
inductive Built (work_dir : Option String) : List LLMMessage → Prop
  | whole (hcut : ¬ Compresses P b s window_size compression) :
      Built work_dir (systemMessage (b.effectivePrompt work_dir) :: windowMessages s window_size)
  | cut (hcut : Compresses P b s window_size compression)
      (hsummary : ¬ InsertsSummary P b s window_size compression) :
      Built work_dir (systemMessage (b.effectivePrompt work_dir) ::
        keptMessages (windowMessages s window_size) compression.min_turns_to_keep)
  | summarized (hsummary : InsertsSummary P b s window_size compression) (budget : ℤ) :
      Built work_dir (systemMessage (b.effectivePrompt work_dir) ::
        systemMessage (summarizeTurns P
          (sliceTo (groupTurns (windowMessages s window_size) [] [])
            (-compression.min_turns_to_keep)) budget) ::
        keptMessages (windowMessages s window_size) compression.min_turns_to_keep)

variable {P b s window_size compression}

variable (P b window_size compression) in
/-- The budget for a summary beside kept turns of so many tokens. -/
def summaryBudget (new_tokens : ℕ) : ℤ :=
  min compression.max_summary_tokens (b.available P window_size - new_tokens)

variable (P b s window_size compression) in
/-- The summary that `build` puts before kept turns of so many tokens, if it does. -/
def summaryMessages (new_tokens : ℕ) : List LLMMessage :=
  if 50 < summaryBudget P b window_size compression new_tokens then
    [systemMessage (summarizeTurns P
      (sliceTo (groupTurns (windowMessages s window_size) [] []) (-compression.min_turns_to_keep))
      (summaryBudget P b window_size compression new_tokens))]
  else []

/-- Of the session, `build` reads the messages. -/
theorem build_congr {s' : Session} (h : s.messages = s'.messages) (work_dir : Option String) :
    ContextBuilder.build P b s window_size compression work_dir =
      ContextBuilder.build P b s' window_size compression work_dir := by
  unfold ContextBuilder.build windowMessages Session.getContextMessages
  rw [h]

/-- The working directory is in the first message only. -/
theorem build_work_dir (work_dir : Option String) :
    ContextBuilder.build P b s window_size compression work_dir =
      (ContextBuilder.build P b s window_size compression none).map fun msgs =>
        systemMessage (b.effectivePrompt work_dir) :: msgs.tail := by
  unfold ContextBuilder.build
  simp only
  -- The directory is only in the prompt, and no branch of the build looks at the prompt's text.
  by_cases henabled : compression.enabled = false
  · rw [if_pos henabled, if_pos henabled]
    rfl
  rw [if_neg henabled, if_neg henabled]
  cases sumTokens (messageTokens P) (windowMessages s window_size) with
  | error e => rfl
  | ok total =>
    simp only
    split_ifs
    · rfl
    -- The cost of the kept turns is a number or an error, whichever the directory.
    · rfl
    cases sumTokens (messageTokens P)
      (sliceFrom (groupTurns (windowMessages s window_size) [] [])
        (-compression.min_turns_to_keep)).flatten with
    | error e => rfl
    | ok new_tokens =>
      simp only
      split_ifs
      · rfl
      · rfl

/-- What `build` returns: behind the system prompt the whole window, or the kept turns with a
summary of the others. -/
theorem build_cases {work_dir : Option String} {msgs : List LLMMessage}
    (h : ContextBuilder.build P b s window_size compression work_dir = .ok msgs) :
    (¬ Compresses P b s window_size compression ∧
      msgs = systemMessage (b.effectivePrompt work_dir) :: windowMessages s window_size) ∨
    (Compresses P b s window_size compression ∧ ∃ new_tokens,
      sumTokens (messageTokens P)
        (keptMessages (windowMessages s window_size) compression.min_turns_to_keep) =
          .ok new_tokens ∧
      msgs = systemMessage (b.effectivePrompt work_dir) ::
        (summaryMessages P b s window_size compression new_tokens ++
          keptMessages (windowMessages s window_size) compression.min_turns_to_keep)) := by
  unfold ContextBuilder.build at h
  simp only at h
  by_cases henabled : compression.enabled = false
  · -- Compression is off.
    rw [if_pos henabled] at h
    obtain rfl := Except.ok.inj h
    exact .inl ⟨fun hcut => by simp [hcut.1] at henabled, rfl⟩
  rw [if_neg henabled] at h
  cases htotal : sumTokens (messageTokens P) (windowMessages s window_size) with
  | error e => simp [htotal] at h
  | ok total =>
    simp only [htotal] at h
    by_cases hfits : (total : ℤ) ≤ b.available P window_size
    · -- The window fits the budget.
      rw [if_pos hfits] at h
      obtain rfl := Except.ok.inj h
      refine .inl ⟨?_, rfl⟩
      rintro ⟨-, ⟨total', htotal', hover⟩, -⟩
      obtain rfl := Except.ok.inj (htotal.symm.trans htotal')
      omega
    rw [if_neg hfits] at h
    by_cases hfew : (groupTurns (windowMessages s window_size) [] []).length ≤
        compression.min_turns_to_keep
    · -- It has no turn to cut.
      rw [if_pos hfew] at h
      obtain rfl := Except.ok.inj h
      refine .inl ⟨?_, rfl⟩
      rintro ⟨-, -, hmany⟩
      omega
    rw [if_neg hfew] at h
    have hcut : Compresses P b s window_size compression :=
      ⟨by simpa using henabled, ⟨total, htotal, by omega⟩, by omega⟩
    cases hnew : sumTokens (messageTokens P)
      (keptMessages (windowMessages s window_size) compression.min_turns_to_keep) with
    | error e =>
      unfold keptMessages at hnew
      simp [hnew] at h
    | ok new_tokens =>
      refine .inr ⟨hcut, new_tokens, rfl, ?_⟩
      unfold keptMessages at hnew
      simp only [hnew] at h
      unfold summaryMessages summaryBudget
      split_ifs at h ⊢
      · exact (Except.ok.inj h).symm
      · exact (Except.ok.inj h).symm

/-- The contexts of the same messages with a working directory and without one. -/
theorem build_without_work_dir {work_dir : Option String} {context : List LLMMessage}
    (h : ContextBuilder.build P b s window_size compression work_dir = .ok context) :
    ∃ rest, context = systemMessage (b.effectivePrompt work_dir) :: rest ∧
      ContextBuilder.build P b s window_size compression none =
        .ok (systemMessage (b.effectivePrompt none) :: rest) := by
  rw [build_work_dir] at h
  obtain ⟨context', hnone, rfl⟩ := Except.map_eq_ok.mp h
  rw [hnone]
  rcases build_cases hnone with ⟨-, rfl⟩ | ⟨-, new_tokens, -, rfl⟩
  · exact ⟨_, rfl, rfl⟩
  · exact ⟨_, rfl, rfl⟩

/-- Every list that `build` returns is one of the three. -/
theorem build_eq_ok {work_dir : Option String} {msgs : List LLMMessage}
    (h : ContextBuilder.build P b s window_size compression work_dir = .ok msgs) :
    Built P b s window_size compression work_dir msgs := by
  rcases build_cases h with ⟨hcut, rfl⟩ | ⟨hcut, new_tokens, hnew, rfl⟩
  · exact .whole hcut
  unfold summaryMessages
  split_ifs with hbudget
  · exact .summarized ⟨hcut, new_tokens, hnew, hbudget⟩ _
  · refine .cut hcut ?_
    rintro ⟨-, new_tokens', hother, hbudget'⟩
    obtain rfl := Except.ok.inj (hnew.symm.trans hother)
    exact hbudget hbudget'

/-- Behind its SYSTEM messages, a built context is the window, or a suffix of it that starts with a
USER message when older turns are cut and a turn is kept. -/
theorem Built.kept {work_dir : Option String} {msgs : List LLMMessage}
    (h : Built P b s window_size compression work_dir msgs)
    (hkeep : 1 ≤ compression.min_turns_to_keep) :
    (¬ Compresses P b s window_size compression ∧
      msgs = systemMessage (b.effectivePrompt work_dir) :: windowMessages s window_size) ∨
    (Compresses P b s window_size compression ∧ ∃ (prompts : List String) (kept : List LLMMessage),
      msgs = prompts.map systemMessage ++ kept ∧ StartsWithUser kept ∧
        kept <:+ windowMessages s window_size) := by
  rcases h with ⟨hcut⟩ | ⟨hcut, -⟩ | ⟨hsummary, budget⟩
  · exact .inl ⟨hcut, rfl⟩
  · exact .inr ⟨hcut, [_], _, rfl, keptMessages_spec hkeep hcut.2.2⟩
  · exact .inr ⟨hsummary.1, [_, _], _, rfl, keptMessages_spec hkeep hsummary.1.2.2⟩

end Build

end YellowBull
