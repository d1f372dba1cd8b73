import YellowBull.Agent.Exits
import YellowBull.ContextBuilder.Turns

/-!
# The contexts of a chat

What the list that `ContextBuilder.build` returns looks like on the sessions of the agent. After any
number of completed chats a session is made of blocks, each an ASSISTANT message and the answers to
its calls (`CompletedChats.blocks`). A context cut to whole turns starts with a USER message and so
keeps whole blocks; the message window starts wherever the count falls. From this follow the exact
conditions under which a context keeps the tool-call chain (`build_keeps_tool_chain_iff`) and under
which every context of a chat holds the request being answered (`request_in_view_iff`).
-/

namespace YellowBull

open Py CallBlocks

/-! ## Sessions of completed chats -/

/-- The sessions that any number of completed chats on a new session may leave, with changes of the
working directory in between. -/
inductive CompletedChats (P : Platform) : Session → Prop
  | new (s : Session) (hs : s.messages = []) : CompletedChats P s
  | chdir {s : Session} (work_dir : Option String) (hs : CompletedChats P s) :
      CompletedChats P { s with work_dir }
  | chat {s : Session} {cfg : AgentConfig} {reg : ToolRegistry} {O : Behaviour} {cache : Cache}
      {request : ChatRequest} {response : ChatResponse} (hs : CompletedChats P s)
      (hok : (chat P cfg reg O s cache request).result = .ok response) :
      CompletedChats P (chat P cfg reg O s cache request).session

/-- The messages of a complete round are ASSISTANT and TOOL messages. -/
theorem IsRound.role {reply : LLMResponse} {block : List Message} (h : IsRound reply block)
    {msg : Message} (hmsg : msg ∈ block) : msg.role = .assistant ∨ msg.role = .tool := by
  obtain ⟨tools, rfl, htools⟩ := h
  rcases List.mem_cons.mp hmsg with rfl | hmsg
  · exact .inl rfl
  · have hmem := List.mem_map_of_mem (f := fun m : Message => (m.role, m.tool_call_id)) hmsg
    rw [htools] at hmem
    obtain ⟨tc, -, htc⟩ := List.mem_map.mp hmem
    exact .inr (congrArg Prod.fst htc).symm

/-- The messages of the rounds of a chat are ASSISTANT and TOOL messages. -/
theorem Transcript.rounds_role {P : Platform} {cfg : AgentConfig} {reg : ToolRegistry}
    {O : Behaviour} {n d : ℕ} {s : Session} {cache : Cache} {run : ChatRun}
    {rounds : List (List Message)} {tail : List Message}
    (ht : Transcript P cfg reg O n d s cache run rounds tail) {msg : Message}
    (hmsg : msg ∈ rounds.flatten) : msg.role = .assistant ∨ msg.role = .tool := by
  obtain ⟨block, hblock, hmsg⟩ := List.mem_flatten.mp hmsg
  obtain ⟨j, hj, rfl⟩ := List.mem_iff_getElem.mp hblock
  obtain ⟨reply, -, -, -, hround⟩ := ht.complete j hj
  exact hround.role hmsg

/-- Completed chats leave a session made of blocks, without SYSTEM messages. -/
theorem CompletedChats.blocks {P : Platform} {s : Session} (h : CompletedChats P s) :
    Blocks Message.callIds Message.answerId s.messages ∧
      ∀ msg ∈ s.messages, msg.role ≠ .system := by
  induction h with
  | new s hs =>
    rw [hs]
    exact ⟨.nil, by simp⟩
  | chdir work_dir _ ih => exact ih
  | @chat s cfg reg O cache request response _ hok ih =>
    -- A completed chat adds a USER message, rounds, and an ASSISTANT message without calls.
    obtain ⟨rounds, tail, ht⟩ := chat_transcript P cfg reg O s cache request
    obtain ⟨last, rfl, hrole, hcalls⟩ : ∃ last : Message, tail = [last] ∧
        last.role = .assistant ∧ last.tool_calls = none := by
      rcases ht.ending with ⟨reply, -, -, -, -, -⟩ | ⟨-, -, -⟩ | ⟨e, -, hres, -⟩ |
        ⟨e, -, -, hres, -⟩ | ⟨reply, e, -, -, -, -, hres, -⟩
      · exact ⟨_, rfl, rfl, rfl⟩
      · exact ⟨_, rfl, rfl, rfl⟩
      -- The three endings that raise.
      all_goals
        rw [hres] at hok
        cases hok
    rw [ht.messages, Session.addMessages_messages]
    constructor
    · refine (ih.1.append (.singleton rfl rfl)).append (ht.rounds_blocks.append ?_)
      exact .singleton (by simp [Message.answerId, hrole])
        (by simp [Message.callIds, Message.calls, hcalls])
    · intro msg hmsg
      simp only [List.mem_append, List.mem_singleton] at hmsg
      rcases hmsg with (hmsg | rfl) | hmsg | rfl
      · exact ih.2 msg hmsg
      · simp [userMessage]
      · rcases ht.rounds_role hmsg with hr | hr <;> simp [hr]
      · simp [hrole]

/-! ## The tool-call chain -/

/-- The conversion for the LLM keeps what a message calls and answers. -/
theorem Message.toLLM_spec {msg : Message} (h : msg.role ≠ .system) :
    ∃ m, msg.toLLM = some m ∧ m.callIds = msg.callIds ∧ m.answerId = msg.answerId := by
  obtain ⟨role, content, tool_calls, tool_call_id⟩ := msg
  cases role
  case system => exact absurd rfl h
  all_goals exact ⟨_, rfl, rfl, rfl⟩

/-- A list without SYSTEM messages is its own window, up to the slice. -/
theorem windowMessages_of_no_system {s : Session} (hs : ∀ msg ∈ s.messages, msg.role ≠ .system)
    (window_size : ℤ) :
    windowMessages s window_size =
      (sliceFrom s.messages (-window_size)).filterMap Message.toLLM := by
  rw [windowMessages_eq, List.filter_eq_self.mpr fun msg hmsg => by simpa using hs msg hmsg]

/-- The window is a suffix of the whole session, in the format of the LLM. -/
theorem windowMessages_suffix {s : Session} (hs : ∀ msg ∈ s.messages, msg.role ≠ .system)
    (window_size : ℤ) : windowMessages s window_size <:+ s.messages.filterMap Message.toLLM := by
  rw [windowMessages_of_no_system hs]
  exact (sliceFrom_suffix _ _).filterMap _

/-- The messages behind the system prompts keep the chain when they are a suffix of the session that
does not start with a TOOL message. -/
theorem context_blocks {s : Session} (hblocks : Blocks Message.callIds Message.answerId s.messages)
    (hsystem : ∀ msg ∈ s.messages, msg.role ≠ .system) {msgs : List LLMMessage}
    (hsuffix : msgs <:+ s.messages.filterMap Message.toLLM)
    (hhead : ∀ m ∈ msgs.head?, m.role ≠ .tool) :
    Blocks LLMMessage.callIds LLMMessage.answerId msgs := by
  have hall : Blocks LLMMessage.callIds LLMMessage.answerId
      (s.messages.filterMap Message.toLLM) :=
    hblocks.filterMap fun msg hmsg => Message.toLLM_spec (hsystem msg hmsg)
  exact hall.of_suffix hsuffix fun m hm => by simp [LLMMessage.answerId, hhead m hm]

/-- A context keeps the tool-call chain: no TOOL message is an orphan, and every call of an
ASSISTANT message has its TOOL message. -/
def KeepsToolChain (msgs : List LLMMessage) : Prop :=
  NoOrphan LLMMessage.callIds LLMMessage.answerId msgs ∧
    EveryCallAnswered LLMMessage.callIds LLMMessage.answerId msgs

/-- SYSTEM messages in front of blocks leave the chain whole. -/
theorem keepsToolChain_of_blocks (prompts : List String) {msgs : List LLMMessage}
    (h : Blocks LLMMessage.callIds LLMMessage.answerId msgs) :
    KeepsToolChain (prompts.map systemMessage ++ msgs) := by
  have hprompts : Blocks LLMMessage.callIds LLMMessage.answerId (prompts.map systemMessage) := by
    induction prompts with
    | nil => exact .nil
    | cons prompt prompts ih => exact (Blocks.singleton rfl rfl).append ih
  have hall := hprompts.append h
  exact ⟨hall.noOrphan, hall.everyCallAnswered LLMMessage.callIds_of_answer⟩

/-- A TOOL message right behind the system prompt is an orphan. -/
theorem not_keepsToolChain_of_head {prompt : String} {tool : LLMMessage} {rest : List LLMMessage}
    (h : tool.role = .tool) : ¬ KeepsToolChain (systemMessage prompt :: tool :: rest) := by
  rintro ⟨horphan, -⟩
  obtain ⟨pre, a, mid, hpre, hmem, -⟩ := horphan [systemMessage prompt] tool rest
    tool.tool_call_id rfl (by simp [LLMMessage.answerId, h])
  -- The only item in front of it is the system prompt, which makes no calls.
  have ha : a = systemMessage prompt := by
    have hmem' : a ∈ [systemMessage prompt] := hpre ▸ by simp
    simpa using hmem'
  rw [ha] at hmem
  simp [LLMMessage.callIds, systemMessage] at hmem

/-- On a session made of blocks, the message window behind a system prompt keeps the chain exactly
when it does not start with a TOOL message. -/
theorem window_keepsToolChain_iff {s : Session}
    (hblocks : Blocks Message.callIds Message.answerId s.messages)
    (hsystem : ∀ msg ∈ s.messages, msg.role ≠ .system) (prompt : String) (window_size : ℤ) :
    KeepsToolChain (systemMessage prompt :: windowMessages s window_size) ↔
      ∀ msg ∈ (sliceFrom s.messages (-window_size)).head?, msg.role ≠ .tool := by
  have hwin := windowMessages_of_no_system hsystem window_size
  have hsuffix := windowMessages_suffix hsystem window_size
  cases hslice : sliceFrom s.messages (-window_size) with
  | nil =>
    rw [hslice] at hwin
    rw [hwin]
    exact iff_of_true (keepsToolChain_of_blocks [_] .nil) (by simp)
  | cons first rest =>
    -- The first message of the window decides, and its conversion has the same role.
    have hfirst : first.role ≠ .system :=
      hsystem first ((sliceFrom_suffix _ _).subset (hslice ▸ List.mem_cons_self))
    obtain ⟨m, hm, -, hanswer⟩ := Message.toLLM_spec hfirst
    have hrole : m.role ≠ .tool ↔ first.role ≠ .tool := by
      rw [← LLMMessage.answerId_eq_none, hanswer, Message.answerId_eq_none]
    rw [hslice, List.filterMap_cons_some hm] at hwin
    simp only [List.head?_cons, Option.mem_some_iff, forall_eq', ← hrole]
    constructor
    · intro hchain htool
      rw [hwin] at hchain
      exact not_keepsToolChain_of_head htool hchain
    · intro htool
      have hwhole :
          Blocks LLMMessage.callIds LLMMessage.answerId (windowMessages s window_size) := by
        refine context_blocks hblocks hsystem hsuffix fun m' hm' => ?_
        rw [hwin] at hm'
        obtain rfl := Option.some.inj hm'
        exact htool
      exact keepsToolChain_of_blocks [_] hwhole

/-- On a session of completed chats, `build` keeps the tool-call chain exactly when it cuts older
turns or its message window does not start with a TOOL message. -/
theorem build_keeps_tool_chain_iff {P : Platform} {s : Session} (hs : CompletedChats P s)
    {b : ContextBuilder} {window_size : ℤ} (hwindow : 1 ≤ window_size)
    {compression : CompressionConfig} (hkeep : 1 ≤ compression.min_turns_to_keep)
    {work_dir : Option String} {msgs : List LLMMessage}
    (hbuild : ContextBuilder.build P b s window_size compression work_dir = .ok msgs) :
    KeepsToolChain msgs ↔
      (Compresses P b s window_size compression ∨
        ∀ msg ∈ (s.messages.drop (s.messages.length - window_size.toNat)).head?,
          msg.role ≠ .tool) := by
  obtain ⟨hblocks, hsystem⟩ := hs.blocks
  rw [← sliceFrom_neg s.messages (by omega)]
  rcases (build_eq_ok hbuild).kept hkeep with
    ⟨hcut, rfl⟩ | ⟨hcut, prompts, kept, rfl, ⟨first, rest, rfl, hrole⟩, hkept⟩
  · -- The whole window is kept.
    rw [or_iff_right hcut]
    exact window_keepsToolChain_iff hblocks hsystem _ window_size
  · -- Whole turns are kept, and the first of them starts with a USER message.
    have hsuffix := windowMessages_suffix hsystem window_size
    refine iff_of_true (keepsToolChain_of_blocks prompts ?_) (.inl hcut)
    refine context_blocks hblocks hsystem (hkept.trans hsuffix) fun m hm => ?_
    obtain rfl := Option.some.inj hm
    simp [hrole]

/-- The session of a chat of one round. -/
theorem oneRoundRun_completed : CompletedChats .bare oneRoundRun.session :=
  have hok : oneRoundRun.result = .ok ⟨"done", "s", none⟩ := by decide
  .chat (.new { session_id := "s" } rfl) hok

/-- A window of three messages on it. -/
theorem build_keeps_tool_chain_iff_one_round :
    KeepsToolChain (systemMessage "p" :: windowMessages oneRoundRun.session 3) ↔
      (Compresses .bare ⟨"p"⟩ oneRoundRun.session 3 {} ∨
        ∀ msg ∈ (oneRoundRun.session.messages.drop
          (oneRoundRun.session.messages.length - (3 : ℤ).toNat)).head?, msg.role ≠ .tool) :=
  have hbuild : ContextBuilder.build .bare ⟨"p"⟩ oneRoundRun.session 3 {} none =
    .ok (systemMessage "p" :: windowMessages oneRoundRun.session 3) := by decide
  build_keeps_tool_chain_iff oneRoundRun_completed (by decide) (by decide) hbuild

/-- With a window of two messages, the context starts with the TOOL message of the round. -/
theorem build_breaks_tool_chain :
    CompletedChats .bare oneRoundRun.session ∧ ∃ msgs,
      ContextBuilder.build .bare ⟨"p"⟩ oneRoundRun.session 2 {} none = .ok msgs ∧
        ¬ KeepsToolChain msgs := by
  refine ⟨oneRoundRun_completed,
    [systemMessage "p", { role := .tool, content := some "", tool_call_id := .str "c1" },
      { role := .assistant, content := some "done" }], by decide, ?_⟩
  exact not_keepsToolChain_of_head rfl

/-! ## The request in view -/

/-- The conversion for the LLM keeps whether a message is a USER message. -/
theorem Message.toLLM_user {msg : Message} {m : LLMMessage} (h : msg.toLLM = some m) :
    m.role = .user ↔ msg.role = .user := by
  obtain ⟨role, content, tool_calls, tool_call_id⟩ := msg
  cases role
  case system => cases h
  all_goals
    obtain rfl := Option.some.inj h
    simp

/-- A list of messages for the LLM has the USER message of the request. -/
def HoldsRequest (request : ChatRequest) (msgs : List LLMMessage) : Prop :=
  ∃ m ∈ msgs, m.role = .user ∧ m.content = some request.message

instance (request : ChatRequest) (msgs : List LLMMessage) :
    Decidable (HoldsRequest request msgs) :=
  inferInstanceAs (Decidable (∃ m ∈ msgs, _ ∧ _))

/-- A USER message of the context is one of the window. -/
theorem mem_windowMessages_of_user {P : Platform} {b : ContextBuilder} {s : Session}
    {window_size : ℤ} {compression : CompressionConfig} {work_dir : Option String}
    {msgs : List LLMMessage} (hkeep : 1 ≤ compression.min_turns_to_keep)
    (hbuild : ContextBuilder.build P b s window_size compression work_dir = .ok msgs)
    {m : LLMMessage} (hm : m ∈ msgs) (huser : m.role = .user) :
    m ∈ windowMessages s window_size := by
  rcases (build_eq_ok hbuild).kept hkeep with ⟨-, rfl⟩ | ⟨-, prompts, kept, rfl, -, hkept⟩
  · rcases List.mem_cons.mp hm with rfl | hm
    · cases huser
    · exact hm
  · rcases List.mem_append.mp hm with hm | hm
    · obtain ⟨prompt, -, rfl⟩ := List.mem_map.mp hm
      cases huser
    · exact hkept.subset hm

/-- A context built while a chat has recorded `rest` behind its USER message holds that message
exactly when the message window reaches back to it. -/
theorem build_holdsRequest_iff {P : Platform} {b : ContextBuilder} {s : Session} {window_size : ℤ}
    {compression : CompressionConfig} {work_dir : Option String} {request : ChatRequest}
    {pre rest : List Message} {msgs : List LLMMessage} (hwindow : 1 ≤ window_size)
    (hkeep : 1 ≤ compression.min_turns_to_keep)
    (hs : s.messages = pre ++ userMessage request :: rest)
    (hrest : ∀ msg ∈ rest, msg.role = .assistant ∨ msg.role = .tool)
    (hbuild : ContextBuilder.build P b s window_size compression work_dir = .ok msgs) :
    HoldsRequest request msgs ↔ 1 + rest.length ≤ window_size := by
  have hfilter : s.messages.filter (·.role ≠ .system) =
      pre.filter (·.role ≠ .system) ++ userMessage request :: rest := by
    have hkeep : rest.filter (·.role ≠ .system) = rest := by
      refine List.filter_eq_self.mpr fun msg hmsg => ?_
      rcases hrest msg hmsg with h | h <;> simp [h]
    rw [hs, List.filter_append, List.filter_cons_of_pos (by simp [userMessage]), hkeep]
  have hwin := windowMessages_eq s window_size
  rw [hfilter] at hwin
  -- What the chat recorded behind the request gives no USER message.
  have hnouser : ∀ m ∈ rest.filterMap Message.toLLM, m.role ≠ .user := by
    intro m hm huser
    obtain ⟨msg, hmsg, hconv⟩ := List.mem_filterMap.mp hm
    have hrole := (Message.toLLM_user hconv).mp huser
    rcases hrest msg hmsg with h | h <;> simp [h] at hrole
  constructor
  · rintro ⟨m, hm, huser, -⟩
    have hmem := mem_windowMessages_of_user hkeep hbuild hm huser
    -- A window that does not reach the request lies in what was recorded behind it.
    by_contra hlt
    have hshort : window_size ≤ (userMessage request :: rest).length := by
      rw [List.length_cons]
      omega
    have hdrop : (userMessage request :: rest).length - window_size.toNat =
        rest.length - window_size.toNat + 1 := by
      rw [List.length_cons]
      omega
    rw [hwin, sliceFrom_neg_append (by omega) hshort, hdrop, List.drop_succ_cons] at hmem
    exact hnouser m (((List.drop_sublist _ _).filterMap _).subset hmem) huser
  · intro hle
    -- The window ends in the request and what was recorded behind it.
    have hreach : (userMessage request :: rest).length ≤ window_size := by
      rw [List.length_cons]
      omega
    have hsuffix : { role := .user, content := some request.message } ::
        rest.filterMap Message.toLLM <:+ windowMessages s window_size := by
      rw [hwin]
      exact (suffix_sliceFrom_neg (by omega) hreach).filterMap Message.toLLM
    refine ⟨{ role := .user, content := some request.message }, ?_, rfl, rfl⟩
    rcases (build_eq_ok hbuild).kept hkeep with
      ⟨-, rfl⟩ | ⟨-, prompts, kept, rfl, ⟨first, tail, rfl, hrole⟩, hkept⟩
    · exact List.mem_cons_of_mem _ (hsuffix.subset List.mem_cons_self)
    · -- Of the two suffixes of the window, the kept turns are the longer one.
      refine List.mem_append_right _ ?_
      rcases List.suffix_or_suffix_of_suffix hkept hsuffix with h | h
      · rcases List.suffix_cons_iff.mp h with h | h
        · rw [h]
          exact List.mem_cons_self
        · -- Shorter, they would start with one of the chat's own messages.
          exact absurd hrole (hnouser first (h.subset List.mem_cons_self))
      · exact h.subset List.mem_cons_self

/-- The number of tool calls in a reply of the LLM. -/
def callCount : Except Exn LLMResponse → ℕ
  | .ok reply => reply.tool_calls.length
  | .error _ => 0

/-- The number of messages that a chat has recorded before its call `j` of the LLM: the USER
message, and for each earlier round an ASSISTANT message and a TOOL message for each call. -/
def recordedBefore (O : Behaviour) : ℕ → ℕ
  | 0 => 1
  | j + 1 => recordedBefore O j + (1 + callCount (O.llm j))

/-- A complete round has one message more than its reply has tool calls. -/
theorem IsRound.length {reply : LLMResponse} {block : List Message} (h : IsRound reply block) :
    block.length = 1 + reply.tool_calls.length := by
  obtain ⟨tools, rfl, htools⟩ := h
  have hlen := congrArg List.length htools
  rw [List.length_map, List.length_map] at hlen
  rw [List.length_cons, hlen]
  omega

section Chat

variable {P : Platform} {cfg : AgentConfig} {reg : ToolRegistry} {O : Behaviour} {s : Session}
variable {cache : Cache} {request : ChatRequest}

/-- `recordedBefore` counts the USER message and the rounds of the transcript. -/
theorem Transcript.recordedBefore_eq {n : ℕ} {run : ChatRun} {rounds : List (List Message)}
    {tail : List Message} (ht : Transcript P cfg reg O n 0 s cache run rounds tail) {j : ℕ}
    (hj : j ≤ rounds.length) : recordedBefore O j = 1 + (rounds.take j).flatten.length := by
  induction j with
  | zero => rfl
  | succ j ih =>
    obtain ⟨reply, hreply, -, -, hround⟩ := ht.complete j hj
    rw [Nat.zero_add] at hreply
    rw [recordedBefore, ih (by omega), hreply, List.take_succ_eq_append_getElem hj,
      List.flatten_append, List.length_append, List.flatten_singleton, hround.length]
    simp only [callCount]
    omega

/-- A chat asks the LLM at most once more than it completes rounds. -/
theorem Transcript.length_llm_calls_le {n d : ℕ} {run : ChatRun} {rounds : List (List Message)}
    {tail : List Message} (ht : Transcript P cfg reg O n d s cache run rounds tail) :
    run.llm_calls.length ≤ rounds.length + 1 := by
  cases ht.ending <;> omega

/-- Every call of the LLM during a chat holds the request exactly when, before each of them, the
messages that the chat has recorded fit into the window. -/
theorem request_in_view_iff (hwindow : 1 ≤ cfg.context_window) :
    (∀ call ∈ (chat P cfg reg O s cache request).llm_calls, HoldsRequest request call.messages) ↔
      ∀ j < (chat P cfg reg O s cache request).llm_calls.length,
        (recordedBefore O j : ℤ) ≤ cfg.context_window := by
  obtain ⟨rounds, tail, ht⟩ := chat_transcript P cfg reg O s cache request
  generalize chat P cfg reg O s cache request = run at ht ⊢
  have hcalls := ht.length_llm_calls_le
  -- One call of the LLM: its context is built behind the rounds before it.
  have hcall : ∀ j (hj : j < run.llm_calls.length),
      HoldsRequest request run.llm_calls[j].messages ↔
        (recordedBefore O j : ℤ) ≤ cfg.context_window := by
    intro j hj
    obtain ⟨sj, hsj, -, hbuild⟩ := ht.contexts j hj
    rw [Session.addMessages_messages, List.append_assoc] at hsj
    rw [ht.recordedBefore_eq (by omega)]
    refine build_holdsRequest_iff hwindow (by decide) hsj (fun msg hmsg => ?_) hbuild
    have hsub : msg ∈ rounds.flatten := by
      rw [← List.take_append_drop j rounds, List.flatten_append]
      exact List.mem_append_left _ hmsg
    exact ht.rounds_role hsub
  rw [List.forall_mem_iff_forall_getElem]
  exact forall₂_congr hcall

end Chat

/-- A chat of one round with a window of three messages. -/
theorem request_in_view_iff_one_round :
    (∀ call ∈ (chat .bare { system_prompt := "p", context_window := 3 } .empty oneRound
        { session_id := "s" } .empty { user_id := "u", message := "hi" }).llm_calls,
      HoldsRequest { user_id := "u", message := "hi" } call.messages) ↔
    ∀ j < (chat .bare { system_prompt := "p", context_window := 3 } .empty oneRound
        { session_id := "s" } .empty { user_id := "u", message := "hi" }).llm_calls.length,
      (recordedBefore oneRound j : ℤ) ≤ 3 :=
  have hwindow : 1 ≤ ({ system_prompt := "p", context_window := 3 } : AgentConfig).context_window :=
    by decide
  request_in_view_iff hwindow

/-- With a window of two messages, its second call of the LLM no longer holds the request. -/
theorem request_out_of_view :
    ¬ ∀ call ∈ (chat .bare { system_prompt := "p", context_window := 2 } .empty oneRound
        { session_id := "s" } .empty { user_id := "u", message := "hi" }).llm_calls,
      HoldsRequest { user_id := "u", message := "hi" } call.messages := by
  decide

end YellowBull
