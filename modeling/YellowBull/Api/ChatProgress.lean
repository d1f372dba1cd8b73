import YellowBull.Api.ConcurrentChats
import YellowBull.Lib.Progress

/-!
# The progress of chats that run at once

What the calls of `Agent.chat` on the server do to each other in time. A history only grows while
its session is there (`history_only_grows`). No call can hold up another: each makes at most
`2 * max_chain_depth + 1` segments, and what it awaits is all that it needs to go on
(`chats_never_stuck`). So where the LLM and the tools come back to it, it ends, whatever the others
do (`chats_end`).
-/

namespace YellowBull

open Py

section Progress

variable {P : Platform} {cfg : AgentConfig} {reg : ToolRegistry} {ttl : ℤ}
variable {ι : Type*} [DecidableEq ι] {h h' : Server ι} {r : Ref} {i : ι} {phase : Phase}
variable {event : Event}

/-! ## Histories -/

/-- Every object that exists still exists, with further messages at most. -/
def Server.Grows (h h' : Server ι) : Prop :=
  ∀ r < h.world.heap.next, r < h'.world.heap.next ∧
    (h.world.heap.read r).messages <+: (h'.world.heap.read r).messages

omit [DecidableEq ι] in
/-- Growth goes on from state to state. -/
theorem Server.Grows.trans {h₁ h₂ h₃ : Server ι} (h₁₂ : h₁.Grows h₂) (h₂₃ : h₂.Grows h₃) :
    h₁.Grows h₃ := by
  intro r hr
  obtain ⟨hr₂, hmessages⟩ := h₁₂ r hr
  obtain ⟨hr₃, hmessages'⟩ := h₂₃ r hr₂
  exact ⟨hr₃, hmessages.trans hmessages'⟩

omit [DecidableEq ι] in
/-- A session that is made leaves the others as they are. -/
theorem Server.grows_make (h : Server ι) (id : String) (s : Session) : h.Grows (h.make id s) := by
  intro r hr
  have hread : (h.make id s).world.heap.read r = h.world.heap.read r :=
    (h.world.heap.extends_alloc s).read_eq r hr
  exact ⟨Nat.lt_succ_of_lt hr, hread ▸ List.prefix_rfl⟩

/-- A segment appends to the session of its object. -/
theorem Server.grows_advance (hadv : h.advance P cfg reg r i phase event = some h') :
    h.Grows h' := by
  obtain ⟨⟨s', recorded, phase'⟩, hseg, rfl⟩ := Option.map_eq_some_iff.mp hadv
  intro r' hr'
  refine ⟨hr', ?_⟩
  by_cases hr : r' = r
  · have hread : (h.move r i s' phase').world.heap.read r' = s' := by
      rw [hr]
      exact Heap.read_write_self ..
    rw [hread, (segment_spec hseg).1, hr]
    exact List.prefix_append ..
  · have hread : (h.move r i s' phase').world.heap.read r' = h.world.heap.read r' :=
      Heap.read_write_of_ne _ hr _
    exact hread ▸ List.prefix_rfl

/-- An event only adds messages. -/
theorem Server.grows_step (hinv : h.Allocated) {e : ServerEvent ι}
    (hstep : h.step P cfg reg ttl e = some h') : h.Grows h' := by
  rcases Server.step_cases hinv hstep with ⟨store, -, -, rfl⟩ | ⟨id, s, -, -, -, rfl⟩ |
    ⟨r, i, phase, event, -, -, hadv⟩ | ⟨id, s, i, event, -, -, -, -, hadv⟩
  · exact fun r hr => ⟨hr, List.prefix_rfl⟩
  · exact h.grows_make id s
  · exact Server.grows_advance hadv
  · exact (h.grows_make id s).trans (Server.grows_advance hadv)

/-- An id leads to the object that it led to before, until a session is made under it. -/
theorem Server.get?_of_step (hinv : h.Allocated) {e : ServerEvent ι} {id : String}
    (hid : ¬ e.Makes id) (hstep : h.step P cfg reg ttl e = some h')
    (hget : h'.world.store.get? id = some r) : h.world.store.get? id = some r := by
  -- Segments do not touch the store, and another id is set aside.
  have hadvance {h₁ : Server ι} {r' : Ref} {i : ι} {phase : Phase} {event : Event}
      (hadv : h₁.advance P cfg reg r' i phase event = some h') :
      h₁.world.store.get? id = some r := by
    obtain ⟨next, -, rfl⟩ := Option.map_eq_some_iff.mp hadv
    exact hget
  have hmake {id' : String} {s : Session} (hmakes : e.Makes id')
      (hget : (h.make id' s).world.store.get? id = some r) :
      h.world.store.get? id = some r := by
    have hne : id ≠ id' := fun heq => hid (heq ▸ hmakes)
    exact (OrderedMap.get?_set_of_ne _ hne _).symm.trans hget
  rcases Server.step_cases hinv hstep with ⟨store, hsub, -, rfl⟩ | ⟨id', s, -, hmakes, -, rfl⟩ |
    ⟨r', i, phase, event, -, -, hadv⟩ | ⟨id', s, i, event, -, hmakes, -, -, hadv⟩
  · exact hsub id r hget
  · exact hmake hmakes hget
  · exact hadvance hadv
  · exact hmake hmakes (hadvance hadv)

/-- What the history endpoint shows of a stored session. -/
theorem getHistory_eq_ok {id : String} {w : World MemoryStore} {history : History}
    (hhistory : (getHistory (memorySessionManager ttl) id w).1 = .ok history) :
    ∃ r, w.store.get? id = some r ∧ history = (w.heap.read r).history := by
  have hget : (memorySessionManager ttl).get id w = (w.store.get? id, w) := rfl
  unfold getHistory at hhistory
  rw [hget] at hhistory
  cases hr : w.store.get? id with
  | none =>
    rw [hr] at hhistory
    cases hhistory
  | some r =>
    rw [hr] at hhistory
    exact ⟨r, rfl, (Except.ok.inj hhistory).symm⟩

/-- A history that a client has read is the beginning of any that it reads later, whatever chats are
under way on the session and on others, as long as no other session is made under the id. -/
theorem history_only_grows {events events' : List (ServerEvent ι)} {id : String} {a b : History}
    (hrun : Machine.run (Server.step P cfg reg ttl) Server.start events = some h)
    (ha : (getHistory (memorySessionManager ttl) id h.world).1 = .ok a)
    (hrun' : Machine.run (Server.step P cfg reg ttl) h events' = some h')
    (hids : ∀ e ∈ events', ¬ e.Makes id)
    (hb : (getHistory (memorySessionManager ttl) id h'.world).1 = .ok b) :
    a.messages <+: b.messages := by
  obtain ⟨r, hr, rfl⟩ := getHistory_eq_ok ha
  obtain ⟨r', hr', rfl⟩ := getHistory_eq_ok hb
  have hinv := Server.allocated_run hrun
  -- Since the first reading, objects have only grown and the id leads where it led, if anywhere.
  have hsince : h'.Allocated ∧ h.Grows h' ∧
      ∀ r', h'.world.store.get? id = some r' → h.world.store.get? id = some r' := by
    have hok : Machine.EveryRunStep (Server.step P cfg reg ttl) (fun _ e => ¬ e.Makes id) h
        events' :=
      .of_forall _ hids h
    have hstart : h.Allocated ∧ h.Grows h ∧
        ∀ r', h.world.store.get? id = some r' → h.world.store.get? id = some r' :=
      ⟨hinv, fun r hr => ⟨hr, List.prefix_rfl⟩, fun _ hget => hget⟩
    refine Machine.run_invariant (fun h₁ : Server ι => h₁.Allocated ∧ h.Grows h₁ ∧
      ∀ r', h₁.world.store.get? id = some r' → h.world.store.get? id = some r') ?_ hstart hok hrun'
    rintro h₁ e h₂ ⟨hinv₁, hgrows, hget⟩ hid hstep
    exact ⟨hinv₁.step hstep, hgrows.trans (Server.grows_step hinv₁ hstep),
      fun r' hr' => hget r' (Server.get?_of_step hinv₁ hid hstep hr')⟩
  obtain ⟨-, hgrows, hget⟩ := hsince
  obtain rfl : r = r' := Option.some.inj (hr.symm.trans (hget r' hr'))
  exact (hgrows r (hinv.stored id r hr)).2.map _

/-- A history that is read while a chat awaits the LLM, and once it has ended. -/
theorem history_only_grows_one_chat : ∃ h h' a b,
    runServer [.chat false { user_id := "u", message := "hi" } "s" 0] = some h ∧
    (getHistory (memorySessionManager 7200) "s" h.world).1 = .ok a ∧
    Machine.run (Server.step .bare { system_prompt := "p" } .empty 7200) h
      [.goOn false (.llm (.ok { content := some "done" }) 1)] = some h' ∧
    (getHistory (memorySessionManager 7200) "s" h'.world).1 = .ok b ∧
    a.messages <+: b.messages := by
  refine ⟨_, _, _, _, rfl, rfl, rfl, rfl, ?_⟩
  have hids : ∀ e ∈ [ServerEvent.goOn false (.llm (.ok { content := some "done" }) 1)],
      ¬ e.Makes "s" := by
    intro e he
    obtain rfl := List.mem_singleton.mp he
    exact fun hmakes => hmakes
  exact @history_only_grows .bare { system_prompt := "p" } .empty 7200 Bool _ _ _
    [.chat false { user_id := "u", message := "hi" } "s" 0] _ "s" _ _ rfl rfl rfl hids rfl

/-! ## Segments -/

/-- The segments that a call can still make, in each of its phases. -/
def Phase.segmentsLeft (cfg : AgentConfig) : Phase → ℕ
  | .ready => 2 * cfg.max_chain_depth.toNat + 1
  | .awaitsLlm rest _ => 2 * rest + 2
  | .awaitsBatch rest .. => 2 * rest + 1
  | .finished _ => 0

/-- The event is what a call in the phase awaits. An exception that is thrown into it is not. -/
def Phase.Awaits : Phase → Event → Prop
  | .awaitsLlm .., .llm _ _ => True
  | .awaitsBatch _ _ _ requests, .batch results _ => results.length = requests.length
  | _, _ => False

omit [DecidableEq ι] in
/-- Where the call is. -/
def Server.phaseOf (h : Server ι) (i : ι) : Phase :=
  match h.calls i with
  | some (_, phase) => phase
  | none => .ready

/-- The call that an event is a segment of. -/
def ServerEvent.owner : ServerEvent ι → Option ι
  | .chat i _ _ _ | .goOn i _ => some i
  | .create _ _ _ | .delete _ | .cleanup _ _ => none

variable (P cfg reg) in
/-- The rounds that are left bound the segments. -/
theorem enterRound_segmentsLeft (s : Session) (now : Time) (recorded : List Message)
    (log : List ExecutionResult) (n : ℕ) :
    (enterRound P cfg reg s now recorded log n).2.2.segmentsLeft cfg ≤ 2 * n := by
  cases n with
  | zero => exact Nat.le_refl _
  | succ rest =>
    unfold enterRound
    generalize roundHead P cfg reg (s.addMessages now recorded) = head
    obtain ⟨s', e | call⟩ := head
    · exact Nat.zero_le _
    · show 2 * rest + 2 ≤ 2 * (rest + 1)
      omega

/-- A segment leaves fewer. -/
theorem segment_segmentsLeft {s s' : Session} {phase' : Phase} {recorded : List Message}
    (hseg : segment P cfg reg s phase event = some (s', recorded, phase')) :
    phase'.segmentsLeft cfg < phase.segmentsLeft cfg := by
  cases phase with
  | ready =>
    cases event with
    | start request now =>
      -- Entering the rounds leaves two segments for each, and the start was one more.
      have hleft := enterRound_segmentsLeft P cfg reg s now
        [userMessage request] [] cfg.max_chain_depth.toNat
      rw [Option.some.inj hseg] at hleft
      exact Nat.lt_succ_of_le hleft
    | llm reply now => cases hseg
    | batch results now => cases hseg
    | interrupt e => cases hseg
  | awaitsLlm rest log =>
    cases event with
    | llm reply now =>
      obtain ⟨-, -, rfl⟩ : _ ∧ _ ∧ _ = phase' := by simpa [segment] using hseg
      -- The call of the LLM is done; the batch that may follow it is the second segment of its
      -- round.
      show _ < 2 * rest + 2
      cases (onReply P cfg s.session_id reply).2 with
      | returns response => simp [Phase.segmentsLeft]
      | raises e => simp [Phase.segmentsLeft]
      | executes calls requests => simp [Phase.segmentsLeft]
    | start request now => cases hseg
    | batch results now => cases hseg
    | interrupt e => cases hseg
  | awaitsBatch rest log calls requests =>
    cases event with
    | batch results now =>
      -- The batch has as many results as requests, and the next round is entered.
      simp only [segment] at hseg
      split_ifs at hseg
      have hleft := enterRound_segmentsLeft P cfg reg s now
        (resultMessages calls results) (log ++ results) rest
      rw [Option.some.inj hseg] at hleft
      exact Nat.lt_succ_of_le hleft
    | interrupt e =>
      obtain ⟨-, -, rfl⟩ : _ ∧ _ ∧ _ = phase' := by simpa [segment] using hseg
      exact Nat.succ_pos _
    | start request now => cases hseg
    | llm reply now => cases hseg
  | finished result => cases event <;> cases hseg

/-- A call is not held up: what it awaits is a segment. -/
theorem exists_segment (s : Session) (hawaits : phase.Awaits event) :
    (segment P cfg reg s phase event).isSome := by
  -- A reply is taken as it is, a batch only with one result for each request.
  cases phase with
  | awaitsLlm rest log =>
    cases event with
    | llm reply now => rfl
    | start request now => exact hawaits.elim
    | batch results now => exact hawaits.elim
    | interrupt e => exact hawaits.elim
  | awaitsBatch rest log calls requests =>
    cases event with
    | batch results now =>
      have hlength : results.length = requests.length := hawaits
      simp [segment, hlength]
    | start request now => exact hawaits.elim
    | llm reply now => exact hawaits.elim
    | interrupt e => exact hawaits.elim
  | ready => exact hawaits.elim
  | finished result => exact hawaits.elim

/-- A call that is under way awaits something. -/
theorem Phase.UnderWay.exists_awaits (hunder : phase.UnderWay) : ∃ event, phase.Awaits event := by
  cases phase with
  | awaitsLlm rest log => exact ⟨.llm (.error ⟨.other, ""⟩) 0, trivial⟩
  | awaitsBatch rest log calls requests =>
    let failed : ExecutionResult := { tool_name := .none, status := .failed }
    exact ⟨.batch (List.replicate requests.length failed) 0, List.length_replicate⟩
  | ready => exact hunder.elim
  | finished result => exact hunder.elim

/-- What an event does to the calls: none of them moves, or its owner makes a segment. -/
theorem Server.calls_step {e : ServerEvent ι} (hstep : h.step P cfg reg ttl e = some h') :
    (e.owner = none ∧ h'.calls = h.calls) ∨
      ∃ i r phase, e.owner = some i ∧ h'.calls = Function.update h.calls i (some (r, phase)) ∧
        phase ≠ .ready ∧ phase.segmentsLeft cfg < (h.phaseOf i).segmentsLeft cfg := by
  -- A segment from the phase of its call.
  have hadvance {h₁ : Server ι} {r : Ref} {i : ι} {event : Event}
      (hadv : h₁.advance P cfg reg r i (h.phaseOf i) event = some h')
      (hcalls : h₁.calls = h.calls) :
      ∃ r phase, h'.calls = Function.update h.calls i (some (r, phase)) ∧ phase ≠ .ready ∧
        phase.segmentsLeft cfg < (h.phaseOf i).segmentsLeft cfg := by
    obtain ⟨⟨s', recorded, phase'⟩, hseg, rfl⟩ := Option.map_eq_some_iff.mp hadv
    refine ⟨r, phase', ?_, (segment_phase hseg).2, segment_segmentsLeft hseg⟩
    rw [← hcalls]
    rfl
  cases e with
  | chat i request session_id now =>
    simp only [Server.step] at hstep
    cases hcall : h.calls i with
    | some call => simp [hcall] at hstep
    | none =>
      have hphase : h.phaseOf i = .ready := by rw [Server.phaseOf, hcall]
      simp only [hcall] at hstep
      rw [← hphase] at hstep
      obtain ⟨r, phase, hmove⟩ := hadvance hstep rfl
      exact .inr ⟨i, r, phase, rfl, hmove⟩
  | goOn i event =>
    simp only [Server.step] at hstep
    cases hcall : h.calls i with
    | none => simp [hcall] at hstep
    | some call =>
      obtain ⟨r, phase⟩ := call
      have hphase : h.phaseOf i = phase := by rw [Server.phaseOf, hcall]
      simp only [hcall] at hstep
      rw [← hphase] at hstep
      obtain ⟨r, phase, hmove⟩ := hadvance hstep rfl
      exact .inr ⟨i, r, phase, rfl, hmove⟩
  | create user_id session_id now =>
    obtain rfl := Option.some.inj hstep
    exact .inl ⟨rfl, rfl⟩
  | delete session_id =>
    obtain rfl := Option.some.inj hstep
    exact .inl ⟨rfl, rfl⟩
  | cleanup max_age_seconds now =>
    obtain rfl := Option.some.inj hstep
    exact .inl ⟨rfl, rfl⟩

variable (P cfg reg ttl) in
/-- The segments of a call use up what is left of it, and nothing else does. -/
theorem Server.lowers (i : ι) :
    Machine.Lowers (Server.step P cfg reg ttl) (fun _ => True) (fun e => e.owner = some i)
      fun h => (h.phaseOf i).segmentsLeft cfg where
  inv _ _ _ _ _ := trivial
  lt h e h' _ hstep howner := by
    have howner : e.owner = some i := of_decide_eq_true howner
    rcases Server.calls_step hstep with ⟨hnone, -⟩ | ⟨j, r, phase, hsome, hcalls, -, hlt⟩
    · rw [hnone] at howner
      cases howner
    -- The event is a segment of chat `i`, whose phase it lowers.
    · obtain rfl : j = i := Option.some.inj (hsome.symm.trans howner)
      have hphase : h'.phaseOf j = phase := by
        unfold Server.phaseOf
        rw [hcalls, Function.update_self]
      rwa [hphase]
  le h e h' _ hstep := by
    rcases Server.calls_step hstep with ⟨-, hcalls⟩ | ⟨j, r, phase, -, hcalls, -, hlt⟩
    -- An event of no chat leaves all phases.
    · unfold Server.phaseOf
      rw [hcalls]
    -- A segment of another chat leaves the phase of chat `i`.
    · by_cases hj : i = j
      · have hphase : h'.phaseOf i = phase := by
          unfold Server.phaseOf
          rw [hcalls, hj, Function.update_self]
        rw [hphase, hj]
        exact Nat.le_of_lt hlt
      · have hphase : h'.phaseOf i = h.phaseOf i := by
          unfold Server.phaseOf
          rw [hcalls, Function.update_of_ne hj]
        rw [hphase]

omit [DecidableEq ι] in
/-- A call of the server is under way or has ended. -/
def Server.Started (h : Server ι) : Prop :=
  ∀ i r phase, h.calls i = some (r, phase) → phase ≠ .ready

/-- An event keeps it so. -/
theorem Server.Started.step (hstarted : h.Started) {e : ServerEvent ι}
    (hstep : h.step P cfg reg ttl e = some h') : h'.Started := by
  intro i r phase hcall
  rcases Server.calls_step hstep with ⟨-, hcalls⟩ | ⟨j, r', phase', -, hcalls, hready, -⟩
  · exact hstarted i r phase (hcalls ▸ hcall)
  · by_cases hi : i = j
    · rw [hcalls, hi, Function.update_self] at hcall
      obtain ⟨-, rfl⟩ := Prod.mk.inj (Option.some.inj hcall)
      exact hready
    · rw [hcalls, Function.update_of_ne hi] at hcall
      exact hstarted i r phase hcall

omit [DecidableEq ι] in
/-- At the start there are no calls. -/
theorem Server.started_start : (Server.start : Server ι).Started := by
  intro i r phase hcall
  cases hcall

omit [DecidableEq ι] in
/-- Unless it has ended, a call that was made is under way. -/
theorem Server.Started.underWay (hstarted : h.Started) (hcalled : (h.calls i).isSome) :
    (∃ result, h.phaseOf i = .finished result) ∨ (h.phaseOf i).UnderWay := by
  obtain ⟨⟨r, phase⟩, hcall⟩ := Option.isSome_iff_exists.mp hcalled
  have hphase : h.phaseOf i = phase := by rw [Server.phaseOf, hcall]
  have hready := hstarted i r phase hcall
  rw [hphase]
  cases phase with
  | ready => exact absurd rfl hready
  | awaitsLlm => exact .inr trivial
  | awaitsBatch => exact .inr trivial
  | finished result => exact .inl ⟨result, rfl⟩

/-! ## Runs -/

variable (P cfg reg ttl) in
/-- A call that has made so many segments: they are within its bound, and unless it has ended, it
awaits something and goes on with whatever comes back. -/
structure Server.GoesOn (h : Server ι) (i : ι) (segments : ℕ) : Prop where
  bounded : segments + (h.phaseOf i).segmentsLeft cfg ≤ 2 * cfg.max_chain_depth.toNat + 1
  awaits : (h.calls i).isSome → (∃ result, h.phaseOf i = .finished result) ∨
    ∃ event, (h.phaseOf i).Awaits event
  enabled : ∀ event, (h.phaseOf i).Awaits event →
    (h.step P cfg reg ttl (.goOn i event)).isSome

/-- However the calls on all sessions and the other clients alternate, none of them can hold up a
call: it has made at most `2 * max_chain_depth + 1` segments, and unless it has ended, any reply of
the LLM, or any results of the batch, that it awaits is possible. -/
theorem chats_never_stuck {events : List (ServerEvent ι)}
    (hrun : Machine.run (Server.step P cfg reg ttl) Server.start events = some h) (i : ι) :
    h.GoesOn P cfg reg ttl i (events.countP fun e => e.owner = some i) where
  bounded := (Server.lowers P cfg reg ttl i).countP_add_le trivial hrun
  awaits := by
    intro hcalled
    -- That a chat under way has a session it awaits in is an invariant of the run.
    have hstarted : h.Started := Machine.run_invariant Server.Started
      (fun _ _ _ hstarted _ hstep => hstarted.step hstep) Server.started_start
      (Machine.EveryRunStep.trivial _ _ events) hrun
    exact (hstarted.underWay hcalled).imp_right Phase.UnderWay.exists_awaits
  enabled := by
    intro event hawaits
    cases hcall : h.calls i with
    | none =>
      -- A chat that has not been called is ready, and awaits nothing.
      have hphase : h.phaseOf i = .ready := by rw [Server.phaseOf, hcall]
      rw [hphase] at hawaits
      exact hawaits.elim
    | some call =>
      obtain ⟨r, phase⟩ := call
      have hphase : h.phaseOf i = phase := by rw [Server.phaseOf, hcall]
      rw [hphase] at hawaits
      simp only [Server.step, hcall, Server.advance, Option.isSome_map]
      exact exists_segment _ hawaits

/-- The two calls of a run, one of which is still under way. -/
theorem chats_never_stuck_overlapping : ∃ h, runServer overlapping = some h ∧
    h.GoesOn .bare { system_prompt := "p" } .empty 7200 false
      (overlapping.countP fun e => e.owner = some false) :=
  have hrun : runServer overlapping = some ((runServer overlapping).get overlapping_runs) := by simp
  ⟨_, hrun, chats_never_stuck hrun false⟩

/-- In every infinite run, a call ends if the LLM and the tools come back to it whenever it awaits
them, whatever else happens on its session and on the others. -/
theorem chats_end (ρ : Machine.InfiniteRun (Server.step (ι := ι) P cfg reg ttl) Server.start)
    {i : ι} {k : ℕ} (hcalled : ((ρ.state k).calls i).isSome)
    (hback : ∀ l, k ≤ l → ((ρ.state l).phaseOf i).UnderWay →
      ∃ m, l ≤ m ∧ ∃ event, ρ.event m = .goOn i event) :
    ∃ l, k ≤ l ∧ ∃ result, (ρ.state l).phaseOf i = .finished result := by
  have hstarted (l : ℕ) : (ρ.state l).Started := by
    refine ρ.keeps (fun _ _ _ hstarted hstep => hstarted.step hstep) (Nat.zero_le l) ?_
    rw [ρ.start_eq]
    exact Server.started_start
  -- A call that was made stays made.
  have hmade (l : ℕ) (hl : k ≤ l) : ((ρ.state l).calls i).isSome := by
    refine ρ.keeps (K := fun h => (h.calls i).isSome) (fun h e h' hcalled hstep => ?_) hl hcalled
    rcases Server.calls_step hstep with ⟨-, hcalls⟩ | ⟨j, r, phase, -, hcalls, -⟩
    · rwa [hcalls]
    · by_cases hi : i = j
      · rw [hcalls, hi, Function.update_self]
        rfl
      · rwa [hcalls, Function.update_of_ne hi]
  have hfair : ∀ l, k ≤ l → ((ρ.state l).phaseOf i).segmentsLeft cfg ≠ 0 →
      ∃ m, l ≤ m ∧ decide ((ρ.event m).owner = some i) := by
    intro l hl hleft
    rcases (hstarted l).underWay (hmade l hl) with ⟨result, hresult⟩ | hunder
    · rw [hresult] at hleft
      exact absurd rfl hleft
    · obtain ⟨m, hm, event, hevent⟩ := hback l hl hunder
      refine ⟨m, hm, ?_⟩
      rw [hevent]
      exact decide_eq_true rfl
  obtain ⟨l, hl, hzero⟩ := ρ.exists_eq_zero (Server.lowers P cfg reg ttl i) trivial hfair
  refine ⟨l, hl, ?_⟩
  rcases (hstarted l).underWay (hmade l hl) with hfinished | hunder
  · exact hfinished
  · cases hphase : (ρ.state l).phaseOf i with
    | ready =>
      rw [hphase] at hunder
      exact hunder.elim
    | finished result => exact ⟨result, rfl⟩
    | awaitsLlm rest log =>
      rw [hphase] at hzero
      cases hzero
    | awaitsBatch rest log calls requests =>
      rw [hphase] at hzero
      cases hzero

end Progress

/-- A chat that is answered, and then deletions for ever. -/
def answeredOnce : ℕ → ServerEvent Bool
  | 0 => .chat false { user_id := "u", message := "hi" } "s" 0
  | 1 => .goOn false (.llm (.ok { content := some "done" }) 1)
  | _ => .delete "t"

/-- The states of its run. -/
def answeredStates : ℕ → Server Bool
  | 0 => .start
  | k + 1 =>
    let h := answeredStates k
    (h.step .bare { system_prompt := "p" } .empty 7200 (answeredOnce k)).getD h

/-- The infinite run. -/
def answeredRun :
    Machine.InfiniteRun (Server.step .bare { system_prompt := "p" } .empty 7200)
      (Server.start : Server Bool) where
  state := answeredStates
  event := answeredOnce
  start_eq := rfl
  valid k := by
    have hsome : ((answeredStates k).step .bare { system_prompt := "p" } .empty 7200
        (answeredOnce k)).isSome := by
      match k with
      | 0 => rfl
      | 1 => rfl
      | _ + 2 => rfl
    obtain ⟨h, hstep⟩ := Option.isSome_iff_exists.mp hsome
    rw [answeredStates, hstep]
    rfl

/-- The chat has ended. -/
theorem chats_end_answered :
    ∃ l, 1 ≤ l ∧ ∃ result, (answeredRun.state l).phaseOf false = .finished result := by
  refine chats_end answeredRun rfl fun l hl hunder => ?_
  match l with
  | 1 => exact ⟨1, Nat.le_refl 1, _, rfl⟩
  | l + 2 =>
    -- The deletions leave the call as it is.
    have hphase : (answeredRun.state (l + 2)).phaseOf false =
        (answeredRun.state 2).phaseOf false := by
      induction l with
      | zero => rfl
      | succ l ih => exact ih (Nat.le_add_left 1 (l + 1)) hunder
    rw [hphase] at hunder
    exact hunder.elim

end YellowBull
