import Mathlib.Data.List.Induction

/-!
# Machines and their runs

Two shapes of state machine, with the rules that the development's run theorems use. A *transducer*
`step : σ → ι → σ × ω` answers each input: its rules are that two machines related by a simulation
give the same outputs, and on just which runs they do. A *partial machine* `step : σ → ι → Option σ`
may have no step for an input: its rule is that an invariant kept by every step holds at the end of
each run.

The rules take a condition `ok` on a step, read in the state before it (`EveryStep`), for a run
whose steps all meet it.
-/

namespace Machine

variable {σ τ ι ω : Type*}

/-! ## Transducers -/

/-- The state after a list of inputs. -/
def state (step : σ → ι → σ × ω) : σ → List ι → σ
  | s, [] => s
  | s, a :: as => state step (step s a).1 as

/-- The outputs to a list of inputs. -/
def outputs (step : σ → ι → σ × ω) : σ → List ι → List ω
  | _, [] => []
  | s, a :: as => (step s a).2 :: outputs step (step s a).1 as

/-- Every step of the run meets `ok`, read in the state before the step. -/
def EveryStep (step : σ → ι → σ × ω) (ok : σ → ι → Prop) : σ → List ι → Prop
  | _, [] => True
  | s, a :: as => ok s a ∧ EveryStep step ok (step s a).1 as

/-- A condition on the inputs alone is one on the steps. -/
theorem EveryStep.of_forall {step : σ → ι → σ × ω} {ok : ι → Prop} {as : List ι}
    (h : ∀ a ∈ as, ok a) (s : σ) : EveryStep step (fun _ a => ok a) s as := by
  induction as generalizing s with
  | nil => trivial
  | cons a as ih => exact ⟨h a (by simp), ih (fun a' ha' => h a' (by simp [ha'])) _⟩

/-- A condition on the steps may be weakened. -/
theorem EveryStep.mono {step : σ → ι → σ × ω} {ok ok' : σ → ι → Prop} {s : σ} {as : List ι}
    (h : EveryStep step ok s as) (himp : ∀ s a, ok s a → ok' s a) : EveryStep step ok' s as := by
  induction as generalizing s with
  | nil => trivial
  | cons a as ih => exact ⟨himp s a h.1, ih h.2⟩

/-- A step of the run meets the condition, in the state that the inputs before it lead to. -/
theorem EveryStep.of_split {step : σ → ι → σ × ω} {ok : σ → ι → Prop} {s : σ} {pre post : List ι}
    {a : ι} (h : EveryStep step ok s (pre ++ a :: post)) : ok (state step s pre) a := by
  induction pre generalizing s with
  | nil => exact h.1
  | cons b pre ih => exact ih h.2

/-- Two conditions at once. -/
theorem EveryStep.and {step : σ → ι → σ × ω} {ok ok' : σ → ι → Prop} {s : σ} {as : List ι}
    (h : EveryStep step ok s as) (h' : EveryStep step ok' s as) :
    EveryStep step (fun s a => ok s a ∧ ok' s a) s as := by
  induction as generalizing s with
  | nil => trivial
  | cons a as ih => exact ⟨⟨h.1, h'.1⟩, ih h.2 h'.2⟩

instance EveryStep.decidable (step : σ → ι → σ × ω) (ok : σ → ι → Prop)
    [∀ s a, Decidable (ok s a)] : ∀ s as, Decidable (EveryStep step ok s as)
  | _, [] => .isTrue True.intro
  | s, a :: as =>
    have := EveryStep.decidable step ok (step s a).1 as
    inferInstanceAs (Decidable (ok s a ∧ EveryStep step ok (step s a).1 as))

/-- The state after two runs is that of the second from that of the first. -/
theorem state_append (step : σ → ι → σ × ω) (s : σ) (as bs : List ι) :
    state step s (as ++ bs) = state step (state step s as) bs := by
  induction as generalizing s with
  | nil => rfl
  | cons a as ih => exact ih _

/-- The outputs of two runs, one after the other. -/
theorem outputs_append (step : σ → ι → σ × ω) (s : σ) (as bs : List ι) :
    outputs step s (as ++ bs) = outputs step s as ++ outputs step (state step s as) bs := by
  induction as generalizing s with
  | nil => rfl
  | cons a as ih => exact congrArg _ (ih _)

/-- Each input has an output. -/
@[simp]
theorem length_outputs (step : σ → ι → σ × ω) (s : σ) (as : List ι) :
    (outputs step s as).length = as.length := by
  induction as generalizing s with
  | nil => rfl
  | cons a as ih => simp [outputs, ih]

/-- An invariant that the inputs meeting `ok` keep holds after each list of such inputs. -/
theorem state_invariant_of (Inv : σ → Prop) (ok : ι → Prop) {step : σ → ι → σ × ω}
    (hstep : ∀ s a, Inv s → ok a → Inv (step s a).1) {s : σ} (hs : Inv s) {as : List ι}
    (hok : ∀ a ∈ as, ok a) : Inv (state step s as) := by
  induction as generalizing s with
  | nil => exact hs
  | cons a as ih =>
    exact ih (hstep s a hs (hok a (by simp))) fun a' ha' => hok a' (by simp [ha'])

/-- An invariant that every input keeps holds after each list of inputs. -/
theorem state_invariant (Inv : σ → Prop) {step : σ → ι → σ × ω}
    (hstep : ∀ s a, Inv s → Inv (step s a).1) {s : σ} (hs : Inv s) (as : List ι) :
    Inv (state step s as) :=
  state_invariant_of Inv (fun _ => True) (fun s a h _ => hstep s a h) hs fun _ _ => True.intro

/-- Two machines on the same inputs stay related when every step that meets `ok` keeps them so. -/
theorem state_related {ω' : Type*} {step₁ : σ → ι → σ × ω} {step₂ : τ → ι → τ × ω'}
    {R : σ → τ → Prop} {ok : σ → ι → Prop}
    (hstep : ∀ s t a, R s t → ok s a → R (step₁ s a).1 (step₂ t a).1) {s : σ} {t : τ} (hR : R s t)
    {as : List ι} (hok : EveryStep step₁ ok s as) : R (state step₁ s as) (state step₂ t as) := by
  induction as generalizing s t with
  | nil => exact hR
  | cons a as ih => exact ih (hstep s t a hR hok.1) hok.2

/-- Two machines whose related states answer alike and stay related, on the inputs that meet `ok`,
give the same outputs on every run whose steps all meet it. -/
theorem outputs_eq_of_simulation {step₁ : σ → ι → σ × ω} {step₂ : τ → ι → τ × ω}
    {R : σ → τ → Prop} {ok : σ → ι → Prop}
    (hstep : ∀ s t a, R s t → ok s a →
      (step₁ s a).2 = (step₂ t a).2 ∧ R (step₁ s a).1 (step₂ t a).1)
    {s : σ} {t : τ} (hR : R s t) {as : List ι} (hok : EveryStep step₁ ok s as) :
    outputs step₁ s as = outputs step₂ t as := by
  induction as generalizing s t with
  | nil => rfl
  | cons a as ih =>
    obtain ⟨hout, hR'⟩ := hstep s t a hR hok.1
    rw [outputs, outputs, hout, ih hR' hok.2]

/-- Where related states also answer differently on the inputs that do not meet `ok`, among those
that `may` occur, the outputs are the same on just the runs whose steps all meet it. -/
theorem outputs_eq_iff_of_simulation {step₁ : σ → ι → σ × ω} {step₂ : τ → ι → τ × ω}
    {R : σ → τ → Prop} {ok may : σ → ι → Prop}
    (hstep : ∀ s t a, R s t → ok s a →
      (step₁ s a).2 = (step₂ t a).2 ∧ R (step₁ s a).1 (step₂ t a).1)
    (hdiff : ∀ s t a, R s t → may s a → ¬ ok s a → (step₁ s a).2 ≠ (step₂ t a).2)
    {s : σ} {t : τ} (hR : R s t) {as : List ι} (hmay : EveryStep step₁ may s as) :
    outputs step₁ s as = outputs step₂ t as ↔ EveryStep step₁ ok s as := by
  refine ⟨fun heq => ?_, outputs_eq_of_simulation hstep hR⟩
  induction as generalizing s t with
  | nil => trivial
  | cons a as ih =>
    obtain ⟨hhead, htail⟩ := List.cons.inj heq
    have hok : ok s a := by
      by_contra h
      exact hdiff s t a hR hmay.1 h hhead
    exact ⟨hok, ih (hstep s t a hR hok).2 hmay.2 htail⟩

/-! ### The outputs to some of the inputs -/

/-- The outputs to the inputs that `keep` picks, in a run on all of them. -/
def outputsTo (step : σ → ι → σ × ω) (keep : ι → Bool) : σ → List ι → List ω
  | _, [] => []
  | s, a :: as =>
    if keep a then (step s a).2 :: outputsTo step keep (step s a).1 as
    else outputsTo step keep (step s a).1 as

/-- One more input adds its output if it is kept. -/
theorem outputsTo_concat (step : σ → ι → σ × ω) (keep : ι → Bool) (s : σ) (as : List ι) (a : ι) :
    outputsTo step keep s (as ++ [a]) =
      outputsTo step keep s as ++ if keep a then [(step (state step s as) a).2] else [] := by
  induction as generalizing s with
  | nil => rfl
  | cons b as ih =>
    rw [List.cons_append, outputsTo, outputsTo, ih]
    split_ifs <;> rfl

/-- Where each picked input is answered from the picked inputs before it, the others may be left
out of the run. -/
theorem outputsTo_eq_outputs_filter {step : σ → ι → σ × ω} {keep : ι → Bool} {s : σ} {as : List ι}
    (h : ∀ pre a, pre ++ [a] <+: as → keep a = true →
      (step (state step s pre) a).2 = (step (state step s (pre.filter keep)) a).2) :
    outputsTo step keep s as = outputs step s (as.filter keep) := by
  induction as using List.reverseRecOn with
  | nil => rfl
  | append_singleton as a ih =>
    have hpre := ih fun pre b hpre => h pre b (hpre.trans (List.prefix_append as [a]))
    rw [outputsTo_concat, List.filter_append, outputs_append, hpre]
    cases hkeep : keep a with
    | true =>
      rw [List.filter_cons_of_pos hkeep, List.filter_nil, if_pos rfl, h as a List.prefix_rfl hkeep]
      rfl
    | false =>
      rw [List.filter_cons_of_neg (by simp [hkeep]), List.filter_nil, if_neg Bool.false_ne_true]
      rfl

/-- The unwinding rule: a relation between the run and the run on the picked inputs that a picked
input keeps on both sides, with the same output, and another input on the one side. -/
theorem outputsTo_eq_of_unwinding {step : σ → ι → σ × ω} {keep : ι → Bool} {R : σ → σ → Prop}
    {ok : σ → ι → Prop}
    (hkeep : ∀ s t a, R s t → ok s a → keep a = true →
      (step s a).2 = (step t a).2 ∧ R (step s a).1 (step t a).1)
    (hdrop : ∀ s t a, R s t → ok s a → keep a = false → R (step s a).1 t)
    {s t : σ} (hR : R s t) {as : List ι} (hok : EveryStep step ok s as) :
    outputsTo step keep s as = outputs step t (as.filter keep) := by
  induction as generalizing s t with
  | nil => rfl
  | cons a as ih =>
    rw [outputsTo]
    -- A kept input steps both machines alike, a dropped one only the first.
    cases hk : keep a with
    | true =>
      obtain ⟨hout, hR'⟩ := hkeep s t a hR hok.1 hk
      rw [if_pos rfl, List.filter_cons_of_pos hk, outputs, hout, ih hR' hok.2]
    | false =>
      rw [if_neg Bool.false_ne_true, List.filter_cons_of_neg (by simp [hk])]
      exact ih (hdrop s t a hR hok.1 hk) hok.2

/-- The states do not depend on the outputs. -/
theorem state_congr {ω' : Type*} {step : σ → ι → σ × ω} {step' : σ → ι → σ × ω'}
    (h : ∀ s a, (step s a).1 = (step' s a).1) (s : σ) (as : List ι) :
    state step s as = state step' s as := by
  induction as generalizing s with
  | nil => rfl
  | cons a as ih => rw [state, state, h, ih]

/-- Inputs under another name. -/
theorem state_map {κ : Type*} (step : σ → ι → σ × ω) (f : κ → ι) (s : σ) (as : List κ) :
    state step s (as.map f) = state (fun s a => step s (f a)) s as := by
  induction as generalizing s with
  | nil => rfl
  | cons a as ih => exact ih _

/-- Inputs under another name. -/
theorem outputs_map {κ : Type*} (step : σ → ι → σ × ω) (f : κ → ι) (s : σ) (as : List κ) :
    outputs step s (as.map f) = outputs (fun s a => step s (f a)) s as := by
  induction as generalizing s with
  | nil => rfl
  | cons a as ih => exact congrArg _ (ih _)

/-! ### Runs without the inputs of some outputs -/

/-- The inputs that are left when those that the run answers with a `drop` output are taken out. -/
def purge (step : σ → ι → σ × ω) (drop : ω → Bool) : σ → List ι → List ι
  | _, [] => []
  | s, a :: as =>
    if drop (step s a).2 then purge step drop (step s a).1 as
    else a :: purge step drop (step s a).1 as

/-- Two runs are purged one after the other. -/
theorem purge_append (step : σ → ι → σ × ω) (drop : ω → Bool) (s : σ) (as bs : List ι) :
    purge step drop s (as ++ bs) =
      purge step drop s as ++ purge step drop (state step s as) bs := by
  induction as generalizing s with
  | nil => rfl
  | cons a as ih =>
    rw [List.cons_append, purge, purge, ih]
    split_ifs <;> rfl

/-- Purging adds nothing and keeps the order. -/
theorem purge_sublist (step : σ → ι → σ × ω) (drop : ω → Bool) (s : σ) (as : List ι) :
    List.Sublist (purge step drop s as) as := by
  induction as generalizing s with
  | nil => exact .slnil
  | cons a as ih =>
    rw [purge]
    split_ifs with h
    · exact (ih _).cons a
    · exact (ih _).cons_cons a

/-- A run without such outputs keeps all its inputs. -/
theorem purge_eq_self {step : σ → ι → σ × ω} {drop : ω → Bool} {s : σ} {as : List ι}
    (h : EveryStep step (fun s a => drop (step s a).2 = false) s as) :
    purge step drop s as = as := by
  induction as generalizing s with
  | nil => rfl
  | cons a as ih => rw [purge, if_neg (by simp [h.1]), ih h.2]

/-- The unwinding rule: a relation that the kept inputs keep on both sides, and the dropped ones on
the side that has them, holds between the run and the run without them. -/
theorem state_purge {step : σ → ι → σ × ω} {drop : ω → Bool} {R : σ → σ → Prop}
    (hkeep : ∀ s t a, R s t → drop (step s a).2 = false → R (step s a).1 (step t a).1)
    (hdrop : ∀ s t a, R s t → drop (step s a).2 = true → R (step s a).1 t)
    {s t : σ} (hR : R s t) (as : List ι) :
    R (state step s as) (state step t (purge step drop s as)) := by
  induction as generalizing s t with
  | nil => exact hR
  | cons a as ih =>
    rw [purge]
    split_ifs with h
    · exact ih (hdrop s t a hR h)
    · exact ih (hkeep s t a hR (by simpa using h))

/-! ## Partial machines -/

/-- The state after a list of inputs, if the machine has a step for each. -/
def run (step : σ → ι → Option σ) : σ → List ι → Option σ
  | s, [] => some s
  | s, a :: as => (step s a).bind fun s' => run step s' as

/-- Every step of the run meets `ok`, read in the state before the step. -/
def EveryRunStep (step : σ → ι → Option σ) (ok : σ → ι → Prop) : σ → List ι → Prop
  | _, [] => True
  | s, a :: as => ok s a ∧ ∀ s', step s a = some s' → EveryRunStep step ok s' as

instance EveryRunStep.decidable (step : σ → ι → Option σ) (ok : σ → ι → Prop)
    [∀ s a, Decidable (ok s a)] : ∀ s as, Decidable (EveryRunStep step ok s as)
  | _, [] => .isTrue True.intro
  | s, a :: as =>
    have (s' : σ) := EveryRunStep.decidable step ok s' as
    inferInstanceAs (Decidable (ok s a ∧ ∀ s' ∈ step s a, EveryRunStep step ok s' as))

/-- What a run emits: for each of its steps, what the step emits in the state before it. -/
def trace (step : σ → ι → Option σ) (emit : σ → ι → List ω) : σ → List ι → List ω
  | _, [] => []
  | s, a :: as => emit s a ++ (step s a).elim [] fun s' => trace step emit s' as

/-- A condition on the inputs alone is one on the steps. -/
theorem EveryRunStep.of_forall (step : σ → ι → Option σ) {ok : ι → Prop} {as : List ι}
    (h : ∀ a ∈ as, ok a) (s : σ) : EveryRunStep step (fun _ a => ok a) s as := by
  induction as generalizing s with
  | nil => exact True.intro
  | cons a as ih => exact ⟨h a (by simp), fun s' _ => ih (fun a' ha' => h a' (by simp [ha'])) s'⟩

/-- A run that meets no condition in particular. -/
theorem EveryRunStep.trivial (step : σ → ι → Option σ) (s : σ) (as : List ι) :
    EveryRunStep step (fun _ _ => True) s as :=
  .of_forall step (fun _ _ => True.intro) s

/-- An invariant that every step meeting `ok` keeps holds at the end of each run of such steps. -/
theorem run_invariant (Inv : σ → Prop) {step : σ → ι → Option σ} {ok : σ → ι → Prop}
    (hstep : ∀ s a s', Inv s → ok s a → step s a = some s' → Inv s') {s s' : σ} (hs : Inv s)
    {as : List ι} (hok : EveryRunStep step ok s as) (hrun : run step s as = some s') : Inv s' := by
  induction as generalizing s with
  | nil =>
    obtain rfl := Option.some.inj hrun
    exact hs
  | cons a as ih =>
    obtain ⟨s₁, h₁, hrun⟩ := Option.bind_eq_some_iff.mp hrun
    exact ih (hstep s a s₁ hs hok.1 h₁) (hok.2 s₁ h₁) hrun

/-- A run that may fail goes on from where the first part ends. -/
theorem run_append (step : σ → ι → Option σ) (s : σ) (as bs : List ι) :
    run step s (as ++ bs) = (run step s as).bind fun s' => run step s' bs := by
  induction as generalizing s with
  | nil => rfl
  | cons a as ih =>
    rw [List.cons_append, run, run, Option.bind_assoc]
    exact congrArg _ (funext ih)

/-- The steps of a run meet a condition that holds wherever the run may take a step. -/
theorem EveryRunStep.of_prefixes {step : σ → ι → Option σ} {ok : σ → ι → Prop} {s : σ} {as : List ι}
    (h : ∀ pre a s', pre ++ [a] <+: as → run step s pre = some s' → ok s' a) :
    EveryRunStep step ok s as := by
  induction as generalizing s with
  | nil => exact True.intro
  | cons a as ih =>
    refine ⟨h [] a s ⟨as, rfl⟩ rfl, fun s₁ h₁ => ih fun pre b s' hpre hrun => ?_⟩
    refine h (a :: pre) b s' (List.cons_prefix_cons.mpr ⟨rfl, hpre⟩) ?_
    rw [run, h₁]
    exact hrun

/-- The steps of a run meet the condition as far as the run goes. -/
theorem EveryRunStep.left {step : σ → ι → Option σ} {ok : σ → ι → Prop} {s : σ} {as bs : List ι}
    (h : EveryRunStep step ok s (as ++ bs)) : EveryRunStep step ok s as := by
  induction as generalizing s with
  | nil => exact True.intro
  | cons a as ih => exact ⟨h.1, fun s' hs' => ih (h.2 s' hs')⟩

/-- The last step of a run meets the condition. -/
theorem EveryRunStep.last {step : σ → ι → Option σ} {ok : σ → ι → Prop} {s s' : σ} {as : List ι}
    {a : ι} (h : EveryRunStep step ok s (as ++ [a])) (hrun : run step s as = some s') :
    ok s' a := by
  induction as generalizing s with
  | nil =>
    obtain rfl := Option.some.inj hrun
    exact h.1
  | cons b as ih =>
    obtain ⟨s₁, h₁, hrun⟩ := Option.bind_eq_some_iff.mp hrun
    exact ih (h.2 s₁ h₁) hrun

/-- `run_invariant` for an invariant that also speaks of what was emitted so far. -/
theorem run_trace_invariant (Inv : σ → List ω → Prop) {step : σ → ι → Option σ}
    {emit : σ → ι → List ω} {ok : σ → ι → Prop}
    (hstep : ∀ s l a s', Inv s l → ok s a → step s a = some s' → Inv s' (l ++ emit s a))
    {s s' : σ} {l : List ω} (hs : Inv s l) {as : List ι} (hok : EveryRunStep step ok s as)
    (hrun : run step s as = some s') : Inv s' (l ++ trace step emit s as) := by
  induction as generalizing s l with
  | nil =>
    obtain rfl := Option.some.inj hrun
    simpa [trace] using hs
  | cons a as ih =>
    obtain ⟨s₁, h₁, hrun⟩ := Option.bind_eq_some_iff.mp hrun
    have hs₁ := ih (hstep s l a s₁ hs hok.1 h₁) (hok.2 s₁ h₁) hrun
    rw [trace, h₁, Option.elim_some, ← List.append_assoc]
    exact hs₁

end Machine
