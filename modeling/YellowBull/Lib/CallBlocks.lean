import Mathlib.Data.List.Basic

/-!
# Lists of calls and answers

A log holds items of which some make calls (`calls a` lists the keys of the calls of `a`) and some
answer one (`answer a = some k` when `a` answers the call `k`). A log is made of *blocks* when it is
a sequence of non-answers, each followed by exactly the answers to its calls, in order (`Blocks`).
Such a log has no orphan answer and no open call (`Blocks.noOrphan`, `Blocks.everyCallAnswered`),
and a suffix of it is again made of blocks unless it starts inside the answers of one
(`Blocks.of_suffix`).

`Answered` is the weaker invariant of a log that may hold stray answers: the calls of each item are
answered by the items right behind it.
-/

namespace CallBlocks

variable {α β κ : Type*} (calls : α → List κ) (answer : α → Option κ)

/-- A sequence of non-answers, each followed by exactly the answers to its calls, in order. -/
inductive Blocks : List α → Prop
  | nil : Blocks []
  | cons {a : α} {ts l : List α} (ha : answer a = none)
      (hts : ts.map answer = (calls a).map some) (hl : Blocks l) : Blocks (a :: (ts ++ l))

/-- Every answer is preceded, with only answers in between, by the item that made its call. -/
def NoOrphan (l : List α) : Prop :=
  ∀ pre t post k, l = pre ++ t :: post → answer t = some k →
    ∃ pre' a mid, pre = pre' ++ a :: mid ∧ k ∈ calls a ∧ ∀ x ∈ mid, (answer x).isSome

/-- Every call of every item has its answer in the run of answers right behind the item. -/
def EveryCallAnswered (l : List α) : Prop :=
  ∀ pre a post, l = pre ++ a :: post → ∀ k ∈ calls a,
    some k ∈ (post.takeWhile fun x => (answer x).isSome).map answer

/-- The calls of each item are answered, in order, by the items right behind it. -/
def Answered : List α → Prop
  | [] => True
  | a :: l => (calls a).map some <+: l.map answer ∧ Answered l

instance Answered.decidable [DecidableEq κ] : ∀ l, Decidable (Answered calls answer l)
  | [] => .isTrue trivial
  | _ :: l =>
    have := Answered.decidable l
    inferInstanceAs (Decidable (_ ∧ _))

variable {calls answer}

/-! ## Blocks -/

/-- Items that match a list of calls are all answers. -/
theorem isSome_of_map_eq {ts : List α} {ks : List κ} (h : ts.map answer = ks.map some) :
    ∀ t ∈ ts, (answer t).isSome := by
  intro t ht
  obtain ⟨k, -, hk⟩ := List.mem_map.mp (h ▸ List.mem_map_of_mem (f := answer) ht)
  simp [← hk]

/-- An item that makes no call and is no answer is a block of its own. -/
theorem Blocks.singleton {a : α} (ha : answer a = none) (hc : calls a = []) :
    Blocks calls answer [a] :=
  have hts : ([] : List α).map answer = (calls a).map some := by simp [hc]
  .cons ha hts .nil

/-- Two logs made of blocks, one after the other. -/
theorem Blocks.append {l m : List α} (hl : Blocks calls answer l) (hm : Blocks calls answer m) :
    Blocks calls answer (l ++ m) := by
  induction hl with
  | nil => exact hm
  | cons ha hts _ ih =>
    rw [List.cons_append, List.append_assoc]
    exact .cons ha hts ih

/-- Logs made of blocks, joined. -/
theorem Blocks.flatten {ls : List (List α)} (h : ∀ l ∈ ls, Blocks calls answer l) :
    Blocks calls answer ls.flatten := by
  induction ls with
  | nil => exact .nil
  | cons l ls ih =>
    rw [List.flatten_cons]
    exact (h l (by simp)).append (ih fun l' hl' => h l' (by simp [hl']))

/-- A conversion that keeps answers keeps the list of them. -/
theorem map_answer_filterMap {answer' : β → Option κ} {f : α → Option β} {ts : List α}
    (hf : ∀ t ∈ ts, ∃ u, f t = some u ∧ answer' u = answer t) :
    (ts.filterMap f).map answer' = ts.map answer := by
  induction ts with
  | nil => rfl
  | cons t ts ih =>
    obtain ⟨u, hu, hanswer⟩ := hf t (by simp)
    rw [List.filterMap_cons_some hu, List.map_cons, List.map_cons, hanswer,
      ih fun t' ht' => hf t' (by simp [ht'])]

/-- A conversion that keeps calls and answers keeps the blocks. -/
theorem Blocks.filterMap {calls' : β → List κ} {answer' : β → Option κ} {f : α → Option β}
    {l : List α}
    (hf : ∀ a ∈ l, ∃ b, f a = some b ∧ calls' b = calls a ∧ answer' b = answer a)
    (hl : Blocks calls answer l) : Blocks calls' answer' (l.filterMap f) := by
  induction hl with
  | nil => exact .nil
  | @cons a ts l ha hts _ ih =>
    obtain ⟨b, hb, hcalls, hanswer⟩ := hf a (by simp)
    rw [List.filterMap_cons_some hb, List.filterMap_append]
    refine .cons (by rw [hanswer, ha]) ?_ (ih fun x hx => hf x (by simp [hx]))
    rw [hcalls, ← hts]
    refine map_answer_filterMap fun t ht => ?_
    obtain ⟨u, hu, -, hansweru⟩ := hf t (by simp [ht])
    exact ⟨u, hu, hansweru⟩

/-- A suffix of a log made of blocks is the rest of one block's answers and then blocks again. -/
theorem Blocks.suffix {l : List α} (hl : Blocks calls answer l) :
    ∀ {s : List α}, s <:+ l →
      ∃ ts s', s = ts ++ s' ∧ (∀ t ∈ ts, (answer t).isSome) ∧ Blocks calls answer s' := by
  induction hl with
  | nil =>
    intro s hs
    exact ⟨[], [], by simpa using hs, by simp, .nil⟩
  | @cons a ts l ha hts hl ih =>
    intro s hs
    have hsome := isSome_of_map_eq hts
    rcases List.suffix_cons_iff.mp hs with rfl | hs
    · exact ⟨[], _, rfl, by simp, .cons ha hts hl⟩
    · -- The suffix starts in the answers `ts` of the first block or behind them.
      obtain ⟨p, hp⟩ := hs
      rcases List.append_eq_append_iff.mp hp with ⟨q, hq, rfl⟩ | ⟨q, -, hq⟩
      · exact ⟨q, l, rfl, fun t ht => hsome t (by simp [hq, ht]), hl⟩
      · exact ih ⟨q, hq.symm⟩

/-- A suffix that does not start with an answer is made of blocks. -/
theorem Blocks.of_suffix {l s : List α} (hl : Blocks calls answer l) (hs : s <:+ l)
    (hhead : ∀ a ∈ s.head?, answer a = none) : Blocks calls answer s := by
  obtain ⟨ts, s', rfl, hts, hs'⟩ := hl.suffix hs
  cases ts with
  | nil => simpa using hs'
  | cons t ts =>
    have := hts t (by simp)
    rw [hhead t (by simp)] at this
    simp at this

/-- A log made of blocks has no orphan answer. -/
theorem Blocks.noOrphan {l : List α} (hl : Blocks calls answer l) : NoOrphan calls answer l := by
  induction hl with
  | nil => intro pre t post k h; simp at h
  | @cons a ts l ha hts _ ih =>
    intro pre t post k h hk
    cases pre with
    | nil =>
      obtain ⟨rfl, -⟩ := List.cons.inj h
      simp [ha] at hk
    | cons b pre =>
      obtain ⟨rfl, hrest⟩ := List.cons.inj h
      rcases List.append_eq_append_iff.mp hrest with ⟨q, rfl, hq⟩ | ⟨q, rfl, hq⟩
      · -- The answer lies behind the first block.
        obtain ⟨pre', a', mid, rfl, hmem', hmid⟩ := ih q t post k hq hk
        exact ⟨a :: (ts ++ pre'), a', mid, by simp, hmem', hmid⟩
      · cases q with
        | nil =>
          -- It is the first item behind the first block's answers, and none of its own.
          rw [List.nil_append] at hq
          obtain ⟨pre', a', mid, hpre, hmem', hmid⟩ := ih [] t post k (by simpa using hq.symm) hk
          simp at hpre
        | cons t' q =>
          obtain ⟨rfl, -⟩ := List.cons.inj hq
          refine ⟨[], a, pre, by simp, ?_, ?_⟩
          · have hmem : answer t ∈ (calls a).map some := hts ▸ List.mem_map_of_mem (by simp)
            rw [hk] at hmem
            simpa using hmem
          · intro x hx
            exact isSome_of_map_eq hts x (by simp [hx])

/-- A log made of blocks has no open call, when answers make no calls. -/
theorem Blocks.everyCallAnswered {l : List α} (hc : ∀ x, (answer x).isSome → calls x = [])
    (hl : Blocks calls answer l) : EveryCallAnswered calls answer l := by
  induction hl with
  | nil => intro pre a post h; simp at h
  | @cons a ts l ha hts _ ih =>
    have hsome := isSome_of_map_eq hts
    intro pre b post h k hk
    cases pre with
    | nil =>
      -- The item that starts the first block: the answers right behind it are its own.
      obtain ⟨rfl, rfl⟩ := List.cons.inj h
      rw [List.takeWhile_append_of_pos hsome, List.map_append, hts]
      exact List.mem_append_left _ (List.mem_map_of_mem hk)
    | cons c pre =>
      obtain ⟨rfl, hrest⟩ := List.cons.inj h
      rcases List.append_eq_append_iff.mp hrest with ⟨q, rfl, hq⟩ | ⟨q, rfl, hq⟩
      · exact ih q b post hq k hk
      · cases q with
        | nil => exact ih [] b post (by simpa using hq.symm) k hk
        | cons t q =>
          -- An answer of the first block makes no call.
          obtain ⟨rfl, -⟩ := List.cons.inj hq
          rw [hc b (hsome b (by simp))] at hk
          simp at hk

/-! ## The weaker invariant -/

/-- An item that makes no call needs no answer. -/
theorem Answered.singleton {a : α} (hc : calls a = []) : Answered calls answer [a] :=
  ⟨by simp [hc], trivial⟩

/-- Two logs whose calls are answered, one after the other. -/
theorem Answered.append {l m : List α} (hl : Answered calls answer l)
    (hm : Answered calls answer m) : Answered calls answer (l ++ m) := by
  induction l with
  | nil => exact hm
  | cons a l ih =>
    have hpre : l.map answer <+: (l ++ m).map answer := by simp
    exact ⟨hl.1.trans hpre, ih hl.2⟩

/-- The calls of a suffix are answered within it. -/
theorem Answered.of_append {l m : List α} (h : Answered calls answer (l ++ m)) :
    Answered calls answer m := by
  induction l with
  | nil => exact h
  | cons a l ih => exact ih h.2

/-- The last item of a log whose calls are answered makes none. -/
theorem Answered.calls_last {l : List α} {a : α} (h : Answered calls answer (l ++ [a])) :
    calls a = [] := by
  have hpre := h.of_append.1
  simpa using hpre

/-- A log made of blocks has its calls answered, when answers make no calls. -/
theorem Blocks.answered {l : List α} (hc : ∀ x, (answer x).isSome → calls x = [])
    (hl : Blocks calls answer l) : Answered calls answer l := by
  induction hl with
  | nil => trivial
  | @cons a ts l ha hts _ ih =>
    refine ⟨?_, Answered.append ?_ ih⟩
    · rw [List.map_append, hts]
      exact List.prefix_append _ _
    · -- The answers of the block make no calls that would need an answer.
      have hnone : ∀ t ∈ ts, calls t = [] := fun t ht => hc t (isSome_of_map_eq hts t ht)
      clear hts
      induction ts with
      | nil => trivial
      | cons t ts iht =>
        exact ⟨by simp [hnone t (by simp)], iht fun t' ht' => hnone t' (by simp [ht'])⟩

end CallBlocks
