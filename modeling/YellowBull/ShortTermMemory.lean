import YellowBull.Lib.Deque
import YellowBull.Models

/-!
# The latest messages

Two parts of the code keep the latest messages of a conversation: `Session.get_context_messages`
(`models/session.py`), through which every LLM call goes, and `ShortTermMemory`
(`core/memory/short_term.py`). Both end in the slice `[-n:]`, so both answer the request for no
message, `n = 0`, with every message that there is.

Apart from that they are exact. The memory is a `Deque`, and over any run of appends and clears it
holds the last `capacity` messages since the last clear (`ShortTermMemory.run_messages`).
-/

namespace YellowBull

open Py

/-! ## The window of a session -/

/-- What `get_context_messages` documents: the SYSTEM messages, and of the others the last `n`, or
all where there are fewer. -/
def Session.window (s : Session) (n : ℕ) : List Message :=
  let non_system := s.messages.filter (·.role ≠ .system)
  let system_msgs := s.messages.filter (·.role = .system)
  system_msgs ++ non_system.rtake (min n non_system.length)

/-- `get_context_messages` returns the window, just if the window has a size or there is nothing
that it could leave out. -/
theorem Session.getContextMessages_eq_window_iff (s : Session) (n : ℕ) :
    s.getContextMessages n = s.window n ↔ n ≠ 0 ∨ ∀ m ∈ s.messages, m.role = .system := by
  have hnone : s.messages.filter (·.role ≠ .system) = [] ↔ ∀ m ∈ s.messages, m.role = .system := by
    simp
  rw [← hnone, ← sliceFrom_neg_eq_rtake_iff]
  exact List.append_right_inj _

/-- A window of size `0` that is not empty. -/
theorem Session.getContextMessages_zero :
    ¬ ∀ (s : Session) (n : ℕ), s.getContextMessages n = s.window n := by
  intro h
  have hzero := h { session_id := "s", messages := [{ role := .user, content := some "hi" }] } 0
  revert hzero
  decide

/-! ## Short-term memory -/

/-- `sys.maxsize`, the largest `maxlen` of a deque. -/
def ssizeMax : ℤ := 9223372036854775807

/-- `ShortTermMemory`: `_capacity` and `_messages`. -/
structure ShortTermMemory where
  capacity : ℕ
  messages : Deque Message
  one_le : 1 ≤ capacity
  maxlen_eq : messages.maxlen = capacity

namespace ShortTermMemory

/-- `ShortTermMemory.__init__`. `deque` raises where the capacity is no C integer. -/
def init (capacity : ℤ) : Except Exn ShortTermMemory :=
  if max capacity 1 ≤ ssizeMax then
    .ok {
      capacity := (max capacity 1).toNat
      messages := Deque.empty (max capacity 1).toNat
      one_le := by omega
      maxlen_eq := rfl }
  else .error ⟨.other, "Python int too large to convert to C ssize_t"⟩

variable (mem : ShortTermMemory)

/-- `ShortTermMemory.append`. -/
def append (message : Message) : ShortTermMemory :=
  { mem with messages := mem.messages.append message, maxlen_eq := mem.maxlen_eq }

/-- `ShortTermMemory.clear`. -/
def clear : ShortTermMemory :=
  { mem with messages := mem.messages.clear, maxlen_eq := mem.maxlen_eq }

/-- `ShortTermMemory.size`. -/
def size : ℕ := mem.messages.items.length

/-- `ShortTermMemory.get_recent`. -/
def getRecent (limit : ℤ) : List Message := sliceFrom mem.messages.items (-limit)

/-- The operations that change a memory. -/
inductive Op where
  | append (message : Message)
  | clear
  deriving DecidableEq

/-- One operation. -/
def step (mem : ShortTermMemory) : Op → ShortTermMemory
  | .append message => mem.append message
  | .clear => mem.clear

/-- A sequence of operations. -/
def run (mem : ShortTermMemory) (ops : List Op) : ShortTermMemory := ops.foldl step mem

/-- The messages appended since the last clear, after one more operation. -/
def record (appended : List Message) : Op → List Message
  | .append message => appended ++ [message]
  | .clear => []

/-- The messages appended since the last clear. -/
def sinceClear (ops : List Op) : List Message := ops.foldl record []

/-- No operation changes the capacity. -/
@[simp] theorem step_capacity (op : Op) : (mem.step op).capacity = mem.capacity := by
  cases op <;> rfl

/-- One operation keeps the memory the last `capacity` messages of a record. -/
theorem step_messages {appended : List Message} (op : Op)
    (h : mem.messages.items = appended.rtake mem.capacity) :
    (mem.step op).messages.items = (record appended op).rtake mem.capacity := by
  cases op with
  | append message =>
    calc (mem.append message).messages.items
      _ = (mem.messages.items ++ [message]).rtake mem.capacity := by
        rw [append, Deque.append_items, mem.maxlen_eq]
      _ = (appended ++ [message]).rtake mem.capacity := by rw [h, Deque.rtake_rtake_append]
  | clear => simp [step, clear, record]

/-- So does a sequence of operations. -/
theorem run_messages {appended : List Message} (ops : List Op)
    (h : mem.messages.items = appended.rtake mem.capacity) :
    (mem.run ops).messages.items = (ops.foldl record appended).rtake mem.capacity := by
  induction ops generalizing mem appended with
  | nil => exact h
  | cons op ops ih =>
    have hstep := mem.step_messages op h
    rw [← step_capacity mem op] at hstep
    have hrun := ih (mem.step op) hstep
    rw [step_capacity] at hrun
    exact hrun

/-- What MEM-01 asks of a memory of the given capacity after some operations: it holds the newest
messages since the last clear, and `get_recent(n)` returns the newest `n` of these. -/
def KeepsNewest (capacity : ℤ) (ops : List Op) (mem : ShortTermMemory) (n : ℕ) : Prop :=
  mem.messages.items =
      (sinceClear ops).rtake (min (max capacity 1).toNat (sinceClear ops).length) ∧
    mem.getRecent n = mem.messages.items.rtake (min n mem.size)

/-- A new memory is empty, with room for `max capacity 1` messages. -/
theorem init_eq_ok {capacity : ℤ} {mem : ShortTermMemory} (h : init capacity = .ok mem) :
    mem.capacity = (max capacity 1).toNat ∧ mem.messages.items = [] := by
  unfold init at h
  split at h
  · cases h
    exact ⟨rfl, rfl⟩
  · cases h

/-- Any operations on a memory that the constructor builds keep it the newest messages, just if
`get_recent` is asked for at least one message or none is stored. -/
theorem keepsNewest_iff {capacity : ℤ} {mem : ShortTermMemory} (h : init capacity = .ok mem)
    (ops : List Op) (n : ℕ) :
    KeepsNewest capacity ops (mem.run ops) n ↔ n ≠ 0 ∨ sinceClear ops = [] := by
  obtain ⟨hcap, hnil⟩ := init_eq_ok h
  have hnew : mem.messages.items = [].rtake mem.capacity := by rw [hnil, List.rtake_nil]
  have hrun : (mem.run ops).messages.items = (sinceClear ops).rtake mem.capacity :=
    mem.run_messages ops hnew
  have hstored : (mem.run ops).messages.items =
      (sinceClear ops).rtake (min (max capacity 1).toNat (sinceClear ops).length) := by
    have hmin : (sinceClear ops).length - min (max capacity 1).toNat (sinceClear ops).length =
        (sinceClear ops).length - (max capacity 1).toNat := by omega
    rw [hrun, hcap, List.rtake, List.rtake, hmin]
  -- A capacity is positive, so what is stored is empty only if nothing was appended.
  have hempty : (mem.run ops).messages.items = [] ↔ sinceClear ops = [] := by
    have hone := mem.one_le
    rw [hrun, List.rtake, List.drop_eq_nil_iff, ← List.length_eq_zero_iff]
    omega
  unfold KeepsNewest getRecent size
  rw [sliceFrom_neg_eq_rtake_iff, hempty, and_iff_right hstored]

/-- A memory for two messages that holds the newest two of three, and gives the newest one. -/
theorem keepsNewest_iff_three_messages : ∃ mem, init 2 = .ok mem ∧
    KeepsNewest 2 [.append { role := .user }, .append { role := .assistant },
      .append { role := .tool }] (mem.run [.append { role := .user },
      .append { role := .assistant }, .append { role := .tool }]) 1 :=
  ⟨_, rfl, (keepsNewest_iff rfl _ 1).mpr (Or.inl (by decide))⟩

/-- A memory that gives its message when it is asked for none. -/
theorem getRecent_zero : ¬ ∀ (capacity : ℤ) (mem : ShortTermMemory), init capacity = .ok mem →
    ∀ (ops : List Op) (n : ℕ), KeepsNewest capacity ops (mem.run ops) n := by
  intro h
  have hzero := (h 2 _ rfl [.append { role := .user }] 0).2
  revert hzero
  decide

end ShortTermMemory

end YellowBull
