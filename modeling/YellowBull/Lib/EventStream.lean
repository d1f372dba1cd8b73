import Mathlib.Data.List.TakeWhile

/-!
# Event streams

The part of the event stream format that carries data, on the characters of a stream. A line ends at
a line feed, a carriage return or the two in a row. A line `data: text` adds a line to the event
under way, and an empty line ends the event if it has a data line. What is after the last empty line
is dropped.

Text that has no line break comes back from a frame as it was put there (`events_frame`). Of any
other text the first event has at least the first line (`firstLine_of_head`).
-/

namespace EventStream

/-- The complete lines of a stream, after the start `line` of the first one and, where `cr` is set,
after a carriage return. -/
def lines : Bool → List Char → List Char → List (List Char)
  | _, _, [] => []
  | cr, line, c :: cs =>
    if c = '\n' then if cr then lines false line cs else line :: lines false [] cs
    else if c = '\r' then line :: lines true [] cs
    else lines false (line ++ [c]) cs

/-- A value without the space that it may start with. -/
def dropSpace : List Char → List Char
  | ' ' :: value => value
  | value => value

/-- The value of a line whose field is `data`. -/
def dataOf (line : List Char) : Option (List Char) :=
  if line.takeWhile (· ≠ ':') = ['d', 'a', 't', 'a'] then
    some (dropSpace ((line.dropWhile (· ≠ ':')).drop 1))
  else none

/-- The data of the events that some lines end, after the data lines `data`. -/
def eventsOf : List (List Char) → List (List Char) → List (List Char)
  | _, [] => []
  | data, line :: rest =>
    if line = [] then
      if data = [] then eventsOf [] rest else ['\n'].intercalate data :: eventsOf [] rest
    else eventsOf (data ++ (dataOf line).toList) rest

/-- The data of the events of a stream. -/
def events (cs : List Char) : List (List Char) := eventsOf [] (lines false [] cs)

/-! ## Texts without line breaks -/

/-- A text within one line. -/
def OneLine (cs : List Char) : Prop := ∀ c ∈ cs, c ≠ '\n' ∧ c ≠ '\r'

/-- Two texts without a line end have none together. -/
theorem OneLine.append {l m : List Char} (hl : OneLine l) (hm : OneLine m) : OneLine (l ++ m) := by
  intro c hc
  rcases List.mem_append.mp hc with hc | hc
  · exact hl c hc
  · exact hm c hc

/-- What is read before a line break is the line under way. -/
theorem lines_append {l : List Char} (hl : OneLine l) (line cs : List Char) :
    lines false line (l ++ cs) = lines false (line ++ l) cs := by
  induction l generalizing line with
  | nil => simp
  | cons c l ih =>
    obtain ⟨hlf, hcr⟩ := hl c (by simp)
    rw [List.cons_append, lines, if_neg hlf, if_neg hcr, ih fun c' hc' => hl c' (by simp [hc'])]
    simp

/-- The data of a `data` field is what stands behind the colon and a space. -/
theorem dataOf_cons (text : List Char) :
    dataOf ('d' :: 'a' :: 't' :: 'a' :: ':' :: ' ' :: text) = some text := by
  simp [dataOf, dropSpace]

/-- A frame around a text within one line is the event with this text. -/
theorem events_frame {text : List Char} (htext : OneLine text) (cs : List Char) :
    events ('d' :: 'a' :: 't' :: 'a' :: ':' :: ' ' :: (text ++ '\n' :: '\n' :: cs)) =
      text :: events cs := by
  have hline : OneLine ('d' :: 'a' :: 't' :: 'a' :: ':' :: ' ' :: text) :=
    OneLine.append (l := ['d', 'a', 't', 'a', ':', ' ']) (by simp [OneLine]) htext
  have hlines := lines_append hline [] ('\n' :: '\n' :: cs)
  unfold events
  rw [List.nil_append] at hlines
  rw [show 'd' :: 'a' :: 't' :: 'a' :: ':' :: ' ' :: (text ++ '\n' :: '\n' :: cs) =
    ('d' :: 'a' :: 't' :: 'a' :: ':' :: ' ' :: text) ++ '\n' :: '\n' :: cs from rfl, hlines]
  simp [lines, eventsOf, dataOf_cons]

/-- An empty line between events. -/
theorem events_blank (cs : List Char) : events ('\n' :: cs) = events cs := by
  simp [events, lines, eventsOf]

/-! ## The first line -/

/-- A text up to its first line break. -/
def firstLine (cs : List Char) : List Char := cs.takeWhile fun c => c ≠ '\n' ∧ c ≠ '\r'

/-- The first line has no line end. -/
theorem oneLine_firstLine (cs : List Char) : OneLine (firstLine cs) := by
  intro c hc
  simpa using List.mem_takeWhile_imp hc

/-- A text without a line end goes to the first line. -/
theorem firstLine_append {l : List Char} (hl : OneLine l) (cs : List Char) :
    firstLine (l ++ cs) = l ++ firstLine cs :=
  List.takeWhile_append_of_pos fun c hc => by simpa using hl c hc

/-- Further data lines come after the first one. -/
theorem firstLine_intercalate {line : List Char} (hline : OneLine line) (data : List (List Char)) :
    firstLine (['\n'].intercalate (line :: data)) = line := by
  cases data with
  | nil => simpa [firstLine] using firstLine_append hline []
  | cons l data =>
    have hcons : ['\n'].intercalate (line :: l :: data) =
        line ++ '\n' :: ['\n'].intercalate (l :: data) := by simp [List.intercalate]
    rw [hcons, firstLine_append hline]
    simp [firstLine]

/-- The event under way keeps its first data line. -/
theorem firstLine_of_head_eventsOf {line : List Char} (hline : OneLine line)
    (data rest : List (List Char)) {event : List Char}
    (hevent : (eventsOf (line :: data) rest).head? = some event) : firstLine event = line := by
  induction rest generalizing data with
  | nil => simp [eventsOf] at hevent
  | cons l rest ih =>
    rw [eventsOf] at hevent
    -- An empty line ends the event, which has a data line.
    split_ifs at hevent with hl hnil
    · cases hnil
    · obtain rfl := Option.some.inj hevent
      exact firstLine_intercalate hline data
    · exact ih (data ++ (dataOf l).toList) hevent

/-- A text that is followed by a line feed has a line break after its first line, in it or behind
it. -/
theorem exists_break (text cs : List Char) : ∃ c cs', (c = '\n' ∨ c = '\r') ∧
    text ++ '\n' :: cs = firstLine text ++ c :: cs' := by
  induction text with
  | nil => exact ⟨'\n', cs, .inl rfl, rfl⟩
  | cons c text ih =>
    by_cases hc : c ≠ '\n' ∧ c ≠ '\r'
    · obtain ⟨c', cs', hbreak, hcs⟩ := ih
      refine ⟨c', cs', hbreak, ?_⟩
      rw [List.cons_append, hcs, firstLine, firstLine,
        List.takeWhile_cons_of_pos (by simpa using hc)]
      rfl
    · refine ⟨c, text ++ '\n' :: cs, or_iff_not_imp_left.mpr (by simpa using hc), ?_⟩
      rw [firstLine, List.takeWhile_cons_of_neg (by simpa using hc)]
      rfl

/-- Whatever comes after it, the first line of a text in a frame is the first line of the first
event. -/
theorem firstLine_of_head {text cs event : List Char}
    (hevent : (events ('d' :: 'a' :: 't' :: 'a' :: ':' :: ' ' :: (text ++ '\n' :: cs))).head? =
      some event) : firstLine event = firstLine text := by
  have htext := oneLine_firstLine text
  -- The frame is one whole line with the first line of the text, and something after it.
  obtain ⟨c, cs', hbreak, hcs⟩ := exists_break text cs
  rw [hcs] at hevent
  generalize firstLine text = first at hevent htext ⊢
  generalize hprefix : 'd' :: 'a' :: 't' :: 'a' :: ':' :: ' ' :: first = line
  have hline : OneLine line :=
    hprefix ▸ OneLine.append (l := ['d', 'a', 't', 'a', ':', ' ']) (by simp [OneLine]) htext
  have hdata : dataOf line = some first := hprefix ▸ dataOf_cons first
  have hne : line ≠ [] := hprefix ▸ by simp
  have hstream : 'd' :: 'a' :: 't' :: 'a' :: ':' :: ' ' :: (first ++ c :: cs') =
      line ++ c :: cs' := by rw [← hprefix]; rfl
  have hevents : ∃ cr, events (line ++ c :: cs') = eventsOf [first] (lines cr [] cs') := by
    unfold events
    rw [lines_append hline, List.nil_append, lines]
    -- After a carriage return, a line feed does not end another line.
    rcases hbreak with rfl | rfl
    · exact ⟨false, by simp [eventsOf, hne, hdata]⟩
    · exact ⟨true, by simp [eventsOf, hne, hdata]⟩
  obtain ⟨cr, hevents⟩ := hevents
  rw [hstream, hevents] at hevent
  exact firstLine_of_head_eventsOf htext [] _ hevent

end EventStream
