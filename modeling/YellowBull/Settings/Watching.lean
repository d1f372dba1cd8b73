import YellowBull.Lib.Heap
import YellowBull.Lib.Machine
import YellowBull.Settings.Reload

/-!
# Watching the configuration file

`Settings.watch` of `config/settings.py`, with its handle and its watcher thread. The thread tests
`self._stop_event` at the head of its loop, but only the handle is given that attribute: the test
raises an `AttributeError`, and the thread is over before its first poll. So the callback is called
as it should be just where it is never due, and where no content fails to load
(`followsFile_iff`).
-/

namespace YellowBull

open Py

/-- What the callback raises for a path, if it raises. -/
abbrev WatchCallback := Text → Option Exn

/-- `WatchHandle`, with its `_stop_event` if that is not `None`. -/
structure WatchHandle where
  stop_event : Option Ref
  callback : Option WatchCallback

/-- `_ConfigWatcher`, with its `_stop_event` if it has that attribute. -/
structure ConfigWatcher where
  path : Text
  callback : Option WatchCallback
  hash : String
  stop_event : Option Ref

/-- The thread of a watcher: it sleeps in its loop, or it has left it. -/
inductive WatcherThread where
  | sleeping
  | ended
  | died (e : Exn)
  deriving DecidableEq

/-- A file that is watched: the `Event` objects, set or not, the handle, the watcher with its
thread, and the cached settings. -/
structure Watch (σ : Type) where
  events : Heap Bool
  handle : WatchHandle
  watcher : ConfigWatcher
  thread : WatcherThread
  cache : ConfigCache σ

/-- What happens to a watched file: the watcher's sleep is over and it sees a content, or no file,
or `handle.stop()` is called. -/
inductive WatchEvent where
  | poll (content : Option (List UInt8))
  | stop
  deriving DecidableEq

/-- The content that an event shows. -/
def WatchEvent.content : WatchEvent → Option (List UInt8)
  | poll content => content
  | stop => none

/-- `hashlib.md5(..).hexdigest()`. -/
abbrev Digest := List UInt8 → String

namespace Watch

variable {σ : Type}

/-- `self._stop_event` of a watcher that has none. -/
def noStopEvent : Exn :=
  ⟨.attributeError, "'_ConfigWatcher' object has no attribute '_stop_event'"⟩

/-- The head of the loop of `run`: `while not self._stop_event.is_set()`. -/
def loopHead (w : Watch σ) : Watch σ :=
  match w.watcher.stop_event with
  | none => { w with thread := .died noStopEvent }
  | some event => { w with thread := if w.events.read event then .ended else .sleeping }

/-- `_ConfigWatcher.__init__` for a file with the given content, if there is one. -/
def init (md5 : Digest) (content : Option (List UInt8)) (path : Text)
    (callback : Option WatchCallback) (handle : WatchHandle) (events : Heap Bool) :
    ConfigWatcher × WatchHandle × Heap Bool :=
  let event := events.alloc false
  ({ path, callback, hash := (content.map md5).getD "", stop_event := none },
    { handle with stop_event := some event.1 }, event.2)

/-- `Settings.watch`, up to the thread's first sleep. -/
def watch (md5 : Digest) (content : Option (List UInt8)) (config_path : Text)
    (callback : Option WatchCallback) (cache : ConfigCache σ) : Watch σ :=
  let made := init md5 content config_path callback ⟨none, callback⟩ .empty
  loopHead
    { watcher := made.1, handle := made.2.1, events := made.2.2, thread := .sleeping, cache }

/-- `WatchHandle.stop`. -/
def stop (w : Watch σ) : Watch σ :=
  match w.handle.stop_event with
  | none => w
  | some event => { w with events := w.events.write event true }

/-- The `try` statement of the loop: the paths that the callback is called with. -/
def reload (S : ConfigSystem σ) (bytes : List UInt8) (w : Watch σ) : Watch σ × List Text :=
  let raise (e : Exn) (w : Watch σ) : Watch σ :=
    if e.IsException then w else { w with thread := .died e }
  match S.loadSettings (fun _ => .content bytes) (some w.watcher.path) w.cache with
  | (.error e, cache) => (raise e { w with cache }, [])
  | (.ok _, cache) =>
    match w.watcher.callback with
    | none => ({ w with cache }, [])
    | some callback =>
      ((callback w.watcher.path).elim { w with cache } fun e => raise e { w with cache },
        [w.watcher.path])

/-- `self._hash = new_hash`. -/
def setHash (w : Watch σ) (new_hash : String) : Watch σ :=
  { w with watcher := { w.watcher with hash := new_hash } }

/-- The body of the loop after the sleep. -/
def loopBody (S : ConfigSystem σ) (md5 : Digest) (w : Watch σ) :
    Option (List UInt8) → Watch σ × List Text
  | none => (w, [])
  | some bytes =>
    let new_hash := md5 bytes
    if new_hash ≠ w.watcher.hash then reload S bytes (w.setHash new_hash) else (w, [])

/-- One event: what becomes of the watch, and the paths that the callback is called with. -/
def step (S : ConfigSystem σ) (md5 : Digest) (w : Watch σ) : WatchEvent → Watch σ × List Text
  | .poll content =>
    if w.thread = .sleeping then
      let polled := loopBody S md5 w content
      (if polled.1.thread = .sleeping then polled.1.loopHead else polled.1, polled.2)
    else (w, [])
  | .stop => (w.stop, [])

end Watch

/-! ## When the callback is due -/

namespace ConfigSystem

variable {σ : Type} (S : ConfigSystem σ)

/-- A file with this content is loaded. -/
def Loads (bytes : List UInt8) : Prop :=
  ∃ settings, (S.readConfig (.content bytes)).bind S.interpret = .ok settings

instance : DecidablePred S.Loads := fun bytes =>
  match h : (S.readConfig (.content bytes)).bind S.interpret with
  | .ok settings => .isTrue ⟨settings, h⟩
  | .error _ => .isFalse fun ⟨_, h'⟩ => by
    rw [h] at h'
    cases h'

/-- The last content seen, or the one at the start. -/
def lastSeen (initial : Option (List UInt8)) (pre : List WatchEvent) : Option (List UInt8) :=
  (pre.filterMap WatchEvent.content).getLast?.or initial

/-- The calls that are due at an event, after the events before it. -/
def dueCalls (path : Text) (initial : Option (List UInt8)) (pre : List WatchEvent) :
    WatchEvent → List Text
  | .poll (some bytes) =>
    if .stop ∉ pre ∧ lastSeen initial pre ≠ some bytes ∧ S.Loads bytes then [path] else []
  | _ => []

/-- A watch, from its first state on, calls the callback just where it is due, and goes on polling
after a content that does not load. -/
structure FollowsFile (md5 : Digest) (path : Text) (initial : Option (List UInt8)) (w : Watch σ)
    (events : List WatchEvent) : Prop where
  calls : ∀ pre event post, events = pre ++ event :: post →
    (Watch.step S md5 (Machine.state (Watch.step S md5) w pre) event).2 =
      S.dueCalls path initial pre event
  polls : ∀ pre bytes post, events = pre ++ .poll (some bytes) :: post → .stop ∉ pre →
    ¬ S.Loads bytes →
      (Machine.state (Watch.step S md5) w (pre ++ [.poll (some bytes)])).thread = .sleeping

/-- Up to the stop there is nothing to do: each content seen is the one seen before, and loads. -/
def NothingToDo (initial : Option (List UInt8)) (events : List WatchEvent) : Prop :=
  ∀ pre bytes post, events = pre ++ .poll (some bytes) :: post →
    .stop ∈ pre ∨ lastSeen initial pre = some bytes ∧ S.Loads bytes

variable {S}

/-- Nothing is due where there is nothing to do. -/
theorem NothingToDo.dueCalls_eq {initial : Option (List UInt8)} {events pre post : List WatchEvent}
    {event : WatchEvent} (h : S.NothingToDo initial events) (hsplit : events = pre ++ event :: post)
    (path : Text) : S.dueCalls path initial pre event = [] := by
  match event with
  | .stop | .poll none => rfl
  | .poll (some bytes) =>
    refine if_neg fun hdue => ?_
    obtain hstop | ⟨hseen, -⟩ := h pre bytes post hsplit
    · exact hdue.1 hstop
    · exact hdue.2.1 hseen

end ConfigSystem

/-! ## The thread that dies -/

namespace Watch

variable {σ : Type} {S : ConfigSystem σ} {md5 : Digest}

/-- A thread that has died stays so, and calls nothing. -/
theorem step_of_died {w : Watch σ} {e : Exn} (hw : w.thread = .died e) (event : WatchEvent) :
    (step S md5 w event).1.thread = .died e ∧ (step S md5 w event).2 = [] := by
  cases event with
  | poll => simp [step, hw]
  | stop =>
    refine ⟨?_, rfl⟩
    rw [step, stop]
    split <;> exact hw

/-- The thread of a watch never polls. -/
theorem thread_watch (initial : Option (List UInt8)) (path : Text)
    (callback : Option WatchCallback) (cache : ConfigCache σ) (events : List WatchEvent) :
    (Machine.state (step S md5) (watch md5 initial path callback cache) events).thread =
      .died noStopEvent :=
  Machine.state_invariant (fun w : Watch σ => w.thread = .died noStopEvent)
    (fun _ event hw => (step_of_died hw event).1) rfl events

/-- A watch follows its file exactly on the runs that give it nothing to do. -/
theorem followsFile_iff (S : ConfigSystem σ) (md5 : Digest) (path : Text)
    (callback : WatchCallback) (initial : Option (List UInt8)) (cache : ConfigCache σ)
    (events : List WatchEvent) :
    S.FollowsFile md5 path initial (watch md5 initial path (some callback) cache) events ↔
      S.NothingToDo initial events := by
  -- The thread has died before its first poll, whatever happened since.
  have hthread (pre : List WatchEvent) :
      (Machine.state (step S md5) (watch md5 initial path (some callback) cache) pre).thread =
        .died noStopEvent := thread_watch ..
  constructor
  · intro h pre bytes post hsplit
    refine or_iff_not_imp_left.mpr fun hstop => ?_
    have hloads : S.Loads bytes := by
      by_contra hloads
      have hpolls := h.polls pre bytes post hsplit hstop hloads
      rw [hthread] at hpolls
      cases hpolls
    refine ⟨?_, hloads⟩
    -- A change that is due to be reported is not, since nobody polls.
    by_contra hseen
    have hcalls := h.calls pre (.poll (some bytes)) post hsplit
    rw [(step_of_died (hthread pre) _).2, ConfigSystem.dueCalls, if_pos ⟨hstop, hseen, hloads⟩]
      at hcalls
    cases hcalls
  -- With nothing to do, doing nothing is right.
  · intro h
    refine ⟨fun pre event post hsplit => ?_, fun pre bytes post hsplit hstop hloads => ?_⟩
    · rw [(step_of_died (hthread pre) event).2, h.dueCalls_eq hsplit]
    · exact absurd ((h pre bytes post hsplit).resolve_left hstop).2 hloads

/-- The MD5 digests of two contents. -/
def twoDigests : Digest := fun bytes =>
  if bytes = [] then "d41d8cd98f00b204e9800998ecf8427e" else "c965d9a575501f8fcee3be9e1b59d42a"

/-- A new content that loads, and no call. -/
theorem new_content_not_reported :
    ¬ ∀ (S : ConfigSystem (List (Text × Yaml))) (md5 : Digest) (path : Text)
      (callback : WatchCallback) (initial : Option (List UInt8))
      (cache : ConfigCache (List (Text × Yaml))) (events : List WatchEvent),
        S.FollowsFile md5 path initial (watch md5 initial path (some callback) cache) events := by
  intro h
  have hcalls := (h .keywordSystem twoDigests (text "config.yaml") (fun _ => none) (some [])
    ⟨none, []⟩ [.poll (some [97, 58, 32, 98])]).calls [] (.poll (some [97, 58, 32, 98])) [] rfl
  revert hcalls
  decide

end Watch

end YellowBull
