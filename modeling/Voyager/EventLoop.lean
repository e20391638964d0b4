import Voyager.Lib.Runs
import Mathlib.Logic.Function.Basic
import Mathlib.Data.List.Range

/-!
`EventLoop` of core/eventloop.h and core/eventloop.cc: one thread polls, runs
timer callbacks, the handlers of the reported dispatches and then the batch of
queued functions; any thread may queue a function and wake the loop up.
Callbacks, handlers, functions and the destructors of what a function holds are
arbitrary: they may queue functions, register and remove dispatches, destroy
their owners and exit the loop. Pushing a function and waking the loop up are
separate steps, so that other threads and the loop come in between.
-/
namespace Voyager.EventLoop

open Lib.Runs

abbrev ThreadId := ℕ

/-- Who pushed a function: the loop thread before or after a call of `Loop`,
the loop thread inside of it, or another thread. -/
inductive Pusher
  | outsideLoop
  | insideLoop
  | thread (t : ThreadId)
deriving DecidableEq, Repr

/-- An entry of `funcs_`, numbered in push order. -/
structure Task (α : Type*) where
  id : ℕ
  pusher : Pusher
  func : α
deriving DecidableEq, Repr

/-- The dispatch of the wakeup socket, and those of all other owners. -/
inductive DispatchId (δ : Type*)
  | wakeup
  | owned (d : δ)
deriving DecidableEq, Repr

/-- Where the loop thread stands in `Loop`. In `test` it is about to read `exit_`,
in `poll` it is about to poll or blocked there; in `swap` it has set `run_` and not
yet taken the mutex; in `release` `RunFuncs` has cleared `run_` and returns, which
destroys the functions of the batch and what they hold. -/
inductive Phase (α δ : Type*)
  | outside
  | test
  | poll
  | timers (dispatches : List (DispatchId δ))
  | dispatch (dispatches : List (DispatchId δ))
  | swap
  | funcs (batch : List (Task α))
  | release
deriving DecidableEq, Repr

/-- The `WakeUp` a thread still has to execute: after a push or in `Exit`. -/
inductive Wake
  | forTask (id : ℕ)
  | forExit
deriving DecidableEq, Repr

/-- One call of `Dispatch::HandleEvent` by the loop: whether the dispatch was
in the poller, and whether it was removed or its owner destroyed after `Poll`. -/
structure Handled (δ : Type*) where
  dispatch : DispatchId δ
  registered : Bool
  gone : Bool
deriving DecidableEq, Repr

/-- `wakeups` counts the unread records of the wakeup socket. The last four
fields record the history and influence nothing. -/
structure State (α δ : Type*) where
  exit : Bool
  run : Bool
  phase : Phase α δ
  funcs : List (Task α)
  wakeups : ℕ
  registered : DispatchId δ → Bool
  loopWaking : Option Wake
  waking : ThreadId → Option Wake
  pushed : List (Task α)
  executed : List (Task α)
  gone : List (DispatchId δ)
  handled : List (Handled δ)

variable {α δ : Type*}

namespace State

/-- The constructor: the wakeup dispatch is registered, nothing is queued. -/
def create [DecidableEq δ] : State α δ where
  exit := true
  run := false
  phase := .outside
  funcs := []
  wakeups := 0
  registered d := decide (d = .wakeup)
  loopWaking := none
  waking _ := none
  pushed := []
  executed := []
  gone := []
  handled := []

/-- The phases in which the loop thread executes code of its users. -/
def userCode (s : State α δ) : Bool :=
  match s.phase with
  | .outside | .timers _ | .dispatch _ | .funcs _ | .release => true
  | .test | .poll | .swap => false

/-- The entries of the active list whose handler has not been called. -/
def pending (s : State α δ) : List (DispatchId δ) :=
  match s.phase with
  | .timers ds | .dispatch ds => ds
  | _ => []

/-- The functions swapped out of `funcs_` that have not been called. -/
def batch (s : State α δ) : List (Task α) :=
  match s.phase with
  | .funcs batch => batch
  | _ => []

/-- `funcs_.push_back` under the mutex. -/
def push (s : State α δ) (pusher : Pusher) (f : α) : State α δ :=
  { s with
    funcs := s.funcs ++ [⟨s.pushed.length, pusher, f⟩]
    pushed := s.pushed ++ [⟨s.pushed.length, pusher, f⟩] }

def loopPusher (s : State α δ) : Pusher :=
  match s.phase with
  | .outside => .outsideLoop
  | _ => .insideLoop

/-- `QueueInLoop` on the loop thread: it wakes itself up only while `run_`. -/
def queueInLoop (s : State α δ) (f : α) : State α δ :=
  { s.push s.loopPusher f with
    loopWaking := if s.run then some (.forTask s.pushed.length) else none }

/-- `QueueInLoop` on another thread, up to the push. -/
def threadQueueInLoop (s : State α δ) (t : ThreadId) (f : α) : State α δ :=
  { s.push (.thread t) f with
    waking := Function.update s.waking t (some (.forTask s.pushed.length)) }

section Registration

variable [DecidableEq δ]

def updateDispatch (s : State α δ) (d : DispatchId δ) : State α δ :=
  { s with registered := Function.update s.registered d true }

def removeDispatch (s : State α δ) (d : DispatchId δ) : State α δ :=
  { s with registered := Function.update s.registered d false, gone := d :: s.gone }

/-- The owner of the dispatch is destroyed, and the dispatch with it. -/
def destroy (s : State α δ) (d : DispatchId δ) : State α δ := { s with gone := d :: s.gone }

/-- Calls the handler of `d`. `EventLoop::HandleRead` takes one record from the
wakeup socket and blocks when there is none. -/
def handleEvent (s : State α δ) (d : DispatchId δ) (rest : List (DispatchId δ))
    (reads : Bool) : Option (State α δ) :=
  let s' : State α δ :=
    { s with
      phase := .dispatch rest
      handled := s.handled ++ [⟨d, s.registered d, decide (d ∈ s.gone)⟩] }
  if d = .wakeup ∧ reads = true then
    if 0 < s.wakeups then some { s' with wakeups := s.wakeups - 1 } else none
  else some s'

end Registration

section Fields

variable (s : State α δ) (f : α) (t : ThreadId)

@[simp] theorem queueInLoop_phase : (s.queueInLoop f).phase = s.phase := rfl
@[simp] theorem queueInLoop_waking : (s.queueInLoop f).waking = s.waking := rfl

end Fields

end State

inductive Label (α δ : Type*)
  | enter
  | leave
  | iterate
  | poll (dispatches : List (DispatchId δ))
  | timersDone
  | handleEvent (reads : Bool)
  | runFuncs
  | swap
  | exec
  | funcsDone
  | released
  | queueInLoop (f : α)
  | wakeUp
  | exit
  | updateDispatch (d : DispatchId δ)
  | removeDispatch (d : DispatchId δ)
  | destroy (d : DispatchId δ)
  | threadQueueInLoop (t : ThreadId) (f : α)
  | threadExit (t : ThreadId)
  | threadWakeUp (t : ThreadId)

variable [DecidableEq δ]

/-- One step of the loop thread or of another thread. While the loop thread
has a `WakeUp` to execute it can do nothing else. -/
def next (s : State α δ) : Label α δ → Option (State α δ)
  | .enter =>
    match s.phase, s.loopWaking with
    | .outside, none => some { s with exit := false, phase := .test }
    | _, _ => none
  | .leave =>
    match s.phase with
    | .test => if s.exit then some { s with phase := .outside } else none
    | _ => none
  | .iterate =>
    match s.phase with
    | .test => if s.exit then none else some { s with phase := .poll }
    | _ => none
  | .poll dispatches =>
    match s.phase with
    | .poll =>
      -- an `Exit` since the test does not keep this iteration from its end
      if ∀ d ∈ dispatches, s.registered d = true then
        some { s with phase := .timers dispatches, gone := [] }
      else none
    | _ => none
  | .timersDone =>
    match s.phase, s.loopWaking with
    | .timers ds, none => some { s with phase := .dispatch ds }
    | _, _ => none
  | .handleEvent reads =>
    match s.phase, s.loopWaking with
    | .dispatch (d :: rest), none => s.handleEvent d rest reads
    | _, _ => none
  | .runFuncs =>
    match s.phase, s.loopWaking with
    | .dispatch [], none => some { s with run := true, phase := .swap }
    | _, _ => none
  | .swap =>
    match s.phase with
    | .swap => some { s with phase := .funcs s.funcs, funcs := [] }
    | _ => none
  | .exec =>
    match s.phase, s.loopWaking with
    | .funcs (t :: batch), none =>
      some { s with phase := .funcs batch, executed := s.executed ++ [t] }
    | _, _ => none
  | .funcsDone =>
    match s.phase, s.loopWaking with
    | .funcs [], none => some { s with run := false, phase := .release }
    | _, _ => none
  | .released =>
    match s.phase, s.loopWaking with
    | .release, none => some { s with phase := .test }
    | _, _ => none
  | .queueInLoop f =>
    if s.userCode = true ∧ s.loopWaking = none then some (s.queueInLoop f) else none
  | .wakeUp =>
    match s.loopWaking with
    | some _ => some { s with loopWaking := none, wakeups := s.wakeups + 1 }
    | none => none
  | .exit => if s.userCode = true ∧ s.loopWaking = none then some { s with exit := true } else none
  | .updateDispatch d =>
    if s.userCode = true ∧ s.loopWaking = none then some (s.updateDispatch d) else none
  | .removeDispatch d =>
    if s.userCode = true ∧ s.loopWaking = none then some (s.removeDispatch d) else none
  | .destroy d =>
    if s.userCode = true ∧ s.loopWaking = none then some (s.destroy d) else none
  | .threadQueueInLoop t f =>
    if s.waking t = none then some (s.threadQueueInLoop t f) else none
  | .threadExit t =>
    if s.waking t = none then
      some { s with exit := true, waking := Function.update s.waking t (some .forExit) }
    else none
  | .threadWakeUp t =>
    match s.waking t with
    | some _ =>
      some { s with waking := Function.update s.waking t none, wakeups := s.wakeups + 1 }
    | none => none

/-- All that a step can do, with its guards. -/
inductive Step : State α δ → Label α δ → State α δ → Prop
  | enter {s : State α δ} (hphase : s.phase = .outside) (hidle : s.loopWaking = none) :
      Step s .enter { s with exit := false, phase := .test }
  | leave {s : State α δ} (hphase : s.phase = .test) (hexit : s.exit = true) :
      Step s .leave { s with phase := .outside }
  | iterate {s : State α δ} (hphase : s.phase = .test) (hexit : s.exit = false) :
      Step s .iterate { s with phase := .poll }
  | poll {s : State α δ} (ds : List (DispatchId δ)) (hphase : s.phase = .poll)
      (hds : ∀ d ∈ ds, s.registered d = true) :
      Step s (.poll ds) { s with phase := .timers ds, gone := [] }
  | timersDone {s : State α δ} {ds : List (DispatchId δ)} (hphase : s.phase = .timers ds)
      (hidle : s.loopWaking = none) : Step s .timersDone { s with phase := .dispatch ds }
  | handleEvent {s t : State α δ} (d : DispatchId δ) (rest : List (DispatchId δ)) (reads : Bool)
      (hphase : s.phase = .dispatch (d :: rest)) (hidle : s.loopWaking = none)
      (hwakeups : t.wakeups ≤ s.wakeups)
      (ht : t = { s with
        phase := .dispatch rest
        handled := s.handled ++ [⟨d, s.registered d, decide (d ∈ s.gone)⟩]
        wakeups := t.wakeups }) :
      Step s (.handleEvent reads) t
  | runFuncs {s : State α δ} (hphase : s.phase = .dispatch []) (hidle : s.loopWaking = none) :
      Step s .runFuncs { s with run := true, phase := .swap }
  | swap {s : State α δ} (hphase : s.phase = .swap) :
      Step s .swap { s with phase := .funcs s.funcs, funcs := [] }
  | exec {s : State α δ} {task : Task α} {batch : List (Task α)}
      (hphase : s.phase = .funcs (task :: batch)) (hidle : s.loopWaking = none) :
      Step s .exec { s with phase := .funcs batch, executed := s.executed ++ [task] }
  | funcsDone {s : State α δ} (hphase : s.phase = .funcs []) (hidle : s.loopWaking = none) :
      Step s .funcsDone { s with run := false, phase := .release }
  | released {s : State α δ} (hphase : s.phase = .release) (hidle : s.loopWaking = none) :
      Step s .released { s with phase := .test }
  | queueInLoop {s : State α δ} (f : α) (huser : s.userCode = true)
      (hidle : s.loopWaking = none) : Step s (.queueInLoop f) (s.queueInLoop f)
  | wakeUp {s : State α δ} {wake : Wake} (hwake : s.loopWaking = some wake) :
      Step s .wakeUp { s with loopWaking := none, wakeups := s.wakeups + 1 }
  | exit {s : State α δ} (huser : s.userCode = true) (hidle : s.loopWaking = none) :
      Step s .exit { s with exit := true }
  | updateDispatch {s : State α δ} (d : DispatchId δ) (huser : s.userCode = true)
      (hidle : s.loopWaking = none) : Step s (.updateDispatch d) (s.updateDispatch d)
  | removeDispatch {s : State α δ} (d : DispatchId δ) (huser : s.userCode = true)
      (hidle : s.loopWaking = none) : Step s (.removeDispatch d) (s.removeDispatch d)
  | destroy {s : State α δ} (d : DispatchId δ) (huser : s.userCode = true)
      (hidle : s.loopWaking = none) : Step s (.destroy d) (s.destroy d)
  | threadQueueInLoop {s : State α δ} (t : ThreadId) (f : α) (hidle : s.waking t = none) :
      Step s (.threadQueueInLoop t f) (s.threadQueueInLoop t f)
  | threadExit {s : State α δ} (t : ThreadId) (hidle : s.waking t = none) :
      Step s (.threadExit t)
        { s with exit := true, waking := Function.update s.waking t (some .forExit) }
  | threadWakeUp {s : State α δ} (t : ThreadId) {wake : Wake} (hwake : s.waking t = some wake) :
      Step s (.threadWakeUp t)
        { s with waking := Function.update s.waking t none, wakeups := s.wakeups + 1 }

theorem State.step_of_handleEvent {s t : State α δ} {d : DispatchId δ}
    {rest : List (DispatchId δ)} {reads : Bool} (hphase : s.phase = .dispatch (d :: rest))
    (hidle : s.loopWaking = none) (ha : s.handleEvent d rest reads = some t) :
    Step s (.handleEvent reads) t := by
  simp only [State.handleEvent] at ha
  split at ha
  · split at ha
    · simp only [Option.some.injEq] at ha
      subst t
      exact .handleEvent d rest reads hphase hidle (Nat.sub_le _ _) rfl
    · simp at ha
  · simp only [Option.some.injEq] at ha
    subst t
    exact .handleEvent d rest reads hphase hidle (Nat.le_refl _) rfl

theorem step_of_next {s t : State α δ} {a : Label α δ} (ha : next s a = some t) : Step s a t := by
  cases a with
  | enter =>
    simp only [next] at ha
    split at ha
    · cases ha
      exact .enter ‹_› ‹_›
    · cases ha
  | leave =>
    simp only [next] at ha
    split at ha
    · split at ha
      · cases ha
        exact .leave ‹_› ‹_›
      · cases ha
    · cases ha
  | iterate =>
    simp only [next] at ha
    split at ha
    · split at ha
      · cases ha
      · rename_i hexit
        cases ha
        exact .iterate ‹_› (by simpa using hexit)
    · cases ha
  | poll ds =>
    simp only [next] at ha
    split at ha
    · split at ha
      · rename_i hguard
        cases ha
        exact .poll ds ‹_› hguard
      · cases ha
    · cases ha
  | timersDone =>
    simp only [next] at ha
    split at ha
    · cases ha
      exact .timersDone ‹_› ‹_›
    · cases ha
  | handleEvent reads =>
    simp only [next] at ha
    split at ha
    · exact State.step_of_handleEvent ‹_› ‹_› ha
    · cases ha
  | runFuncs =>
    simp only [next] at ha
    split at ha
    · cases ha
      exact .runFuncs ‹_› ‹_›
    · cases ha
  | swap =>
    simp only [next] at ha
    split at ha
    · cases ha
      exact .swap ‹_›
    · cases ha
  | exec =>
    simp only [next] at ha
    split at ha
    · cases ha
      exact .exec ‹_› ‹_›
    · cases ha
  | funcsDone =>
    simp only [next] at ha
    split at ha
    · cases ha
      exact .funcsDone ‹_› ‹_›
    · cases ha
  | released =>
    simp only [next] at ha
    split at ha
    · cases ha
      exact .released ‹_› ‹_›
    · cases ha
  | queueInLoop f =>
    simp only [next] at ha
    split at ha
    · rename_i hguard
      cases ha
      exact .queueInLoop f hguard.1 hguard.2
    · cases ha
  | wakeUp =>
    simp only [next] at ha
    split at ha
    · cases ha
      exact .wakeUp ‹_›
    · cases ha
  | exit =>
    simp only [next] at ha
    split at ha
    · rename_i hguard
      cases ha
      exact .exit hguard.1 hguard.2
    · cases ha
  | updateDispatch d =>
    simp only [next] at ha
    split at ha
    · rename_i hguard
      cases ha
      exact .updateDispatch d hguard.1 hguard.2
    · cases ha
  | removeDispatch d =>
    simp only [next] at ha
    split at ha
    · rename_i hguard
      cases ha
      exact .removeDispatch d hguard.1 hguard.2
    · cases ha
  | destroy d =>
    simp only [next] at ha
    split at ha
    · rename_i hguard
      cases ha
      exact .destroy d hguard.1 hguard.2
    · cases ha
  | threadQueueInLoop i f =>
    simp only [next] at ha
    split at ha
    · rename_i hguard
      cases ha
      exact .threadQueueInLoop i f hguard
    · cases ha
  | threadExit i =>
    simp only [next] at ha
    split at ha
    · rename_i hguard
      cases ha
      exact .threadExit i hguard
    · cases ha
  | threadWakeUp i =>
    simp only [next] at ha
    split at ha
    · cases ha
      exact .threadWakeUp i ‹_›
    · cases ha

variable (α δ) in
def machine : Machine (State α δ) (Label α δ) := ⟨State.create, next⟩

end Voyager.EventLoop
