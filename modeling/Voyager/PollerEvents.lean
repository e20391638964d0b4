import Voyager.KernelPollers
import Voyager.TablePollers
import Mathlib.Data.Finset.Sort

/-!
`Poll` of the four pollers, and the loop of `EventLoop::Loop` that hands what it
found to the Dispatches. The kernel is modelled by what the system calls document:
which descriptors are reported for what is registered and for what is ready. The
four functions take their answers in different forms, and kqueue(2) reports reading
and writing of one descriptor apart; the callbacks that are called are the same.
-/
namespace Voyager

inductive EventCallback
  | close
  | error
  | read
  | write
deriving DecidableEq, Repr

namespace Dispatch

/-- What `HandleEventWithGuard` calls, when all four callbacks are set. -/
def callbacks (d : Dispatch) : List EventCallback :=
  (if d.closes then [.close] else []) ++ (if d.errors then [.error] else []) ++
    (if d.reads then [.read] else []) ++ if d.writes then [.write] else []

/-- It ends with `revents_ = 0`. -/
def handled (d : Dispatch) : Dispatch := d.setRevents 0#32

end Dispatch

namespace EventPoller

open Lib.Runs

/-- What is ready at each descriptor, in the bits of poll(2). -/
abbrev Readiness := Fd → Mask

/-- The loop over `dispatches_` in `EventLoop::Loop`. -/
def handleAll (dispatch : Fd → Dispatch) : List Fd → (Fd → Dispatch) × List (Fd × EventCallback)
  | [] => (dispatch, [])
  | fd :: rest =>
    let r := handleAll (Function.update dispatch fd (dispatch fd).handled) rest
    (r.1, (dispatch fd).callbacks.map (fun c => (fd, c)) ++ r.2)

/-- `SetRevents` and `push_back` for each descriptor that is reported. -/
def report (dispatch : Fd → Dispatch) : List (Fd × Mask) → (Fd → Dispatch) × List Fd
  | [] => (dispatch, [])
  | (fd, revents) :: rest =>
    let r := report (Function.update dispatch fd ((dispatch fd).setRevents revents)) rest
    (r.1, fd :: r.2)

/-- A poller with its `Poll`. `answers` says what the kernel may answer, `whole` that
nothing that is ready has been left out of an answer. -/
structure Backend (σ α : Type) where
  poller : EventPoller σ
  poll : σ → (Fd → Dispatch) → α → Option ((Fd → Dispatch) × List Fd)
  answers : σ → Readiness → α → Prop
  whole : α → Prop

variable {σ α : Type}

/-- `Poll` and the loop behind it, with the callbacks in the order of the calls. -/
def Backend.iterate (B : Backend σ α) (s : Loop σ) (answer : α) :
    Option (Loop σ × List (Fd × EventCallback)) :=
  (B.poll s.poller s.dispatch answer).map fun r =>
    let h := handleAll r.1 r.2
    ({ s with dispatch := h.1 }, h.2)

/-- The callbacks of one descriptor. -/
def callbacksOf (calls : List (Fd × EventCallback)) (fd : Fd) : List EventCallback :=
  (calls.filter fun c => c.1 = fd).map Prod.snd

/-! The Dispatches between two iterations, and what becomes of them. -/

/-- No event is left over. -/
def Quiet (dispatch : Fd → Dispatch) : Prop := ∀ fd, (dispatch fd).revents = 0#32

/-- `Poll` has found the events `mask` and nothing else. -/
structure Found (dispatch : Fd → Dispatch) (mask : Fd → Mask)
    (r : (Fd → Dispatch) × List Fd) : Prop where
  dispatch_eq : r.1 = fun fd => (dispatch fd).setRevents (mask fd)
  active : ∀ fd, mask fd ≠ 0#32 → fd ∈ r.2

theorem setRevents_zero {d : Dispatch} (h : d.revents = 0#32) : d.setRevents 0#32 = d := by
  rw [← h]
  rfl

theorem handled_setRevents {d : Dispatch} (h : d.revents = 0#32) (mask : Mask) :
    (d.setRevents mask).handled = d := setRevents_zero h

theorem callbacks_of_quiet {d : Dispatch} (h : d.revents = 0#32) : d.callbacks = [] := by
  simp [Dispatch.callbacks, Dispatch.closes, Dispatch.errors, Dispatch.reads, Dispatch.writes, h,
    Mask.has]

theorem callbacks_handled (d : Dispatch) : d.handled.callbacks = [] := callbacks_of_quiet rfl

theorem callbacksOf_append (calls calls' : List (Fd × EventCallback)) (fd : Fd) :
    callbacksOf (calls ++ calls') fd = callbacksOf calls fd ++ callbacksOf calls' fd := by
  simp [callbacksOf]

theorem callbacksOf_map (callbacks : List EventCallback) (fd fd' : Fd) :
    callbacksOf (callbacks.map fun c => (fd, c)) fd' = if fd = fd' then callbacks else [] := by
  by_cases h : fd = fd'
  · simp [callbacksOf, h, List.filter_map, Function.comp_def]
  · simp [callbacksOf, h, List.filter_map, Function.comp_def]

/-- A Dispatch that is listed twice is handled once: the second time nothing is left. -/
theorem handleAll_spec (dispatch : Fd → Dispatch) (active : List Fd) :
    (handleAll dispatch active).1 =
        (fun fd => if fd ∈ active then (dispatch fd).handled else dispatch fd) ∧
      ∀ fd, callbacksOf (handleAll dispatch active).2 fd =
        if fd ∈ active then (dispatch fd).callbacks else [] := by
  induction active generalizing dispatch with
  | nil => exact ⟨by simp [handleAll], fun fd => by simp [handleAll, callbacksOf]⟩
  | cons a rest ih =>
    obtain ⟨hdispatch, hcalls⟩ := ih (Function.update dispatch a (dispatch a).handled)
    refine ⟨?_, fun fd => ?_⟩
    · rw [handleAll, hdispatch]
      funext fd
      by_cases hfd : fd = a
      · subst hfd
        simp [Dispatch.handled, Dispatch.setRevents]
      · simp [hfd]
    · rw [handleAll, callbacksOf_append, callbacksOf_map, hcalls]
      by_cases hfd : fd = a
      · subst hfd
        simp [callbacks_handled]
      · simp [hfd, Ne.symm hfd]

/-- One iteration leaves no event behind and calls for each descriptor what its events
ask for. -/
theorem iterate_eq {B : Backend σ α} {s : Loop σ} {answer : α} {mask : Fd → Mask}
    {r : (Fd → Dispatch) × List Fd} (hquiet : Quiet s.dispatch)
    (hpoll : B.poll s.poller s.dispatch answer = some r) (hfound : Found s.dispatch mask r) :
    ∃ calls, B.iterate s answer = some (s, calls) ∧
      ∀ fd, callbacksOf calls fd = ((s.dispatch fd).setRevents (mask fd)).callbacks := by
  obtain ⟨hdispatch, hcalls⟩ := handleAll_spec r.1 r.2
  have hsame : (handleAll r.1 r.2).1 = s.dispatch := by
    rw [hdispatch, hfound.dispatch_eq]
    funext fd
    by_cases hfd : fd ∈ r.2
    · rw [if_pos hfd, handled_setRevents (hquiet fd)]
    · have hzero : mask fd = 0#32 := by
        by_contra hne
        exact hfd (hfound.active fd hne)
      rw [if_neg hfd]
      simp only [hzero, setRevents_zero (hquiet fd)]
  refine ⟨(handleAll r.1 r.2).2, ?_, fun fd => ?_⟩
  · simp only [Backend.iterate, hpoll, Option.map_some, hsame]
  · rw [hcalls, hfound.dispatch_eq]
    by_cases hfd : fd ∈ r.2
    · rw [if_pos hfd]
    · have hzero : mask fd = 0#32 := by
        by_contra hne
        exact hfd (hfound.active fd hne)
      rw [if_neg hfd, hzero, setRevents_zero (hquiet fd), callbacks_of_quiet (hquiet fd)]

theorem report_spec {dispatch : Fd → Dispatch} {mask : Fd → Mask} {l : List (Fd × Mask)}
    (hmask : ∀ e ∈ l, e.2 = mask e.1) :
    (report dispatch l).2 = l.map Prod.fst ∧ ∀ fd, (report dispatch l).1 fd =
      if fd ∈ l.map Prod.fst then (dispatch fd).setRevents (mask fd) else dispatch fd := by
  induction l generalizing dispatch with
  | nil => exact ⟨rfl, fun fd => by simp [report]⟩
  | cons e rest ih =>
    obtain ⟨a, m⟩ := e
    obtain ⟨hactive, hdispatch⟩ := @ih (Function.update dispatch a
      ((dispatch a).setRevents m)) (fun e he => hmask e (List.mem_cons_of_mem _ he))
    have ha : m = mask a := hmask (a, m) List.mem_cons_self
    refine ⟨by rw [report, hactive, List.map_cons], fun fd => ?_⟩
    rw [report, hdispatch]
    by_cases hfd : fd = a
    · subst hfd
      simp [ha, Dispatch.setRevents]
    · simp [hfd]

/-- A list of reports that agrees with `mask`. -/
theorem found_report {dispatch : Fd → Dispatch} {mask : Fd → Mask} {l : List (Fd × Mask)}
    (hquiet : Quiet dispatch) (hmask : ∀ e ∈ l, e.2 = mask e.1)
    (hall : ∀ fd, mask fd ≠ 0#32 → fd ∈ l.map Prod.fst) :
    Found dispatch mask (report dispatch l) := by
  obtain ⟨hactive, hdispatch⟩ := @report_spec dispatch mask l hmask
  refine ⟨?_, fun fd hfd => by rw [hactive]; exact hall fd hfd⟩
  funext fd
  rw [hdispatch]
  by_cases hfd : fd ∈ l.map Prod.fst
  · rw [if_pos hfd]
  · have hzero : mask fd = 0#32 := by
      by_contra hne
      exact hfd (hall fd hne)
    rw [if_neg hfd, hzero, setRevents_zero (hquiet fd)]

end EventPoller

open EventPoller

/-- What select(2) returns, and leaves in the three sets. -/
structure SelectAnswer where
  ret : Int
  readfds : Fd → Bool
  writefds : Fd → Bool
  exceptfds : Fd → Bool

namespace EventSelect

def revents (a : SelectAnswer) (fd : Fd) : Mask :=
  (if a.readfds fd then pollIn else 0#32) ||| (if a.writefds fd then pollOut else 0#32) |||
    if a.exceptfds fd then pollErr else 0#32

/-- `worker_map_` is gone through in ascending order. -/
def poll (s : EventSelect) (dispatch : Fd → Dispatch) (a : SelectAnswer) :
    Option ((Fd → Dispatch) × List Fd) :=
  if a.ret = -1 ∨ a.ret = 0 then some (dispatch, [])
  else
    some (report dispatch
      (((s.workerMap.sort (· ≤ ·)).map fun fd => (fd, revents a fd)).filter fun e => e.2 ≠ 0#32))

/-- `exceptfds_` is always empty. Reading and writing do not block on a descriptor
with an error, reading does not at the end of the stream either. -/
structure Answers (s : EventSelect) (ready : Readiness) (a : SelectAnswer) : Prop where
  read : ∀ fd, a.readfds fd = (s.readfds fd && decide (fd < s.nfds) &&
    Mask.has (ready fd) (pollIn ||| pollHup ||| pollErr))
  write : ∀ fd, a.writefds fd = (s.writefds fd && decide (fd < s.nfds) &&
    Mask.has (ready fd) (pollOut ||| pollErr))
  except : ∀ fd, a.exceptfds fd = false
  ret : 0 ≤ a.ret ∧ (a.ret = 0 → ∀ fd, a.readfds fd = false ∧ a.writefds fd = false)

def backend : Backend EventSelect SelectAnswer := ⟨poller, poll, Answers, fun _ => True⟩

end EventSelect

/-- What poll(2) returns, and leaves in `revents` of the entries. -/
structure PollAnswer where
  ret : Int
  revents : List (BitVec 16)

namespace EventPoll

/-- The loop of `Poll`: it ends when `ret` entries with events have been seen. -/
def pollLoop (dispatchMap : Fd → Bool) : Int → List (PollFd × BitVec 16) →
    Option (List (Fd × Mask))
  | _, [] => some []
  | ret, (p, revents) :: rest =>
    if 0 < ret then
      if 0 < revents.toInt then
        if 0 ≤ p.fd ∧ dispatchMap p.fd.toNat then
          (pollLoop dispatchMap (ret - 1) rest).map fun l => (p.fd.toNat, toInt revents) :: l
        else none
      else pollLoop dispatchMap ret rest
    else some []

def poll (s : EventPoll) (dispatch : Fd → Dispatch) (a : PollAnswer) :
    Option ((Fd → Dispatch) × List Fd) :=
  if a.ret = -1 then some (dispatch, [])
  else (pollLoop s.dispatchMap a.ret (s.pollfds.zip a.revents)).map (report dispatch)

/-- An entry with a negative descriptor is ignored. -/
def kernelRevents (ready : Readiness) (p : PollFd) : BitVec 16 :=
  if p.fd < 0 then 0#16
  else toShort (ready p.fd.toNat) &&& (p.events ||| toShort (pollErr ||| pollHup ||| pollNval))

structure Answers (s : EventPoll) (ready : Readiness) (a : PollAnswer) : Prop where
  revents : a.revents = s.pollfds.map (kernelRevents ready)
  ret : a.ret = (a.revents.countP fun revents => revents ≠ 0#16)

def backend : Backend EventPoll PollAnswer := ⟨poller, poll, Answers, fun _ => True⟩

end EventPoll

namespace EventEpoll

/-- `data.ptr` of an event is the Dispatch, named by its descriptor. -/
def poll (_ : EventEpoll) (dispatch : Fd → Dispatch) (events : List (Fd × Mask)) :
    Option ((Fd → Dispatch) × List Fd) :=
  some (report dispatch events)

/-- The events that epoll_wait(2) has to report for a descriptor. -/
def kernelEvents (s : EventEpoll) (ready : Readiness) (fd : Fd) : Mask :=
  match s.epollSet fd with
  | some events => ready fd &&& (events ||| pollErr ||| pollHup)
  | none => 0#32

/-- Of the descriptors with events, each at most once and in any order, as many as the
table has room for. -/
structure Answers (size : ℕ) (s : EventEpoll) (ready : Readiness) (events : List (Fd × Mask)) :
    Prop where
  each : ∀ e ∈ events, e.2 = s.kernelEvents ready e.1 ∧ e.2 ≠ 0#32
  once : (events.map Prod.fst).Nodup
  room : events.length ≤ size
  whole : events.length < size → ∀ fd, s.kernelEvents ready fd ≠ 0#32 → fd ∈ events.map Prod.fst

def backend (size : ℕ) : Backend EventEpoll (List (Fd × Mask)) :=
  ⟨poller, poll, Answers size, fun events => events.length < size⟩

end EventEpoll

/-- An element of the eventlist of kevent(2); `error` is `EV_ERROR` in its flags. -/
structure KEvent where
  fd : Fd
  filter : Filter
  error : Bool
deriving DecidableEq, Repr

namespace EventKqueue

def bit (e : KEvent) : Mask :=
  if e.error then pollErr
  else
    match e.filter with
    | .evfiltRead => pollIn
    | .evfiltWrite => pollOut

/-- The loop of `Poll`: an event is added to the ones that its Dispatch has. -/
def pollLoop (dispatch : Fd → Dispatch) : List KEvent → (Fd → Dispatch) × List Fd
  | [] => (dispatch, [])
  | e :: rest =>
    let revents := (dispatch e.fd).revents ||| bit e
    let r := pollLoop (Function.update dispatch e.fd ((dispatch e.fd).setRevents revents)) rest
    (r.1, e.fd :: r.2)

def poll (_ : EventKqueue) (dispatch : Fd → Dispatch) (events : List KEvent) :
    Option ((Fd → Dispatch) × List Fd) :=
  some (pollLoop dispatch events)

/-- Whether a filter is triggered. Both are at the end of the stream. -/
def triggered (s : EventKqueue) (ready : Readiness) (fd : Fd) (filter : Filter) : Bool :=
  s.knotes fd filter == some true &&
    match filter with
    | .evfiltRead => Mask.has (ready fd) (pollIn ||| pollHup)
    | .evfiltWrite => Mask.has (ready fd) (pollOut ||| pollHup)

/-- `EV_ERROR` is for changes, and `Poll` makes none. -/
structure Answers (size : ℕ) (s : EventKqueue) (ready : Readiness) (events : List KEvent) :
    Prop where
  each : ∀ e ∈ events, s.triggered ready e.fd e.filter = true ∧ e.error = false
  once : events.Nodup
  room : events.length ≤ size
  whole : events.length < size → ∀ fd filter, s.triggered ready fd filter = true →
    ⟨fd, filter, false⟩ ∈ events

def backend (size : ℕ) : Backend EventKqueue (List KEvent) :=
  ⟨poller, poll, Answers size, fun events => events.length < size⟩

end EventKqueue

end Voyager
