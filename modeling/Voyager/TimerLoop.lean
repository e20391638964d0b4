import Voyager.TimerList
import Voyager.Lib.Runs

/-!
The timers of an EventLoop in use: `RunAt`, `RunAfter`, `RunEvery` and
`RemoveTimer` of core/eventloop.cc, called on the loop's thread, where they take
effect at once, or on another one, where they are queued; and the loop's
`RunTimerProcs` and `RunFuncs`. The callback of a timer is the calls on the loop's
thread between one `fire` and the next. The allocator may hand out any address
that is not live, and the clock may be set to anything.
-/
namespace Voyager

open Lib Lib.Runs

inductive TimerRequest
  | runAt (msValue : ℕ)
  | runAfter (msDelay : ℕ)
  | runEvery (msInterval : ℕ)
deriving DecidableEq, Repr

namespace TimerRequest

def arg : TimerRequest → ℕ
  | .runAt v => v
  | .runAfter d => d
  | .runEvery i => i

/-- `ms_value`, with `NowMillis()` at the call. -/
def value (now : ℕ) : TimerRequest → ℕ
  | .runAt v => v
  | .runAfter d => TimerList.uint64 (now + d)
  | .runEvery i => TimerList.uint64 (now + i)

def interval : TimerRequest → ℕ
  | .runEvery i => i
  | _ => 0

end TimerRequest

namespace TimerLoop

inductive Thread
  | loop
  | other
deriving DecidableEq, Repr

/-- The timer functions of `funcs_`, with the number of the Timer they are for. -/
inductive Func
  | insertInLoop (n : ℕ) (id : TimerId)
  | eraseInLoop (n : ℕ) (id : TimerId)
deriving DecidableEq, Repr

def Func.serial : Func → ℕ
  | .insertInLoop n _ => n
  | .eraseInLoop n _ => n

/-- What a call returned, and the real time of the call. -/
structure Creation where
  id : TimerId
  request : TimerRequest
  birth : ℕ
deriving DecidableEq, Repr

/-- Callbacks with their real time, and removals as they are executed in the loop. -/
inductive Event
  | fired (n : ℕ) (real : ℕ)
  | cancelled (n : ℕ)
deriving DecidableEq, Repr

def Event.serial : Event → ℕ
  | .fired n _ => n
  | .cancelled n => n

end TimerLoop

open TimerLoop

/-- `running` is `ms_now` of the `RunTimerProcs` under way. -/
structure TimerLoop where
  list : TimerList
  real : ℕ
  wall : ℕ
  queue : List Func
  running : Option ℕ
  created : List Creation
  log : List Event

namespace TimerLoop

inductive Act
  | advance (ms : ℕ)
  | setClock (wall : ℕ)
  | insert (thread : Thread) (request : TimerRequest) (addr : Addr)
  | erase (thread : Thread) (n : ℕ)
  | runFunc
  | runTimerProcs
  | fire
  | finish
deriving DecidableEq, Repr

def exec (s : TimerLoop) : Func → TimerLoop
  | .insertInLoop _ id => { s with list := s.list.insertInLoop id }
  | .eraseInLoop n id =>
    { s with list := s.list.eraseInLoop id, log := s.log ++ [.cancelled n] }

/-- `RunInLoop` -/
def runInLoop (s : TimerLoop) (f : Func) : Thread → TimerLoop
  | .loop => s.exec f
  | .other => { s with queue := s.queue ++ [f] }

/-- The call up to `RunInLoop`: the Timer is allocated. -/
def create (s : TimerLoop) (request : TimerRequest) (a : Addr) : TimerLoop :=
  let value := request.value s.wall
  { s with
    list := s.list.newTimer a ⟨value, request.interval, s.created.length⟩,
    created := s.created ++ [⟨⟨value, a⟩, request, s.real⟩] }

def next (s : TimerLoop) : Act → Option TimerLoop
  | .advance ms =>
    if s.wall + ms < 2 ^ 64 then some { s with real := s.real + ms, wall := s.wall + ms } else none
  | .setClock wall => if wall < 2 ^ 64 then some { s with wall := wall } else none
  | .insert thread request a =>
    if a ∉ s.list.live ∧ request.arg < 2 ^ 64 then
      some ((s.create request a).runInLoop
        (.insertInLoop s.created.length ⟨request.value s.wall, a⟩) thread)
    else none
  | .erase thread n =>
    s.created[n]?.map fun c => s.runInLoop (.eraseInLoop n c.id) thread
  | .runFunc =>
    match s.running, s.queue with
    | none, f :: rest => some (exec { s with queue := rest } f)
    | _, _ => none
  | .runTimerProcs =>
    match s.running, s.list.timers.first? with
    | none, none => some s
    | none, some _ => some { s with list := s.list.beginRun s.wall, running := some s.wall }
    | some _, _ => none
  | .fire =>
    s.running.bind fun msNow => (s.list.due? msNow).map fun id =>
      { s with
        list := s.list.fireFirst msNow id,
        log := s.log ++ [.fired (s.list.memory id.timer).serial s.real] }
  | .finish =>
    s.running.bind fun msNow =>
      if s.list.due? msNow = none then some { s with running := none } else none

/-- A loop constructed when the clock reads `start`. -/
def system (start : ℕ) : Machine TimerLoop Act where
  init :=
    { list := ⟨fun _ => ⟨0, 0, 0⟩, ∅, OrderedSet.empty, ∅, start⟩
      real := 0
      wall := start
      queue := []
      running := none
      created := []
      log := [] }
  next := next

/-- Everything a step can do. -/
inductive Step (s : TimerLoop) : Act → TimerLoop → Prop
  | advance {ms} (h : s.wall + ms < 2 ^ 64) :
      Step s (.advance ms) { s with real := s.real + ms, wall := s.wall + ms }
  | setClock {wall} (h : wall < 2 ^ 64) : Step s (.setClock wall) { s with wall := wall }
  | insert {thread request a} (ha : a ∉ s.list.live) (harg : request.arg < 2 ^ 64) :
      Step s (.insert thread request a) ((s.create request a).runInLoop
        (.insertInLoop s.created.length ⟨request.value s.wall, a⟩) thread)
  | erase {thread n c} (hc : s.created[n]? = some c) :
      Step s (.erase thread n) (s.runInLoop (.eraseInLoop n c.id) thread)
  | runFunc {f rest} (hrun : s.running = none) (hqueue : s.queue = f :: rest) :
      Step s .runFunc (exec { s with queue := rest } f)
  | skipRun (hrun : s.running = none) (hempty : s.list.timers.first? = none) :
      Step s .runTimerProcs s
  | beginRun {id} (hrun : s.running = none) (hfirst : s.list.timers.first? = some id) :
      Step s .runTimerProcs { s with list := s.list.beginRun s.wall, running := some s.wall }
  | fire {msNow id} (hrun : s.running = some msNow) (hdue : s.list.due? msNow = some id) :
      Step s .fire { s with
        list := s.list.fireFirst msNow id,
        log := s.log ++ [.fired (s.list.memory id.timer).serial s.real] }
  | finish {msNow} (hrun : s.running = some msNow) (hdue : s.list.due? msNow = none) :
      Step s .finish { s with running := none }

theorem step_of_next {s t : TimerLoop} {a : Act} (h : s.next a = some t) : Step s a t := by
  cases a with
  | advance ms =>
    simp only [next, Option.ite_none_right_eq_some, Option.some.injEq] at h
    obtain ⟨hwall, rfl⟩ := h
    exact .advance hwall
  | setClock wall =>
    simp only [next, Option.ite_none_right_eq_some, Option.some.injEq] at h
    obtain ⟨hwall, rfl⟩ := h
    exact .setClock hwall
  | insert thread request a =>
    simp only [next, Option.ite_none_right_eq_some, Option.some.injEq] at h
    obtain ⟨⟨ha, harg⟩, rfl⟩ := h
    exact .insert ha harg
  | erase thread n =>
    obtain ⟨c, hc, rfl⟩ := Option.map_eq_some_iff.mp h
    exact .erase hc
  | runFunc =>
    simp only [next] at h
    split at h
    · rename_i hrun hqueue
      cases h
      exact .runFunc hrun hqueue
    · cases h
  | runTimerProcs =>
    simp only [next] at h
    split at h
    · rename_i hrun hempty
      cases h
      exact .skipRun hrun hempty
    · rename_i hrun hfirst
      cases h
      exact .beginRun hrun hfirst
    · cases h
  | fire =>
    obtain ⟨msNow, hrun, h⟩ := Option.bind_eq_some_iff.mp h
    obtain ⟨id, hdue, rfl⟩ := Option.map_eq_some_iff.mp h
    exact .fire hrun hdue
  | finish =>
    obtain ⟨msNow, hrun, h⟩ := Option.bind_eq_some_iff.mp h
    simp only [Option.ite_none_right_eq_some, Option.some.injEq] at h
    obtain ⟨hdue, rfl⟩ := h
    exact .finish hrun hdue

/-! Timers and queued functions belong together. -/

/-- A queued function about a Timer does not come before its insertion. -/
def NotBefore (f g : Func) : Prop := ∀ n id, g = .insertInLoop n id → f.serial ≠ n

structure Inv (s : TimerLoop) : Prop where
  rep : s.list.Rep
  placed : ∀ a ∈ s.list.live, a ∈ s.list.timerPtrs ∨
    ∃ id, id.timer = a ∧ .insertInLoop (s.list.memory a).serial id ∈ s.queue
  owner : ∀ a ∈ s.list.live, ∃ c, s.created[(s.list.memory a).serial]? = some c ∧
    c.id.timer = a ∧ (s.list.memory a).msInterval = c.request.interval
  inserts : ∀ n id, .insertInLoop n id ∈ s.queue → id.timer ∈ s.list.live ∧
    id.timer ∉ s.list.timerPtrs ∧ (s.list.memory id.timer).serial = n ∧
    id.value = (s.list.memory id.timer).msValue
  erases : ∀ n id, .eraseInLoop n id ∈ s.queue → ∃ c, s.created[n]? = some c ∧ c.id = id
  order : s.queue.Pairwise NotBefore

section

variable {s : TimerLoop}

/-- A number belongs to at most one live Timer. -/
theorem Inv.addr_eq (h : Inv s) {a : Addr} {n : ℕ} {c : Creation} (ha : a ∈ s.list.live)
    (hserial : (s.list.memory a).serial = n) (hc : s.created[n]? = some c) : c.id.timer = a := by
  obtain ⟨c', hc', hid, -⟩ := h.owner a ha
  rw [hserial, hc, Option.some.injEq] at hc'
  rw [hc', hid]

theorem Inv.serial_lt (h : Inv s) {a : Addr} (ha : a ∈ s.list.live) :
    (s.list.memory a).serial < s.created.length := by
  obtain ⟨c, hc, -⟩ := h.owner a ha
  exact (List.getElem?_eq_some_iff.mp hc).1

theorem Inv.queue_serial_lt (h : Inv s) {f : Func} (hf : f ∈ s.queue) :
    f.serial < s.created.length := by
  cases f with
  | insertInLoop n id =>
    obtain ⟨hlive, -, hserial, -⟩ := h.inserts n id hf
    have hlt := h.serial_lt hlive
    rwa [hserial] at hlt
  | eraseInLoop n id =>
    obtain ⟨c, hc, -⟩ := h.erases n id hf
    exact (List.getElem?_eq_some_iff.mp hc).1

theorem inv_init (start : ℕ) : Inv (system start).init :=
  ⟨TimerList.rep_empty _ _, by simp [system], by simp [system], by simp [system], by simp [system],
    List.Pairwise.nil⟩

/-- Nothing but clocks, the run and the log change. -/
theorem Inv.congr {t : TimerLoop} (h : Inv s) (hlist : t.list = s.list) (hqueue : t.queue = s.queue)
    (hcreated : t.created = s.created) : Inv t := by
  refine ⟨?_, ?_, ?_, ?_, ?_, ?_⟩
  · rw [hlist]; exact h.rep
  · rw [hlist, hqueue]; exact h.placed
  · rw [hlist, hcreated]; exact h.owner
  · rw [hlist, hqueue]; exact h.inserts
  · rw [hqueue, hcreated]; exact h.erases
  · rw [hqueue]; exact h.order

/-- `EraseInLoop` and the parts of `RunTimerProcs`. -/
theorem Inv.shrink {t : TimerLoop} {gone : Finset Addr} (h : Inv s) (hrep : t.list.Rep)
    (hshrinks : TimerList.Shrinks s.list t.list gone) (hqueue : t.queue = s.queue)
    (hcreated : t.created = s.created) : Inv t := by
  have hlive {a : Addr} (ha : a ∈ t.list.live) : a ∈ s.list.live ∧ a ∉ gone := by
    rw [hshrinks.live, Finset.mem_sdiff] at ha
    exact ha
  refine ⟨hrep, fun a ha => ?_, fun a ha => ?_, fun n id hmem => ?_, ?_,
    by rw [hqueue]; exact h.order⟩
  · rw [hshrinks.serial, hqueue, hshrinks.timerPtrs, Finset.mem_sdiff]
    obtain ⟨ha, hgone⟩ := hlive ha
    rcases h.placed a ha with hptr | hqueued
    · exact .inl ⟨hptr, hgone⟩
    · exact .inr hqueued
  · rw [hshrinks.serial, hshrinks.interval, hcreated]
    exact h.owner a (hlive ha).1
  · rw [hqueue] at hmem
    obtain ⟨ha, hptr, hserial, hvalue⟩ := h.inserts n id hmem
    have hgone : id.timer ∉ gone := fun hg => hptr (hshrinks.gone_subset hg)
    rw [hshrinks.live, hshrinks.timerPtrs, hshrinks.serial, hshrinks.value _ hptr]
    exact ⟨Finset.mem_sdiff.mpr ⟨ha, hgone⟩, fun hmem' => hptr (Finset.mem_sdiff.mp hmem').1,
      hserial, hvalue⟩
  · rw [hqueue, hcreated]
    exact h.erases

/-- A new Timer, wherever its insertion is put in the queue. -/
theorem Inv.create (h : Inv s) {request : TimerRequest} {a : Addr} (ha : a ∉ s.list.live)
    {queue : List Func}
    (hmem : ∀ f, f ∈ queue ↔
      f = .insertInLoop s.created.length ⟨request.value s.wall, a⟩ ∨ f ∈ s.queue)
    (horder : queue.Pairwise NotBefore) :
    Inv { s.create request a with queue := queue } := by
  have hmemory {b : Addr} (hb : b ∈ s.list.live) :
      (s.create request a).list.memory b = s.list.memory b := by
    have hne : b ≠ a := fun heq => ha (heq ▸ hb)
    exact Function.update_of_ne hne _ _
  refine ⟨h.rep.newTimer ha _, fun b hb => ?_, fun b hb => ?_, fun n id hf => ?_, fun n id hf => ?_,
    horder⟩
  · rcases Finset.mem_insert.mp hb with rfl | hb
    · right
      refine ⟨⟨request.value s.wall, b⟩, rfl, ?_⟩
      simp [hmem, TimerLoop.create, TimerList.newTimer]
    · simp only [hmemory hb, hmem]
      rcases h.placed b hb with hptr | ⟨id, hid, hqueued⟩
      · exact .inl hptr
      · exact .inr ⟨id, hid, .inr hqueued⟩
  · rcases Finset.mem_insert.mp hb with rfl | hb
    · refine ⟨⟨⟨request.value s.wall, b⟩, request, s.real⟩, ?_, rfl, ?_⟩
      · simp [TimerLoop.create, TimerList.newTimer]
      · simp [TimerLoop.create, TimerList.newTimer]
    · obtain ⟨c, hc, hid, hinterval⟩ := h.owner b hb
      have hlt := h.serial_lt hb
      refine ⟨c, ?_, hid, ?_⟩
      · simp only [hmemory hb]
        exact (List.getElem?_append_left hlt).trans hc
      · simp only [hmemory hb]
        exact hinterval
  · rcases (hmem _).mp hf with hnew | hold
    · cases hnew
      refine ⟨Finset.mem_insert_self _ _, fun hptr => ha (h.rep.live hptr), ?_, ?_⟩
      · simp [TimerLoop.create, TimerList.newTimer]
      · simp [TimerLoop.create, TimerList.newTimer]
    · obtain ⟨hlive, hptr, hserial, hvalue⟩ := h.inserts n id hold
      refine ⟨Finset.mem_insert_of_mem hlive, hptr, ?_, ?_⟩
      · simp only [hmemory hlive]
        exact hserial
      · simp only [hmemory hlive]
        exact hvalue
  · rcases (hmem _).mp hf with hnew | hold
    · cases hnew
    · obtain ⟨c, hc, hid⟩ := h.erases n id hold
      have hlt := (List.getElem?_eq_some_iff.mp hc).1
      exact ⟨c, (List.getElem?_append_left hlt).trans hc, hid⟩

theorem Inv.runInsert (h : Inv s) {n : ℕ} {id : TimerId} {rest : List Func}
    (hqueue : s.queue = .insertInLoop n id :: rest) :
    Inv { s with list := s.list.insertInLoop id, queue := rest } := by
  have hmem {f : Func} (hf : f ∈ rest) : f ∈ s.queue := by
    rw [hqueue]
    exact List.mem_cons_of_mem _ hf
  have horder := h.order
  rw [hqueue, List.pairwise_cons] at horder
  obtain ⟨hlive, hptr, hserial, hvalue⟩ := h.inserts n id (by rw [hqueue]; exact List.mem_cons_self)
  refine ⟨h.rep.insertInLoop hlive hvalue, fun a ha => ?_, h.owner, fun m id' hf => ?_,
    fun m id' hf => h.erases m id' (hmem hf), horder.2⟩
  · show a ∈ insert id.timer s.list.timerPtrs ∨ _
    rw [Finset.mem_insert]
    rcases h.placed a ha with hold | ⟨id', hid', hf⟩
    · exact .inl (.inr hold)
    · rw [hqueue] at hf
      rcases List.mem_cons.mp hf with heq | hf
      · cases heq
        exact .inl (.inl hid'.symm)
      · exact .inr ⟨id', hid', hf⟩
  · obtain ⟨hlive', hptr', hserial', hvalue'⟩ := h.inserts m id' (hmem hf)
    refine ⟨hlive', ?_, hserial', hvalue'⟩
    show id'.timer ∉ insert id.timer s.list.timerPtrs
    rw [Finset.mem_insert, not_or]
    refine ⟨fun heq => ?_, hptr'⟩
    -- two insertions of one Timer are never queued
    apply horder.1 _ hf m id' rfl
    show n = m
    rw [← hserial, ← hserial', heq]

theorem Inv.popErase (h : Inv s) {n : ℕ} {id : TimerId} {rest : List Func}
    (hqueue : s.queue = .eraseInLoop n id :: rest) : Inv { s with queue := rest } := by
  have hmem {f : Func} (hf : f ∈ rest) : f ∈ s.queue := by
    rw [hqueue]
    exact List.mem_cons_of_mem _ hf
  have horder := h.order
  rw [hqueue, List.pairwise_cons] at horder
  refine ⟨h.rep, fun a ha => ?_, h.owner, fun m id' hf => h.inserts m id' (hmem hf),
    fun m id' hf => h.erases m id' (hmem hf), horder.2⟩
  rcases h.placed a ha with hold | ⟨id', hid', hf⟩
  · exact .inl hold
  · rw [hqueue] at hf
    rcases List.mem_cons.mp hf with heq | hf
    · cases heq
    · exact .inr ⟨id', hid', hf⟩

theorem Inv.pushErase (h : Inv s) {n : ℕ} {c : Creation} (hc : s.created[n]? = some c) :
    Inv { s with queue := s.queue ++ [.eraseInLoop n c.id] } := by
  refine ⟨h.rep, fun a ha => ?_, h.owner, fun m id hf => ?_, fun m id hf => ?_, ?_⟩
  · rcases h.placed a ha with hold | ⟨id, hid, hf⟩
    · exact .inl hold
    · exact .inr ⟨id, hid, List.mem_append_left _ hf⟩
  · simp only [List.mem_append, List.mem_singleton, reduceCtorEq, or_false] at hf
    exact h.inserts m id hf
  · simp only [List.mem_append, List.mem_singleton, Func.eraseInLoop.injEq] at hf
    rcases hf with hf | ⟨rfl, rfl⟩
    · exact h.erases m id hf
    · exact ⟨c, hc, rfl⟩
  · refine List.pairwise_append.mpr ⟨h.order, List.pairwise_singleton _ _, fun f _ g hg => ?_⟩
    rw [List.mem_singleton.mp hg]
    intro m id heq
    cases heq

theorem Inv.eraseInLoop (h : Inv s) (n : ℕ) (id : TimerId) : Inv (s.exec (.eraseInLoop n id)) :=
  h.shrink (h.rep.eraseInLoop id) (TimerList.shrinks_eraseInLoop s.list id) rfl rfl

theorem Inv.step {a : Act} {t : TimerLoop} (h : Inv s) (hstep : Step s a t) : Inv t := by
  cases hstep with
  | advance => exact h.congr rfl rfl rfl
  | setClock => exact h.congr rfl rfl rfl
  | @insert thread request a ha _ =>
    have hlt {f : Func} (hf : f ∈ s.queue) : f.serial ≠ s.created.length :=
      Nat.ne_of_lt (h.queue_serial_lt hf)
    cases thread with
    | loop =>
      -- as if the insertion were put in front of the queue and executed
      have hfront : Inv { s.create request a with
          queue := .insertInLoop s.created.length ⟨request.value s.wall, a⟩ :: s.queue } := by
        refine h.create ha (fun f => List.mem_cons) (List.pairwise_cons.mpr ⟨?_, h.order⟩)
        rintro g hg m id rfl
        exact (hlt hg).symm
      exact hfront.runInsert rfl
    | other =>
      refine h.create ha (fun f => by simp [TimerLoop.create, or_comm]) ?_
      refine List.pairwise_append.mpr ⟨h.order, List.pairwise_singleton _ _, fun f hf g hg => ?_⟩
      rw [List.mem_singleton.mp hg]
      intro m id heq
      cases heq
      exact hlt hf
  | @erase thread n c hc =>
    cases thread with
    | loop => exact h.eraseInLoop n c.id
    | other => exact h.pushErase hc
  | @runFunc f rest _ hqueue =>
    cases f with
    | insertInLoop n id => exact h.runInsert hqueue
    | eraseInLoop n id => exact (h.popErase hqueue).eraseInLoop n id
  | skipRun => exact h
  | beginRun => exact h.shrink (h.rep.beginRun _) (h.rep.shrinks_beginRun _) rfl rfl
  | fire _ hdue =>
    have hmem := (TimerList.mem_of_due? hdue).1
    exact h.shrink (h.rep.fireFirst hmem) (h.rep.shrinks_fireFirst _ hmem) rfl rfl
  | finish => exact h.congr rfl rfl rfl

theorem inv_of_reachable {start : ℕ} (hs : (system start).Reachable s) : Inv s :=
  Machine.Reachable.invariant (inv_init start) (fun _ _ _ _ h hnext => h.step (step_of_next hnext))
    hs

/-- The log speaks of created Timers only. -/
def Logged (s : TimerLoop) : Prop := ∀ e ∈ s.log, e.serial < s.created.length

theorem Logged.not_mem (h : Logged s) {e : Event} (he : e.serial = s.created.length) :
    e ∉ s.log := by
  intro hmem
  have := h e hmem
  omega

theorem Logged.step {a : Act} {t : TimerLoop} (h : Logged s) (hinv : Inv s)
    (hstep : Step s a t) : Logged t := by
  have happend {u : TimerLoop} {e : Event} (hcreated : u.created = s.created)
      (hlog : u.log = s.log ++ [e]) (he : e.serial < s.created.length) : Logged u := by
    intro e' he'
    rw [hlog, List.mem_append, List.mem_singleton] at he'
    rw [hcreated]
    rcases he' with he' | rfl
    · exact h e' he'
    · exact he
  cases hstep with
  | advance => exact h
  | setClock => exact h
  | @insert thread request a ha _ =>
    intro e he
    cases thread with
    | loop => exact Nat.lt_of_lt_of_le (h e he) (by simp [runInLoop, exec, TimerLoop.create])
    | other => exact Nat.lt_of_lt_of_le (h e he) (by simp [runInLoop, TimerLoop.create])
  | @erase thread n c hc =>
    cases thread with
    | loop => exact happend rfl rfl (List.getElem?_eq_some_iff.mp hc).1
    | other => exact h
  | @runFunc f rest _ hqueue =>
    cases f with
    | insertInLoop n id => exact h
    | eraseInLoop n id =>
      exact happend rfl rfl (hinv.queue_serial_lt (f := .eraseInLoop n id) (by simp [hqueue]))
  | skipRun => exact h
  | beginRun => exact h
  | fire _ hdue =>
    have hid := (TimerList.mem_of_due? hdue).1
    exact happend rfl rfl (hinv.serial_lt (hinv.rep.live (hinv.rep.timer_mem hid)))
  | finish => exact h

theorem logged_of_reachable {start : ℕ} (hs : (system start).Reachable s) : Logged s := by
  refine Machine.Reachable.invariant (P := Logged) (by simp [Logged, system]) ?_ hs
  intro s a t hs h hnext
  exact h.step (inv_of_reachable hs) (step_of_next hnext)

end

/-- The representation invariant, with what it gives `EraseInLoop` and the rebase. -/
structure Represented (s : TimerList) : Prop where
  ptrs : ∀ a, a ∈ s.timerPtrs ↔ ∃ id ∈ s.timers, id.timer = a
  once : (s.timers.elems.map TimerId.timer).Nodup
  key : ∀ id ∈ s.timers, id.value = (s.memory id.timer).msValue
  erase_ptrs : ∀ id, id.timer ∈ s.timerPtrs → id.timer ∉ (s.eraseInLoop id).timerPtrs
  erase_timers : ∀ id, id.timer ∈ s.timerPtrs → ∀ id', id' ∈ (s.eraseInLoop id).timers ↔
    id' ∈ s.timers ∧ id'.timer ≠ id.timer
  rebase_perm : ∀ diff,
    ((s.rebase diff).timers.elems.map TimerId.timer).Perm (s.timers.elems.map TimerId.timer)
  rebase_mem : ∀ diff, ∀ id ∈ s.timers,
    ⟨TimerList.rebased diff id.value, id.timer⟩ ∈ (s.rebase diff).timers

theorem timerList_represented (start : ℕ) (s : TimerLoop) (hs : (system start).Reachable s) :
    Represented s.list := by
  have h := (inv_of_reachable hs).rep
  refine ⟨h.mem_timerPtrs, h.nodup, fun id => h.value_eq, fun id hid => ?_, fun id hid id' => ?_,
    h.rebase_perm, fun diff id hid => ?_⟩
  · simp [TimerList.eraseInLoop, hid]
  · have hptrs : (s.list.eraseInLoop id).timerPtrs = s.list.timerPtrs.erase id.timer := by
      simp [TimerList.eraseInLoop, hid]
    have hmemory : (s.list.eraseInLoop id).memory = s.list.memory := by
      simp [TimerList.eraseInLoop, hid]
    rw [(h.eraseInLoop id).mem_timers, h.mem_timers, hptrs, hmemory, Finset.mem_erase]
    tauto
  · exact (TimerList.mem_rebase diff _).mpr ⟨id, hid, rfl⟩

/-- A periodic and a one-shot timer, the clock set back before the first run, and
the periodic timer removed by its own callback. -/
def rebasedRun : List Act :=
  [.insert .loop (.runEvery 50) 8, .insert .loop (.runAfter 70) 4, .setClock 400, .runTimerProcs,
    .finish, .advance 60, .runTimerProcs, .fire, .erase .loop 0]

theorem timerList_represented_rebasedRun :
    ∃ s, (system 1000).Reachable s ∧ s.list.timers.elems = [⟨470, 4⟩] ∧
      Represented s.list := by
  obtain ⟨s, hs, helems⟩ := Machine.exists_reachable_of_run (M := system 1000) rebasedRun
    (fun s => s.list.timers.elems = [⟨470, 4⟩]) (by decide +kernel)
  exact ⟨s, hs, helems, timerList_represented 1000 s hs⟩

end TimerLoop

end Voyager
