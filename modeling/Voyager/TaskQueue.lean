import Voyager.EventLoop

/-!
The task queue of the event loop under every interleaving of the loop thread
with any number of other threads. What was executed, the rest of the batch and
`funcs_` are always the functions pushed, in push order. A function is never
forgotten by a loop that blocks in `Poll`: its push was followed by a wakeup that
is still unread, or its pusher is about to wake the loop up. The exception is what
the destructors of the executed functions queue: `RunFuncs` has cleared `run_`
when they run, so nothing wakes the loop up for it.
-/
namespace Voyager.EventLoop

open Lib.Runs

variable {α δ : Type*}

/-- The thread that pushed the task has not yet executed the `WakeUp` for it. -/
def State.WakePending (s : State α δ) (task : Task α) : Prop :=
  match task.pusher with
  | .outsideLoop => False
  | .insideLoop => s.loopWaking = some (.forTask task.id)
  | .thread t => s.waking t = some (.forTask task.id)

/-- The wakeup due for a task: unread in the socket or still to be written. -/
def State.Woken (s : State α δ) (task : Task α) : Prop :=
  task.pusher = .outsideLoop ∨ 0 < s.wakeups ∨ s.WakePending task

/-- Phases from which the loop can come to block without swapping first. -/
def Phase.Resting : Phase α δ → Prop
  | .outside | .test | .poll | .funcs _ | .release => True
  | .timers _ | .dispatch _ | .swap => False

/-- The phases inside `RunFuncs`, where `run_` is set. -/
def Phase.Draining : Phase α δ → Prop
  | .swap | .funcs _ => True
  | .outside | .test | .poll | .timers _ | .dispatch _ | .release => False

/-- No function is lost or doubled, and they are executed in push order. -/
def State.InPushOrder (s : State α δ) : Prop :=
  s.executed ++ s.batch ++ s.funcs = s.pushed ∧
    (s.executed.map Task.id).Nodup ∧ (s.executed.map Task.id).Pairwise (· < ·)

/-- A loop thread in `Poll` has been or will be woken up for every function that
was pushed inside of `Loop` or by another thread. -/
def State.WokenInPoll (s : State α δ) : Prop :=
  s.phase = .poll → ∀ task ∈ s.funcs, task.pusher ≠ .outsideLoop →
    0 < s.wakeups ∨ s.WakePending task

/-- The step is not a `QueueInLoop` of a destructor that runs while `RunFuncs`
destroys the functions it has executed. -/
def SilentRelease (s : State α δ) : Label α δ → Prop
  | .queueInLoop _ => s.phase ≠ .release
  | _ => True

instance [DecidableEq α] [DecidableEq δ] (s : State α δ) (a : Label α δ) :
    Decidable (SilentRelease s a) :=
  match a with
  | .queueInLoop _ => inferInstanceAs (Decidable (s.phase ≠ .release))
  | .enter | .leave | .iterate | .poll _ | .timersDone | .handleEvent _ | .runFuncs | .swap
  | .exec | .funcsDone | .released | .wakeUp | .exit | .updateDispatch _ | .removeDispatch _
  | .destroy _ | .threadQueueInLoop _ _ | .threadExit _ | .threadWakeUp _ => .isTrue trivial

structure QueueInv (s : State α δ) : Prop where
  order : s.executed ++ s.batch ++ s.funcs = s.pushed
  ids : s.pushed.map Task.id = List.range s.pushed.length
  running : s.run = true ↔ s.phase.Draining

/-- Where the loop may come to block, every queued function has been woken for. -/
def WokenInv (s : State α δ) : Prop :=
  s.phase.Resting → ∀ task ∈ s.funcs, s.Woken task

/-- Pushing extends both sequences and takes the next number. -/
theorem QueueInv.push_order {s : State α δ} (h : QueueInv s) (pusher : Pusher) (f : α) :
    s.executed ++ s.batch ++ (s.push pusher f).funcs = (s.push pusher f).pushed := by
  rw [State.push, ← List.append_assoc, h.order]

theorem QueueInv.push_ids {s : State α δ} (h : QueueInv s) (pusher : Pusher) (f : α) :
    (s.push pusher f).pushed.map Task.id = List.range (s.push pusher f).pushed.length := by
  simp only [State.push, List.map_append, h.ids, List.map_cons, List.map_nil, List.length_append,
    List.length_singleton, List.range_succ]

/-- A step that leaves the queue alone and takes no wakeup away. -/
theorem State.Woken.mono {s t : State α δ} {task : Task α} (h : s.Woken task)
    (hwakeups : s.wakeups ≤ t.wakeups)
    (hpending : s.WakePending task → 0 < t.wakeups ∨ t.WakePending task) : t.Woken task := by
  rcases h with houtside | hpos | hwait
  · exact Or.inl houtside
  · exact Or.inr (Or.inl (by omega))
  · exact Or.inr (hpending hwait)

/-- A step that neither pushes, swaps nor executes. -/
theorem QueueInv.frame {s t : State α δ} (h : QueueInv s) (hexecuted : t.executed = s.executed)
    (hbatch : t.batch = s.batch) (hfuncs : t.funcs = s.funcs) (hpushed : t.pushed = s.pushed)
    (hrunning : t.run = true ↔ t.phase.Draining) : QueueInv t where
  order := by rw [hexecuted, hbatch, hfuncs, hpushed, h.order]
  ids := by rw [hpushed, h.ids]
  running := hrunning

/-- The loop thread goes on, but neither into `RunFuncs` nor out of it. -/
theorem QueueInv.moves {s t : State α δ} (h : QueueInv s) (hexecuted : t.executed = s.executed)
    (hbatch : t.batch = s.batch) (hfuncs : t.funcs = s.funcs) (hpushed : t.pushed = s.pushed)
    (hrun : t.run = s.run) (hdraining : t.phase.Draining ↔ s.phase.Draining) : QueueInv t := by
  refine h.frame hexecuted hbatch hfuncs hpushed ?_
  rw [hrun, hdraining]
  exact h.running

theorem QueueInv.queueInLoop {s : State α δ} (h : QueueInv s) (f : α) :
    QueueInv (s.queueInLoop f) where
  order := h.push_order _ f
  ids := h.push_ids _ f
  running := h.running

theorem QueueInv.threadQueueInLoop {s : State α δ} (h : QueueInv s) (t : ThreadId) (f : α) :
    QueueInv (s.threadQueueInLoop t f) where
  order := h.push_order _ f
  ids := h.push_ids _ f
  running := h.running

/-- In `RunFuncs` the loop thread wakes itself up for what it pushes; where it does
not, in a callback or a handler, the swap of this iteration lies ahead. -/
theorem WokenInv.queueInLoop {s : State α δ} (h : WokenInv s) (hqueue : QueueInv s)
    (huser : s.userCode = true) (hidle : s.loopWaking = none) (hsilent : s.phase ≠ .release)
    (f : α) : WokenInv (s.queueInLoop f) := by
  intro hrest task htask
  rcases List.mem_append.mp htask with hold | hnew
  · refine (h hrest task hold).mono (Nat.le_refl _) fun hwait => ?_
    -- no earlier push of the loop thread itself still waits for its wakeup
    cases hpusher : task.pusher with
    | outsideLoop => simp [State.WakePending, hpusher] at hwait
    | insideLoop => simp [State.WakePending, hpusher, hidle] at hwait
    | thread t =>
      right
      simpa only [State.WakePending, hpusher, State.queueInLoop_waking] using hwait
  · rw [List.mem_singleton] at hnew
    subst task
    rw [State.queueInLoop_phase] at hrest
    cases hphase : s.phase with
    | outside =>
      left
      simp only [State.loopPusher, hphase]
    | funcs batch =>
      right
      right
      have hrun : s.run = true := hqueue.running.mpr (by rw [hphase]; trivial)
      simp [State.WakePending, State.loopPusher, State.queueInLoop, hphase, hrun]
    | release => exact absurd hphase hsilent
    | test => simp [State.userCode, hphase] at huser
    | poll => simp [State.userCode, hphase] at huser
    | timers ds => simp [hphase, Phase.Resting] at hrest
    | dispatch ds => simp [hphase, Phase.Resting] at hrest
    | swap => simp [hphase, Phase.Resting] at hrest

/-- A wakeup that is still to come belongs to a thread that is not idle. -/
theorem State.WakePending.of_update_idle {s t : State α δ} {task : Task α} {i : ThreadId}
    {wake : Wake} (hwait : s.WakePending task) (hidle : s.waking i = none)
    (hloop : t.loopWaking = s.loopWaking)
    (hwaking : t.waking = Function.update s.waking i (some wake)) : t.WakePending task := by
  cases hpusher : task.pusher with
  | outsideLoop => simp [State.WakePending, hpusher] at hwait
  | insideLoop => simpa only [State.WakePending, hpusher, hloop] using hwait
  | thread u =>
    simp only [State.WakePending, hpusher] at hwait ⊢
    have hne : u ≠ i := by
      rintro rfl
      simp [hidle] at hwait
    rwa [hwaking, Function.update_of_ne hne]

theorem WokenInv.threadQueueInLoop {s : State α δ} (h : WokenInv s) {t : ThreadId}
    (hidle : s.waking t = none) (f : α) : WokenInv (s.threadQueueInLoop t f) := by
  intro hrest task htask
  rcases List.mem_append.mp htask with hold | hnew
  · refine (h hrest task hold).mono (Nat.le_refl _) fun hwait => Or.inr ?_
    exact hwait.of_update_idle hidle rfl rfl
  · rw [List.mem_singleton] at hnew
    subst task
    right
    right
    simp [State.WakePending, State.threadQueueInLoop]

/-- Writing a record wakes every task. -/
theorem State.woken_of_wakeups_pos {s : State α δ} (hpos : 0 < s.wakeups) (task : Task α) :
    s.Woken task := Or.inr (Or.inl hpos)

theorem WokenInv.wokenInPoll {s : State α δ} (h : WokenInv s) : s.WokenInPoll := by
  intro hpoll task htask hpusher
  exact (h (by rw [hpoll]; trivial) task htask).resolve_left hpusher

theorem QueueInv.inPushOrder {s : State α δ} (h : QueueInv s) : s.InPushOrder := by
  have hpre : s.executed.map Task.id <+: List.range s.pushed.length := by
    rw [← h.ids, ← h.order, List.append_assoc, List.map_append]
    exact List.prefix_append _ _
  refine ⟨h.order, ?_, ?_⟩
  · exact hpre.sublist.nodup List.nodup_range
  · exact List.pairwise_lt_range.sublist hpre.sublist

section Steps

variable [DecidableEq δ]

theorem queueInv_create : QueueInv (State.create : State α δ) where
  order := rfl
  ids := rfl
  running := ⟨fun h => (Bool.false_ne_true h).elim, fun h => h.elim⟩

theorem QueueInv.step {s t : State α δ} {a : Label α δ} (h : QueueInv s) (hstep : Step s a t) :
    QueueInv t := by
  have hrunning := h.running
  cases hstep with
  | enter hphase _ =>
    exact h.moves rfl (by simp [State.batch, hphase]) rfl rfl rfl (by simp [hphase, Phase.Draining])
  | leave hphase _ =>
    exact h.moves rfl (by simp [State.batch, hphase]) rfl rfl rfl (by simp [hphase, Phase.Draining])
  | iterate hphase _ =>
    exact h.moves rfl (by simp [State.batch, hphase]) rfl rfl rfl (by simp [hphase, Phase.Draining])
  | poll ds hphase _ =>
    exact h.moves rfl (by simp [State.batch, hphase]) rfl rfl rfl (by simp [hphase, Phase.Draining])
  | timersDone hphase _ =>
    exact h.moves rfl (by simp [State.batch, hphase]) rfl rfl rfl (by simp [hphase, Phase.Draining])
  | handleEvent d rest reads hphase _ _ ht =>
    rw [ht]
    exact h.moves rfl (by simp [State.batch, hphase]) rfl rfl rfl (by simp [hphase, Phase.Draining])
  | runFuncs hphase _ =>
    exact h.frame rfl (by simp [State.batch, hphase]) rfl rfl ⟨fun _ => trivial, fun _ => rfl⟩
  | swap hphase =>
    have horder := h.order
    simp only [State.batch, hphase, List.append_nil] at horder
    refine ⟨?_, h.ids, ?_⟩
    · simpa only [State.batch, List.append_nil] using horder
    · simpa only [hphase, Phase.Draining] using hrunning
  | exec hphase _ =>
    have horder := h.order
    simp only [State.batch, hphase] at horder
    refine ⟨?_, h.ids, ?_⟩
    · simpa only [State.batch, List.append_assoc, List.cons_append, List.nil_append] using horder
    · simpa only [hphase, Phase.Draining] using hrunning
  | funcsDone hphase _ =>
    exact h.frame rfl (by simp [State.batch, hphase]) rfl rfl
      ⟨fun hrun => (Bool.false_ne_true hrun).elim, fun hdrain => hdrain.elim⟩
  | released hphase _ =>
    exact h.moves rfl (by simp [State.batch, hphase]) rfl rfl rfl (by simp [hphase, Phase.Draining])
  | queueInLoop f _ _ => exact h.queueInLoop f
  | wakeUp _ => exact h.frame rfl rfl rfl rfl hrunning
  | exit _ _ => exact h.frame rfl rfl rfl rfl hrunning
  | updateDispatch d _ _ => exact h.frame rfl rfl rfl rfl hrunning
  | removeDispatch d _ _ => exact h.frame rfl rfl rfl rfl hrunning
  | destroy d _ _ => exact h.frame rfl rfl rfl rfl hrunning
  | threadQueueInLoop i f _ => exact h.threadQueueInLoop i f
  | threadExit i _ => exact h.frame rfl rfl rfl rfl hrunning
  | threadWakeUp i _ => exact h.frame rfl rfl rfl rfl hrunning

theorem queueInv_of_reachable {s : State α δ} (hs : (machine α δ).Reachable s) : QueueInv s :=
  Machine.Reachable.invariant queueInv_create (fun _ _ _ _ h ha => h.step (step_of_next ha)) hs

theorem wokenInv_create : WokenInv (State.create : State α δ) := by
  intro _ task htask
  cases htask

theorem WokenInv.step {s t : State α δ} {a : Label α δ} (h : WokenInv s) (hqueue : QueueInv s)
    (hsilent : SilentRelease s a) (hstep : Step s a t) : WokenInv t := by
  cases hstep with
  | enter hphase _ => exact fun _ => h (by rw [hphase]; trivial)
  | leave hphase _ => exact fun _ => h (by rw [hphase]; trivial)
  | iterate hphase _ => exact fun _ => h (by rw [hphase]; trivial)
  | poll ds _ _ => exact fun hrest => hrest.elim
  | timersDone _ _ => exact fun hrest => hrest.elim
  | handleEvent d rest reads _ _ _ ht =>
    -- the handler may read a wakeup, but the swap of this iteration lies ahead
    rw [ht]
    exact fun hrest => hrest.elim
  | runFuncs _ _ => exact fun hrest => hrest.elim
  | swap _ =>
    intro _ task htask
    cases htask
  | exec hphase _ => exact fun _ => h (by rw [hphase]; trivial)
  | funcsDone hphase _ => exact fun _ => h (by rw [hphase]; trivial)
  | released hphase _ => exact fun _ => h (by rw [hphase]; trivial)
  | queueInLoop f huser hidle => exact h.queueInLoop hqueue huser hidle hsilent f
  | wakeUp _ => exact fun _ task _ => State.woken_of_wakeups_pos (Nat.succ_pos _) task
  | exit _ _ => exact h
  | updateDispatch d _ _ => exact h
  | removeDispatch d _ _ => exact h
  | destroy d _ _ => exact h
  | threadQueueInLoop i f hidle => exact h.threadQueueInLoop hidle f
  | threadExit i hidle =>
    intro hrest task htask
    refine (h hrest task htask).mono (Nat.le_refl _) fun hwait => Or.inr ?_
    exact hwait.of_update_idle hidle rfl rfl
  | threadWakeUp i _ => exact fun _ task _ => State.woken_of_wakeups_pos (Nat.succ_pos _) task

theorem wokenInv_of_reachable {s : State α δ}
    (hs : (machine α δ).ReachableWhen SilentRelease s) : WokenInv s :=
  Machine.ReachableWhen.invariant wokenInv_create
    (fun _ _ _ hs hok h ha =>
      h.step (queueInv_of_reachable hs.reachable) hok (step_of_next ha)) hs

/-- What a destructor queues while `RunFuncs` destroys the executed functions waits in
`funcs_` when the loop thread blocks: `run_` is cleared, so it did not wake itself up. -/
theorem QueueInv.forgets {s : State α δ} (h : QueueInv s) (hphase : s.phase = .release)
    (hidle : s.loopWaking = none) (hexit : s.exit = false) (hwakeups : s.wakeups = 0) (f : α) :
    ∃ t, (machine α δ).run s [.queueInLoop f, .released, .iterate] = some t ∧
      ¬t.WokenInPoll := by
  have hrun : s.run = false := by
    rw [Bool.eq_false_iff, Ne, h.running, hphase]
    exact not_false
  have huser : s.userCode = true := by simp only [State.userCode, hphase]
  refine ⟨{ s.queueInLoop f with phase := .poll }, ?_, fun hwoken => ?_⟩
  · simp [Machine.run, machine, next, huser, hidle, State.queueInLoop, State.push, hrun, hphase,
      hexit]
  · have htask : (⟨s.pushed.length, .insideLoop, f⟩ : Task α) ∈ (s.queueInLoop f).funcs := by
      simp [State.queueInLoop, State.push, State.loopPusher, hphase]
    rcases hwoken rfl _ htask (by simp) with hpos | hwait
    · exact Nat.ne_of_gt hpos hwakeups
    · simp [State.WakePending, State.queueInLoop, hrun] at hwait

/-- The task queue, in every state of every run: no function is lost, doubled or
reordered. None waits unnoticed while the loop blocks in `Poll` if no destructor of an
executed function queues one; where such a one does, and nobody else wakes the loop
up, the loop thread goes on to block. -/
theorem taskQueue_fifo_and_woken (s : State α δ) (hs : (machine α δ).Reachable s) :
    s.InPushOrder ∧
      ((machine α δ).ReachableWhen SilentRelease s → s.WokenInPoll) ∧
      (s.phase = .release → s.loopWaking = none → s.exit = false → s.wakeups = 0 → ∀ f,
        ∃ t, (machine α δ).run s [.queueInLoop f, .released, .iterate] = some t ∧
          ¬t.WokenInPoll) := by
  have hinv := queueInv_of_reachable hs
  refine ⟨hinv.inPushOrder, fun hsilent => (wokenInv_of_reachable hsilent).wokenInPoll, ?_⟩
  intro hphase hidle hexit hwakeups f
  exact hinv.forgets hphase hidle hexit hwakeups f

/-- One function is executed; the next one is pushed after the swap, and its
thread wakes the loop up before it blocks again. -/
theorem taskQueue_fifo_and_woken_late_push :
    ∃ s : State ℕ ℕ, (machine ℕ ℕ).ReachableWhen SilentRelease s ∧
      (s.phase = .poll ∧ s.funcs.length = 1 ∧ s.executed.length = 1) ∧
      s.InPushOrder ∧ s.WokenInPoll := by
  obtain ⟨s, hs, hstate⟩ := Machine.exists_reachableWhen_of_run (M := machine ℕ ℕ) SilentRelease
    [.enter, .iterate, .threadQueueInLoop 1 7, .threadWakeUp 1, .poll [.wakeup], .timersDone,
      .handleEvent true, .runFuncs, .swap, .threadQueueInLoop 2 8, .exec, .threadWakeUp 2,
      .funcsDone, .released, .iterate]
    (fun s => s.phase = .poll ∧ s.funcs.length = 1 ∧ s.executed.length = 1) (by decide)
  obtain ⟨horder, hwoken, _⟩ := taskQueue_fifo_and_woken s hs.reachable
  exact ⟨s, hs, hstate, horder, hwoken hs⟩

/-- The function that another thread queued is executed; the destructor of what it
holds queues the next one, and the loop thread blocks with the socket empty. -/
theorem not_taskQueue_woken :
    ¬∀ s : State ℕ ℕ, (machine ℕ ℕ).Reachable s → s.InPushOrder ∧ s.WokenInPoll := by
  intro h
  obtain ⟨s, hs, hphase, hidle, hexit, hwakeups⟩ := Machine.exists_reachable_of_run
    (M := machine ℕ ℕ)
    [.enter, .iterate, .threadQueueInLoop 1 7, .threadWakeUp 1, .poll [.wakeup], .timersDone,
      .handleEvent true, .runFuncs, .swap, .exec, .funcsDone]
    (fun s => s.phase = .release ∧ s.loopWaking = none ∧ s.exit = false ∧ s.wakeups = 0)
    (by decide)
  obtain ⟨t, ht, hforgotten⟩ :=
    (queueInv_of_reachable hs).forgets hphase hidle hexit hwakeups 8
  exact hforgotten (h t (hs.run ht)).2

end Steps

end Voyager.EventLoop
