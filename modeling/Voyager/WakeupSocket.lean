import Voyager.EventLoop
import Voyager.Lib.Backlog

/-!
The wakeup socket of an `EventLoop` as a blocking stream of finite capacity. Every
`WakeUp` writes one record, of the loop thread or another one; an iteration whose `Poll`
finds the socket readable reads one record. A writer waits while the stream is full,
and when that is the loop thread, nobody reads any more.
-/
namespace Voyager.EventLoop

open Lib.Runs Lib.Backlog

variable {α δ : Type*} [DecidableEq δ]

/-- A full stream takes no record. `Poll` reports the wakeup dispatch, which belongs to
the loop, when there is a record, and its handler reads. -/
def socketAllows (capacity : ℕ) (s : State α δ) : Label α δ → Bool
  | .wakeUp | .threadWakeUp _ => s.wakeups < capacity
  | .poll ds => ds.count .wakeup = if 0 < s.wakeups then 1 else 0
  | .handleEvent reads => reads
  | .updateDispatch d | .removeDispatch d | .destroy d => d ≠ .wakeup
  | _ => true

def socketNext (capacity : ℕ) (s : State α δ) (a : Label α δ) : Option (State α δ) :=
  if socketAllows capacity s a then next s a else none

variable (α δ) in
def socketMachine (capacity : ℕ) : Machine (State α δ) (Label α δ) :=
  ⟨State.create, socketNext capacity⟩

/-- The loop thread is about to execute `WakeUp` when the stream is full. -/
def Blocked (capacity : ℕ) (s : State α δ) : Prop :=
  s.loopWaking.isSome ∧ capacity ≤ s.wakeups

/-- What a step means for the unread records. -/
def recordEvent : Label α δ → Option Event
  | .wakeUp | .threadWakeUp _ => some .arrive
  | .poll _ => some .serve
  | _ => none

/-- The records are those that the polls so far could not serve, with the one that the
current iteration will still read. The loop thread wakes itself up only in `RunFuncs`,
when it has read it. -/
structure Accounts (labels : List (Label α δ)) (s : State α δ) : Prop where
  running : s.run = true → s.phase = .swap ∨ ∃ batch, s.phase = .funcs batch
  waking : s.loopWaking.isSome → s.run = true
  wakeups : s.wakeups = backlog recordEvent labels + s.pending.count .wakeup

section

variable {capacity : ℕ} {labels : List (Label α δ)} {s t : State α δ} {a : Label α δ}

theorem accounts_create : Accounts [] (State.create : State α δ) where
  running h := by cases h
  waking h := by cases h
  wakeups := rfl

theorem Accounts.pending_nil (h : Accounts labels s) (hwaking : s.loopWaking.isSome) :
    s.pending = [] := by
  rcases h.running (h.waking hwaking) with hphase | ⟨batch, hphase⟩ <;> simp [State.pending, hphase]

/-- Outside of `RunFuncs` the loop thread has no `WakeUp` to execute. -/
theorem Accounts.not_run (h : Accounts labels s) (hswap : s.phase ≠ .swap)
    (hfuncs : ∀ batch, s.phase ≠ .funcs batch) : ¬s.run = true := by
  intro hrun
  rcases h.running hrun with hphase | ⟨batch, hphase⟩
  · exact hswap hphase
  · exact hfuncs batch hphase

/-- A step that touches neither the records nor the place in `Loop`. -/
theorem Accounts.frame (h : Accounts labels s) (hevent : recordEvent a = none)
    (hphase : t.phase = s.phase) (hrun : t.run = s.run) (hwakeups : t.wakeups = s.wakeups)
    (hwaking : t.loopWaking.isSome → s.run = true) : Accounts (labels ++ [a]) t where
  running := by
    rw [hphase, hrun]
    exact h.running
  waking := by
    rw [hrun]
    exact hwaking
  wakeups := by
    have hpending : t.pending = s.pending := by simp [State.pending, hphase]
    rw [hwakeups, hpending, backlog_concat, hevent]
    exact h.wakeups

/-- The step to a place in `Loop` where no function of the batch runs. -/
theorem Accounts.moves (h : Accounts labels s) (hevent : recordEvent a = none)
    (hrun : ¬t.run = true) (hpending : t.pending = s.pending) (hwakeups : t.wakeups = s.wakeups)
    (hidle : t.loopWaking = none) : Accounts (labels ++ [a]) t where
  running h := absurd h hrun
  waking h := by simp [hidle] at h
  wakeups := by
    rw [hwakeups, hpending, backlog_concat, hevent]
    exact h.wakeups

theorem Accounts.idle (h : Accounts labels s) (hrun : ¬s.run = true) : s.loopWaking = none := by
  by_contra hwaking
  exact hrun (h.waking (Option.isSome_iff_ne_none.mpr hwaking))

theorem Accounts.writes (h : Accounts labels s) (hevent : recordEvent a = some .arrive)
    (hphase : t.phase = s.phase) (hrun : t.run = s.run) (hwakeups : t.wakeups = s.wakeups + 1)
    (hwaking : t.loopWaking.isSome → s.loopWaking.isSome) : Accounts (labels ++ [a]) t where
  running := by
    rw [hphase, hrun]
    exact h.running
  waking hsome := hrun ▸ h.waking (hwaking hsome)
  wakeups := by
    have hpending : t.pending = s.pending := by simp [State.pending, hphase]
    rw [hwakeups, hpending, backlog_concat, hevent, h.wakeups]
    simp only [update]
    omega

/-- `Poll` reports the records, and one of them will be read. -/
theorem Accounts.poll {ds : List (DispatchId δ)} (h : Accounts labels s)
    (hphase : s.phase = .poll) (hds : ds.count .wakeup = if 0 < s.wakeups then 1 else 0) :
    Accounts (labels ++ [.poll ds]) { s with phase := .timers ds, gone := [] } := by
  have hrun := h.not_run (by simp [hphase]) (by simp [hphase])
  have hbefore : s.wakeups = backlog recordEvent labels := by
    simpa [State.pending, hphase] using h.wakeups
  refine ⟨fun hnow => absurd hnow hrun, fun hnow => absurd (h.waking hnow) hrun, ?_⟩
  show s.wakeups = backlog recordEvent (labels ++ [.poll ds]) + ds.count .wakeup
  rw [backlog_concat, hds, ← hbefore]
  simp only [recordEvent, update]
  split <;> omega

theorem Accounts.handleEvent {d : DispatchId δ} {rest : List (DispatchId δ)}
    (h : Accounts labels s) (hphase : s.phase = .dispatch (d :: rest))
    (ht : s.handleEvent d rest true = some t) : Accounts (labels ++ [.handleEvent true]) t := by
  have hrun := h.not_run (by simp [hphase]) (by simp [hphase])
  have hidle := h.idle hrun
  have hwakeups := h.wakeups
  simp only [State.pending, hphase, List.count_cons] at hwakeups
  simp only [State.handleEvent, and_true] at ht
  split at ht
  · rename_i hwakeup
    rw [Option.ite_none_right_eq_some, Option.some.injEq] at ht
    obtain ⟨hpos, rfl⟩ := ht
    refine ⟨fun hnow => absurd hnow hrun, fun hnow => absurd (h.waking hnow) hrun, ?_⟩
    show s.wakeups - 1 = backlog recordEvent (labels ++ [.handleEvent true]) + rest.count .wakeup
    rw [backlog_concat]
    simp only [hwakeup, BEq.rfl, if_true] at hwakeups
    simp only [recordEvent, update]
    omega
  · rename_i hother
    rw [Option.some.injEq] at ht
    subst ht
    refine ⟨fun hnow => absurd hnow hrun, fun hnow => absurd (h.waking hnow) hrun, ?_⟩
    show s.wakeups = backlog recordEvent (labels ++ [.handleEvent true]) + rest.count .wakeup
    rw [backlog_concat]
    simp only [beq_iff_eq, hother, if_false] at hwakeups
    exact hwakeups

theorem Accounts.step (h : Accounts labels s) (hallows : socketAllows capacity s a = true)
    (hnext : next s a = some t) : Accounts (labels ++ [a]) t := by
  cases step_of_next hnext with
  | enter hphase hidle =>
    have hrun := h.not_run (by simp [hphase]) (by simp [hphase])
    exact h.moves rfl hrun (by simp [State.pending, hphase]) rfl hidle
  | leave hphase hexit =>
    have hrun := h.not_run (by simp [hphase]) (by simp [hphase])
    exact h.moves rfl hrun (by simp [State.pending, hphase]) rfl (h.idle hrun)
  | iterate hphase hexit =>
    have hrun := h.not_run (by simp [hphase]) (by simp [hphase])
    exact h.moves rfl hrun (by simp [State.pending, hphase]) rfl (h.idle hrun)
  | poll ds hphase hds => exact h.poll hphase (by simpa [socketAllows] using hallows)
  | timersDone hphase hidle =>
    have hrun := h.not_run (by simp [hphase]) (by simp [hphase])
    exact h.moves rfl hrun (by simp [State.pending, hphase]) rfl hidle
  | handleEvent d rest reads hphase hidle hwakeups ht =>
    obtain rfl : reads = true := hallows
    simp only [next, hphase, hidle] at hnext
    exact h.handleEvent hphase hnext
  | runFuncs hphase hidle =>
    refine ⟨fun _ => .inl rfl, fun _ => rfl, ?_⟩
    rw [backlog_concat]
    simpa [State.pending, hphase, recordEvent, update] using h.wakeups
  | swap hphase =>
    refine ⟨fun _ => .inr ⟨s.funcs, rfl⟩, h.waking, ?_⟩
    rw [backlog_concat]
    simpa [State.pending, hphase, recordEvent, update] using h.wakeups
  | @exec task batch hphase hidle =>
    refine ⟨fun _ => .inr ⟨batch, rfl⟩, h.waking, ?_⟩
    rw [backlog_concat]
    simpa [State.pending, hphase, recordEvent, update] using h.wakeups
  | funcsDone hphase hidle =>
    exact h.moves rfl (by simp) (by simp [State.pending, hphase]) rfl hidle
  | released hphase hidle =>
    have hrun := h.not_run (by simp [hphase]) (by simp [hphase])
    exact h.moves rfl hrun (by simp [State.pending, hphase]) rfl hidle
  | queueInLoop f huser hidle =>
    refine h.frame rfl rfl rfl rfl fun hwaking => ?_
    by_contra hrun
    simp [State.queueInLoop, hrun] at hwaking
  | wakeUp hwake => exact h.writes rfl rfl rfl rfl fun hnone => by cases hnone
  | exit huser hidle => exact h.frame rfl rfl rfl rfl (by simp [hidle])
  | updateDispatch d huser hidle => exact h.frame rfl rfl rfl rfl h.waking
  | removeDispatch d huser hidle => exact h.frame rfl rfl rfl rfl h.waking
  | destroy d huser hidle => exact h.frame rfl rfl rfl rfl h.waking
  | threadQueueInLoop i f hidle => exact h.frame rfl rfl rfl rfl h.waking
  | threadExit i hidle => exact h.frame rfl rfl rfl rfl h.waking
  | threadWakeUp i hwake => exact h.writes rfl rfl rfl rfl id

theorem accounts_of_run (hrun : (socketMachine α δ capacity).run State.create labels = some s) :
    Accounts labels s :=
  Machine.run_invariant (M := socketMachine α δ capacity) accounts_create
    (fun labels s a t h hnext => by
      obtain ⟨hallows, hnext⟩ := Option.ite_none_right_eq_some.mp hnext
      exact h.step hallows hnext) hrun

/-- A blocked loop thread stays blocked: what other threads do takes no record away. -/
theorem Blocked.stays (h : Blocked capacity s) (hnext : socketNext capacity s a = some t) :
    Blocked capacity t := by
  obtain ⟨hallows, hnext⟩ := Option.ite_none_right_eq_some.mp hnext
  obtain ⟨hwaking, hfull⟩ := h
  have hbusy : s.loopWaking ≠ none := Option.isSome_iff_ne_none.mp hwaking
  cases step_of_next hnext with
  | enter _ hidle => exact absurd hidle hbusy
  | leave _ _ => exact ⟨hwaking, hfull⟩
  | iterate _ _ => exact ⟨hwaking, hfull⟩
  | poll _ _ _ => exact ⟨hwaking, hfull⟩
  | timersDone _ hidle => exact absurd hidle hbusy
  | handleEvent _ _ _ _ hidle _ _ => exact absurd hidle hbusy
  | runFuncs _ hidle => exact absurd hidle hbusy
  | swap _ => exact ⟨hwaking, hfull⟩
  | exec _ hidle => exact absurd hidle hbusy
  | funcsDone _ hidle => exact absurd hidle hbusy
  | released _ hidle => exact absurd hidle hbusy
  | queueInLoop _ _ hidle => exact absurd hidle hbusy
  | wakeUp _ => exact absurd (of_decide_eq_true hallows) (Nat.not_lt.mpr hfull)
  | exit _ hidle => exact absurd hidle hbusy
  | updateDispatch _ _ hidle => exact absurd hidle hbusy
  | removeDispatch _ _ hidle => exact absurd hidle hbusy
  | destroy _ _ hidle => exact absurd hidle hbusy
  | threadQueueInLoop _ _ _ => exact ⟨hwaking, hfull⟩
  | threadExit _ _ => exact ⟨hwaking, hfull⟩
  | threadWakeUp _ _ => exact ⟨hwaking, Nat.le_succ_of_le hfull⟩

end

/-- The loop thread does not block on its own wakeup socket exactly if, whenever it is
about to execute `WakeUp`, the `WakeUp`s of every last stretch of the run, by any
thread, are fewer than the capacity and the polls of that stretch together. -/
theorem not_blocked_iff (capacity : ℕ) (labels : List (Label α δ)) (s : State α δ)
    (hrun : (socketMachine α δ capacity).run State.create labels = some s) :
    ¬Blocked capacity s ↔ (s.loopWaking.isSome → ∀ pre suf, labels = pre ++ suf →
      arrivals recordEvent suf < capacity + services recordEvent suf) := by
  have h := accounts_of_run hrun
  unfold Blocked
  rw [not_and]
  refine forall_congr' fun hwaking => ?_
  have hwakeups : s.wakeups = backlog recordEvent labels := by
    simpa [h.pending_nil hwaking] using h.wakeups
  rw [hwakeups, le_backlog_iff]
  simp only [not_exists, not_and, Nat.not_le]

/-- A queued function that is reached with an empty wakeup socket. -/
def firstFunc : List (Label Unit Unit) :=
  [.queueInLoop (), .enter, .iterate, .poll [], .timersDone, .runFuncs, .swap, .exec]

/-- A function may queue another one when the socket takes one record. -/
theorem not_blocked_once :
    ∃ s, (socketMachine Unit Unit 1).run State.create (firstFunc ++ [.queueInLoop ()]) = some s ∧
      s.loopWaking.isSome ∧ (¬Blocked 1 s ↔ (s.loopWaking.isSome →
        ∀ pre suf, firstFunc ++ [.queueInLoop ()] = pre ++ suf →
          arrivals recordEvent suf < 1 + services recordEvent suf)) := by
  refine ⟨_, rfl, rfl, not_blocked_iff 1 (firstFunc ++ [.queueInLoop ()]) _ rfl⟩

/-- It blocks when it queues a second one. -/
theorem blocked_twice :
    ∃ s, (socketMachine Unit Unit 1).run State.create
        (firstFunc ++ [.queueInLoop (), .wakeUp, .queueInLoop ()]) = some s ∧ Blocked 1 s :=
  ⟨_, rfl, rfl, Nat.le_refl 1⟩

/-- The calls of a function that queues others: each is a push and a record. -/
def queueMany : ℕ → List (Label Unit Unit)
  | 0 => []
  | k + 1 => .queueInLoop () :: .wakeUp :: queueMany k

theorem run_queueMany (capacity k : ℕ) {s : State Unit Unit} {batch : List (Task Unit)}
    (hphase : s.phase = .funcs batch) (hrun : s.run = true) (hidle : s.loopWaking = none)
    (hfits : s.wakeups + k ≤ capacity) :
    ∃ t, (socketMachine Unit Unit capacity).run s (queueMany k) = some t ∧
      t.phase = .funcs batch ∧ t.run = true ∧ t.loopWaking = none ∧ t.wakeups = s.wakeups + k := by
  induction k generalizing s with
  | zero => exact ⟨s, rfl, hphase, hrun, hidle, rfl⟩
  | succ k ih =>
    have huser : s.userCode = true := by simp [State.userCode, hphase]
    have hpush : (socketMachine Unit Unit capacity).next s (.queueInLoop ()) =
        some (s.queueInLoop ()) := by
      simp [socketMachine, socketNext, socketAllows, next, huser, hidle]
    have hwake : (socketMachine Unit Unit capacity).next (s.queueInLoop ()) .wakeUp =
        some { s.queueInLoop () with loopWaking := none, wakeups := s.wakeups + 1 } := by
      have hroom : s.wakeups < capacity := by omega
      simp [socketMachine, socketNext, socketAllows, next, State.queueInLoop, State.push, hrun,
        hroom]
    obtain ⟨t, ht, htphase, htrun, htidle, htwakeups⟩ :=
      ih (s := { s.queueInLoop () with loopWaking := none, wakeups := s.wakeups + 1 })
        hphase hrun rfl (by show s.wakeups + 1 + k ≤ capacity; omega)
    refine ⟨t, ?_, htphase, htrun, htidle, ?_⟩
    · rw [queueMany, Machine.run, hpush, Option.bind_some, Machine.run, hwake, Option.bind_some, ht]
    · rw [htwakeups]
      show s.wakeups + 1 + k = s.wakeups + (k + 1)
      omega

/-- Whatever the capacity, a function that queues more functions than it takes records
blocks the loop thread. -/
theorem exists_blocked (capacity : ℕ) : ∃ labels s,
    (socketMachine Unit Unit capacity).run State.create labels = some s ∧ Blocked capacity s := by
  obtain ⟨s, hs, hphase, hrun, hidle, hempty⟩ : ∃ s,
      (socketMachine Unit Unit capacity).run State.create firstFunc = some s ∧
        s.phase = .funcs [] ∧ s.run = true ∧ s.loopWaking = none ∧ s.wakeups = 0 :=
    ⟨_, rfl, rfl, rfl, rfl, rfl⟩
  obtain ⟨t, ht, htphase, htrun, htidle, htwakeups⟩ :=
    run_queueMany capacity capacity hphase hrun hidle (by omega)
  have huser : t.userCode = true := by simp [State.userCode, htphase]
  refine ⟨firstFunc ++ (queueMany capacity ++ [.queueInLoop ()]), t.queueInLoop (), ?_, ?_, ?_⟩
  · rw [Machine.run_append, hs, Option.bind_some, Machine.run_append, ht, Option.bind_some]
    simp [Machine.run, socketMachine, socketNext, socketAllows, next, huser, htidle]
  · simp [State.queueInLoop, htrun]
  · show capacity ≤ t.wakeups
    omega

end Voyager.EventLoop
