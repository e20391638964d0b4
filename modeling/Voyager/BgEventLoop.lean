import Voyager.Lib.Runs

/-!
`BGEventLoop` of core/bg_eventloop.cc: a thread that constructs an `EventLoop` and runs
it, and the owner that starts the thread, waits for the pointer to the loop, and in the
destructor stops the loop and joins the thread. The two share `eventloop_` and the
loop's `exit_`.
-/
namespace Voyager

open Lib.Runs

/-- The thread's next statement: in `ThreadFunc` the constructor of the loop with the
publication, and `eventloop_ = nullptr`; in `EventLoop::Loop` the assignment to `exit_`,
the test of `while`, and the rest of an iteration, which ends as `Poll` times out. -/
inductive BgStage
  | none
  | construct
  | clearExit
  | test
  | iteration
  | reset
  | ended
deriving DecidableEq, Repr

/-- Where the owner is. `crashed` is a null pointer followed, or the destruction of a
`std::thread` that has not been joined. -/
inductive OwnerStage
  | constructed
  | waits
  | returned
  | exits
  | joins
  | destroyed
  | crashed
deriving DecidableEq, Repr

/-- `eventloop` says that `eventloop_` is not null. `exitCalled` is there since the first
call of `Exit`, and `late` counts the iterations begun after it. -/
structure BgEventLoop where
  bg : BgStage
  owner : OwnerStage
  eventloop : Bool
  exit : Bool
  joined : Bool
  exitCalled : Bool
  late : ℕ
deriving DecidableEq, Repr

namespace BgEventLoop

inductive Act
  | loop
  | loopReturns
  | bg
  | exit
  | destructor
  | destructorExit
  | join
deriving DecidableEq, Repr

/-- `EventLoop::Exit`. Waking the loop up changes nothing here. -/
def callExit (s : BgEventLoop) : BgEventLoop := { s with exit := true, exitCalled := true }

/-- The `EventLoop` exists. -/
def alive (s : BgEventLoop) : Bool :=
  s.bg = .clearExit ∨ s.bg = .test ∨ s.bg = .iteration ∨ s.bg = .reset

def bgStep (s : BgEventLoop) : Option BgEventLoop :=
  match s.bg with
  | .none => none
  | .construct => some { s with bg := .clearExit, eventloop := true, exit := true }
  | .clearExit => some { s with bg := .test, exit := false }
  | .test =>
    some (if s.exit then { s with bg := .reset }
      else { s with bg := .iteration, late := s.late + if s.exitCalled then 1 else 0 })
  | .iteration => some { s with bg := .test }
  | .reset => some { s with bg := .ended, eventloop := false }
  | .ended => none

def act (s : BgEventLoop) : Act → Option BgEventLoop
  | .loop =>
    if s.owner = .constructed then some { s with bg := .construct, owner := .waits } else none
  | .loopReturns =>
    if s.owner = .waits ∧ s.eventloop then some { s with owner := .returned } else none
  | .bg => s.bgStep
  -- Code in the loop or on another thread, which has the pointer from `Loop`.
  | .exit =>
    if s.alive ∧ (s.owner = .returned ∨ s.owner = .exits ∨ s.owner = .joins) then some s.callExit
    else none
  | .destructor =>
    if s.owner = .constructed ∨ s.owner = .returned then
      some { s with owner :=
        if s.eventloop then .exits else if s.bg = .none then .destroyed else .crashed }
    else none
  | .destructorExit =>
    if s.owner = .exits then
      some (if s.eventloop then { s.callExit with owner := .joins }
        else { s with owner := .crashed })
    else none
  | .join =>
    if s.owner = .joins ∧ s.bg = .ended then some { s with owner := .destroyed, joined := true }
    else none

def next (s : BgEventLoop) (a : Act) : Option BgEventLoop :=
  if s.owner = .crashed then none else s.act a

def machine : Machine BgEventLoop Act := ⟨⟨.none, .constructed, false, true, false, false, 0⟩, next⟩

/-- The statements that the thread has left once `exit_` is true. -/
def remaining : BgStage → ℕ
  | .iteration => 3
  | .test => 2
  | .reset => 1
  | _ => 0

/-- No request to stop is lost: `exit_` stays, no iteration is begun any more, and the
destructor joins the thread, which gets to its end. -/
structure Stops (s : BgEventLoop) : Prop where
  stays : s.exitCalled = true → s.exit = true
  none_late : s.late = 0
  runs : s.owner ≠ .crashed
  joined : s.owner = .destroyed → s.bg = .none ∨ s.bg = .ended ∧ s.joined = true
  ends : s.owner = .joins → s.bg = .ended ∨
    ∃ t, s.next .bg = some t ∧ t.owner = .joins ∧ remaining t.bg < remaining s.bg

/-- `Exit` is called when the thread has cleared `exit_`, and the destructor looks at
`eventloop_` and follows it when the thread has not reset it. -/
def Timely (s : BgEventLoop) : Act → Prop
  | .exit => s.bg ≠ .clearExit
  | .destructor => s.bg ≠ .ended
  | .destructorExit => s.bg ≠ .clearExit ∧ s.bg ≠ .ended
  | _ => True

instance (s : BgEventLoop) (a : Act) : Decidable (s.Timely a) := by
  unfold Timely
  split <;> infer_instance

/-- The owner has started the thread and not asked it to stop. -/
def Runs (s : BgEventLoop) : Prop := s.owner = .waits ∨ s.owner = .returned ∨ s.owner = .exits

/-- What holds when the thread is at a stage. -/
def At (s : BgEventLoop) : BgStage → Prop
  | .none =>
    s.eventloop = false ∧ s.exitCalled = false ∧ (s.owner = .constructed ∨ s.owner = .destroyed)
  | .construct => s.eventloop = false ∧ s.exitCalled = false ∧ s.owner = .waits
  | .clearExit => s.eventloop = true ∧ s.exitCalled = false ∧ s.Runs
  | .test | .iteration | .reset =>
    s.eventloop = true ∧ (s.exitCalled = true → s.exit = true) ∧
      (s.Runs ∨ s.owner = .joins ∧ s.exitCalled = true)
  | .ended =>
    s.eventloop = false ∧ (s.exitCalled = true → s.exit = true) ∧
      (s.Runs ∨ s.owner = .joins ∨ s.owner = .destroyed ∧ s.joined = true)

structure Inv (s : BgEventLoop) : Prop where
  none_late : s.late = 0
  stage : s.At s.bg

section

variable {s t : BgEventLoop}

theorem inv_init : Inv machine.init := ⟨rfl, rfl, rfl, .inl rfl⟩

theorem Inv.bgStep (h : Inv s) (hstep : s.bgStep = some t) : Inv t := by
  obtain ⟨hlate, hat⟩ := h
  unfold BgEventLoop.bgStep at hstep
  split at hstep
  · cases hstep
  · rename_i hbg
    rw [hbg] at hat
    obtain ⟨-, hcalled, howner⟩ := hat
    cases hstep
    exact ⟨hlate, rfl, hcalled, .inl howner⟩
  · rename_i hbg
    rw [hbg] at hat
    obtain ⟨hpointer, hcalled, hruns⟩ := hat
    cases hstep
    exact ⟨hlate, hpointer, fun htrue => absurd (hcalled.symm.trans htrue) (by decide), .inl hruns⟩
  · rename_i hbg
    rw [hbg] at hat
    obtain ⟨hpointer, hcalled, howner⟩ := hat
    by_cases hexit : s.exit = true
    · rw [if_pos hexit] at hstep
      cases hstep
      exact ⟨hlate, hpointer, hcalled, howner⟩
    · -- Nobody has called `Exit`, or `exit_` would be true.
      have hfalse : ¬s.exitCalled = true := fun htrue => hexit (hcalled htrue)
      rw [if_neg hexit] at hstep
      cases hstep
      exact ⟨by simp [hlate, hfalse], hpointer, hcalled, howner⟩
  · rename_i hbg
    rw [hbg] at hat
    cases hstep
    exact ⟨hlate, hat⟩
  · rename_i hbg
    rw [hbg] at hat
    obtain ⟨-, hcalled, howner⟩ := hat
    cases hstep
    exact ⟨hlate, rfl, hcalled, howner.imp_right fun hjoins => .inl hjoins.1⟩
  · cases hstep

theorem Inv.not_started (h : Inv s) (howner : s.owner = .constructed) :
    s.bg = .none ∧ s.eventloop = false ∧ s.exitCalled = false := by
  have hat := h.stage
  cases hbg : s.bg <;> simp [At, Runs, hbg, howner] at hat
  exact ⟨rfl, hat⟩

/-- `eventloop_` is not null between its publication and its reset. -/
theorem Inv.eventloop_iff (h : Inv s) : s.eventloop = true ↔ s.alive = true := by
  have hat := h.stage
  cases hbg : s.bg <;> simp [At, hbg] at hat <;> simp [alive, hbg, hat]

theorem Inv.published (h : Inv s) (howner : s.owner = .returned ∨ s.owner = .exits) :
    s.alive = true ∨ s.bg = .ended := by
  have hat := h.stage
  cases hbg : s.bg <;> simp [alive, hbg]
  all_goals
    simp only [hbg, At] at hat
    rcases howner with howner | howner <;> simp [howner] at hat

/-- The owner, which has seen the pointer, goes on without a call of `Exit`. -/
theorem Inv.setOwner (h : Inv s) (hpointer : s.eventloop = true) {owner : OwnerStage}
    (howner : owner = .returned ∨ owner = .exits) :
    Inv { s with owner := owner } := by
  have hruns : Runs { s with owner := owner } := .inr howner
  obtain ⟨hlate, hat⟩ := h
  refine ⟨hlate, ?_⟩
  show At { s with owner := owner } s.bg
  cases hbg : s.bg with
  | none | construct | ended =>
    rw [hbg] at hat
    rw [hat.1] at hpointer
    cases hpointer
  | clearExit =>
    rw [hbg] at hat
    exact ⟨hat.1, hat.2.1, hruns⟩
  | test | iteration | reset =>
    rw [hbg] at hat
    exact ⟨hat.1, hat.2.1, .inl hruns⟩

/-- `Exit` is called when the thread has cleared `exit_`. -/
theorem Inv.callExit (h : Inv s) (halive : s.alive = true) (hcleared : s.bg ≠ .clearExit)
    {owner : OwnerStage} (howner : owner = s.owner ∨ owner = .joins) :
    Inv { s.callExit with owner := owner } := by
  obtain ⟨hlate, hat⟩ := h
  refine ⟨hlate, ?_⟩
  show At { s.callExit with owner := owner } s.bg
  have hrest : s.Runs ∨ s.owner = .joins ∧ s.exitCalled = true →
      Runs { s.callExit with owner := owner } ∨ owner = .joins ∧ true = true := by
    rcases howner with rfl | rfl
    · exact fun hor => hor.imp id fun hjoins => ⟨hjoins.1, rfl⟩
    · exact fun _ => .inr ⟨rfl, rfl⟩
  cases hbg : s.bg with
  | none | construct | ended => simp [alive, hbg] at halive
  | clearExit => exact absurd hbg hcleared
  | test | iteration | reset =>
    rw [hbg] at hat
    exact ⟨hat.1, fun _ => rfl, hrest hat.2.2⟩

/-- A step keeps the invariant, if it comes in time. -/
theorem Inv.act {a : Act} (h : Inv s) (htimely : s.Timely a) (hact : s.act a = some t) :
    Inv t := by
  cases a with
  | loop =>
    simp only [BgEventLoop.act, Option.ite_none_right_eq_some, Option.some.injEq] at hact
    obtain ⟨howner, rfl⟩ := hact
    obtain ⟨-, hpointer, hcalled⟩ := h.not_started howner
    exact ⟨h.none_late, hpointer, hcalled, rfl⟩
  | loopReturns =>
    simp only [BgEventLoop.act, Option.ite_none_right_eq_some, Option.some.injEq] at hact
    obtain ⟨⟨howner, hpointer⟩, rfl⟩ := hact
    exact h.setOwner hpointer (.inl rfl)
  | bg => exact h.bgStep hact
  | exit =>
    simp only [BgEventLoop.act, Option.ite_none_right_eq_some, Option.some.injEq] at hact
    obtain ⟨⟨halive, -⟩, rfl⟩ := hact
    exact h.callExit halive htimely (.inl rfl)
  | destructor =>
    simp only [BgEventLoop.act, Option.ite_none_right_eq_some, Option.some.injEq] at hact
    obtain ⟨howner | howner, rfl⟩ := hact
    · obtain ⟨hbg, hpointer, hcalled⟩ := h.not_started howner
      rw [if_neg (by simp [hpointer]), if_pos hbg]
      refine ⟨h.none_late, ?_⟩
      show At { s with owner := .destroyed } s.bg
      rw [hbg]
      exact ⟨hpointer, hcalled, .inr rfl⟩
    · have hpointer : s.eventloop = true :=
        h.eventloop_iff.mpr ((h.published (.inl howner)).resolve_right htimely)
      rw [if_pos hpointer]
      exact h.setOwner hpointer (.inr rfl)
  | destructorExit =>
    simp only [BgEventLoop.act, Option.ite_none_right_eq_some, Option.some.injEq] at hact
    obtain ⟨howner, rfl⟩ := hact
    have halive := (h.published (.inr howner)).resolve_right htimely.2
    rw [if_pos (h.eventloop_iff.mpr halive)]
    exact h.callExit halive htimely.1 (.inr rfl)
  | join =>
    simp only [BgEventLoop.act, Option.ite_none_right_eq_some, Option.some.injEq] at hact
    obtain ⟨⟨-, hbg⟩, rfl⟩ := hact
    have hat := h.stage
    rw [hbg] at hat
    refine ⟨h.none_late, ?_⟩
    simp only [hbg]
    exact ⟨hat.1, hat.2.1, .inr (.inr ⟨rfl, rfl⟩)⟩

theorem Inv.stops (h : Inv s) : Stops s := by
  obtain ⟨hlate, hat⟩ := h
  refine ⟨fun hcalled => ?_, hlate, fun howner => ?_, fun howner => ?_, fun howner => ?_⟩
  · cases hbg : s.bg <;> simp [At, hbg, hcalled] at hat
    all_goals exact hat.2.1
  · cases hbg : s.bg <;> simp [At, Runs, hbg, howner] at hat
  · cases hbg : s.bg <;> simp [At, Runs, hbg, howner] at hat ⊢
    exact hat.2.2
  · have hnext : s.next .bg = s.bgStep := by simp [BgEventLoop.next, howner, BgEventLoop.act]
    rw [hnext]
    cases hbg : s.bg <;> simp [At, Runs, hbg, howner] at hat
    all_goals simp [BgEventLoop.bgStep, hbg, howner, remaining, hat]

/-- `Exit` before `exit_ = false`: the thread takes the request back. -/
theorem exit_lost (hbg : s.bg = .clearExit) (owner : OwnerStage)
    (howner : owner ≠ .crashed) :
    ∃ u, next { s.callExit with owner := owner } .bg = some u ∧ ¬Stops u := by
  refine ⟨{ s.callExit with owner := owner, bg := .test, exit := false }, ?_, fun hstops => ?_⟩
  · simp [BgEventLoop.next, howner, BgEventLoop.act, BgEventLoop.bgStep, BgEventLoop.callExit, hbg]
  · exact absurd (hstops.stays rfl) (by simp)

theorem not_stops_crashed : ¬Stops { s with owner := .crashed } := fun h => h.runs rfl

/-- A request that does not come in time is lost. -/
theorem Inv.not_timely (h : Inv s) {a : Act} (htimely : ¬s.Timely a) (hact : s.act a = some t) :
    ¬Stops t ∨ ∃ u, t.next .bg = some u ∧ ¬Stops u := by
  have hstage := h.stage
  cases a with
  | exit =>
    simp only [BgEventLoop.act, Option.ite_none_right_eq_some, Option.some.injEq] at hact
    obtain ⟨⟨-, howner⟩, rfl⟩ := hact
    refine .inr (exit_lost (not_not.mp htimely) s.owner ?_)
    rcases howner with howner | howner | howner <;> simp [howner]
  | destructor =>
    have hbg : s.bg = .ended := not_not.mp htimely
    rw [hbg] at hstage
    simp only [BgEventLoop.act, Option.ite_none_right_eq_some, Option.some.injEq] at hact
    obtain ⟨-, rfl⟩ := hact
    rw [if_neg (by simp [hstage.1]), if_neg (by simp [hbg])]
    exact .inl not_stops_crashed
  | destructorExit =>
    simp only [BgEventLoop.act, Option.ite_none_right_eq_some, Option.some.injEq] at hact
    obtain ⟨-, rfl⟩ := hact
    by_cases hbg : s.bg = .clearExit
    · rw [hbg] at hstage
      rw [if_pos hstage.1]
      exact .inr (exit_lost hbg .joins (by simp))
    · have hended : s.bg = .ended := not_not.mp fun hne => htimely ⟨hbg, hne⟩
      rw [hended] at hstage
      rw [if_neg (by simp [hstage.1])]
      exact .inl not_stops_crashed
  | _ => exact absurd trivial htimely

theorem Inv.act_of_next (h : Inv s) {a : Act} (hnext : s.next a = some t) : s.act a = some t := by
  simpa [BgEventLoop.next, h.stops.runs] using hnext

end

/-- A request to stop is never lost in runs where it comes in time. One that comes too
early or too late breaks this with it, or with the next statement of the thread. -/
theorem stop_not_lost (s : BgEventLoop) (hs : machine.ReachableWhen Timely s) :
    Stops s ∧ ∀ a t, s.next a = some t → ¬s.Timely a →
      ¬Stops t ∨ ∃ u, t.next .bg = some u ∧ ¬Stops u := by
  have h : Inv s := Machine.ReachableWhen.invariant inv_init
    (fun _ _ _ _ htimely h hnext => h.act htimely (h.act_of_next hnext)) hs
  exact ⟨h.stops, fun a t hnext htimely => h.not_timely htimely (h.act_of_next hnext)⟩

/-- The destructor runs while the loop is in its first iteration. -/
theorem stop_not_lost_iteration :
    ∃ s, machine.ReachableWhen Timely s ∧ s.owner = .destroyed ∧ s.joined = true ∧
      Stops s ∧ ∀ a t, s.next a = some t → ¬s.Timely a →
        ¬Stops t ∨ ∃ u, t.next .bg = some u ∧ ¬Stops u := by
  obtain ⟨s, hs, howner, hjoined⟩ := Machine.exists_reachableWhen_of_run (M := machine) Timely
    [.loop, .bg, .loopReturns, .bg, .bg, .destructor, .destructorExit, .bg, .bg, .bg, .join]
    (fun s => s.owner = .destroyed ∧ s.joined = true) (by decide)
  exact ⟨s, hs, howner, hjoined, stop_not_lost s hs⟩

/-- The destructor stops the loop between its publication and `exit_ = false`: the loop
begins an iteration and `exit_` stays false. -/
theorem stop_lost_startup : ∃ s, machine.Reachable s ∧ ¬Stops s := by
  obtain ⟨s, hs, hcalled, hexit⟩ := Machine.exists_reachable_of_run (M := machine)
    [.loop, .bg, .loopReturns, .destructor, .destructorExit, .bg, .bg]
    (fun s => s.exitCalled = true ∧ s.exit = false) (by decide)
  exact ⟨s, hs, fun hstops => absurd (hstops.stays hcalled) (by simp [hexit])⟩

/-- The loop has ended by itself before the destructor runs, which does not join. -/
theorem stop_lost_ended : ∃ s, machine.Reachable s ∧ ¬Stops s := by
  obtain ⟨s, hs, howner⟩ := Machine.exists_reachable_of_run (M := machine)
    [.loop, .bg, .loopReturns, .bg, .bg, .exit, .bg, .bg, .bg, .destructor]
    (fun s => s.owner = .crashed) (by decide)
  exact ⟨s, hs, fun hstops => hstops.runs howner⟩

end BgEventLoop

end Voyager
