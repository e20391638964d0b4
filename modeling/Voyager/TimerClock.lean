import Voyager.TimerLoop

/-!
Timers and a clock that is set back. `RunTimerProcs` takes the difference between
its last reading and a smaller new one off every key, and is meant to find keys
that belong to the old clock. A key computed after the clock was set back and
before the next run belongs to the new one, and is brought forward all the same.
-/
namespace Voyager

open Lib Lib.Runs

/-- How long the first callback has to wait. -/
def TimerRequest.delay? : TimerRequest → Option ℕ
  | .runAt _ => none
  | .runAfter d => some d
  | .runEvery d => some d

namespace TimerLoop

/-- The clock advances with real time and is otherwise only set back, and no sum of
a reading and a delay wraps. -/
def SetBackOnly (s : TimerLoop) : Act → Prop
  | .setClock wall => wall ≤ s.wall
  | .insert _ request _ => ∀ d ∈ request.delay?, s.wall + d < 2 ^ 64
  | _ => True

/-- No delay is counted from a reading that lies before the one of the last run. -/
def CountedFromLastRun (s : TimerLoop) : Act → Prop
  | .insert _ request _ => request.delay?.isSome → s.list.lastTimeOut ≤ s.wall
  | _ => True

instance (s : TimerLoop) : (a : Act) → Decidable (SetBackOnly s a)
  | .setClock wall => inferInstanceAs (Decidable (wall ≤ s.wall))
  | .insert _ request _ => inferInstanceAs (Decidable (∀ d ∈ request.delay?, s.wall + d < 2 ^ 64))
  | .advance _ | .erase _ _ | .runFunc | .runTimerProcs | .fire | .finish => .isTrue trivial

instance (s : TimerLoop) : (a : Act) → Decidable (CountedFromLastRun s a)
  | .insert _ request _ =>
    inferInstanceAs (Decidable (request.delay?.isSome → s.list.lastTimeOut ≤ s.wall))
  | .setClock _ | .advance _ | .erase _ _ | .runFunc | .runTimerProcs | .fire | .finish =>
    .isTrue trivial

/-- No callback comes before the delay has passed in real time. -/
def NotEarly (s : TimerLoop) : Prop :=
  ∀ n real c d, Event.fired n real ∈ s.log → s.created[n]? = some c →
    c.request.delay? = some d → c.birth + d ≤ real

/-- Real time will have passed when the clock reads `value`, counted from the last
run as well as from now. -/
def Waits (s : TimerLoop) (due value : ℕ) : Prop :=
  due + s.list.lastTimeOut ≤ value + s.real ∧ due + s.wall ≤ value + s.real

structure ClockInv (s : TimerLoop) : Prop where
  running : ∀ msNow, s.running = some msNow → s.list.lastTimeOut = msNow
  waits : ∀ a ∈ s.list.live, ∀ c d, s.created[(s.list.memory a).serial]? = some c →
    c.request.delay? = some d →
    c.birth + d ≤ s.real ∨ Waits s (c.birth + d) (s.list.memory a).msValue
  notEarly : NotEarly s

section

variable {s t : TimerLoop}

theorem clockInv_init (start : ℕ) : ClockInv (system start).init :=
  ⟨by simp [system], by simp [system], by simp [NotEarly, system]⟩

/-- Keys and the last reading stay, Timers may go, and the clock does not gain on
real time. -/
theorem ClockInv.mono (h : ClockInv s)
    (hrunning : ∀ msNow, t.running = some msNow → s.running = some msNow)
    (hlive : t.list.live ⊆ s.list.live) (hmemory : t.list.memory = s.list.memory)
    (hlast : t.list.lastTimeOut = s.list.lastTimeOut) (hcreated : t.created = s.created)
    (hreal : s.real ≤ t.real) (hwall : t.wall + s.real ≤ s.wall + t.real)
    (hlog : ∀ n real, Event.fired n real ∈ t.log → Event.fired n real ∈ s.log) : ClockInv t := by
  refine ⟨fun msNow hrun => ?_, fun a ha c d hc hd => ?_, fun n real c d hf hc hd => ?_⟩
  · rw [hlast]
    exact h.running msNow (hrunning msNow hrun)
  · rw [hmemory, hcreated] at hc
    rw [Waits, hmemory, hlast]
    rcases h.waits a (hlive ha) c d hc hd with hdone | ⟨hsince, hnow⟩
    · left
      omega
    · right
      constructor <;> omega
  · rw [hcreated] at hc
    exact h.notEarly n real c d (hlog n real hf) hc hd

theorem ClockInv.create (h : ClockInv s) (hinv : Inv s) (hlogged : Logged s)
    {request : TimerRequest} {a : Addr} {thread : Thread} (ha : a ∉ s.list.live)
    (hsum : SetBackOnly s (.insert thread request a))
    (hlast : CountedFromLastRun s (.insert thread request a)) :
    ClockInv (s.create request a) := by
  refine ⟨h.running, fun b hb c d hc hd => ?_, fun n real c d hf hc hd => ?_⟩
  · rcases Finset.mem_insert.mp hb with rfl | hb
    · right
      have hnew : c = ⟨⟨request.value s.wall, b⟩, request, s.real⟩ := by
        simpa [TimerLoop.create, TimerList.newTimer] using hc.symm
      subst hnew
      have hvalue : request.value s.wall = s.wall + d := by
        have hmod : (s.wall + d) % 2 ^ 64 = s.wall + d := Nat.mod_eq_of_lt (hsum d hd)
        cases request with
        | runAt v => cases hd
        | runAfter d' => cases hd; exact hmod
        | runEvery d' => cases hd; exact hmod
      have hread : s.list.lastTimeOut ≤ s.wall := hlast (by simp [show request.delay? = _ from hd])
      simp only [Waits, TimerLoop.create, TimerList.newTimer, Function.update_self, hvalue]
      constructor <;> omega
    · have hne : b ≠ a := fun heq => ha (heq ▸ hb)
      have hlt := hinv.serial_lt hb
      simp only [TimerLoop.create, TimerList.newTimer, Function.update_of_ne hne,
        List.getElem?_append_left hlt] at hc
      simp only [Waits, TimerLoop.create, TimerList.newTimer, Function.update_of_ne hne]
      exact h.waits b hb c d hc hd
  · have hlt : n < s.created.length := hlogged _ hf
    have hold : s.created[n]? = some c := (List.getElem?_append_left hlt).symm.trans hc
    exact h.notEarly n real c d hf hold hd

/-- The keys after `beginRun`, measured with its reading. -/
theorem ClockInv.beginRun (h : ClockInv s) (hinv : Inv s) :
    ClockInv { s with list := s.list.beginRun s.wall, running := some s.wall } := by
  obtain ⟨hlive, -, hmemory⟩ := TimerList.beginRun_frame s.list s.wall
  refine ⟨fun msNow hrun => ?_, fun a ha c d hc hd => ?_, h.notEarly⟩
  · cases hrun
    rfl
  · rw [(hmemory a).2] at hc
    rw [hlive] at ha
    rcases h.waits a ha c d hc hd with hdone | ⟨hsince, hnow⟩
    · exact .inl hdone
    · right
      rw [Waits, TimerList.beginRun_lastTimeOut, hinv.rep.beginRun_value, and_self]
      show c.birth + d + s.wall ≤ _ + s.real
      split
      · rename_i hback
        have hle := TimerList.le_rebased_add (s.list.lastTimeOut - s.wall)
          (s.list.memory a).msValue
        omega
      · exact hnow

theorem ClockInv.fire (h : ClockInv s) (hinv : Inv s) {msNow : ℕ} {id : TimerId}
    (hrun : s.running = some msNow) (hdue : s.list.due? msNow = some id) :
    ClockInv { s with
      list := s.list.fireFirst msNow id,
      log := s.log ++ [.fired (s.list.memory id.timer).serial s.real] } := by
  obtain ⟨hid, hle⟩ := TimerList.mem_of_due? hdue
  have hlast := h.running msNow hrun
  have hshrinks := hinv.rep.shrinks_fireFirst msNow hid
  have hdone (c : Creation) (d : ℕ)
      (hc : s.created[(s.list.memory id.timer).serial]? = some c)
      (hd : c.request.delay? = some d) : c.birth + d ≤ s.real := by
    rcases h.waits id.timer (hinv.rep.live (hinv.rep.timer_mem hid)) c d hc hd with
      hdone | ⟨hsince, -⟩
    · exact hdone
    · rw [← hinv.rep.value_eq hid] at hsince
      omega
  refine ⟨fun now hnow => ?_, fun a ha c d hc hd => ?_, fun n real c d hf hc hd => ?_⟩
  · rw [TimerList.lastTimeOut_fireFirst]
    exact h.running now hnow
  · rw [hshrinks.serial] at hc
    by_cases hne : a = id.timer
    · subst hne
      exact .inl (hdone c d hc hd)
    · rw [Waits, TimerList.fireFirst_value_of_ne _ _ hne, TimerList.lastTimeOut_fireFirst]
      rw [hshrinks.live, Finset.mem_sdiff] at ha
      exact h.waits a ha.1 c d hc hd
  · rw [List.mem_append, List.mem_singleton, Event.fired.injEq] at hf
    rcases hf with hf | ⟨rfl, rfl⟩
    · exact h.notEarly n real c d hf hc hd
    · exact hdone c d hc hd

theorem ClockInv.step {a : Act} (h : ClockInv s) (hinv : Inv s) (hlogged : Logged s)
    (hback : SetBackOnly s a) (hcounted : CountedFromLastRun s a) (hstep : Step s a t) :
    ClockInv t := by
  have herase (u : TimerLoop) (hu : ClockInv u) (n : ℕ) (id : TimerId) :
      ClockInv (u.exec (.eraseInLoop n id)) := by
    refine hu.mono (fun _ hrun => hrun) ?_ (TimerList.memory_eraseInLoop _ _)
      (TimerList.lastTimeOut_eraseInLoop _ _) rfl (Nat.le_refl _) (Nat.le_refl _) ?_
    · intro b hb
      have hshrinks := TimerList.shrinks_eraseInLoop u.list id
      exact (Finset.mem_sdiff.mp (hshrinks.live ▸ hb)).1
    · intro m real hf
      simpa [exec] using hf
  have hsame {u v : TimerLoop} (hu : ClockInv u) (hrunning : v.running = u.running)
      (hlive : v.list.live = u.list.live) (hmemory : v.list.memory = u.list.memory)
      (hlast : v.list.lastTimeOut = u.list.lastTimeOut) (hcreated : v.created = u.created)
      (hreal : v.real = u.real) (hwall : v.wall = u.wall) (hlog : v.log = u.log) : ClockInv v := by
    refine hu.mono (fun _ hrun => hrunning ▸ hrun) (Finset.subset_of_eq hlive) hmemory hlast
      hcreated (Nat.le_of_eq hreal.symm) (by rw [hreal, hwall]) fun _ _ hf => hlog ▸ hf
  cases hstep with
  | advance =>
    exact h.mono (fun _ hrun => hrun) (Finset.Subset.refl _) rfl rfl rfl (Nat.le_add_right _ _)
      (by dsimp only; omega) fun _ _ hf => hf
  | @setClock wall _ =>
    have hle : wall ≤ s.wall := hback
    exact h.mono (fun _ hrun => hrun) (Finset.Subset.refl _) rfl rfl rfl (Nat.le_refl _)
      (by dsimp only; omega) fun _ _ hf => hf
  | @insert thread request a ha _ =>
    have hcreate := h.create hinv hlogged ha hback hcounted
    cases thread with
    | loop => exact hsame hcreate rfl rfl rfl rfl rfl rfl rfl rfl
    | other => exact hsame hcreate rfl rfl rfl rfl rfl rfl rfl rfl
  | @erase thread n c hc =>
    cases thread with
    | loop => exact herase s h n c.id
    | other => exact hsame h rfl rfl rfl rfl rfl rfl rfl rfl
  | @runFunc f rest _ hqueue =>
    have hpop : ClockInv { s with queue := rest } := hsame h rfl rfl rfl rfl rfl rfl rfl rfl
    cases f with
    | insertInLoop n id => exact hsame hpop rfl rfl rfl rfl rfl rfl rfl rfl
    | eraseInLoop n id => exact herase _ hpop n id
  | skipRun => exact h
  | beginRun => exact h.beginRun hinv
  | fire hrun hdue => exact h.fire hinv hrun hdue
  | finish =>
    refine ⟨?_, h.waits, h.notEarly⟩
    intro msNow hrun
    cases hrun

end

/-- Timers and backward steps of the clock. -/
theorem timers_not_early (start : ℕ) (s : TimerLoop)
    (hs : (system start).ReachableWhen
      (fun s a => SetBackOnly s a ∧ CountedFromLastRun s a) s) : NotEarly s := by
  have hclock : ClockInv s := by
    refine Machine.ReachableWhen.invariant (clockInv_init start) ?_ hs
    rintro s a t hs ⟨hback, hcounted⟩ h hnext
    exact h.step (inv_of_reachable hs.reachable) (logged_of_reachable hs.reachable) hback hcounted
      (step_of_next hnext)
  exact hclock.notEarly

/-- The clock is set back while a timer waits, which then waits as long as before. -/
theorem timers_not_early_setBack :
    ∃ s, (system 5000).ReachableWhen (fun s a => SetBackOnly s a ∧ CountedFromLastRun s a) s ∧
      s.log = [.fired 0 500] ∧ s.wall = 4500 ∧ NotEarly s := by
  obtain ⟨s, hs, hlog, hwall⟩ := Machine.exists_reachableWhen_of_run (M := system 5000)
    (fun s a => SetBackOnly s a ∧ CountedFromLastRun s a)
    [.insert .loop (.runAfter 500) 8, .setClock 4000, .runTimerProcs, .finish, .advance 500,
      .runTimerProcs, .fire]
    (fun s => s.log = [.fired 0 500] ∧ s.wall = 4500) (by decide +kernel)
  exact ⟨s, hs, hlog, hwall, timers_not_early 5000 s hs⟩

/-- With no timer in the list the clock is set back by one second. A timer for half
a second from now is then brought forward by that second, and fires at once. -/
theorem timer_early_after_setBack :
    ∃ s, (system 5000).ReachableWhen SetBackOnly s ∧ ¬NotEarly s := by
  obtain ⟨s, hs, hlog, hcreated⟩ := Machine.exists_reachableWhen_of_run (M := system 5000)
    SetBackOnly
    [.setClock 4000, .insert .loop (.runAfter 500) 8, .runTimerProcs, .fire]
    (fun s => s.log = [.fired 0 0] ∧ s.created[0]? = some ⟨⟨4500, 8⟩, .runAfter 500, 0⟩)
    (by decide +kernel)
  refine ⟨s, hs, fun hnot => ?_⟩
  have hle := hnot 0 0 _ 500 (by rw [hlog]; exact List.mem_singleton_self _) hcreated rfl
  exact absurd hle (by decide)

end TimerLoop

end Voyager
