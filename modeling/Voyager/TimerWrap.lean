import Voyager.TimerLoop
import Voyager.TimerPass

/-!
Sums of a clock reading and a 64-bit delay. `RunAfter` and `RunEvery` of
core/eventloop.cc compute a deadline and `RunTimerProcs` of core/timerlist.cc the
next one of a periodic timer; where the sum wraps around, the timer is due at once,
and in `RunTimerProcs` it is at the head again in every round.
-/
namespace Voyager

open Lib

namespace TimerList

/-! ## New timers -/

/-- The list after `RunAfter` or `RunEvery` on the loop's thread. -/
def afterInsert (s : TimerList) (now : ℕ) (request : TimerRequest) (a : Addr) (serial : ℕ) :
    TimerList :=
  (s.newTimer a ⟨request.value now, request.interval, serial⟩).insertInLoop
    ⟨request.value now, a⟩

/-- At no reading of the clock before `now + d` is the new timer due. -/
def NotDueEarly (s : TimerList) (now d : ℕ) (request : TimerRequest) (a : Addr) (serial : ℕ) :
    Prop :=
  ∀ t, now ≤ t → t < now + d →
    ⟨request.value now, a⟩ ∉ (s.afterInsert now request a serial).dueTimers t

variable {s : TimerList} {now msNow d : ℕ}

theorem uint64_lt_of_wrap {n k : ℕ} (hk : k < 2 ^ 64) (h : 2 ^ 64 ≤ n + k) (hn : n < 2 ^ 64) :
    uint64 (n + k) < n := by
  rw [uint64, Nat.mod_eq_sub_mod h, Nat.mod_eq_of_lt (by omega)]
  omega

/-- The new timer waits for its delay exactly when the sum does not wrap. -/
theorem notDueEarly_iff (hnow : now < 2 ^ 64) (hd : d < 2 ^ 64) {request : TimerRequest}
    (hvalue : request.value now = uint64 (now + d)) (a : Addr) (serial : ℕ) :
    NotDueEarly s now d request a serial ↔ now + d < 2 ^ 64 := by
  have hdue : ∀ t, ⟨request.value now, a⟩ ∈ (s.afterInsert now request a serial).dueTimers t ↔
      uint64 (now + d) ≤ t := by
    intro t
    rw [mem_dueTimers, hvalue]
    refine ⟨fun h => h.2, fun h => ⟨?_, h⟩⟩
    rw [← hvalue]
    exact OrderedSet.mem_insert.mpr (.inl rfl)
  constructor
  · intro hearly
    by_contra hwrap
    have hlt := uint64_lt_of_wrap hd (by omega) hnow
    exact hearly now (by omega) (by omega) ((hdue now).mpr (by omega))
  · intro hfit t hle hlt hmem
    have hvalue' : uint64 (now + d) = now + d := Nat.mod_eq_of_lt hfit
    have hle' := (hdue t).mp hmem
    omega

/-! ## The firing loop -/

/-- The callbacks insert no timers. -/
def ErasesOnly (cb : Callback) : Prop :=
  ∀ log id u, ∀ op ∈ cb log id u, ∃ id', op = Op.erase id'

theorem erasesOnly_nil : ErasesOnly (fun _ _ _ => []) := by
  intro log id u op hop
  cases hop

def Terminates (msNow : ℕ) (cb : Callback) (s : TimerList) : Prop :=
  ∃ fuel, (runTimerProcs msNow cb fuel s).isSome

/-- No timer that fires at `msNow` wraps around. After the clock went back, the keys
up to the last reading are due. -/
def NoWrap (msNow : ℕ) (s : TimerList) : Prop :=
  ∀ e ∈ s.timers, e.value ≤ max msNow s.lastTimeOut →
    msNow + (s.memory e.timer).msInterval < 2 ^ 64

/-- The same when the keys have been adjusted. -/
def DueFits (msNow : ℕ) (s : TimerList) : Prop :=
  ∀ e ∈ s.timers, e.value ≤ msNow → msNow + (s.memory e.timer).msInterval < 2 ^ 64

theorem rebased_le_iff {last v : ℕ} (h : msNow < last) :
    rebased (last - msNow) v ≤ msNow ↔ v ≤ last := by
  unfold rebased
  split <;> omega

theorem dueFits_beginRun : DueFits msNow (s.beginRun msNow) ↔ NoWrap msNow s := by
  obtain ⟨-, -, hmemory⟩ := beginRun_frame s msNow
  have hinterval : ∀ a, ((s.beginRun msNow).memory a).msInterval = (s.memory a).msInterval :=
    fun a => (hmemory a).1
  simp only [DueFits, NoWrap, hinterval]
  by_cases hback : msNow < s.lastTimeOut
  · have hmem : ∀ e, e ∈ (s.beginRun msNow).timers ↔
        ∃ e' ∈ s.timers, e = ⟨rebased (s.lastTimeOut - msNow) e'.value, e'.timer⟩ := by
      intro e
      unfold beginRun
      rw [if_pos hback]
      exact mem_rebase (s.lastTimeOut - msNow) e
    rw [Nat.max_eq_right (Nat.le_of_lt hback)]
    constructor
    · intro h e he hle
      exact h ⟨rebased (s.lastTimeOut - msNow) e.value, e.timer⟩ ((hmem _).mpr ⟨e, he, rfl⟩)
        ((rebased_le_iff hback).mpr hle)
    · intro h e he hle
      obtain ⟨e', he', rfl⟩ := (hmem e).mp he
      exact h e' he' ((rebased_le_iff hback).mp hle)
  · have htimers : (s.beginRun msNow).timers = s.timers := by
      unfold beginRun
      rw [if_neg hback]
    rw [htimers, Nat.max_eq_left (Nat.le_of_not_lt hback)]

/-- What a run of erasures leaves was there before. -/
theorem foldl_erase {ops : List Op} (hops : ∀ op ∈ ops, ∃ id', op = Op.erase id') :
    (ops.foldl Op.exec s).memory = s.memory ∧
      ∀ e ∈ (ops.foldl Op.exec s).timers, e ∈ s.timers := by
  induction ops generalizing s with
  | nil => exact ⟨rfl, fun _ he => he⟩
  | cons op ops ih =>
    obtain ⟨id', rfl⟩ := hops op List.mem_cons_self
    obtain ⟨hmemory, hmem⟩ := ih (s := s.eraseInLoop id')
      fun op hop => hops op (List.mem_cons_of_mem _ hop)
    refine ⟨hmemory.trans (memory_eraseInLoop s id'), fun e he => ?_⟩
    have he' := hmem e he
    unfold eraseInLoop at he'
    split at he'
    · exact (OrderedSet.mem_erase.mp he').2
    · exact he'

/-- A round with a callback that only erases leaves fewer timers due. -/
theorem DueFits.round (h : DueFits msNow s) {id : TimerId} (hdue : s.due? msNow = some id)
    {ops : List Op} (hops : ∀ op ∈ ops, ∃ id', op = Op.erase id') :
    DueFits msNow (ops.foldl Op.exec (s.fireFirst msNow id)) ∧
      ((ops.foldl Op.exec (s.fireFirst msNow id)).dueTimers msNow).card <
        (s.dueTimers msNow).card := by
  obtain ⟨hid, hle⟩ := mem_of_due? hdue
  obtain ⟨hmemory, hmem⟩ := foldl_erase (s := s.fireFirst msNow id) hops
  -- An entry that is still due was there before, and is not the one that fired.
  have hold : ∀ e ∈ (ops.foldl Op.exec (s.fireFirst msNow id)).timers, e.value ≤ msNow →
      e ∈ s.timers ∧ e ≠ id := by
    intro e he hearly
    rcases (mem_fireFirst (fun _ => h id hid hle) e).mp (hmem e he) with ⟨hperiodic, rfl⟩ | hrest
    · have hlater : msNow < (s.again msNow id.timer).value := lt_again hperiodic
      omega
    · exact hrest
  constructor
  · intro e he hearly
    rw [hmemory, interval_fireFirst]
    exact h e (hold e he hearly).1 hearly
  · apply Finset.card_lt_card
    rw [Finset.ssubset_iff_of_subset]
    · refine ⟨id, mem_dueTimers.mpr ⟨hid, hle⟩, fun hstill => ?_⟩
      obtain ⟨he, hearly⟩ := mem_dueTimers.mp hstill
      exact (hold id he hearly).2 rfl
    · intro e he
      obtain ⟨he, hearly⟩ := mem_dueTimers.mp he
      exact mem_dueTimers.mpr ⟨(hold e he hearly).1, hearly⟩

theorem DueFits.run {cb : Callback} (hcb : ErasesOnly cb) (n : ℕ) {log : List Fired}
    (h : DueFits msNow s) (hn : (s.dueTimers msNow).card ≤ n) :
    (runLoop msNow cb (n + 1) log s).isSome := by
  induction n generalizing s log with
  | zero =>
    have hnone : s.due? msNow = none := by
      rw [Option.eq_none_iff_forall_ne_some]
      intro id hdue
      have hpos := Finset.card_pos.mpr ⟨id, mem_dueTimers.mpr (mem_of_due? hdue)⟩
      omega
    simp only [runLoop, hnone, Option.isSome_some]
  | succ n ih =>
    rw [runLoop]
    cases hdue : s.due? msNow with
    | none => rfl
    | some id =>
      obtain ⟨hfits, hless⟩ := h.round hdue (hcb log id (s.fireFirst msNow id))
      exact ih hfits (by omega)

/-- A due timer whose next deadline wraps around is due after every round. -/
theorem runLoop_of_wrap (hnow : msNow < 2 ^ 64) (fuel : ℕ) {log : List Fired} {a : Addr}
    (hinterval : (s.memory a).msInterval < 2 ^ 64)
    (hwrap : 2 ^ 64 ≤ msNow + (s.memory a).msInterval)
    (hmem : ∃ e ∈ s.timers, e.timer = a ∧ e.value ≤ msNow) :
    runLoop msNow (fun _ _ _ => []) fuel log s = none := by
  induction fuel generalizing s log with
  | zero => rfl
  | succ fuel ih =>
    obtain ⟨e, he, htimer, hle⟩ := hmem
    rw [runLoop]
    cases hdue : s.due? msNow with
    | none =>
      have hlater := later_of_due?_eq_none hdue he
      omega
    | some id =>
      have hkeep := @interval_fireFirst msNow s id a
      apply ih
      · exact hkeep.symm ▸ hinterval
      · exact hkeep.symm ▸ hwrap
      · show ∃ e ∈ (s.fireFirst msNow id).timers, e.timer = a ∧ e.value ≤ msNow
        by_cases hid : id.timer = a
        · have hperiodic : 0 < (s.memory id.timer).msInterval := by
            rw [hid]
            omega
          have hlt := uint64_lt_of_wrap hinterval hwrap hnow
          refine ⟨⟨uint64 (msNow + (s.memory id.timer).msInterval), id.timer⟩, ?_, hid, ?_⟩
          · unfold fireFirst
            rw [if_pos hperiodic]
            exact OrderedSet.mem_insert.mpr (.inl rfl)
          · rw [hid]
            exact Nat.le_of_lt hlt
        · have hne : e ≠ id := fun heq => hid (heq ▸ htimer)
          have hrest := OrderedSet.mem_erase.mpr ⟨hne, he⟩
          refine ⟨e, ?_, htimer, hle⟩
          unfold fireFirst
          dsimp only
          split
          · exact OrderedSet.mem_insert.mpr (.inr hrest)
          · exact hrest

/-- Whatever the callbacks erase, the pass ends exactly when no timer that fires wraps. -/
theorem terminates_iff (hnow : msNow < 2 ^ 64) (hinterval : ∀ a, (s.memory a).msInterval < 2 ^ 64) :
    (∀ cb, ErasesOnly cb → Terminates msNow cb s) ↔ NoWrap msNow s := by
  constructor
  · intro hall
    by_contra hwrap
    obtain ⟨fuel, hfuel⟩ := hall (fun _ _ _ => []) erasesOnly_nil
    have hstart := mt dueFits_beginRun.mp hwrap
    rw [NoWrap] at hwrap
    rw [DueFits] at hstart
    push Not at hwrap hstart
    obtain ⟨e₀, he₀, -⟩ := hwrap
    obtain ⟨e, he, hle, hlarge⟩ := hstart
    have hbound : ((s.beginRun msNow).memory e.timer).msInterval < 2 ^ 64 := by
      rw [((beginRun_frame s msNow).2.2 e.timer).1]
      exact hinterval e.timer
    rw [runTimerProcs] at hfuel
    cases hfirst : s.timers.first? with
    | none =>
      rw [OrderedSet.first?_eq_none.mp hfirst] at he₀
      exact OrderedSet.not_mem_empty e₀ he₀
    | some first =>
      rw [hfirst] at hfuel
      dsimp only at hfuel
      rw [runLoop_of_wrap hnow fuel hbound hlarge ⟨e, he, rfl, hle⟩] at hfuel
      cases hfuel
  · intro hwrap cb hcb
    have hfits := dueFits_beginRun.mpr hwrap
    refine ⟨((s.beginRun msNow).dueTimers msNow).card + 1, ?_⟩
    rw [runTimerProcs]
    cases s.timers.first? with
    | none => rfl
    | some first => exact hfits.run hcb _ (Nat.le_refl _)

/-- Sums do not wrap: a new timer waits for its delay, and a pass whose callbacks
insert nothing ends, exactly where the sums of the clock and the delay and of the
clock and the intervals that fire stay below `2 ^ 64`. -/
theorem timer_arithmetic (hnow : now < 2 ^ 64) (hd : d < 2 ^ 64) (hms : msNow < 2 ^ 64)
    (hinterval : ∀ a, (s.memory a).msInterval < 2 ^ 64) (a : Addr) (serial : ℕ) :
    (NotDueEarly s now d (.runAfter d) a serial ↔ now + d < 2 ^ 64) ∧
    (NotDueEarly s now d (.runEvery d) a serial ↔ now + d < 2 ^ 64) ∧
    ((∀ cb, ErasesOnly cb → Terminates msNow cb s) ↔ NoWrap msNow s) :=
  ⟨notDueEarly_iff hnow hd rfl a serial, notDueEarly_iff hnow hd rfl a serial,
    terminates_iff hms hinterval⟩

/-- One timer, due at 5, with the interval -1. -/
def wrapping : TimerList where
  memory := fun _ => ⟨5, 2 ^ 64 - 1, 0⟩
  live := {0}
  timers := OrderedSet.empty.insert ⟨5, 0⟩
  timerPtrs := {0}
  lastTimeOut := 0

theorem interval_wrapping (a : Addr) : (wrapping.memory a).msInterval < 2 ^ 64 := by
  show 2 ^ 64 - 1 < 2 ^ 64
  decide

theorem timer_arithmetic_wrapping :
    (NotDueEarly wrapping 5 7 (.runAfter 7) 1 1 ↔ 5 + 7 < 2 ^ 64) ∧
    (NotDueEarly wrapping 5 7 (.runEvery 7) 1 1 ↔ 5 + 7 < 2 ^ 64) ∧
    ((∀ cb, ErasesOnly cb → Terminates 4 cb wrapping) ↔ NoWrap 4 wrapping) :=
  timer_arithmetic (by decide) (by decide) (by decide) interval_wrapping 1 1

/-- The delay -1 is due at once, and the timer that fires at 5 is due at 5 for ever. -/
theorem wrapping_counterexample :
    ¬ NotDueEarly wrapping 5 (2 ^ 64 - 1) (.runAfter (2 ^ 64 - 1)) 1 1 ∧
      ErasesOnly (fun _ _ _ => []) ∧ ¬ Terminates 5 (fun _ _ _ => []) wrapping := by
  refine ⟨?_, erasesOnly_nil, ?_⟩
  · intro hearly
    have hfit := (notDueEarly_iff (by decide) (by decide) rfl 1 1).mp hearly
    omega
  · rintro ⟨fuel, hfuel⟩
    have hrun : runTimerProcs 5 (fun _ _ _ => []) fuel wrapping =
        runLoop 5 (fun _ _ _ => []) fuel [] (wrapping.beginRun 5) := rfl
    have hmem : ∃ e ∈ (wrapping.beginRun 5).timers, e.timer = 0 ∧ e.value ≤ 5 :=
      ⟨⟨5, 0⟩, by decide, rfl, le_refl 5⟩
    rw [hrun, runLoop_of_wrap (by decide) fuel (a := 0) (by decide) (by decide) hmem] at hfuel
    cases hfuel

end TimerList

end Voyager
