import Voyager.TimerList
import Mathlib.Data.Int.Init

/-!
How long `EventLoop::Loop` waits: `TimerList::TimeoutMs` of core/timerlist.cc, the
bound of core/eventloop.cc and what each `Poll` makes of it for its kernel call.
`EventSelect` puts the milliseconds that are left over into the field for
microseconds.
-/
namespace Voyager

open Lib

namespace PollTimeout

/-- The value -1 of `uint64_t` says that there is no timer. -/
def timeoutMs (s : TimerList) (now : ℕ) : ℕ :=
  match s.timers.first? with
  | none => 2 ^ 64 - 1
  | some first =>
    if now < s.lastTimeOut then 0
    else if first.value ≤ now then 0
    else first.value - now

def kPollTimeMs : ℕ := 5000

/-- `static_cast<int>` keeps the low 32 bits. -/
def castInt (n : ℕ) : Int := (BitVec.ofNat 32 n).toInt

/-- The argument of `Poll` in one round of `Loop`. -/
def loopTimeout (s : TimerList) (now : ℕ) : Int := castInt (min (timeoutMs s now) kPollTimeMs)

/-- The duration as a kernel call takes it. -/
inductive KernelWait
  | timeval (tvSec tvUsec : Int)
  | milliseconds (timeout : Int)
  | timespec (tvSec tvNsec : Int)
deriving DecidableEq, Repr

def KernelWait.nanoseconds : KernelWait → Int
  | .timeval tvSec tvUsec => tvSec * 1000000000 + tvUsec * 1000
  | .milliseconds timeout => timeout * 1000000
  | .timespec tvSec tvNsec => tvSec * 1000000000 + tvNsec

inductive Backend
  | select
  | poll
  | epoll
  | kqueue
deriving DecidableEq, Repr

/-- What `Poll` passes to the kernel. -/
def kernelWait (timeout : Int) : Backend → KernelWait
  | .select => .timeval (timeout.tdiv 1000) (timeout.tmod 1000)
  | .poll => .milliseconds timeout
  | .epoll => .milliseconds timeout
  | .kqueue => .timespec (timeout.tdiv 1000) (timeout.tmod 1000 * 1000 * 1000)

/-! ## What the wait should be -/

/-- The earliest deadline of the list. -/
def earliest (s : TimerList) : Option ℕ := (s.timers.elems.map TimerId.value).min?

/-- The milliseconds to the earliest deadline, but at most five seconds. -/
def wanted (s : TimerList) (now : ℕ) : ℕ :=
  match earliest s with
  | none => 5000
  | some deadline => min (deadline - now) 5000

variable {s : TimerList} {now : ℕ}

theorem earliest_eq (s : TimerList) : earliest s = s.timers.first?.map TimerId.value := by
  cases hfirst : s.timers.first? with
  | none =>
    rw [earliest, OrderedSet.first?_eq_none.mp hfirst]
    rfl
  | some first =>
    rw [earliest, Option.map_some, List.min?_eq_some_iff]
    refine ⟨List.mem_map_of_mem (OrderedSet.mem_of_first? hfirst), ?_⟩
    intro value hvalue
    obtain ⟨id, hid, rfl⟩ := List.mem_map.mp hvalue
    exact TimerId.value_le (OrderedSet.first?_le hfirst hid)

theorem castInt_of_le {n : ℕ} (h : n ≤ 5000) : castInt n = n := by
  have hnat : (BitVec.ofNat 32 n).toNat = n := by
    rw [BitVec.toNat_ofNat]
    omega
  rw [castInt, BitVec.toInt_eq_toNat_of_lt (by omega), hnat]

/-- With a clock that did not go back, `Loop` asks for the wait it should. -/
theorem loopTimeout_eq (h : s.lastTimeOut ≤ now) : loopTimeout s now = wanted s now := by
  have hmin : min (timeoutMs s now) kPollTimeMs = wanted s now := by
    rw [timeoutMs, wanted, earliest_eq, kPollTimeMs]
    cases s.timers.first? with
    | none => rfl
    | some first =>
      have hnow : ¬ now < s.lastTimeOut := by omega
      simp only [Option.map_some, if_neg hnow]
      split <;> omega
  have hle : wanted s now ≤ 5000 := by
    rw [← hmin]
    exact Nat.min_le_right _ _
  rw [loopTimeout, hmin, castInt_of_le hle]

/-- `EventSelect` waits a thousandth of what exceeds whole seconds. -/
theorem nanoseconds_select (n : ℕ) :
    (kernelWait n .select).nanoseconds = (n / 1000 : ℕ) * 1000000000 + (n % 1000 : ℕ) * 1000 := by
  simp only [kernelWait, KernelWait.nanoseconds]
  rw [Int.tdiv_eq_ediv_of_nonneg (by omega), Int.tmod_eq_emod_of_nonneg (by omega)]
  omega

theorem nanoseconds_of_ne_select (n : ℕ) {backend : Backend} (h : backend ≠ .select) :
    (kernelWait n backend).nanoseconds = n * 1000000 := by
  cases backend with
  | select => exact absurd rfl h
  | poll => rfl
  | epoll => rfl
  | kqueue =>
    simp only [kernelWait, KernelWait.nanoseconds]
    rw [Int.tdiv_eq_ediv_of_nonneg (by omega), Int.tmod_eq_emod_of_nonneg (by omega)]
    omega

/-- The earliest deadline is due, more than five seconds away, or whole seconds away. -/
def WholeSeconds (s : TimerList) (now : ℕ) : Prop :=
  ∀ deadline, earliest s = some deadline →
    deadline ≤ now ∨ now + 5000 ≤ deadline ∨ 1000 ∣ deadline - now

theorem wanted_mod_eq_zero : wanted s now % 1000 = 0 ↔ WholeSeconds s now := by
  rw [wanted, WholeSeconds]
  cases earliest s with
  | none => simp
  | some deadline =>
    simp only [Option.some.injEq, forall_eq']
    omega

/-- The kernel waits as long as the timers allow, except in `EventSelect` when
that is not a whole number of seconds; it never waits longer. -/
theorem nanoseconds_loopTimeout (backend : Backend) (h : s.lastTimeOut ≤ now) :
    ((kernelWait (loopTimeout s now) backend).nanoseconds = (wanted s now : Int) * 1000000 ↔
      backend ≠ .select ∨ WholeSeconds s now) ∧
    (kernelWait (loopTimeout s now) backend).nanoseconds ≤ (wanted s now : Int) * 1000000 := by
  rw [loopTimeout_eq h, ← wanted_mod_eq_zero]
  by_cases hselect : backend = .select
  · subst hselect
    rw [nanoseconds_select]
    constructor
    · constructor
      · intro heq
        right
        omega
      · rintro (hne | hmod)
        · exact absurd rfl hne
        · omega
    · omega
  · rw [nanoseconds_of_ne_select _ hselect]
    simp [hselect]

/-- One timer half a second ahead. -/
def halfSecond : TimerList where
  memory := fun _ => ⟨1500, 0, 0⟩
  live := {0}
  timers := OrderedSet.empty.insert ⟨1500, 0⟩
  timerPtrs := {0}
  lastTimeOut := 1000

theorem nanoseconds_loopTimeout_halfSecond :
    (kernelWait (loopTimeout halfSecond 1000) .poll).nanoseconds =
      (wanted halfSecond 1000 : Int) * 1000000 :=
  (@nanoseconds_loopTimeout halfSecond 1000 .poll (by decide)).1.mpr
    (.inl (by decide))

/-- Half a second of waiting becomes half a millisecond. -/
theorem select_halfSecond :
    halfSecond.lastTimeOut ≤ 1000 ∧ wanted halfSecond 1000 = 500 ∧
      kernelWait (loopTimeout halfSecond 1000) .select = .timeval 0 500 ∧
      (kernelWait (loopTimeout halfSecond 1000) .select).nanoseconds ≠
        (wanted halfSecond 1000 : Int) * 1000000 := by
  decide

end PollTimeout

end Voyager
