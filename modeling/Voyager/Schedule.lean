import Voyager.Lib.Runs
import Mathlib.Logic.Function.Basic
import Mathlib.Data.Nat.Basic

/-!
`Schedule` of core/schedule.cc, which hands the connections of a `TcpServer` over to
the worker loops, and the part of `TcpServer::NewConnection` that uses it. With up to
five loops it looks for the smallest `ConnectionSize`, one loop after the other,
while the workers run the queued `StartWorking` and count on.
-/
namespace Voyager

open Lib.Runs

/-- The variables of `GetMinLoop` before its next comparison. -/
structure MinScan where
  i : ℕ
  min : ℕ
  loop : ℕ
deriving DecidableEq, Repr

/-- `size` worker loops. Of each, `connectionSize` is what it has counted and `waiting`
the number of `StartWorking` closures in its queue; `scan` is there while
`NewConnection` runs. -/
structure Schedule where
  size : ℕ
  nextLoop : ℕ
  connectionSize : ℕ → ℕ
  waiting : ℕ → ℕ
  scan : Option MinScan

namespace Schedule

inductive Act
  | newConnection
  | read
  | runInLoop
  | startWorking (loop : ℕ)
deriving DecidableEq, Repr

/-- The connections that a loop has been given, started or not. -/
def assigned (s : Schedule) (loop : ℕ) : ℕ := s.connectionSize loop + s.waiting loop

/-- `ev->RunInLoop` with the closure of `StartWorking`. -/
def hand (s : Schedule) (loop : ℕ) : Schedule :=
  { s with waiting := Function.update s.waiting loop (s.waiting loop + 1) }

/-- `GetNextLoop` -/
def getNextLoop (s : Schedule) : ℕ × Schedule :=
  let next := if s.size ≤ s.nextLoop then 0 else s.nextLoop
  (next, { s with nextLoop := next + 1 })

/-- One turn of the loop in `GetMinLoop`. -/
def readSize (s : Schedule) (m : MinScan) : MinScan :=
  let temp := s.connectionSize m.i
  if temp < m.min then ⟨m.i + 1, temp, m.i⟩ else { m with i := m.i + 1 }

def next (s : Schedule) : Act → Option Schedule
  | .newConnection =>
    if s.scan.isSome then none
    else if 5 < s.size then some (s.getNextLoop.2.hand s.getNextLoop.1)
    else some { s with scan := some ⟨1, s.connectionSize 0, 0⟩ }
  | .read =>
    s.scan.bind fun m => if m.i < s.size then some { s with scan := some (s.readSize m) } else none
  | .runInLoop =>
    s.scan.bind fun m => if m.i < s.size then none else some { s.hand m.loop with scan := none }
  | .startWorking loop =>
    if 0 < s.waiting loop then
      some { s with
        waiting := Function.update s.waiting loop (s.waiting loop - 1)
        connectionSize := Function.update s.connectionSize loop (s.connectionSize loop + 1) }
    else none

def system (size : ℕ) : Machine Schedule Act where
  init := ⟨size, 0, fun _ => 0, fun _ => 0, none⟩
  next := next

/-- Everything a step can do. -/
inductive Step (s : Schedule) : Act → Schedule → Prop
  | nextLoop (hscan : s.scan = none) (hsize : 5 < s.size) :
      Step s .newConnection (s.getNextLoop.2.hand s.getNextLoop.1)
  | minLoop (hscan : s.scan = none) (hsize : s.size ≤ 5) :
      Step s .newConnection { s with scan := some ⟨1, s.connectionSize 0, 0⟩ }
  | read {m} (hscan : s.scan = some m) (hi : m.i < s.size) :
      Step s .read { s with scan := some (s.readSize m) }
  | runInLoop {m} (hscan : s.scan = some m) (hi : s.size ≤ m.i) :
      Step s .runInLoop { s.hand m.loop with scan := none }
  | startWorking {loop} (hwaiting : 0 < s.waiting loop) :
      Step s (.startWorking loop) { s with
        waiting := Function.update s.waiting loop (s.waiting loop - 1)
        connectionSize := Function.update s.connectionSize loop (s.connectionSize loop + 1) }

theorem step_of_next {s t : Schedule} {a : Act} (h : s.next a = some t) : Step s a t := by
  cases a with
  | newConnection =>
    simp only [next] at h
    split at h
    · cases h
    · rename_i hscan
      rw [Option.not_isSome_iff_eq_none] at hscan
      split at h
      · rename_i hsize
        cases h
        exact .nextLoop hscan hsize
      · rename_i hsize
        cases h
        exact .minLoop hscan (Nat.le_of_not_lt hsize)
  | read =>
    obtain ⟨m, hscan, h⟩ := Option.bind_eq_some_iff.mp h
    simp only [Option.ite_none_right_eq_some, Option.some.injEq] at h
    obtain ⟨hi, rfl⟩ := h
    exact .read hscan hi
  | runInLoop =>
    obtain ⟨m, hscan, h⟩ := Option.bind_eq_some_iff.mp h
    simp only [Option.ite_none_left_eq_some, Option.some.injEq] at h
    obtain ⟨hi, rfl⟩ := h
    exact .runInLoop hscan (Nat.le_of_not_lt hi)
  | startWorking loop =>
    simp only [next, Option.ite_none_right_eq_some, Option.some.injEq] at h
    obtain ⟨hwaiting, rfl⟩ := h
    exact .startWorking hwaiting

/-- Any two loops have been given the same number of connections, or one differs by one. -/
def Balanced (s : Schedule) : Prop :=
  ∀ i < s.size, ∀ j < s.size, s.assigned i ≤ s.assigned j + 1

/-- A loop that has been given more than another one has started all of them, or all
but one if a loop before it has been given fewer. -/
def Started (s : Schedule) : Prop :=
  ∀ i < s.size, (∃ j < s.size, s.assigned j < s.assigned i) →
    s.waiting i = 0 ∨ s.waiting i = 1 ∧ ∃ j < i, s.assigned j < s.assigned i

instance (s : Schedule) : Decidable (Started s) := by
  unfold Started
  infer_instance

/-- With up to five loops a connection is accepted only once the fuller loops have
started theirs. -/
def Waits (s : Schedule) : Act → Prop
  | .newConnection => 5 < s.size ∨ Started s
  | _ => True

instance (s : Schedule) (a : Act) : Decidable (Waits s a) := by
  unfold Waits
  split <;> infer_instance

/-- What `GetMinLoop` knows of the loops before `m.i`. The choice so far has been
given no more than it has counted, or no more than any other. -/
structure Scanning (s : Schedule) (m : MinScan) : Prop where
  few : s.size ≤ 5
  loop_lt : m.loop < m.i
  le_size : m.i ≤ s.size
  started : Started s
  min_le : ∀ j < m.i, m.min ≤ s.assigned j
  min_lt : ∀ j < m.loop, m.min < s.assigned j
  read : (∀ j < s.size, s.assigned m.loop ≤ s.assigned j) ∨ s.assigned m.loop ≤ m.min ∨
    s.assigned m.loop = m.min + 1 ∧ ∃ j < m.loop, s.assigned j < s.assigned m.loop

/-- The loops before `next_` are one connection ahead. -/
structure InTurn (s : Schedule) : Prop where
  idle : s.scan = none
  le_size : s.nextLoop ≤ s.size
  ahead : ∃ q, ∀ i < s.size, s.assigned i = q + if i < s.nextLoop then 1 else 0

structure Inv (s : Schedule) : Prop where
  pos : 1 ≤ s.size
  balanced : Balanced s
  inTurn : 5 < s.size → InTurn s
  scanning : ∀ m, s.scan = some m → Scanning s m

section

variable {s : Schedule}

theorem inv_init {size : ℕ} (hsize : 1 ≤ size) : Inv (system size).init where
  pos := hsize
  balanced i _ j _ := Nat.zero_le _
  inTurn _ := ⟨rfl, Nat.zero_le _, 0, fun i _ => rfl⟩
  scanning m hm := by cases hm

theorem assigned_hand (s : Schedule) (loop i : ℕ) :
    (s.hand loop).assigned i = s.assigned i + if i = loop then 1 else 0 := by
  unfold assigned hand
  by_cases hi : i = loop
  · subst hi
    simp only [Function.update_self, if_true]
    omega
  · simp [hi]

/-- A connection goes to a loop that has been given the fewest. -/
theorem Balanced.hand {loop : ℕ} (h : Balanced s) (hloop : loop < s.size)
    (hmin : ∀ j < s.size, s.assigned loop ≤ s.assigned j) : Balanced (s.hand loop) := by
  intro i hi j hj
  have hij := h i hi j hj
  have hjmin := hmin j hj
  rw [assigned_hand, assigned_hand]
  by_cases hloop : i = loop
  · subst hloop
    simp only [if_true]
    omega
  · simp only [hloop, if_false]
    omega

theorem InTurn.getNextLoop (h : InTurn s) (hpos : 1 ≤ s.size) :
    s.getNextLoop.1 < s.size ∧ (∀ j < s.size, s.assigned s.getNextLoop.1 ≤ s.assigned j) ∧
      InTurn (s.getNextLoop.2.hand s.getNextLoop.1) := by
  obtain ⟨q, hq⟩ := h.ahead
  have hle := h.le_size
  by_cases hwrap : s.size ≤ s.nextLoop
  · have hnext : s.getNextLoop = (0, { s with nextLoop := 1 }) := by
      simp [Schedule.getNextLoop, hwrap]
    have hall (i : ℕ) (hi : i < s.size) : s.assigned i = q + 1 := by
      rw [hq i hi, if_pos (by omega)]
    rw [hnext]
    refine ⟨hpos, fun j hj => by rw [hall 0 hpos, hall j hj], h.idle, hpos, q + 1, fun i hi => ?_⟩
    rw [assigned_hand, show assigned { s with nextLoop := 1 } i = s.assigned i from rfl, hall i hi]
    show q + 1 + (if i = 0 then 1 else 0) = q + 1 + if i < 1 then 1 else 0
    simp only [Nat.lt_one_iff]
  · have hnext : s.getNextLoop = (s.nextLoop, { s with nextLoop := s.nextLoop + 1 }) := by
      simp [Schedule.getNextLoop, hwrap]
    have hlt : s.nextLoop < s.size := Nat.lt_of_not_le hwrap
    rw [hnext]
    refine ⟨hlt, fun j hj => ?_, h.idle, hlt, q, fun i hi => ?_⟩
    · rw [hq _ hlt, hq j hj, if_neg (Nat.lt_irrefl _)]
      omega
    · have hsame : assigned { s with nextLoop := s.nextLoop + 1 } i = s.assigned i := rfl
      rw [assigned_hand, hsame, hq i hi]
      show q + (if i < s.nextLoop then 1 else 0) + (if i = s.nextLoop then 1 else 0) =
        q + if i < s.nextLoop + 1 then 1 else 0
      split_ifs <;> omega

/-- When a loop's size is read, it has counted what `Started` says. -/
theorem Started.read (h : Started s) {i : ℕ} (hi : i < s.size) :
    (∀ j < s.size, s.assigned i ≤ s.assigned j) ∨ s.assigned i ≤ s.connectionSize i ∨
      s.assigned i = s.connectionSize i + 1 ∧ ∃ j < i, s.assigned j < s.assigned i := by
  by_cases hfewer : ∃ j < s.size, s.assigned j < s.assigned i
  · rcases h i hi hfewer with hnone | ⟨hone, hbefore⟩
    · exact .inr (.inl (by rw [assigned, hnone, Nat.add_zero]))
    · exact .inr (.inr ⟨by rw [assigned, hone], hbefore⟩)
  · left
    intro j hj
    by_contra hlt
    exact hfewer ⟨j, hj, Nat.lt_of_not_le hlt⟩

theorem Started.scanning (h : Started s) (hpos : 1 ≤ s.size) (hsize : s.size ≤ 5) :
    Scanning s ⟨1, s.connectionSize 0, 0⟩ where
  few := hsize
  loop_lt := Nat.one_pos
  le_size := hpos
  started := h
  min_le j hj := by
    obtain rfl : j = 0 := Nat.lt_one_iff.mp hj
    exact Nat.le_add_right _ _
  min_lt j hj := absurd hj (Nat.not_lt_zero j)
  read := h.read hpos

theorem Scanning.readSize {m : MinScan} (h : Scanning s m) (hi : m.i < s.size) :
    Scanning s (s.readSize m) := by
  have hcounted : s.connectionSize m.i ≤ s.assigned m.i := Nat.le_add_right _ _
  unfold Schedule.readSize
  dsimp only
  split
  · rename_i hlt
    refine ⟨h.few, Nat.lt_succ_self _, hi, h.started, fun j hj => ?_, fun j hj => ?_,
      h.started.read hi⟩
    · rcases Nat.lt_succ_iff_lt_or_eq.mp hj with hj | rfl
      · exact Nat.le_trans (Nat.le_of_lt hlt) (h.min_le j hj)
      · exact hcounted
    · exact Nat.lt_of_lt_of_le hlt (h.min_le j hj)
  · rename_i hle
    refine ⟨h.few, Nat.lt_succ_of_lt h.loop_lt, hi, h.started, fun j hj => ?_, h.min_lt, h.read⟩
    rcases Nat.lt_succ_iff_lt_or_eq.mp hj with hj | rfl
    · exact h.min_le j hj
    · exact Nat.le_trans (Nat.le_of_not_lt hle) hcounted

/-- The loop that `GetMinLoop` returns has been given the fewest connections. -/
theorem Scanning.chosen {m : MinScan} (h : Scanning s m) (hi : s.size ≤ m.i) :
    ∀ j < s.size, s.assigned m.loop ≤ s.assigned j := by
  intro j hj
  have hmin := h.min_le j (Nat.lt_of_lt_of_le hj hi)
  rcases h.read with hall | hle | ⟨heq, j', hbefore, hfewer⟩
  · exact hall j hj
  · exact Nat.le_trans hle hmin
  · have hlt := h.min_lt j' hbefore
    omega

/-- Nothing but the counting changes. -/
theorem Inv.startWorking (h : Inv s) {loop : ℕ} (hwaiting : 0 < s.waiting loop) :
    Inv { s with
      waiting := Function.update s.waiting loop (s.waiting loop - 1)
      connectionSize := Function.update s.connectionSize loop (s.connectionSize loop + 1) } := by
  let t : Schedule := { s with
    waiting := Function.update s.waiting loop (s.waiting loop - 1)
    connectionSize := Function.update s.connectionSize loop (s.connectionSize loop + 1) }
  have hassigned : t.assigned = s.assigned := by
    funext i
    by_cases hi : i = loop
    · subst hi
      simp only [t, assigned, Function.update_self]
      omega
    · simp [t, assigned, hi]
  have hstarted (hs : Started s) : Started t := by
    intro i hi hfewer
    rw [hassigned] at hfewer ⊢
    have hwait : t.waiting i ≤ s.waiting i := by
      by_cases hloop : i = loop
      · subst hloop
        simp [t]
      · simp [t, hloop]
    rcases hs i hi hfewer with hnone | ⟨hone, hbefore⟩
    · left
      omega
    · by_cases hzero : t.waiting i = 0
      · exact .inl hzero
      · exact .inr ⟨by omega, hbefore⟩
  refine ⟨h.pos, ?_, fun hsize => ?_, fun m hm => ?_⟩
  · intro i hi j hj
    show t.assigned i ≤ t.assigned j + 1
    rw [hassigned]
    exact h.balanced i hi j hj
  · obtain ⟨hidle, hle, hahead⟩ := h.inTurn hsize
    exact ⟨hidle, hle, by simpa only [← hassigned] using hahead⟩
  · have hm := h.scanning m hm
    refine ⟨hm.few, hm.loop_lt, hm.le_size, hstarted hm.started, ?_, ?_, ?_⟩
    · show ∀ j < m.i, m.min ≤ t.assigned j
      rw [hassigned]
      exact hm.min_le
    · show ∀ j < m.loop, m.min < t.assigned j
      rw [hassigned]
      exact hm.min_lt
    · show (∀ j < s.size, t.assigned m.loop ≤ t.assigned j) ∨ t.assigned m.loop ≤ m.min ∨
        t.assigned m.loop = m.min + 1 ∧ ∃ j < m.loop, t.assigned j < t.assigned m.loop
      rw [hassigned]
      exact hm.read

theorem Inv.step {a : Act} {t : Schedule} (h : Inv s) (hwaits : Waits s a) (hstep : Step s a t) :
    Inv t := by
  cases hstep with
  | nextLoop hscan hsize =>
    obtain ⟨hlt, hmin, hturn⟩ := (h.inTurn hsize).getNextLoop h.pos
    refine ⟨h.pos, ?_, fun _ => hturn, fun m hm => ?_⟩
    · exact Balanced.hand (s := s.getNextLoop.2) h.balanced hlt hmin
    · rw [hturn.idle] at hm
      cases hm
  | minLoop hscan hsize =>
    refine ⟨h.pos, h.balanced, fun hlarge => absurd hsize (Nat.not_le.mpr hlarge), fun m hm => ?_⟩
    cases hm
    have hstarted : Started s := hwaits.resolve_left (Nat.not_lt.mpr hsize)
    exact { hstarted.scanning h.pos hsize with }
  | @read m hscan hi =>
    have hm := h.scanning m hscan
    refine ⟨h.pos, h.balanced, fun hlarge => absurd hm.few (Nat.not_le.mpr hlarge),
      fun m' hm' => ?_⟩
    cases hm'
    exact { hm.readSize hi with }
  | @runInLoop m hscan hi =>
    have hm := h.scanning m hscan
    refine ⟨h.pos, ?_, fun hlarge => absurd hm.few (Nat.not_le.mpr hlarge),
      fun m' hm' => by cases hm'⟩
    exact h.balanced.hand (Nat.lt_of_lt_of_le hm.loop_lt hm.le_size) (hm.chosen hi)
  | startWorking hwaiting => exact h.startWorking hwaiting

end

/-- Connections are spread evenly. -/
theorem connections_balanced (size : ℕ) (hsize : 1 ≤ size) (s : Schedule)
    (hs : (system size).ReachableWhen Waits s) : Balanced s := by
  have h : Inv s := Machine.ReachableWhen.invariant (inv_init hsize)
    (fun _ _ _ _ hwaits h hnext => h.step hwaits (step_of_next hnext)) hs
  exact h.balanced

/-- Three connections for two loops, the third one before the second was started. -/
theorem connections_balanced_two :
    ∃ s, (system 2).ReachableWhen Waits s ∧ s.assigned 0 = 1 ∧ s.assigned 1 = 2 ∧
      Balanced s := by
  obtain ⟨s, hs, hzero, hone⟩ := Machine.exists_reachableWhen_of_run (M := system 2) Waits
    [.newConnection, .read, .runInLoop, .startWorking 0, .newConnection, .read, .runInLoop,
      .newConnection, .read, .runInLoop]
    (fun s => s.assigned 0 = 1 ∧ s.assigned 1 = 2) (by decide +kernel)
  exact ⟨s, hs, hzero, hone, connections_balanced 2 (by decide) s hs⟩

/-- Two connections come before the first `StartWorking`: both go to the first loop. -/
theorem not_balanced_two : ∃ s, (system 2).Reachable s ∧ ¬Balanced s := by
  obtain ⟨s, hs, hsize, hzero, hone⟩ := Machine.exists_reachable_of_run (M := system 2)
    [.newConnection, .read, .runInLoop, .newConnection, .read, .runInLoop]
    (fun s => s.size = 2 ∧ s.assigned 0 = 2 ∧ s.assigned 1 = 0) (by decide +kernel)
  refine ⟨s, hs, fun hbalanced => ?_⟩
  have := hbalanced 0 (by omega) 1 (by omega)
  omega

end Schedule

end Voyager
