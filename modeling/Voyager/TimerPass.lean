import Voyager.TimerList
import Mathlib.Data.Finset.Card

/-!
`RunTimerProcs` of core/timerlist.cc as one call, with callbacks that insert and
erase Timers. A callback is given as what it does: any finite sequence of calls,
which may depend on all that happened in the pass. Its insertions name the
address that the allocator returns, which is never one of a live Timer.
-/
namespace Voyager

open Lib

namespace TimerList

/-- A call made by a callback on the loop's thread, where it takes effect at once. -/
inductive Op
  | insert (a : Addr) (t : Timer)
  | erase (id : TimerId)
deriving DecidableEq, Repr

def Op.exec (s : TimerList) : Op → TimerList
  | .insert a t => (s.newTimer a t).insertInLoop ⟨t.msValue, a⟩
  | .erase id => s.eraseInLoop id

/-- A new Timer has fresh memory, and its deadline is later than `ms_now`. -/
def Op.Allowed (msNow : ℕ) (s : TimerList) : Op → Prop
  | .insert a t => a ∉ s.live ∧ msNow < t.msValue
  | .erase _ => True

def OpsAllowed (msNow : ℕ) : TimerList → List Op → Prop
  | _, [] => True
  | s, op :: ops => op.Allowed msNow s ∧ OpsAllowed msNow (op.exec s) ops

/-- A callback of the pass, and what it did. -/
structure Fired where
  id : TimerId
  ops : List Op
deriving DecidableEq, Repr

def Erases (ops : List Op) (a : Addr) : Prop := ∃ id, Op.erase id ∈ ops ∧ id.timer = a

def Inserts (ops : List Op) (id : TimerId) : Prop :=
  ∃ t, Op.insert id.timer t ∈ ops ∧ t.msValue = id.value

/-- The calls of the callback for a timer, after the callbacks of a list. -/
abbrev Callback := List Fired → TimerId → TimerList → List Op

/-- The loop of `RunTimerProcs`, with the callbacks that have run. -/
def runLoop (msNow : ℕ) (cb : Callback) :
    ℕ → List Fired → TimerList → Option (List Fired × TimerList)
  | 0, _, _ => none
  | fuel + 1, log, s =>
    match s.due? msNow with
    | none => some (log, s)
    | some id =>
      let s := s.fireFirst msNow id
      let ops := cb log id s
      runLoop msNow cb fuel (log ++ [⟨id, ops⟩]) (ops.foldl Op.exec s)

def runTimerProcs (msNow : ℕ) (cb : Callback) (fuel : ℕ) (s : TimerList) :
    Option (List Fired × TimerList) :=
  match s.timers.first? with
  | none => some ([], s)
  | some _ => runLoop msNow cb fuel [] (s.beginRun msNow)

/-! What the calls of a callback do. -/

section

variable {msNow : ℕ} {s : TimerList}

theorem Rep.exec (h : Rep s) {op : Op} (hop : op.Allowed msNow s) : Rep (op.exec s) := by
  cases op with
  | insert a t =>
    apply (h.newTimer hop.1 t).insertInLoop
    · exact Finset.mem_insert_self _ _
    · simp [TimerList.newTimer]
  | erase id => exact h.eraseInLoop id

/-- What the list holds after a call is new, or was there and is not the Timer erased. -/
theorem Rep.mem_exec (h : Rep s) {op : Op} (e : TimerId) :
    e ∈ (op.exec s).timers ↔
      Inserts [op] e ∨ (e ∈ s.timers ∧ ¬Erases [op] e.timer) := by
  cases op with
  | insert a t =>
    have herases : ¬Erases [Op.insert a t] e.timer := by
      rintro ⟨id, hid, -⟩
      simp at hid
    have hinserts : Inserts [Op.insert a t] e ↔ e = ⟨t.msValue, a⟩ := by
      constructor
      · rintro ⟨u, hu, hvalue⟩
        simp only [List.mem_singleton, Op.insert.injEq] at hu
        obtain ⟨haddr, rfl⟩ := hu
        exact TimerId.ext hvalue.symm haddr
      · rintro rfl
        exact ⟨t, List.mem_singleton_self _, rfl⟩
    simp [Op.exec, TimerList.newTimer, TimerList.insertInLoop, hinserts, herases]
  | erase id =>
    have hinserts : ¬Inserts [Op.erase id] e := by
      rintro ⟨t, ht, -⟩
      simp at ht
    have herases : Erases [Op.erase id] e.timer ↔ e.timer = id.timer := by
      constructor
      · rintro ⟨id', hid', htimer⟩
        simp only [List.mem_singleton, Op.erase.injEq] at hid'
        rw [← htimer, hid']
      · intro htimer
        exact ⟨id, List.mem_singleton_self _, htimer.symm⟩
    rw [or_iff_right hinserts, herases]
    show e ∈ (s.eraseInLoop id).timers ↔ e ∈ s.timers ∧ ¬e.timer = id.timer
    rw [(h.eraseInLoop id).mem_timers, h.mem_timers, memory_eraseInLoop]
    unfold TimerList.eraseInLoop
    by_cases hid : id.timer ∈ s.timerPtrs
    · rw [if_pos hid, Finset.mem_erase]
      tauto
    · rw [if_neg hid]
      constructor
      · rintro ⟨hmem, hvalue⟩
        exact ⟨⟨hmem, hvalue⟩, fun htimer => hid (htimer ▸ hmem)⟩
      · exact fun hboth => hboth.1

theorem erases_cons {op : Op} {ops : List Op} {a : Addr} :
    Erases (op :: ops) a ↔ Erases [op] a ∨ Erases ops a := by
  simp [Erases, or_and_right, exists_or]

theorem inserts_cons {op : Op} {ops : List Op} {e : TimerId} :
    Inserts (op :: ops) e ↔ Inserts [op] e ∨ Inserts ops e := by
  simp [Inserts, or_and_right, exists_or]

theorem Inserts.later {op : Op} {e : TimerId} (h : Inserts [op] e) (hop : op.Allowed msNow s) :
    msNow < e.value := by
  obtain ⟨t, ht, hvalue⟩ := h
  rw [List.mem_singleton] at ht
  subst ht
  rw [← hvalue]
  exact hop.2

/-- A call leaves the Timers that it does not erase as they are. -/
theorem memory_exec {op : Op} (hop : op.Allowed msNow s) {a : Addr} (ha : a ∈ s.live) :
    (op.exec s).memory a = s.memory a := by
  cases op with
  | insert b t =>
    have hne : a ≠ b := fun heq => hop.1 (heq ▸ ha)
    exact Function.update_of_ne hne _ _
  | erase id => exact congrFun (memory_eraseInLoop s id) a

structure OpsSpec (msNow : ℕ) (s : TimerList) (ops : List Op) (s' : TimerList) : Prop where
  rep : Rep s'
  kept : ∀ e ∈ s.timers, ¬Erases ops e.timer → e ∈ s'.timers
  origin : ∀ e ∈ s'.timers, (msNow < e.value ∧ Inserts ops e) ∨
    (e ∈ s.timers ∧ ¬Erases ops e.timer ∧ s'.memory e.timer = s.memory e.timer)

theorem Rep.opsSpec (h : Rep s) {ops : List Op} (hops : OpsAllowed msNow s ops) :
    OpsSpec msNow s ops (ops.foldl Op.exec s) := by
  induction ops generalizing s with
  | nil =>
    have hnot (a : Addr) : ¬Erases [] a := by
      rintro ⟨id, hid, -⟩
      simp at hid
    exact ⟨h, fun e he _ => he, fun e he => .inr ⟨he, hnot _, rfl⟩⟩
  | cons op ops ih =>
    obtain ⟨hop, hrest⟩ := hops
    have hrec := ih (h.exec hop) hrest
    refine ⟨hrec.rep, ?_, ?_⟩
    · intro e he hnot
      rw [erases_cons, not_or] at hnot
      exact hrec.kept e ((h.mem_exec e).mpr (.inr ⟨he, hnot.1⟩)) hnot.2
    · intro e he
      rcases hrec.origin e he with ⟨hlater, hins⟩ | ⟨hmem, hnot, hmemory⟩
      · exact .inl ⟨hlater, inserts_cons.mpr (.inr hins)⟩
      · rcases (h.mem_exec e).mp hmem with hins | ⟨hmem', hnot'⟩
        · exact .inl ⟨hins.later hop, inserts_cons.mpr (.inl hins)⟩
        · refine .inr ⟨hmem', ?_, ?_⟩
          · rw [erases_cons, not_or]
            exact ⟨hnot', hnot⟩
          · exact hmemory.trans (memory_exec hop (h.live (h.timer_mem hmem')))

/-- The deadline of a periodic timer that fires at `msNow`. -/
def again (s : TimerList) (msNow : ℕ) (a : Addr) : TimerId :=
  ⟨msNow + (s.memory a).msInterval, a⟩

theorem mem_fireFirst {id : TimerId}
    (hfit : 0 < (s.memory id.timer).msInterval → msNow + (s.memory id.timer).msInterval < 2 ^ 64)
    (e : TimerId) :
    e ∈ (s.fireFirst msNow id).timers ↔
      (0 < (s.memory id.timer).msInterval ∧ e = s.again msNow id.timer) ∨
        (e ∈ s.timers ∧ e ≠ id) := by
  unfold fireFirst
  dsimp only
  split
  · rename_i hperiodic
    have hvalue : uint64 (msNow + (s.memory id.timer).msInterval) =
        msNow + (s.memory id.timer).msInterval := Nat.mod_eq_of_lt (hfit hperiodic)
    simp only [setValue, OrderedSet.mem_insert, OrderedSet.mem_erase, hvalue]
    rw [and_iff_right hperiodic]
    unfold again
    tauto
  · rename_i honce
    rw [or_iff_right (fun h => honce h.1)]
    simp only [OrderedSet.mem_erase]
    exact and_comm

theorem interval_fireFirst (id : TimerId) (a : Addr) :
    ((s.fireFirst msNow id).memory a).msInterval = (s.memory a).msInterval := by
  unfold fireFirst
  dsimp only
  split
  · unfold setValue
    by_cases ha : a = id.timer
    · subst ha
      simp
    · simp [ha]
  · rfl

theorem lt_of_due {id e : TimerId} (hid : id.value ≤ msNow) (he : msNow < e.value) : id < e := by
  by_contra hnot
  have hle := TimerId.value_le (not_lt.mp hnot)
  omega

end

/-! The invariant of the loop. -/

/-- Where the entries of the list come from, after the callbacks of `log` in a pass that began
with `start`. The callbacks ran for the entries of `start` that are due, and the entries that
are left are behind them. -/
structure Pass (msNow : ℕ) (start : TimerList) (log : List Fired) (s : TimerList) : Prop where
  rep : Rep s
  ordered : (log.map Fired.id).Pairwise (· < ·)
  before : ∀ f ∈ log, ∀ e ∈ s.timers, f.id < e
  fired : ∀ f ∈ log, f.id ∈ start.timers ∧ f.id.value ≤ msNow ∧
    ∀ g ∈ log, g.id < f.id → ¬Erases g.ops f.id.timer
  pending : ∀ e ∈ start.timers, e ∈ s.timers ∨ (∃ f ∈ log, f.id = e) ∨
    ∃ g ∈ log, g.id < e ∧ Erases g.ops e.timer
  periodic : ∀ f ∈ log, 0 < (start.memory f.id.timer).msInterval →
    start.again msNow f.id.timer ∈ s.timers ∨
      ∃ g ∈ log, f.id ≤ g.id ∧ Erases g.ops f.id.timer
  oneShot : ∀ f ∈ log, (start.memory f.id.timer).msInterval = 0 →
    ∀ e ∈ s.timers, e.timer = f.id.timer → ∃ g ∈ log, f.id ≤ g.id ∧ Inserts g.ops e
  origin : ∀ e ∈ s.timers,
    (e ∈ start.timers ∧ (∀ g ∈ log, ¬Erases g.ops e.timer) ∧
      (s.memory e.timer).msInterval = (start.memory e.timer).msInterval) ∨
    (msNow < e.value ∧
      ((∃ f ∈ log, 0 < (start.memory f.id.timer).msInterval ∧
          e = start.again msNow f.id.timer ∧ ∀ g ∈ log, f.id ≤ g.id → ¬Erases g.ops e.timer) ∨
        ∃ g ∈ log, Inserts g.ops e))

/-- No periodic timer of a list wraps around when it is put off. -/
def Fits (msNow : ℕ) (s : TimerList) : Prop :=
  ∀ a ∈ s.timerPtrs, 0 < (s.memory a).msInterval → msNow + (s.memory a).msInterval < 2 ^ 64

section

variable {msNow : ℕ} {start s : TimerList} {log : List Fired} {id : TimerId} {ops : List Op}

theorem lt_again {a : Addr} (h : 0 < (start.memory a).msInterval) :
    msNow < (start.again msNow a).value := by
  unfold again
  dsimp only
  omega

/-- A timer at the head that is due was there when the pass began. -/
theorem Pass.due (h : Pass msNow start log s) (hdue : s.due? msNow = some id) :
    id ∈ start.timers ∧ (∀ g ∈ log, ¬Erases g.ops id.timer) ∧
      (s.memory id.timer).msInterval = (start.memory id.timer).msInterval := by
  obtain ⟨hid, hle⟩ := mem_of_due? hdue
  rcases h.origin id hid with hstart | ⟨hlater, -⟩
  · exact hstart
  · omega

/-- What the list holds after one iteration, with the callback. -/
structure Round (msNow : ℕ) (start s : TimerList) (id : TimerId) (ops : List Op)
    (s' : TimerList) : Prop where
  rep : Rep s'
  behind : ∀ e ∈ s'.timers, id < e
  kept : ∀ e ∈ s.timers, e ≠ id → e ∈ s'.timers ∨ (id < e ∧ Erases ops e.timer)
  again : 0 < (start.memory id.timer).msInterval →
    start.again msNow id.timer ∈ s'.timers ∨ Erases ops id.timer
  origin : ∀ e ∈ s'.timers, (msNow < e.value ∧ Inserts ops e) ∨
    (¬Erases ops e.timer ∧
      ((0 < (start.memory id.timer).msInterval ∧ e = start.again msNow id.timer) ∨
        (e ∈ s.timers ∧ e ≠ id ∧ (s'.memory e.timer).msInterval = (s.memory e.timer).msInterval)))

theorem Pass.round (h : Pass msNow start log s) (hrep : Rep start) (hfits : Fits msNow start)
    (hdue : s.due? msNow = some id) (hops : OpsAllowed msNow (s.fireFirst msNow id) ops) :
    Round msNow start s id ops (ops.foldl Op.exec (s.fireFirst msNow id)) := by
  obtain ⟨hid, hle⟩ := mem_of_due? hdue
  obtain ⟨hstart, -, hinterval⟩ := h.due hdue
  have hspec := (h.rep.fireFirst hid).opsSpec hops
  have hfit : 0 < (s.memory id.timer).msInterval →
      msNow + (s.memory id.timer).msInterval < 2 ^ 64 := by
    rw [hinterval]
    exact hfits id.timer (hrep.timer_mem hstart)
  have hagain : s.again msNow id.timer = start.again msNow id.timer := by
    unfold again
    rw [hinterval]
  have hmem := mem_fireFirst hfit
  rw [hinterval, hagain] at hmem
  have hhead (e : TimerId) (he : e ∈ s.timers) : id ≤ e :=
    OrderedSet.first?_le (Option.filter_eq_some_iff.mp hdue).1 he
  have hbehind (e : TimerId) (he : e ∈ (s.fireFirst msNow id).timers) : id < e := by
    rcases (hmem e).mp he with ⟨hperiodic, rfl⟩ | ⟨he, hne⟩
    · exact lt_of_due hle (lt_again hperiodic)
    · exact lt_of_le_of_ne (hhead e he) hne.symm
  refine ⟨hspec.rep, ?_, ?_, ?_, ?_⟩
  · intro e he
    rcases hspec.origin e he with ⟨hlater, -⟩ | ⟨he, -, -⟩
    · exact lt_of_due hle hlater
    · exact hbehind e he
  · intro e he hne
    have hfirst := (hmem e).mpr (.inr ⟨he, hne⟩)
    by_cases herases : Erases ops e.timer
    · exact .inr ⟨hbehind e hfirst, herases⟩
    · exact .inl (hspec.kept e hfirst herases)
  · intro hperiodic
    by_cases herases : Erases ops id.timer
    · exact .inr herases
    · exact .inl (hspec.kept _ ((hmem _).mpr (.inl ⟨hperiodic, rfl⟩)) herases)
  · intro e he
    rcases hspec.origin e he with hinserted | ⟨he, hnot, hmemory⟩
    · exact .inl hinserted
    · refine .inr ⟨hnot, ?_⟩
      rcases (hmem e).mp he with hperiodic | ⟨he, hne⟩
      · exact .inl hperiodic
      · refine .inr ⟨he, hne, ?_⟩
        rw [hmemory, interval_fireFirst]

section Step

variable {s' : TimerList} {new : Fired} (h : Pass msNow start log s)
  (hdue : s.due? msNow = some new.id) (hround : Round msNow start s new.id new.ops s')

theorem mem_log_cases {f g : Fired} (h : f ∈ log ++ [g]) : f ∈ log ∨ g = f := by
  rcases List.mem_append.mp h with hf | hf
  · exact .inl hf
  · exact .inr (List.mem_singleton.mp hf).symm

theorem mem_log_last (g : Fired) : g ∈ log ++ [g] := by simp

include h hdue

theorem Pass.before_due {f : Fired} (hf : f ∈ log) : f.id < new.id :=
  h.before f hf new.id (mem_of_due? hdue).1

theorem Pass.step_fired : ∀ f ∈ log ++ [new], f.id ∈ start.timers ∧ f.id.value ≤ msNow ∧
    ∀ g ∈ log ++ [new], g.id < f.id → ¬Erases g.ops f.id.timer := by
  obtain ⟨hstart, hnever, -⟩ := h.due hdue
  intro f hf
  rcases mem_log_cases hf with hf | rfl
  · obtain ⟨hmem, hvalue, hnot⟩ := h.fired f hf
    refine ⟨hmem, hvalue, ?_⟩
    intro g hg hlt
    rcases mem_log_cases hg with hg | rfl
    · exact hnot g hg hlt
    · exact absurd (hlt.trans (h.before_due hdue hf)) (lt_irrefl new.id)
  · refine ⟨hstart, (mem_of_due? hdue).2, ?_⟩
    intro g hg hlt
    rcases mem_log_cases hg with hg | rfl
    · exact hnever g hg
    · exact absurd hlt (lt_irrefl new.id)

include hround

theorem Pass.step_before : ∀ f ∈ log ++ [new], ∀ e ∈ s'.timers, f.id < e := by
  intro f hf e he
  rcases mem_log_cases hf with hf | rfl
  · exact (h.before_due hdue hf).trans (hround.behind e he)
  · exact hround.behind e he

omit hdue in
theorem Pass.step_pending : ∀ e ∈ start.timers, e ∈ s'.timers ∨
    (∃ f ∈ log ++ [new], f.id = e) ∨
      ∃ g ∈ log ++ [new], g.id < e ∧ Erases g.ops e.timer := by
  intro e he
  rcases h.pending e he with he | ⟨f, hf, rfl⟩ | ⟨g, hg, hlt, herases⟩
  · by_cases heq : e = new.id
    · exact .inr (.inl ⟨new, mem_log_last _, heq.symm⟩)
    · rcases hround.kept e he heq with he | herased
      · exact .inl he
      · exact .inr (.inr ⟨new, mem_log_last _, herased⟩)
  · exact .inr (.inl ⟨f, List.mem_append_left _ hf, rfl⟩)
  · exact .inr (.inr ⟨g, List.mem_append_left _ hg, hlt, herases⟩)

theorem Pass.step_periodic : ∀ f ∈ log ++ [new],
    0 < (start.memory f.id.timer).msInterval → start.again msNow f.id.timer ∈ s'.timers ∨
      ∃ g ∈ log ++ [new], f.id ≤ g.id ∧ Erases g.ops f.id.timer := by
  intro f hf hperiodic
  rcases mem_log_cases hf with hf | rfl
  · rcases h.periodic f hf hperiodic with he | ⟨g, hg, hge, herases⟩
    · have hne : start.again msNow f.id.timer ≠ new.id := by
        intro heq
        have hlater : msNow < (start.again msNow f.id.timer).value := lt_again hperiodic
        have hle := (mem_of_due? hdue).2
        rw [heq] at hlater
        omega
      rcases hround.kept _ he hne with he | ⟨-, herases⟩
      · exact .inl he
      · exact .inr ⟨new, mem_log_last _, (h.before_due hdue hf).le, herases⟩
    · exact .inr ⟨g, List.mem_append_left _ hg, hge, herases⟩
  · rcases hround.again hperiodic with he | herases
    · exact .inl he
    · exact .inr ⟨new, mem_log_last _, le_refl new.id, herases⟩

theorem Pass.step_oneShot : ∀ f ∈ log ++ [new],
    (start.memory f.id.timer).msInterval = 0 → ∀ e ∈ s'.timers, e.timer = f.id.timer →
      ∃ g ∈ log ++ [new], f.id ≤ g.id ∧ Inserts g.ops e := by
  intro f hf honce e he htimer
  have hle : f.id ≤ new.id := by
    rcases mem_log_cases hf with hf | rfl
    · exact (h.before_due hdue hf).le
    · exact le_refl new.id
  rcases hround.origin e he with ⟨-, hinserts⟩ | ⟨-, ⟨hperiodic, rfl⟩ | ⟨he, hne, -⟩⟩
  · exact ⟨new, mem_log_last _, hle, hinserts⟩
  · have heq : new.id.timer = f.id.timer := htimer
    rw [heq] at hperiodic
    omega
  · rcases mem_log_cases hf with hf | rfl
    · obtain ⟨g, hg, hge, hinserts⟩ := h.oneShot f hf honce e he htimer
      exact ⟨g, List.mem_append_left _ hg, hge, hinserts⟩
    · exact absurd (h.rep.timer_injOn he (mem_of_due? hdue).1 htimer) hne

/-- An entry is where it was from the beginning, or was put there for a timer that fired or
by a callback. -/
theorem Pass.step_origin : ∀ e ∈ s'.timers,
    (e ∈ start.timers ∧ (∀ g ∈ log ++ [new], ¬Erases g.ops e.timer) ∧
      (s'.memory e.timer).msInterval = (start.memory e.timer).msInterval) ∨
    (msNow < e.value ∧
      ((∃ f ∈ log ++ [new], 0 < (start.memory f.id.timer).msInterval ∧
          e = start.again msNow f.id.timer ∧
            ∀ g ∈ log ++ [new], f.id ≤ g.id → ¬Erases g.ops e.timer) ∨
        ∃ g ∈ log ++ [new], Inserts g.ops e)) := by
  intro e he
  rcases hround.origin e he with ⟨hlater, hinserts⟩ |
    ⟨hnot, ⟨hperiodic, rfl⟩ | ⟨he, hne, hmemory⟩⟩
  · exact .inr ⟨hlater, .inr ⟨new, mem_log_last _, hinserts⟩⟩
  · refine .inr ⟨lt_again hperiodic, .inl ⟨new, mem_log_last _, hperiodic, rfl, ?_⟩⟩
    intro g hg hge
    rcases mem_log_cases hg with hg | rfl
    · exact absurd (h.before_due hdue hg) (not_lt.mpr hge)
    · exact hnot
  · rcases h.origin e he with ⟨hmem, hnever, hinterval⟩ |
      ⟨hlater, ⟨f, hf, hperiodic, heq, hnever⟩ | ⟨g, hg, hinserts⟩⟩
    · refine .inl ⟨hmem, ?_, hmemory.trans hinterval⟩
      intro g hg
      rcases mem_log_cases hg with hg | rfl
      · exact hnever g hg
      · exact hnot
    · refine .inr ⟨hlater, .inl ⟨f, List.mem_append_left _ hf, hperiodic, heq, ?_⟩⟩
      intro g hg hge
      rcases mem_log_cases hg with hg | rfl
      · exact hnever g hg hge
      · exact hnot
    · exact .inr ⟨hlater, .inr ⟨g, List.mem_append_left _ hg, hinserts⟩⟩

theorem Pass.step : Pass msNow start (log ++ [new]) s' where
  rep := hround.rep
  ordered := by
    rw [List.map_append, List.pairwise_append]
    refine ⟨h.ordered, by simp, ?_⟩
    intro i hi j hj
    obtain ⟨f, hf, rfl⟩ := List.mem_map.mp hi
    simp only [List.map_cons, List.map_nil, List.mem_singleton] at hj
    rw [hj]
    exact h.before_due hdue hf
  before := h.step_before hdue hround
  fired := h.step_fired hdue
  pending := h.step_pending hround
  periodic := h.step_periodic hdue hround
  oneShot := h.step_oneShot hdue hround
  origin := h.step_origin hdue hround

end Step

/-- The entries for which the loop has rounds to make. -/
def dueTimers (s : TimerList) (msNow : ℕ) : Finset TimerId :=
  s.timers.elems.toFinset.filter fun id => id.value ≤ msNow

theorem mem_dueTimers {e : TimerId} :
    e ∈ s.dueTimers msNow ↔ e ∈ s.timers ∧ e.value ≤ msNow := by
  rw [dueTimers, Finset.mem_filter, List.mem_toFinset]
  exact Iff.rfl

theorem Round.card_lt {s' : TimerList} (h : Round msNow start s id ops s')
    (hdue : s.due? msNow = some id) : (s'.dueTimers msNow).card < (s.dueTimers msNow).card := by
  apply Finset.card_lt_card
  rw [Finset.ssubset_iff_of_subset]
  · refine ⟨id, mem_dueTimers.mpr (mem_of_due? hdue), ?_⟩
    rw [mem_dueTimers]
    exact fun hid => absurd (h.behind id hid.1) (lt_irrefl id)
  · intro e he
    obtain ⟨he, hle⟩ := mem_dueTimers.mp he
    rcases h.origin e he with ⟨hlater, -⟩ | ⟨-, ⟨hperiodic, rfl⟩ | ⟨hmem, -, -⟩⟩
    · omega
    · have hlater : msNow < (start.again msNow id.timer).value := lt_again hperiodic
      omega
    · exact mem_dueTimers.mpr ⟨hmem, hle⟩

/-- The loop ends, at the latest after a round for each timer that is due. -/
theorem Pass.run {cb : Callback} (hrep : Rep start) (hfits : Fits msNow start)
    (hcb : ∀ log id u, Rep u → OpsAllowed msNow u (cb log id u)) (n : ℕ)
    (h : Pass msNow start log s) (hn : (s.dueTimers msNow).card ≤ n) :
    ∃ log' s', (∀ fuel, n < fuel → runLoop msNow cb fuel log s = some (log', s')) ∧
      Pass msNow start log' s' ∧ s'.due? msNow = none := by
  induction n generalizing log s with
  | zero =>
    have hdue : s.due? msNow = none := by
      rw [Option.eq_none_iff_forall_ne_some]
      intro id hdue
      have hmem : id ∈ s.dueTimers msNow := mem_dueTimers.mpr (mem_of_due? hdue)
      rw [Finset.card_eq_zero.mp (Nat.le_zero.mp hn)] at hmem
      simp at hmem
    refine ⟨log, s, ?_, h, hdue⟩
    intro fuel hfuel
    obtain ⟨k, rfl⟩ := Nat.exists_eq_add_one.mpr hfuel
    simp only [runLoop, hdue]
  | succ n ih =>
    cases hdue : s.due? msNow with
    | none =>
      refine ⟨log, s, ?_, h, hdue⟩
      intro fuel hfuel
      obtain ⟨k, rfl⟩ := Nat.exists_eq_add_one.mpr (Nat.zero_lt_of_lt hfuel)
      simp only [runLoop, hdue]
    | some id =>
      have hfire : Rep (s.fireFirst msNow id) := h.rep.fireFirst (mem_of_due? hdue).1
      have hops := hcb log id _ hfire
      have hround := h.round hrep hfits hdue hops
      have hless := hround.card_lt hdue
      have hstep : Pass msNow start (log ++ [⟨id, cb log id (s.fireFirst msNow id)⟩]) _ :=
        h.step hdue hround
      obtain ⟨log', s', hrun, hrest⟩ := ih hstep (by omega)
      refine ⟨log', s', ?_, hrest⟩
      intro fuel hfuel
      obtain ⟨k, rfl⟩ := Nat.exists_eq_add_one.mpr (Nat.zero_lt_of_lt hfuel)
      simp only [runLoop, hdue]
      exact hrun k (by omega)

theorem Fits.beginRun (h : Fits msNow s) : Fits msNow (s.beginRun msNow) := by
  obtain ⟨-, hptrs, hmemory⟩ := beginRun_frame s msNow
  intro a ha
  rw [hptrs] at ha
  rw [(hmemory a).1]
  exact h a ha

end

end TimerList

end Voyager
