import Voyager.TimerLoop

/-!
What `RemoveTimer` takes away. A TimerId names its Timer by the address alone, and
an address is used again after a delete; and a removal on the loop's thread does
not wait for an insertion that another thread has queued. Both decide whether the
removal is the one that was asked for.
-/
namespace Voyager

open Lib Lib.Runs

/-- The list without the Timer of that number: what a removal is for. -/
def TimerList.without (s : TimerList) (n : ℕ) : TimerList :=
  { s with
    live := s.live.filter fun a => (s.memory a).serial ≠ n,
    timers := s.timers.filter fun id => (s.memory id.timer).serial ≠ n,
    timerPtrs := s.timerPtrs.filter fun a => (s.memory a).serial ≠ n }

namespace TimerLoop

def Pending (s : TimerLoop) (n : ℕ) : Prop := ∃ a ∈ s.list.live, (s.list.memory a).serial = n

def insertQueued (s : TimerLoop) (n : ℕ) : Bool :=
  s.queue.any fun f =>
    match f with
    | .insertInLoop m _ => m == n
    | .eraseInLoop _ _ => false

theorem insertQueued_eq_false {s : TimerLoop} {n : ℕ} :
    s.insertQueued n = false ↔ ∀ id, .insertInLoop n id ∉ s.queue := by
  rw [insertQueued, List.any_eq_false]
  constructor
  · intro h id hf
    exact h _ hf (beq_self_eq_true n)
  · intro h f hf
    cases f with
    | insertInLoop m id =>
      intro hm
      rw [beq_iff_eq] at hm
      subst hm
      exact h id hf
    | eraseInLoop m id => exact Bool.false_ne_true

section

variable {s : TimerLoop} {n : ℕ} {c : Creation}

/-- A pending Timer is where its id says, in the list or on the way there. -/
theorem Inv.pending_cases (h : Inv s) (hc : s.created[n]? = some c) (hn : Pending s n) :
    (s.list.memory c.id.timer).serial = n ∧ c.id.timer ∈ s.list.live ∧
      (c.id.timer ∈ s.list.timerPtrs ∨ s.insertQueued n = true) := by
  obtain ⟨a, ha, hserial⟩ := hn
  have haddr := h.addr_eq ha hserial hc
  rw [haddr]
  refine ⟨hserial, ha, ?_⟩
  rcases h.placed a ha with hptr | ⟨id, -, hf⟩
  · exact .inl hptr
  · right
    by_contra hnot
    rw [hserial] at hf
    exact insertQueued_eq_false.mp (Bool.eq_false_of_not_eq_true hnot) id hf

/-- The insertion of the Timer is done, and its address is not in use by another. -/
def Removable (s : TimerLoop) (n : ℕ) (id : TimerId) : Prop :=
  s.insertQueued n = false ∧
    (id.timer ∈ s.list.timerPtrs → (s.list.memory id.timer).serial = n)

instance (s : TimerLoop) (n : ℕ) (id : TimerId) : Decidable (Removable s n id) :=
  inferInstanceAs (Decidable (_ ∧ _))

theorem Inv.without_of_not_pending (h : Inv s) (hn : ¬Pending s n) :
    s.list.without n = s.list := by
  have hserial {a : Addr} (ha : a ∈ s.list.live) : (s.list.memory a).serial ≠ n :=
    fun heq => hn ⟨a, ha, heq⟩
  apply TimerList.ext
  · rfl
  · exact Finset.filter_true_of_mem fun a ha => hserial ha
  · apply OrderedSet.ext
    intro id
    rw [TimerList.without, OrderedSet.mem_filter, decide_eq_true_eq]
    exact ⟨fun hid => hid.1, fun hid => ⟨hid, hserial (h.rep.live (h.rep.timer_mem hid))⟩⟩
  · exact Finset.filter_true_of_mem fun a ha => hserial (h.rep.live ha)
  · rfl

theorem Inv.erase_eq_without (h : Inv s) (hc : s.created[n]? = some c)
    (hremovable : Removable s n c.id) : s.list.eraseInLoop c.id = s.list.without n := by
  by_cases hptr : c.id.timer ∈ s.list.timerPtrs
  · have hserial := hremovable.2 hptr
    have hiff {a : Addr} (ha : a ∈ s.list.live) :
        (s.list.memory a).serial ≠ n ↔ a ≠ c.id.timer := by
      constructor
      · rintro hne rfl
        exact hne hserial
      · intro hne heq
        exact hne (h.addr_eq ha heq hc).symm
    rw [TimerList.eraseInLoop, if_pos hptr]
    apply TimerList.ext
    · rfl
    · ext a
      simp only [TimerList.without, Finset.mem_erase, Finset.mem_filter]
      exact ⟨fun ha => ⟨ha.2, (hiff ha.2).mpr ha.1⟩, fun ha => ⟨(hiff ha.1).mp ha.2, ha.1⟩⟩
    · apply OrderedSet.ext
      intro id
      simp only [TimerList.without, OrderedSet.mem_erase, OrderedSet.mem_filter, decide_eq_true_eq]
      constructor
      · rintro ⟨hne, hid⟩
        refine ⟨hid, (hiff (h.rep.live (h.rep.timer_mem hid))).mpr fun htimer => hne ?_⟩
        rw [← htimer, ← h.rep.value_eq hid]
      · rintro ⟨hid, hne⟩
        refine ⟨fun heq => hne ?_, hid⟩
        rw [heq]
        exact hserial
    · ext a
      simp only [TimerList.without, Finset.mem_erase, Finset.mem_filter]
      exact ⟨fun ha => ⟨ha.2, (hiff (h.rep.live ha.2)).mpr ha.1⟩,
        fun ha => ⟨(hiff (h.rep.live ha.1)).mp ha.2, ha.1⟩⟩
    · rfl
  · have hn : ¬Pending s n := by
      intro hn
      rcases (h.pending_cases hc hn).2.2 with hmem | hqueued
      · exact hptr hmem
      · rw [hremovable.1] at hqueued
        cases hqueued
    rw [TimerList.eraseInLoop, if_neg hptr, h.without_of_not_pending hn]

end

/-! Every removal that is executed. -/

/-- The Timer whose `EraseInLoop` a step executes. -/
def erased (s : TimerLoop) : Act → Option ℕ
  | .erase .loop n => some n
  | .runFunc =>
    match s.queue with
    | .eraseInLoop n _ :: _ => some n
    | _ => none
  | _ => none

/-- What was created is pending until it is removed by its own id or, unless it is
periodic, has fired. -/
def Precise (s : TimerLoop) : Prop :=
  ∀ n c, s.created[n]? = some c →
    (Pending s n ↔ Event.cancelled n ∉ s.log ∧
      (c.request.interval = 0 → ∀ real, Event.fired n real ∉ s.log))

/-- Every removal finds the Timer it is for, or none at all. -/
def Exact (s : TimerLoop) (a : Act) : Prop :=
  ∀ n ∈ s.erased a, ∀ c ∈ s.created[n]?, Removable s n c.id

instance (s : TimerLoop) (a : Act) : Decidable (Exact s a) :=
  inferInstanceAs (Decidable (∀ n ∈ s.erased a, _))

section

variable {s t : TimerLoop} {n : ℕ} {c : Creation}

theorem pending_create {request : TimerRequest} {a : Addr} (ha : a ∉ s.list.live) (k : ℕ) :
    Pending (s.create request a) k ↔ k = s.created.length ∨ Pending s k := by
  have hne {b : Addr} (hb : b ∈ s.list.live) : b ≠ a := fun heq => ha (heq ▸ hb)
  constructor
  · rintro ⟨b, hb, hserial⟩
    rcases Finset.mem_insert.mp hb with rfl | hb
    · left
      simpa [create, TimerList.newTimer] using hserial.symm
    · right
      refine ⟨b, hb, ?_⟩
      simpa [create, TimerList.newTimer, Function.update_of_ne (hne hb)] using hserial
  · rintro (rfl | ⟨b, hb, hserial⟩)
    · exact ⟨a, Finset.mem_insert_self _ _, by simp [create, TimerList.newTimer]⟩
    · refine ⟨b, Finset.mem_insert_of_mem hb, ?_⟩
      simpa [create, TimerList.newTimer, Function.update_of_ne (hne hb)] using hserial

theorem pending_without (hlist : t.list = s.list.without n) (k : ℕ) :
    Pending t k ↔ Pending s k ∧ k ≠ n := by
  simp only [Pending, hlist, TimerList.without, Finset.mem_filter]
  constructor
  · rintro ⟨a, ⟨ha, hne⟩, rfl⟩
    exact ⟨⟨a, ha, rfl⟩, hne⟩
  · rintro ⟨⟨a, ha, rfl⟩, hne⟩
    exact ⟨a, ⟨ha, hne⟩, rfl⟩

theorem pending_shrink_empty (hshrinks : TimerList.Shrinks s.list t.list ∅) (k : ℕ) :
    Pending t k ↔ Pending s k := by
  simp only [Pending, hshrinks.live, hshrinks.serial, Finset.sdiff_empty]

theorem Inv.pending_shrink_singleton (h : Inv s) {a : Addr} (ha : a ∈ s.list.live)
    (hshrinks : TimerList.Shrinks s.list t.list {a}) (k : ℕ) :
    Pending t k ↔ Pending s k ∧ k ≠ (s.list.memory a).serial := by
  obtain ⟨c, hc, hid, -⟩ := h.owner a ha
  simp only [Pending, hshrinks.live, hshrinks.serial, Finset.mem_sdiff, Finset.mem_singleton]
  constructor
  · rintro ⟨b, ⟨hb, hne⟩, rfl⟩
    refine ⟨⟨b, hb, rfl⟩, fun heq => hne ?_⟩
    rw [← h.addr_eq hb heq hc, hid]
  · rintro ⟨⟨b, hb, rfl⟩, hne⟩
    exact ⟨b, ⟨hb, fun heq => hne (by rw [heq])⟩, rfl⟩

/-- The log and the pending Timers stay. -/
theorem Precise.congr (h : Precise s) (hpending : ∀ k, Pending t k ↔ Pending s k)
    (hcreated : t.created = s.created) (hlog : t.log = s.log) : Precise t := by
  intro n c hc
  rw [hpending, hlog]
  rw [hcreated] at hc
  exact h n c hc

theorem Precise.create (h : Precise s) (hlogged : Logged s) {request : TimerRequest} {a : Addr}
    (ha : a ∉ s.list.live) (hpending : ∀ k, Pending t k ↔ Pending (s.create request a) k)
    (hcreated : t.created = (s.create request a).created) (hlog : t.log = s.log) : Precise t := by
  intro n c hc
  rw [hpending, pending_create ha, hlog]
  rw [hcreated] at hc
  by_cases hn : n = s.created.length
  · have hcancelled : Event.cancelled n ∉ s.log := hlogged.not_mem hn
    have hfired (real : ℕ) : Event.fired n real ∉ s.log := hlogged.not_mem hn
    simp [hn, hn ▸ hcancelled, hn ▸ hfired]
  · have hlt : n < s.created.length := by
      have hlen := (List.getElem?_eq_some_iff.mp hc).1
      simp only [TimerLoop.create, List.length_append, List.length_singleton] at hlen
      omega
    have hold : s.created[n]? = some c := (List.getElem?_append_left hlt).symm.trans hc
    rw [or_iff_right hn]
    exact h n c hold

theorem Precise.cancel (h : Precise s) (hlist : t.list = s.list.without n)
    (hcreated : t.created = s.created) (hlog : t.log = s.log ++ [.cancelled n]) : Precise t := by
  intro k c hc
  rw [hcreated] at hc
  rw [pending_without hlist, h k c hc, hlog]
  simp only [List.mem_append, List.mem_singleton, Event.cancelled.injEq, reduceCtorEq, or_false,
    not_or]
  tauto

theorem Precise.fire (h : Precise s) (hinv : Inv s) {a : Addr} (ha : a ∈ s.list.live) {real : ℕ}
    (hshrinks : TimerList.Shrinks s.list t.list
      (if 0 < (s.list.memory a).msInterval then ∅ else {a}))
    (hcreated : t.created = s.created)
    (hlog : t.log = s.log ++ [.fired (s.list.memory a).serial real]) : Precise t := by
  intro k c hc
  rw [hcreated] at hc
  obtain ⟨c', hc', -, hinterval⟩ := hinv.owner a ha
  have hold := h k c hc
  have hcancelled : Event.cancelled k ∈ t.log ↔ Event.cancelled k ∈ s.log := by simp [hlog]
  have hfired (r : ℕ) : Event.fired k r ∈ t.log ↔
      Event.fired k r ∈ s.log ∨ (k = (s.list.memory a).serial ∧ r = real) := by simp [hlog]
  rw [hcancelled]
  by_cases hk : k = (s.list.memory a).serial
  · have hsame : c' = c := by
      rw [hk, hc', Option.some.injEq] at hc
      exact hc
    rw [hsame] at hinterval
    split at hshrinks
    · have hne : c.request.interval ≠ 0 := by omega
      rw [pending_shrink_empty hshrinks, hold]
      simp [hne]
    · have hzero : c.request.interval = 0 := by omega
      rw [hinv.pending_shrink_singleton ha hshrinks]
      constructor
      · rintro ⟨-, hne⟩
        exact absurd hk hne
      · rintro ⟨-, hnever⟩
        exact absurd ((hfired real).mpr (.inr ⟨hk, rfl⟩)) (hnever hzero real)
  · have hpending : Pending t k ↔ Pending s k := by
      split at hshrinks
      · exact pending_shrink_empty hshrinks k
      · rw [hinv.pending_shrink_singleton ha hshrinks]
        exact and_iff_left hk
    rw [hpending, hold]
    simp [hfired, hk]

theorem Precise.step {a : Act} (h : Precise s) (hinv : Inv s) (hlogged : Logged s)
    (hexact : Exact s a) (hstep : Step s a t) : Precise t := by
  cases hstep with
  | advance => exact h.congr (fun _ => Iff.rfl) rfl rfl
  | setClock => exact h.congr (fun _ => Iff.rfl) rfl rfl
  | @insert thread request a ha _ =>
    cases thread with
    | loop => exact h.create hlogged ha (fun _ => Iff.rfl) rfl rfl
    | other => exact h.create hlogged ha (fun _ => Iff.rfl) rfl rfl
  | @erase thread n c hc =>
    cases thread with
    | loop => exact h.cancel (hinv.erase_eq_without hc (hexact n rfl c hc)) rfl rfl
    | other => exact h.congr (fun _ => Iff.rfl) rfl rfl
  | @runFunc f rest _ hqueue =>
    cases f with
    | insertInLoop n id => exact h.congr (fun _ => Iff.rfl) rfl rfl
    | eraseInLoop n id =>
      obtain ⟨c, hc, rfl⟩ := hinv.erases n id (by simp [hqueue])
      have hremovable := hexact n (by simp [erased, hqueue]) c hc
      exact h.cancel (hinv.erase_eq_without hc hremovable) rfl rfl
  | skipRun => exact h
  | beginRun =>
    exact h.congr (pending_shrink_empty (hinv.rep.shrinks_beginRun _)) rfl rfl
  | fire _ hdue =>
    have hid := (TimerList.mem_of_due? hdue).1
    exact h.fire hinv (hinv.rep.live (hinv.rep.timer_mem hid)) (hinv.rep.shrinks_fireFirst _ hid)
      rfl rfl
  | finish => exact h.congr (fun _ => Iff.rfl) rfl rfl

end

/-- A removal on the loop's thread does not come while the insertion is queued. One
from another thread cannot: the queue keeps their order. -/
def NotOvertaking (s : TimerLoop) : Act → Prop
  | .erase .loop n => s.insertQueued n = false
  | _ => True

instance (s : TimerLoop) : (a : Act) → Decidable (NotOvertaking s a)
  | .erase .loop n => inferInstanceAs (Decidable (s.insertQueued n = false))
  | .erase .other _ | .advance _ | .setClock _ | .insert _ _ _ | .runFunc | .runTimerProcs
  | .fire | .finish => .isTrue trivial

/-- No callback of a timer comes after its removal. -/
def SilentAfterRemoval (s : TimerLoop) : Prop :=
  s.log.Pairwise fun e f => ∀ n real, e = .cancelled n → f ≠ .fired n real

section

variable {s t : TimerLoop} {n : ℕ} {c : Creation}

def RemovedGone (s : TimerLoop) : Prop := ∀ n, Event.cancelled n ∈ s.log → ¬Pending s n

theorem Inv.not_pending_erase (h : Inv s) (hc : s.created[n]? = some c)
    (hqueued : s.insertQueued n = false) (hlist : t.list = s.list.eraseInLoop c.id) :
    ¬Pending t n := by
  have hshrinks := TimerList.shrinks_eraseInLoop s.list c.id
  rw [← hlist] at hshrinks
  rintro ⟨a, ha, hserial⟩
  rw [hshrinks.live, Finset.mem_sdiff] at ha
  rw [hshrinks.serial] at hserial
  obtain ⟨-, -, hptr | hwait⟩ := h.pending_cases hc ⟨a, ha.1, hserial⟩
  · apply ha.2
    rw [if_pos hptr, Finset.mem_singleton]
    exact (h.addr_eq ha.1 hserial hc).symm
  · rw [hqueued] at hwait
    cases hwait

theorem pending_of_shrinks {gone : Finset Addr} (hshrinks : TimerList.Shrinks s.list t.list gone)
    {k : ℕ} (hk : Pending t k) : Pending s k := by
  obtain ⟨a, ha, hserial⟩ := hk
  rw [hshrinks.live, Finset.mem_sdiff] at ha
  rw [hshrinks.serial] at hserial
  exact ⟨a, ha.1, hserial⟩

/-- The insertion of a Timer is never queued behind its removal. -/
theorem Inv.insertQueued_of_erase_head (h : Inv s) {id : TimerId} {rest : List Func}
    (hqueue : s.queue = .eraseInLoop n id :: rest) : s.insertQueued n = false := by
  rw [insertQueued_eq_false]
  intro id' hf
  have horder := h.order
  rw [hqueue, List.pairwise_cons] at horder
  rw [hqueue] at hf
  rcases List.mem_cons.mp hf with heq | hf
  · cases heq
  · exact horder.1 _ hf n id' rfl rfl

theorem RemovedGone.shrink {gone : Finset Addr} (h : RemovedGone s)
    (hshrinks : TimerList.Shrinks s.list t.list gone)
    (hlog : ∀ k, Event.cancelled k ∈ t.log → Event.cancelled k ∈ s.log) : RemovedGone t :=
  fun k hk hpending => h k (hlog k hk) (pending_of_shrinks hshrinks hpending)

theorem RemovedGone.create (h : RemovedGone s) (hlogged : Logged s) {request : TimerRequest}
    {a : Addr} (ha : a ∉ s.list.live)
    (hpending : ∀ k, Pending t k ↔ Pending (s.create request a) k) (hlog : t.log = s.log) :
    RemovedGone t := by
  intro k hk
  rw [hlog] at hk
  rw [hpending, pending_create ha, not_or]
  have hlt := hlogged _ hk
  exact ⟨Nat.ne_of_lt hlt, h k hk⟩

theorem RemovedGone.erase (h : RemovedGone s) (hinv : Inv s) (hc : s.created[n]? = some c)
    (hqueued : s.insertQueued n = false) (hlist : t.list = s.list.eraseInLoop c.id)
    (hlog : t.log = s.log ++ [.cancelled n]) : RemovedGone t := by
  intro k hk
  rw [hlog, List.mem_append, List.mem_singleton, Event.cancelled.injEq] at hk
  rcases hk with hk | rfl
  · have hshrinks := TimerList.shrinks_eraseInLoop s.list c.id
    rw [← hlist] at hshrinks
    exact fun hpending => h k hk (pending_of_shrinks hshrinks hpending)
  · exact hinv.not_pending_erase hc hqueued hlist

theorem RemovedGone.step {a : Act} (h : RemovedGone s) (hinv : Inv s) (hlogged : Logged s)
    (hok : NotOvertaking s a) (hstep : Step s a t) : RemovedGone t := by
  cases hstep with
  | advance => exact h
  | setClock => exact h
  | @insert thread request a ha _ =>
    cases thread with
    | loop => exact h.create hlogged ha (fun _ => Iff.rfl) rfl
    | other => exact h.create hlogged ha (fun _ => Iff.rfl) rfl
  | @erase thread n c hc =>
    cases thread with
    | loop => exact h.erase hinv hc hok rfl rfl
    | other => exact h
  | @runFunc f rest _ hqueue =>
    cases f with
    | insertInLoop n id => exact h
    | eraseInLoop n id =>
      obtain ⟨c, hc, rfl⟩ := hinv.erases n id (by simp [hqueue])
      exact h.erase hinv hc (hinv.insertQueued_of_erase_head hqueue) rfl rfl
  | skipRun => exact h
  | beginRun => exact h.shrink (hinv.rep.shrinks_beginRun _) fun _ hk => hk
  | fire _ hdue =>
    refine h.shrink (hinv.rep.shrinks_fireFirst _ (TimerList.mem_of_due? hdue).1) fun k hk => ?_
    simpa using hk
  | finish => exact h

theorem SilentAfterRemoval.append (h : SilentAfterRemoval s) {e : Event}
    (hlog : t.log = s.log ++ [e])
    (he : ∀ k real, e = .fired k real → Event.cancelled k ∉ s.log) : SilentAfterRemoval t := by
  rw [SilentAfterRemoval, hlog]
  refine List.pairwise_append.mpr ⟨h, List.pairwise_singleton _ _, fun f hf g hg k real hk => ?_⟩
  rw [List.mem_singleton.mp hg]
  intro heq
  exact he k real heq (hk ▸ hf)

theorem SilentAfterRemoval.step {a : Act} (h : SilentAfterRemoval s) (hinv : Inv s)
    (hgone : RemovedGone s) (hstep : Step s a t) : SilentAfterRemoval t := by
  cases hstep with
  | advance => exact h
  | setClock => exact h
  | @insert thread request a ha _ => cases thread <;> exact h
  | @erase thread n c hc =>
    cases thread with
    | loop => exact h.append rfl nofun
    | other => exact h
  | @runFunc f rest _ hqueue =>
    cases f with
    | insertInLoop n id => exact h
    | eraseInLoop n id => exact h.append rfl nofun
  | skipRun => exact h
  | beginRun => exact h
  | @fire msNow id _ hdue =>
    refine h.append rfl fun k real heq hcancelled => hgone k hcancelled ?_
    cases heq
    have hid := (TimerList.mem_of_due? hdue).1
    exact ⟨id.timer, hinv.rep.live (hinv.rep.timer_mem hid), rfl⟩
  | finish => exact h

end

theorem removed_never_fires (start : ℕ) (s : TimerLoop)
    (hs : (system start).ReachableWhen NotOvertaking s) : SilentAfterRemoval s := by
  have hboth : RemovedGone s ∧ SilentAfterRemoval s := by
    refine Machine.ReachableWhen.invariant (P := fun s => RemovedGone s ∧ SilentAfterRemoval s) ?_
      ?_ hs
    · exact ⟨by simp [RemovedGone, system], by simp [SilentAfterRemoval, system]⟩
    · rintro s a t hs hok ⟨hgone, hsilent⟩ hnext
      have hinv := inv_of_reachable hs.reachable
      have hstep := step_of_next hnext
      exact ⟨hgone.step hinv (logged_of_reachable hs.reachable) hok hstep,
        hsilent.step hinv hgone hstep⟩
  exact hboth.2

/-- Inserted and removed by other threads, and executed in this order by the loop. -/
theorem removed_never_fires_queued :
    ∃ s, (system 1000).ReachableWhen NotOvertaking s ∧ s.log = [.cancelled 0] ∧
      SilentAfterRemoval s := by
  obtain ⟨s, hs, hlog⟩ := Machine.exists_reachableWhen_of_run (M := system 1000) NotOvertaking
    [.insert .other (.runAfter 10) 8, .erase .other 0, .runFunc, .runFunc, .advance 10,
      .runTimerProcs]
    (fun s => s.log = [.cancelled 0]) (by decide +kernel)
  exact ⟨s, hs, hlog, removed_never_fires 1000 s hs⟩

/-- The loop's thread removes a timer that another thread has asked for. The removal
finds nothing, then the insertion is executed, and the callback is invoked. -/
theorem removed_timer_fires :
    ∃ s, (system 1000).Reachable s ∧ ¬SilentAfterRemoval s := by
  obtain ⟨s, hs, hlog⟩ := Machine.exists_reachable_of_run (M := system 1000)
    [.insert .other (.runAfter 10) 8, .erase .loop 0, .runFunc, .advance 10, .runTimerProcs, .fire]
    (fun s => s.log = [.cancelled 0, .fired 0 10]) (by decide +kernel)
  refine ⟨s, hs, ?_⟩
  rw [SilentAfterRemoval, hlog]
  simp

end TimerLoop

end Voyager
