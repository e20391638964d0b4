import Voyager.KernelPollers
import Voyager.TablePollers

/-!
What the calls of one Dispatch leave in a poller, for itself and for the others.
Here the calls come in any order; only `RemoveEvents` asks that no event is left,
which it asserts before the poller is reached. Three of the pollers act on the
descriptor alone, and what they hold of it follows its interest.
-/
namespace Voyager

namespace EventPoller

variable {σ ε : Type}

/-- What a poller holds of one descriptor, `index_` of the Dispatch among it. -/
structure Registration (ε : Type) where
  known : Bool
  index : Int
  entry : ε
deriving DecidableEq

/-- The assertion in `Dispatch::RemoveEvents`. -/
def Allowed (s : Loop σ) (c : Fd × Op) : Prop :=
  c.2 = .removeEvents → (s.dispatch c.1).isNoneEvent = true

/-- A call that leads from `s` to `s'`, as far as `held` shows. -/
structure CleanAndLocal (P : EventPoller σ) (held : σ → Fd → Registration ε)
    (s : Loop σ) (c : Fd × Op) (s' : Loop σ) : Prop where
  others : ∀ g, g ≠ c.1 → s'.dispatch g = s.dispatch g ∧ held s'.poller g = held s.poller g
  enabled : c.2 = .enableRead ∨ c.2 = .enableWrite → (held s'.poller c.1).known = true
  removed : c.2 = .removeEvents → held s'.poller c.1 = held P.init c.1
  unregistered : c.2 = .removeEvents → (held s.poller c.1).known = false → s' = s

/-- No assertion of the poller fails, and the call is clean and local. -/
def Behaves (P : EventPoller σ) (held : σ → Fd → Registration ε) (s : Loop σ)
    (c : Fd × Op) : Prop :=
  ∃ s', P.call s c.1 c.2 = some s' ∧ CleanAndLocal P held s c s'

/-- `Q` of every call of a run that starts in the given state. -/
def EveryCallFrom (P : EventPoller σ) (Q : Loop σ → Fd × Op → Prop) :
    Loop σ → List (Fd × Op) → Prop
  | _, [] => True
  | s, c :: rest =>
    (Allowed s c → Q s c) ∧ ∀ s', P.call s c.1 c.2 = some s' → EveryCallFrom P Q s' rest

def EveryCall (P : EventPoller σ) (Q : Loop σ → Fd × Op → Prop) (calls : List (Fd × Op)) : Prop :=
  EveryCallFrom P Q P.machine.init calls

theorem allowed_of_call {P : EventPoller σ} {s s' : Loop σ} {fd : Fd} {op : Op}
    (h : P.call s fd op = some s') : Allowed s (fd, op) := by
  rintro rfl
  by_contra hnone
  simp [call, hnone] at h

/-- The rule for runs: `Inv` is kept by the calls that meet `Q`, and gives `R` of them. -/
theorem EveryCallFrom.imp {P : EventPoller σ} (Inv : Loop σ → Prop)
    {Q R : Loop σ → Fd × Op → Prop}
    (hstep : ∀ s c s', Inv s → Q s c → P.call s c.1 c.2 = some s' → Inv s')
    (himp : ∀ s c, Inv s → Allowed s c → Q s c → R s c) {s : Loop σ} {calls : List (Fd × Op)}
    (hs : Inv s) (h : EveryCallFrom P Q s calls) : EveryCallFrom P R s calls := by
  induction calls generalizing s with
  | nil => trivial
  | cons c rest ih =>
    obtain ⟨hfirst, hrest⟩ := h
    refine ⟨fun hallowed => himp s c hs hallowed (hfirst hallowed), fun s' hs' => ?_⟩
    have hq : Q s c := hfirst (allowed_of_call hs')
    exact ih (hstep s c s' hs hq hs') (hrest s' hs')

/-- When a call is to be expected to behave, of a poller that serves the descriptors
in `ok` and gives up all it holds for the Dispatches in `clears`. -/
def Suits (held : σ → Fd → Registration ε) (ok : Fd → Prop) (clears : Dispatch → Prop)
    (s : Loop σ) (c : Fd × Op) : Prop :=
  if c.2 = .removeEvents then (held s.poller c.1).known = true ∧ clears (s.dispatch c.1)
  else (c.2.apply (s.dispatch c.1)).2 = true → ok c.1

/-- A poller whose functions act on one descriptor alone. `Slot` says what it holds
there for an interest. -/
structure Keeps (P : EventPoller σ) (held : σ → Fd → Registration ε) (ok : Fd → Prop)
    (clears : Dispatch → Prop) (Slot : Interest → Registration ε → Prop) : Prop where
  init : ∀ fd, Slot Interest.none (held P.init fd)
  update : ∀ {s fd d i}, ok fd → Slot i (held s fd) → Plain d →
    Change i d.modify (interest d) →
    ∃ s', P.updateDispatch s fd d = some s' ∧ (∀ g, g ≠ fd → held s' g = held s g) ∧
      (held s' fd).known = true ∧ Slot (interest d) (held s' fd)
  outside : ∀ {s fd d i}, ¬ ok fd → Change i d.modify (interest d) →
    P.updateDispatch s fd d = none
  remove : ∀ {s fd d}, Slot (interest d) (held s fd) → (held s fd).known = true → Plain d →
    d.isNoneEvent = true →
    ∃ s', P.removeDispatch s fd d = some s' ∧ (∀ g, g ≠ fd → held s' g = held s g) ∧
      Slot (interest d) (held s' fd) ∧ (held s' fd = held P.init fd ↔ clears d)
  unknown : ∀ {s fd d}, (held s fd).known = false → P.removeDispatch s fd d = none

/-- Every Dispatch and what the poller holds of it. -/
def Kept (held : σ → Fd → Registration ε) (Slot : Interest → Registration ε → Prop)
    (s : Loop σ) : Prop :=
  ∀ fd, Plain (s.dispatch fd) ∧ Slot (interest (s.dispatch fd)) (held s.poller fd)

section Keeps

variable {P : EventPoller σ} {held : σ → Fd → Registration ε} {ok : Fd → Prop}
  {clears : Dispatch → Prop} {Slot : Interest → Registration ε → Prop} {s s' : Loop σ}
  {fd : Fd} {op : Op}

theorem Kept.update (h : Kept held Slot s) {d : Dispatch}
    (hdispatch : s'.dispatch = Function.update s.dispatch fd d)
    (hothers : ∀ g, g ≠ fd → held s'.poller g = held s.poller g) (hplain : Plain d)
    (hslot : Slot (interest d) (held s'.poller fd)) : Kept held Slot s' := by
  intro g
  rw [hdispatch]
  by_cases hg : g = fd
  · subst hg
    rw [Function.update_self]
    exact ⟨hplain, hslot⟩
  · rw [Function.update_of_ne hg, hothers g hg]
    exact h g

theorem Keeps.call_called (hP : Keeps P held ok clears Slot) (h : Kept held Slot s) (hok : ok fd)
    (hop : op ≠ .removeEvents) (hcalled : (op.apply (s.dispatch fd)).2 = true) :
    ∃ p, P.call s fd op =
        some ⟨Function.update s.dispatch fd (op.apply (s.dispatch fd)).1, p⟩ ∧
      (∀ g, g ≠ fd → held p g = held s.poller g) ∧ (held p fd).known = true ∧
      Slot (interest (op.apply (s.dispatch fd)).1) (held p fd) := by
  obtain ⟨hplain, heffect⟩ := effect_apply (h fd).1 op
  rw [if_pos hcalled] at heffect
  obtain ⟨p, hp, hothers, hknown, hslot⟩ := hP.update hok (h fd).2 hplain heffect
  exact ⟨p, call_update hop hcalled hp, hothers, hknown, hslot⟩

theorem Keeps.call_outside (hP : Keeps P held ok clears Slot) (h : Kept held Slot s)
    (hok : ¬ ok fd) (hop : op ≠ .removeEvents) (hcalled : (op.apply (s.dispatch fd)).2 = true) :
    P.call s fd op = none := by
  obtain ⟨-, heffect⟩ := effect_apply (h fd).1 op
  rw [if_pos hcalled] at heffect
  simp [call, hop, hcalled, hP.outside hok heffect]

theorem Keeps.call_remove (hP : Keeps P held ok clears Slot) (h : Kept held Slot s)
    (hknown : (held s.poller fd).known = true)
    (hnone : (s.dispatch fd).isNoneEvent = true) :
    ∃ p, P.call s fd .removeEvents = some { s with poller := p } ∧
      (∀ g, g ≠ fd → held p g = held s.poller g) ∧
      Slot (interest (s.dispatch fd)) (held p fd) ∧
      (held p fd = held P.init fd ↔ clears (s.dispatch fd)) := by
  obtain ⟨p, hp, hothers, hslot, hclears⟩ := hP.remove (h fd).2 hknown (h fd).1 hnone
  exact ⟨p, call_removeEvents hnone hp, hothers, hslot, hclears⟩

theorem Keeps.call_unknown (hP : Keeps P held ok clears Slot)
    (hknown : (held s.poller fd).known = false) : P.call s fd .removeEvents = none := by
  simp [call, hP.unknown hknown]

theorem Keeps.kept_init (hP : Keeps P held ok clears Slot) : Kept held Slot P.machine.init := by
  intro fd
  have hnone : interest Dispatch.create = Interest.none :=
    interest_of_events_eq (r := false) (w := false) rfl
  refine ⟨plain_create, ?_⟩
  show Slot (interest Dispatch.create) (held P.init fd)
  rw [hnone]
  exact hP.init fd

/-- One call. -/
theorem Keeps.kept_call (hP : Keeps P held ok clears Slot) (h : Kept held Slot s)
    (hcall : P.call s fd op = some s') : Kept held Slot s' := by
  by_cases hop : op = .removeEvents
  · subst hop
    have hnone : (s.dispatch fd).isNoneEvent = true := allowed_of_call hcall rfl
    cases hknown : (held s.poller fd).known with
    | false =>
      rw [hP.call_unknown hknown] at hcall
      cases hcall
    | true =>
      obtain ⟨p, hp, hothers, hslot, -⟩ := hP.call_remove h hknown hnone
      rw [hcall, Option.some.injEq] at hp
      subst hp
      exact h.update (Function.update_eq_self _ _).symm hothers (h fd).1 hslot
  · obtain ⟨hplain, heffect⟩ := effect_apply (h fd).1 op
    cases hcalled : (op.apply (s.dispatch fd)).2 with
    | false =>
      rw [call_quiet hop hcalled, Option.some.injEq] at hcall
      rw [hcalled, if_neg Bool.false_ne_true] at heffect
      subst hcall
      exact h.update rfl (fun _ _ => rfl) hplain (heffect ▸ (h fd).2)
    | true =>
      by_cases hok : ok fd
      · obtain ⟨p, hp, hothers, -, hslot⟩ := hP.call_called h hok hop hcalled
        rw [hcall, Option.some.injEq] at hp
        subst hp
        exact h.update rfl hothers hplain hslot
      · rw [hP.call_outside h hok hop hcalled] at hcall
        cases hcall

theorem Keeps.behaves_remove_iff (hP : Keeps P held ok clears Slot) (h : Kept held Slot s)
    (hnone : (s.dispatch fd).isNoneEvent = true) :
    Behaves P held s (fd, .removeEvents) ↔
      (held s.poller fd).known = true ∧ clears (s.dispatch fd) := by
  cases hknown : (held s.poller fd).known with
  | false =>
    refine ⟨fun ⟨s', hs', _⟩ => ?_, fun hfalse => by cases hfalse.1⟩
    rw [hP.call_unknown hknown] at hs'
    cases hs'
  | true =>
    obtain ⟨p, hp, hothers, -, hclears⟩ := hP.call_remove h hknown hnone
    refine ⟨fun ⟨s', hs', hclean⟩ => ⟨rfl, hclears.mp ?_⟩, fun hsuits => ⟨_, hp, ?_⟩⟩
    · rw [hp, Option.some.injEq] at hs'
      subst hs'
      exact hclean.removed rfl
    · refine ⟨fun g hg => ⟨rfl, hothers g hg⟩, nofun, fun _ => hclears.mpr hsuits.2,
        fun _ hunknown => ?_⟩
      rw [hknown] at hunknown
      cases hunknown

theorem Keeps.behaves_update_iff (hP : Keeps P held ok clears Slot) (h : Kept held Slot s)
    (hop : op ≠ .removeEvents) :
    Behaves P held s (fd, op) ↔ ((op.apply (s.dispatch fd)).2 = true → ok fd) := by
  have hothers (g : Fd) (hg : g ≠ fd) :
      Function.update s.dispatch fd (op.apply (s.dispatch fd)).1 g = s.dispatch g :=
    Function.update_of_ne hg _ _
  have hremove {p : Prop} (heq : op = .removeEvents) : p := absurd heq hop
  cases hcalled : (op.apply (s.dispatch fd)).2 with
  | false =>
    refine ⟨nofun, fun _ => ⟨_, call_quiet hop hcalled, fun g hg => ⟨hothers g hg, rfl⟩, ?_,
      hremove, hremove⟩⟩
    -- enabling an event always reaches the poller
    rintro (rfl | rfl) <;> cases hcalled
  | true =>
    by_cases hok : ok fd
    · obtain ⟨p, hp, hheld, hknown, -⟩ := hP.call_called h hok hop hcalled
      exact ⟨fun _ _ => hok, fun _ => ⟨_, hp, fun g hg => ⟨hothers g hg, hheld g hg⟩,
        fun _ => hknown, hremove, hremove⟩⟩
    · refine ⟨fun ⟨s', hs', _⟩ => ?_, fun hsuits => absurd (hsuits rfl) hok⟩
      rw [hP.call_outside h hok hop hcalled] at hs'
      cases hs'

theorem Keeps.behaves_iff (hP : Keeps P held ok clears Slot) (h : Kept held Slot s)
    (hallowed : Allowed s (fd, op)) :
    Behaves P held s (fd, op) ↔ Suits held ok clears s (fd, op) := by
  by_cases hop : op = .removeEvents
  · subst hop
    rw [Suits, if_pos rfl]
    exact hP.behaves_remove_iff h (hallowed rfl)
  · rw [Suits, if_neg hop]
    exact hP.behaves_update_iff h hop

/-- Every run of calls. -/
theorem Keeps.everyCall_iff (hP : Keeps P held ok clears Slot) (calls : List (Fd × Op)) :
    EveryCall P (Behaves P held) calls ↔ EveryCall P (Suits held ok clears) calls := by
  constructor
  · apply EveryCallFrom.imp (Kept held Slot) (fun _ _ _ h _ hcall => hP.kept_call h hcall) _
      hP.kept_init
    exact fun s c h hallowed => (hP.behaves_iff h hallowed).mp
  · apply EveryCallFrom.imp (Kept held Slot) (fun _ _ _ h _ hcall => hP.kept_call h hcall) _
      hP.kept_init
    exact fun s c h hallowed => (hP.behaves_iff h hallowed).mpr

end Keeps

end EventPoller

open EventPoller

namespace EventSelect

structure Bits where
  readable : Bool
  writable : Bool
  worker : Bool
deriving DecidableEq

def held (s : EventSelect) (fd : Fd) : Registration Bits :=
  ⟨s.dispatchMap fd, s.index fd, s.readfds fd, s.writefds fd, decide (fd ∈ s.workerMap)⟩

structure Holds (i : Interest) (r : Registration Bits) : Prop where
  numbered : (r.index = -1 ∧ r.known = false) ∨ (r.index = 0 ∧ r.known = true)
  entry : r.entry = ⟨i.reading, i.writing, i.reading || i.writing⟩

theorem keeps : Keeps poller held (fun fd => fd < fdSetSize) (fun _ => True) Holds where
  init := fun _ => ⟨.inl ⟨rfl, rfl⟩, by simp [held, poller, Interest.none]⟩
  update := by
    intro s fd d i hfd hholds hplain hchange
    obtain ⟨hnumbered, hentry⟩ := hholds
    obtain ⟨hread, hwrite, -⟩ := Bits.mk.inj hentry
    refine ⟨_, updateDispatch_eq hfd hread hwrite hnumbered hchange, fun g hg => ?_, ?_, ?_⟩
    · simp only [held, mem_workerMap_updateWorkers, if_neg hg]
      simp [updateWorkers, hg]
    · simp [held, updateWorkers]
    · refine ⟨.inr ⟨?_, ?_⟩, ?_⟩
      · simp [held, updateWorkers]
      · simp [held, updateWorkers]
      · simp only [held, mem_workerMap_updateWorkers, hplain.isNoneEvent]
        simp [updateWorkers, interest]
  outside := by
    intro s fd d i hfd hchange
    have hmodify : s.modifyFds fd d.modify = none := by
      cases hm : d.modify <;> simp [modifyFds, fdAssign, hfd]
      rw [hm] at hchange
      cases hchange
    show s.updateDispatch fd d = none
    rw [updateDispatch, hmodify, Option.bind_none]
  remove := by
    intro s fd d hholds hknown hplain hnone
    have hentry := hholds.entry
    obtain ⟨hread, hwrite⟩ := hplain.isNoneEvent_iff.mp hnone
    rw [hread, hwrite] at hentry
    obtain ⟨hreadfds, hwritefds, hworker⟩ := Bits.mk.inj hentry
    refine ⟨_, if_pos ⟨hknown, hnone⟩, fun g hg => by simp [held, hg], ⟨.inl ?_, ?_⟩, ?_⟩
    · simp [held]
    · rw [hread, hwrite]
      exact hentry
    · simp [held, poller, hreadfds, hwritefds, of_decide_eq_false hworker]
  unknown := by
    intro s fd d hknown
    have hmap : s.dispatchMap fd = false := hknown
    simp [poller, removeDispatch, hmap]

end EventSelect

namespace EventEpoll

def held (s : EventEpoll) (fd : Fd) : Registration (Option Mask) :=
  ⟨s.dispatchMap fd, s.index fd, s.epollSet fd⟩

def Holds (i : Interest) (r : Registration (Option Mask)) : Prop :=
  Slot .fresh r.known r.index r.entry ∨ Slot (.live i) r.known r.index r.entry

theorem keeps : Keeps poller held (fun _ => True) (fun _ => True) Holds where
  init := fun _ => .inl ⟨rfl, rfl, rfl⟩
  update := by
    intro s fd d i _ hholds hplain _
    have hevents : d.events = mask (interest d).reading (interest d).writing :=
      hplain.events_interest
    obtain ⟨hmap, hindex, hset⟩ | ⟨hmap, ⟨hindex, hset⟩ | ⟨hindex, hset, -, -⟩⟩ := hholds
    · refine ⟨_, updateDispatch_kNew hindex hmap hset, fun g hg => by simp [held, hg], ?_,
        .inr ⟨?_, .inl ⟨?_, ?_⟩⟩⟩ <;> simp [held, hevents]
    · cases hnone : d.isNoneEvent with
      | true =>
        refine ⟨_, (updateDispatch_kAdded hindex hmap hset).trans (if_pos hnone),
          fun g hg => by simp [held, hg], hmap, .inr ⟨hmap, .inr ⟨?_, ?_, ?_⟩⟩⟩
        · simp [held]
        · simp [held]
        · exact hplain.isNoneEvent_iff.mp hnone
      | false =>
        refine ⟨_, (updateDispatch_kAdded hindex hmap hset).trans (if_neg (by simp [hnone])),
          fun g hg => by simp [held, hg], hmap, .inr ⟨hmap, .inl ⟨hindex, ?_⟩⟩⟩
        simp [held, hevents]
    · refine ⟨_, updateDispatch_kDeleted hindex hmap hset, fun g hg => by simp [held, hg], hmap,
        .inr ⟨hmap, .inl ⟨?_, ?_⟩⟩⟩ <;> simp [held, hevents]
  outside := fun hok _ => absurd trivial hok
  remove := by
    intro s fd d hholds hknown hplain hnone
    obtain ⟨hmap, -, -⟩ | hlive := hholds
    · rw [hmap] at hknown
      cases hknown
    · refine ⟨_, removeDispatch_live hlive hnone, fun g hg => by simp [held, hg],
        .inl ⟨?_, ?_, ?_⟩, ?_⟩ <;> simp [held, poller]
  unknown := by
    intro s fd d hknown
    have hmap : s.dispatchMap fd = false := hknown
    simp [poller, removeDispatch, hmap]

end EventEpoll

namespace EventKqueue

def held (s : EventKqueue) (fd : Fd) : Registration (Filter → Option Bool) :=
  ⟨s.dispatchMap fd, s.index fd, s.knotes fd⟩

structure Holds (i : Interest) (r : Registration (Filter → Option Bool)) : Prop where
  numbered : (r.index = -1 ∧ r.known = false) ∨ (r.index = 0 ∧ r.known = true)
  entry : Notes i r.entry

/-- `DisableWrite` leaves a filter in the queue, which nothing but `DisableAll` takes
back. -/
theorem keeps : Keeps poller held (fun _ => True) (fun d => d.addWrite = false) Holds where
  init := fun _ => ⟨.inl ⟨rfl, rfl⟩, rfl, rfl⟩
  update := by
    intro s fd d i _ hholds hplain hchange
    obtain ⟨hnumbered, hnotes⟩ := hholds
    obtain ⟨changes, hchanges, hnotes'⟩ := hnotes.changed hchange
    refine ⟨_, updateDispatch_of_changelist hchanges hnumbered, fun g hg => by simp [held, hg],
      ?_, .inr ⟨?_, ?_⟩, ?_⟩
    · simp [held]
    · simp [held]
    · simp [held]
    · simpa [held] using hnotes'
  outside := fun hok _ => absurd trivial hok
  remove := by
    intro s fd d hholds hknown hplain hnone
    obtain ⟨hread, hwrite⟩ := hplain.isNoneEvent_iff.mp hnone
    have hnotes : Notes (interest d) (s.knotes fd) := hholds.entry
    refine ⟨_, if_pos ⟨hknown, hnone⟩, fun g hg => by simp [held, hg], ⟨.inl ?_, hnotes⟩, ?_⟩
    · simp [held]
    · have hnone : s.knotes fd = (fun _ => none) ↔ d.addWrite = false := by
        have hadd := hnotes.write
        constructor
        · intro hempty
          rw [hempty] at hadd
          cases hd : d.addWrite with
          | false => rfl
          | true => simp [interest, hd] at hadd
        · intro hd
          funext filter
          cases filter with
          | evfiltRead => rw [hnotes.read, hread]; rfl
          | evfiltWrite => rw [hadd]; simp [interest, hd]
      rw [← hnone]
      simp [held, poller]
  unknown := by
    intro s fd d hknown
    have hmap : s.dispatchMap fd = false := hknown
    simp [poller, removeDispatch, hmap]

end EventKqueue

end Voyager
