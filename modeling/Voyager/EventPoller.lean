import Voyager.Dispatch
import Voyager.Lib.Runs
import Mathlib.Logic.Function.Basic

/-!
The calls a loop's Dispatches make and the poller behind them. A poller is the
two virtual functions of core/event_poller.h with the interest its kernel object
holds afterwards, and a failed assertion ends the run. Dispatches have distinct
descriptors, so a Dispatch is named by its own. What every poller can rely on is
said once, by `Change`; a poller that keeps an invariant under such changes
follows every run of calls.
-/
namespace Voyager

/-- A descriptor: a non-negative `int`. -/
abbrev Fd := ℕ

namespace EventPoller

open Lib.Runs

inductive Op
  | enableRead
  | enableWrite
  | disableRead
  | disableWrite
  | disableAll
  | removeEvents
deriving DecidableEq, Repr

/-- What a call leaves in the Dispatch, and whether it ends in `UpdateEvents`. -/
def Op.apply (d : Dispatch) : Op → Dispatch × Bool
  | .enableRead => (d.enableRead, true)
  | .enableWrite => (d.enableWrite, true)
  | .disableRead => (d.disableRead, true)
  | .disableWrite => d.disableWrite
  | .disableAll => d.disableAll
  | .removeEvents => (d, false)

end EventPoller

/-- `none` is a failed assertion. `index_` of a Dispatch is kept with the poller,
the only one to read it. -/
structure EventPoller (σ : Type) where
  init : σ
  updateDispatch : σ → Fd → Dispatch → Option σ
  removeDispatch : σ → Fd → Dispatch → Option σ
  readInterest : σ → Fd → Bool
  writeInterest : σ → Fd → Bool

namespace EventPoller

open Lib.Runs

variable {σ : Type}

/-- The Dispatches of a loop and its poller. -/
structure Loop (σ : Type) where
  dispatch : Fd → Dispatch
  poller : σ

def call (P : EventPoller σ) (s : Loop σ) (fd : Fd) (op : Op) : Option (Loop σ) :=
  let d := s.dispatch fd
  if op = .removeEvents then
    if d.isNoneEvent then
      (P.removeDispatch s.poller fd d).map fun poller => { s with poller := poller }
    else none
  else
    let dispatch := Function.update s.dispatch fd (op.apply d).1
    if (op.apply d).2 then
      (P.updateDispatch s.poller fd (op.apply d).1).map fun poller => ⟨dispatch, poller⟩
    else some ⟨dispatch, s.poller⟩

def machine (P : EventPoller σ) : Machine (Loop σ) (Fd × Op) where
  init := ⟨fun _ => Dispatch.create, P.init⟩
  next s c := P.call s c.1 c.2

/-! How Dispatches are used. -/

/-- `disabled` is `used` with `DisableAll` as the last call. -/
inductive Phase
  | fresh
  | used
  | disabled
  | removed
deriving DecidableEq, Repr

/-- The first call enables something, `RemoveEvents` follows a `DisableAll` and is
the last one. -/
def Phase.next : Phase → Op → Option Phase
  | .fresh, .enableRead => some .used
  | .fresh, .enableWrite => some .used
  | .fresh, _ => none
  | .used, .disableAll => some .disabled
  | .used, .removeEvents => none
  | .used, _ => some .used
  | .disabled, .disableAll => some .disabled
  | .disabled, .removeEvents => some .removed
  | .disabled, _ => some .used
  | .removed, _ => none

structure Usage where
  phase : Fd → Phase
  dispatch : Fd → Dispatch

/-- The calls alone, with no poller behind them. -/
def usage : Machine Usage (Fd × Op) where
  init := ⟨fun _ => .fresh, fun _ => Dispatch.create⟩
  next t c := ((t.phase c.1).next c.2).map fun phase =>
    ⟨Function.update t.phase c.1 phase,
      Function.update t.dispatch c.1 (c.2.apply (t.dispatch c.1)).1⟩

/-! What a call asks of the poller. -/

/-- The state of a Dispatch as far as pollers are concerned. -/
structure Interest where
  reading : Bool
  writing : Bool
  addWrite : Bool
deriving DecidableEq, Repr

def Interest.none : Interest := ⟨false, false, false⟩

def interest (d : Dispatch) : Interest := ⟨d.isReading, d.isWriting, d.addWrite⟩

def mask (reading writing : Bool) : Mask :=
  (if reading then Dispatch.kReadEvent else 0#32) |||
    (if writing then Dispatch.kWriteEvent else 0#32)

/-- `events_` holds the read and the write bits and nothing else. -/
structure Plain (d : Dispatch) : Prop where
  events_eq : d.events = mask d.isReading d.isWriting
  wf : d.Wf

/-- How `UpdateEvents` finds the state before the call, `modify_` and the state
after it. -/
inductive Change : Interest → ModifyEvent → Interest → Prop
  | addRead {r w a} : Change ⟨r, w, a⟩ .kAddRead ⟨true, w, a⟩
  | addWrite {r} : Change ⟨r, false, false⟩ .kAddWrite ⟨r, true, true⟩
  | deleteRead {r w a} : Change ⟨r, w, a⟩ .kDeleteRead ⟨false, w, a⟩
  | deleteWrite {w} : Change ⟨false, w, true⟩ .kDeleteWrite ⟨false, false, false⟩
  | enableWrite {r w} : Change ⟨r, w, true⟩ .kEnableWrite ⟨r, true, true⟩
  | disableWrite {r w} : Change ⟨r, w, true⟩ .kDisableWrite ⟨r, false, true⟩
  | deleteAll {w} : Change ⟨true, w, true⟩ .kDeleteAll ⟨false, false, false⟩

theorem has_mask_read (r w : Bool) : Mask.has (mask r w) Dispatch.kReadEvent = r := by
  cases r <;> cases w <;> decide

theorem has_mask_write (r w : Bool) : Mask.has (mask r w) Dispatch.kWriteEvent = w := by
  cases r <;> cases w <;> decide

theorem isReading_of_events_eq {d : Dispatch} {r w : Bool} (h : d.events = mask r w) :
    d.isReading = r := by
  rw [Dispatch.isReading, h, has_mask_read]

theorem isWriting_of_events_eq {d : Dispatch} {r w : Bool} (h : d.events = mask r w) :
    d.isWriting = w := by
  rw [Dispatch.isWriting, h, has_mask_write]

theorem plain_of_events_eq {d : Dispatch} {r w : Bool} (h : d.events = mask r w)
    (hadd : w = true → d.addWrite = true) : Plain d := by
  refine ⟨?_, ?_⟩
  · rw [isReading_of_events_eq h, isWriting_of_events_eq h, h]
  · intro hw
    rw [isWriting_of_events_eq h] at hw
    exact hadd hw

theorem interest_of_events_eq {d : Dispatch} {r w : Bool} (h : d.events = mask r w) :
    interest d = ⟨r, w, d.addWrite⟩ := by
  rw [interest, isReading_of_events_eq h, isWriting_of_events_eq h]

theorem plain_create : Plain Dispatch.create :=
  plain_of_events_eq (r := false) (w := false) rfl nofun

theorem Plain.isNoneEvent {d : Dispatch} (h : Plain d) :
    d.isNoneEvent = (!d.isReading && !d.isWriting) := by
  rw [Dispatch.isNoneEvent, h.events_eq]
  cases d.isReading <;> cases d.isWriting <;> decide

theorem Plain.isNoneEvent_iff {d : Dispatch} (h : Plain d) :
    d.isNoneEvent = true ↔ (interest d).reading = false ∧ (interest d).writing = false := by
  rw [h.isNoneEvent, Bool.and_eq_true, Bool.not_eq_true', Bool.not_eq_true']
  rfl

theorem Plain.isNoneEvent_of_idle {d : Dispatch} (h : Plain d)
    (hidle : interest d = Interest.none) : d.isNoneEvent = true := by
  rw [h.isNoneEvent_iff, hidle]
  exact ⟨rfl, rfl⟩

theorem Plain.events_interest {d : Dispatch} (h : Plain d) :
    d.events = mask (interest d).reading (interest d).writing := h.events_eq

theorem mask_enableRead (r w : Bool) : mask r w ||| Dispatch.kReadEvent = mask true w := by
  cases r <;> cases w <;> decide

theorem mask_enableWrite (r w : Bool) : mask r w ||| Dispatch.kWriteEvent = mask r true := by
  cases r <;> cases w <;> decide

theorem mask_disableRead (r w : Bool) : mask r w &&& ~~~Dispatch.kReadEvent = mask false w := by
  cases r <;> cases w <;> decide

theorem mask_disableWrite (r w : Bool) : mask r w &&& ~~~Dispatch.kWriteEvent = mask r false := by
  cases r <;> cases w <;> decide

/-- What one call does to a Dispatch: the poller is told of a `Change`, or nothing
that matters to it has changed. -/
def Effect (d : Dispatch) (result : Dispatch × Bool) : Prop :=
  Plain result.1 ∧
    if result.2 then Change (interest d) result.1.modify (interest result.1)
    else interest result.1 = interest d

section Effect

variable {d : Dispatch}

theorem effect_enableRead (h : Plain d) : Effect d (d.enableRead, true) := by
  have hevents : d.enableRead.events = mask true d.isWriting := by
    rw [← mask_enableRead d.isReading, ← h.events_eq]
    rfl
  refine ⟨plain_of_events_eq hevents h.wf, ?_⟩
  rw [if_pos rfl, interest_of_events_eq hevents]
  exact Change.addRead

theorem effect_disableRead (h : Plain d) : Effect d (d.disableRead, true) := by
  have hevents : d.disableRead.events = mask false d.isWriting := by
    rw [← mask_disableRead d.isReading, ← h.events_eq]
    rfl
  refine ⟨plain_of_events_eq hevents h.wf, ?_⟩
  rw [if_pos rfl, interest_of_events_eq hevents]
  exact Change.deleteRead

theorem effect_enableWrite (h : Plain d) : Effect d (d.enableWrite, true) := by
  have hevents : d.enableWrite.events = mask d.isReading true := by
    rw [← mask_enableWrite d.isReading d.isWriting, ← h.events_eq]
    cases hadd : d.addWrite <;> simp [Dispatch.enableWrite, hadd]
  refine ⟨plain_of_events_eq hevents fun _ => d.addWrite_enableWrite, ?_⟩
  rw [if_pos rfl, interest_of_events_eq hevents, Dispatch.addWrite_enableWrite]
  -- `add_write_` says whether the write event was ever added
  cases hadd : d.addWrite with
  | false =>
    have hmodify : d.enableWrite.modify = .kAddWrite := by simp [Dispatch.enableWrite, hadd]
    rw [hmodify, interest, h.wf.not_isWriting hadd, hadd]
    exact Change.addWrite
  | true =>
    have hmodify : d.enableWrite.modify = .kEnableWrite := by simp [Dispatch.enableWrite, hadd]
    rw [hmodify, interest, hadd]
    exact Change.enableWrite

theorem effect_disableWrite (h : Plain d) : Effect d d.disableWrite := by
  unfold Dispatch.disableWrite
  split
  · rename_i hadd
    have hevents : d.events &&& ~~~Dispatch.kWriteEvent = mask d.isReading false := by
      rw [← mask_disableWrite d.isReading d.isWriting, ← h.events_eq]
    refine ⟨plain_of_events_eq hevents nofun, ?_⟩
    rw [if_pos rfl, interest_of_events_eq (d := { d with events := _, modify := _ }) hevents,
      interest, hadd]
    exact Change.disableWrite
  · exact ⟨h, rfl⟩

/-- The branches of `DisableAll`, by what is left to take back. -/
theorem disableAll_cases (h : Plain d) :
    (∃ m, Change (interest d) m Interest.none ∧
      d.disableAll =
        ({ d with modify := m, addWrite := false, events := Dispatch.kNoneEvent }, true)) ∨
    (interest d = Interest.none ∧ d.disableAll = ({ d with modify := .kNoModify }, false)) := by
  unfold Dispatch.disableAll interest
  cases hadd : d.addWrite with
  | true =>
    cases hread : d.isReading with
    | true => exact .inl ⟨_, Change.deleteAll, rfl⟩
    | false => exact .inl ⟨_, Change.deleteWrite, rfl⟩
  | false =>
    rw [h.wf.not_isWriting hadd]
    cases hread : d.isReading with
    | true => exact .inl ⟨_, Change.deleteRead, rfl⟩
    | false => exact .inr ⟨rfl, by simp⟩

theorem interest_cleared (m : ModifyEvent) :
    interest { d with modify := m, addWrite := false, events := Dispatch.kNoneEvent } =
      Interest.none :=
  interest_of_events_eq (r := false) (w := false) rfl

theorem effect_disableAll (h : Plain d) : Effect d d.disableAll := by
  obtain ⟨m, hchange, heq⟩ | ⟨-, heq⟩ := disableAll_cases h
  · rw [heq]
    refine ⟨plain_of_events_eq (r := false) (w := false) rfl nofun, ?_⟩
    rw [if_pos rfl, interest_cleared]
    exact hchange
  · rw [heq]
    exact ⟨⟨h.events_eq, h.wf⟩, rfl⟩

/-- After `DisableAll` nothing is left, whichever branch it took. -/
theorem interest_disableAll (h : Plain d) : interest d.disableAll.1 = Interest.none := by
  obtain ⟨m, -, heq⟩ | ⟨hnone, heq⟩ := disableAll_cases h
  · rw [heq, interest_cleared]
  · rw [heq, ← hnone]
    rfl

theorem effect_apply (h : Plain d) (op : Op) : Effect d (op.apply d) := by
  cases op with
  | enableRead => exact effect_enableRead h
  | enableWrite => exact effect_enableWrite h
  | disableRead => exact effect_disableRead h
  | disableWrite => exact effect_disableWrite h
  | disableAll => exact effect_disableAll h
  | removeEvents => exact ⟨h, rfl⟩

end Effect

/-! A poller and the calls. -/

/-- What a poller has to know of a descriptor. -/
inductive Reg
  | fresh
  | live (i : Interest)
  | removed
deriving DecidableEq, Repr

def Reg.interest : Reg → Interest
  | .live i => i
  | _ => Interest.none

def Reg.of (phase : Phase) (d : Dispatch) : Reg :=
  match phase with
  | .fresh => .fresh
  | .removed => .removed
  | _ => .live (EventPoller.interest d)

def Usage.reg (t : Usage) (fd : Fd) : Reg := Reg.of (t.phase fd) (t.dispatch fd)

/-- An invariant that `P` keeps under every change, for the descriptors in `ok`,
and from which the interest in the kernel can be read off. -/
structure Tracks (P : EventPoller σ) (ok : Fd → Prop) (Inv : (Fd → Reg) → σ → Prop) : Prop where
  init : Inv (fun _ => .fresh) P.init
  add : ∀ {reg s fd d}, Inv reg s → ok fd → reg fd = .fresh → Plain d →
    Change Interest.none d.modify (interest d) → d.isNoneEvent = false →
    ∃ s', P.updateDispatch s fd d = some s' ∧
      Inv (Function.update reg fd (.live (interest d))) s'
  change : ∀ {reg s fd d i}, Inv reg s → ok fd → reg fd = .live i → Plain d →
    Change i d.modify (interest d) →
    ∃ s', P.updateDispatch s fd d = some s' ∧
      Inv (Function.update reg fd (.live (interest d))) s'
  remove : ∀ {reg s fd d}, Inv reg s → ok fd → reg fd = .live Interest.none → Plain d →
    interest d = Interest.none →
    ∃ s', P.removeDispatch s fd d = some s' ∧ Inv (Function.update reg fd .removed) s'
  readInterest : ∀ {reg s} fd, Inv reg s → P.readInterest s fd = (reg fd).interest.reading
  writeInterest : ∀ {reg s} fd, Inv reg s → P.writeInterest s fd = (reg fd).interest.writing

structure Usage.Ok (t : Usage) : Prop where
  plain : ∀ fd, Plain (t.dispatch fd)
  idle : ∀ fd, t.phase fd ≠ .used → EventPoller.interest (t.dispatch fd) = Interest.none

theorem Phase.next_cases {p q : Phase} {op : Op} (h : p.next op = some q) :
    (p = .fresh ∧ q = .used ∧ (op = .enableRead ∨ op = .enableWrite)) ∨
    ((p = .used ∨ p = .disabled) ∧ op ≠ .removeEvents ∧
      ((op = .disableAll ∧ q = .disabled) ∨ q = .used)) ∨
    (p = .disabled ∧ op = .removeEvents ∧ q = .removed) := by
  cases p <;> cases op <;> simp [Phase.next] at h <;> simp [← h]

theorem usage_next {t t' : Usage} {fd : Fd} {op : Op} (h : usage.next t (fd, op) = some t') :
    ∃ q, (t.phase fd).next op = some q ∧
      t' = ⟨Function.update t.phase fd q,
        Function.update t.dispatch fd (op.apply (t.dispatch fd)).1⟩ := by
  obtain ⟨q, hq, ht'⟩ := Option.map_eq_some_iff.mp h
  exact ⟨q, hq, ht'.symm⟩

theorem Usage.ok_init : usage.init.Ok :=
  ⟨fun _ => plain_create, fun _ _ => interest_of_events_eq (r := false) (w := false) rfl⟩

theorem Usage.Ok.step {t t' : Usage} {c : Fd × Op} (h : t.Ok)
    (hnext : usage.next t c = some t') : t'.Ok := by
  obtain ⟨fd, op⟩ := c
  obtain ⟨q, hq, rfl⟩ := usage_next hnext
  refine ⟨fun g => ?_, fun g hg => ?_⟩
  · by_cases hgf : g = fd
    · subst hgf
      simpa using (effect_apply (h.plain g) op).1
    · simpa [hgf] using h.plain g
  · by_cases hgf : g = fd
    · subst hgf
      simp only [Function.update_self] at hg ⊢
      obtain ⟨-, rfl, -⟩ | ⟨-, -, ⟨rfl, rfl⟩ | rfl⟩ | ⟨hp, rfl, rfl⟩ := Phase.next_cases hq
      · exact absurd rfl hg
      · exact interest_disableAll (h.plain g)
      · exact absurd rfl hg
      · exact h.idle g (by simp [hp])
    · simp only [Function.update_of_ne hgf] at hg ⊢
      exact h.idle g hg

theorem Usage.reg_update (t : Usage) (fd : Fd) (q : Phase) (d : Dispatch) :
    Usage.reg ⟨Function.update t.phase fd q, Function.update t.dispatch fd d⟩ =
      Function.update t.reg fd (Reg.of q d) := by
  funext g
  by_cases hgf : g = fd
  · subst hgf
    simp [Usage.reg]
  · simp [Usage.reg, hgf]

theorem call_removeEvents {P : EventPoller σ} {s : Loop σ} {fd : Fd} {p : σ}
    (hnone : (s.dispatch fd).isNoneEvent = true)
    (hremove : P.removeDispatch s.poller fd (s.dispatch fd) = some p) :
    P.call s fd .removeEvents = some { s with poller := p } := by
  simp [call, hnone, hremove]

theorem call_update {P : EventPoller σ} {s : Loop σ} {fd : Fd} {op : Op} {p : σ}
    (hop : op ≠ .removeEvents) (hcalled : (op.apply (s.dispatch fd)).2 = true)
    (hupdate : P.updateDispatch s.poller fd (op.apply (s.dispatch fd)).1 = some p) :
    P.call s fd op =
      some ⟨Function.update s.dispatch fd (op.apply (s.dispatch fd)).1, p⟩ := by
  simp [call, hop, hcalled, hupdate]

theorem call_quiet {P : EventPoller σ} {s : Loop σ} {fd : Fd} {op : Op}
    (hop : op ≠ .removeEvents) (hcalled : (op.apply (s.dispatch fd)).2 = false) :
    P.call s fd op =
      some ⟨Function.update s.dispatch fd (op.apply (s.dispatch fd)).1, s.poller⟩ := by
  simp [call, hop, hcalled]

section Tracks

variable {P : EventPoller σ} {ok : Fd → Prop} {Inv : (Fd → Reg) → σ → Prop}

/-- The Dispatches of `s` are those of `t`, and its poller follows them. -/
structure Follows (Inv : (Fd → Reg) → σ → Prop) (t : Usage) (s : Loop σ) : Prop where
  ok : t.Ok
  dispatch : s.dispatch = t.dispatch
  inv : Inv t.reg s.poller

theorem Tracks.call_first (hP : Tracks P ok Inv) {t : Usage} {s : Loop σ} {fd : Fd} {op : Op}
    (h : Follows Inv t s) (hok : ok fd) (hphase : t.phase fd = .fresh)
    (hop : op = .enableRead ∨ op = .enableWrite) :
    ∃ p, P.call s fd op =
        some ⟨Function.update s.dispatch fd (op.apply (s.dispatch fd)).1, p⟩ ∧
      Inv (Function.update t.reg fd (.live (interest (op.apply (t.dispatch fd)).1))) p := by
  have hidle : interest (t.dispatch fd) = Interest.none := h.ok.idle fd (by simp [hphase])
  have hcalled : (op.apply (t.dispatch fd)).2 = true := by
    rcases hop with rfl | rfl <;> rfl
  obtain ⟨hplain, heffect⟩ := effect_apply (h.ok.plain fd) op
  rw [if_pos hcalled, hidle] at heffect
  have hsome : (op.apply (t.dispatch fd)).1.isNoneEvent = false := by
    rw [hplain.isNoneEvent]
    rcases hop with rfl | rfl <;> simp [Op.apply]
  obtain ⟨p, hp, hinv⟩ := hP.add h.inv hok (by simp [Usage.reg, hphase, Reg.of]) hplain heffect
    hsome
  refine ⟨p, ?_, hinv⟩
  apply call_update
  · rcases hop with rfl | rfl <;> decide
  · rw [h.dispatch, hcalled]
  · rw [h.dispatch, hp]

theorem Tracks.call_live (hP : Tracks P ok Inv) {t : Usage} {s : Loop σ} {fd : Fd} {op : Op}
    (h : Follows Inv t s) (hok : ok fd) (hphase : t.phase fd = .used ∨ t.phase fd = .disabled)
    (hop : op ≠ .removeEvents) :
    ∃ p, P.call s fd op =
        some ⟨Function.update s.dispatch fd (op.apply (s.dispatch fd)).1, p⟩ ∧
      Inv (Function.update t.reg fd (.live (interest (op.apply (t.dispatch fd)).1))) p := by
  have hreg : t.reg fd = .live (interest (t.dispatch fd)) := by
    rcases hphase with hphase | hphase <;> simp [Usage.reg, hphase, Reg.of]
  obtain ⟨hplain, heffect⟩ := effect_apply (h.ok.plain fd) op
  cases hcalled : (op.apply (t.dispatch fd)).2 with
  | true =>
    rw [if_pos hcalled] at heffect
    obtain ⟨p, hp, hinv⟩ := hP.change h.inv hok hreg hplain heffect
    refine ⟨p, ?_, hinv⟩
    apply call_update hop
    · rw [h.dispatch, hcalled]
    · rw [h.dispatch, hp]
  | false =>
    rw [hcalled, if_neg Bool.false_ne_true] at heffect
    refine ⟨s.poller, call_quiet hop (by rw [h.dispatch, hcalled]), ?_⟩
    rw [heffect, ← hreg, Function.update_eq_self]
    exact h.inv

theorem Tracks.call_remove (hP : Tracks P ok Inv) {t : Usage} {s : Loop σ} {fd : Fd}
    (h : Follows Inv t s) (hok : ok fd) (hphase : t.phase fd = .disabled) :
    ∃ p, P.call s fd .removeEvents = some { s with poller := p } ∧
      Inv (Function.update t.reg fd .removed) p := by
  have hidle : interest (t.dispatch fd) = Interest.none := h.ok.idle fd (by simp [hphase])
  have hreg : t.reg fd = .live Interest.none := by
    simp [Usage.reg, hphase, Reg.of, hidle]
  have hnone : (t.dispatch fd).isNoneEvent = true := (h.ok.plain fd).isNoneEvent_of_idle hidle
  obtain ⟨p, hp, hinv⟩ := hP.remove h.inv hok hreg (h.ok.plain fd) hidle
  refine ⟨p, ?_, hinv⟩
  rw [← h.dispatch] at hnone hp
  exact call_removeEvents hnone hp

/-- One call. -/
theorem Tracks.step (hP : Tracks P ok Inv) {t t' : Usage} {s : Loop σ} {c : Fd × Op}
    (hok : ok c.1) (h : Follows Inv t s) (hnext : usage.next t c = some t') :
    ∃ s', P.machine.next s c = some s' ∧ Follows Inv t' s' := by
  have hok' : t'.Ok := h.ok.step hnext
  obtain ⟨fd, op⟩ := c
  obtain ⟨q, hq, rfl⟩ := usage_next hnext
  obtain ⟨hp, rfl, hop⟩ | ⟨hp, hop, hq'⟩ | ⟨hp, rfl, rfl⟩ := Phase.next_cases hq
  · obtain ⟨p, hcall, hinv⟩ := hP.call_first h hok hp hop
    refine ⟨_, hcall, hok', by rw [h.dispatch], ?_⟩
    rw [Usage.reg_update]
    exact hinv
  · obtain ⟨p, hcall, hinv⟩ := hP.call_live h hok hp hop
    refine ⟨_, hcall, hok', by rw [h.dispatch], ?_⟩
    have hreg : Reg.of q (op.apply (t.dispatch fd)).1 =
        .live (interest (op.apply (t.dispatch fd)).1) := by
      rcases hq' with ⟨-, rfl⟩ | rfl <;> rfl
    rw [Usage.reg_update, hreg]
    exact hinv
  · obtain ⟨p, hcall, hinv⟩ := hP.call_remove h hok hp
    refine ⟨_, hcall, hok', ?_, ?_⟩
    · simp [h.dispatch, Op.apply]
    · rw [Usage.reg_update]
      exact hinv

theorem Usage.Ok.interest_reg {t : Usage} (h : t.Ok) (fd : Fd) :
    (t.reg fd).interest = EventPoller.interest (t.dispatch fd) := by
  cases hphase : t.phase fd with
  | fresh => simp [Usage.reg, hphase, Reg.of, Reg.interest, h.idle fd (by simp [hphase])]
  | removed => simp [Usage.reg, hphase, Reg.of, Reg.interest, h.idle fd (by simp [hphase])]
  | used => simp [Usage.reg, hphase, Reg.of, Reg.interest]
  | disabled => simp [Usage.reg, hphase, Reg.of, Reg.interest]

end Tracks

/-- The calls run on `P` with no failed assertion, the Dispatches end as they do in
`t`, and the kernel holds the interest they have. -/
def Agrees (P : EventPoller σ) (calls : List (Fd × Op)) (t : Usage) : Prop :=
  ∃ s, P.machine.run P.machine.init calls = some s ∧ s.dispatch = t.dispatch ∧
    ∀ fd,
      P.readInterest s.poller fd = (s.dispatch fd).isReading ∧
      P.writeInterest s.poller fd = (s.dispatch fd).isWriting ∧
      (t.phase fd = .removed →
        P.readInterest s.poller fd = false ∧ P.writeInterest s.poller fd = false)

/-- Every run of calls. -/
theorem Tracks.agrees {P : EventPoller σ} {ok : Fd → Prop} {Inv : (Fd → Reg) → σ → Prop}
    (hP : Tracks P ok Inv) {calls : List (Fd × Op)} {t : Usage}
    (hok : ∀ c ∈ calls, ok c.1) (hrun : usage.run usage.init calls = some t) :
    Agrees P calls t := by
  have hinit : Follows Inv usage.init P.machine.init := ⟨Usage.ok_init, rfl, hP.init⟩
  obtain ⟨s, hs, hfollows⟩ := Machine.run_simulates (R := Follows Inv)
    (fun _ _ _ _ hc h hnext => hP.step hc h hnext) hok hinit hrun
  refine ⟨s, hs, hfollows.dispatch, fun fd => ?_⟩
  have hread := hP.readInterest fd hfollows.inv
  have hwrite := hP.writeInterest fd hfollows.inv
  rw [hfollows.ok.interest_reg] at hread hwrite
  refine ⟨by rw [hread, hfollows.dispatch]; rfl, by rw [hwrite, hfollows.dispatch]; rfl, ?_⟩
  intro hremoved
  have hidle := hfollows.ok.idle fd (by simp [hremoved])
  rw [hread, hwrite, hidle]
  exact ⟨rfl, rfl⟩

end EventPoller

end Voyager
