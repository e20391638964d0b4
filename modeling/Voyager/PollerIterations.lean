import Voyager.PollerEvents

/-!
One iteration of the loop with each of the four pollers, after any calls of the
Dispatches. Whatever order the kernel reports in, the callbacks of a descriptor are
those that its interest and its readiness ask for, each called once, and the events
of the Dispatches are used up.
-/
namespace Voyager

namespace EventPoller

open Lib.Runs

/-- Reading and writing as the bits that `Poll` sets for them. -/
def inOut (reading writing : Bool) : Mask :=
  (if reading then pollIn else 0#32) ||| if writing then pollOut else 0#32

/-- A descriptor at which nothing but reading and writing is ready. -/
def readiness (readable writable : Fd → Bool) : Readiness :=
  fun fd => inOut (readable fd) (writable fd)

theorem callbacks_inOut (d : Dispatch) (r w : Bool) : (d.setRevents (inOut r w)).callbacks =
    (if r then [.read] else []) ++ if w then [.write] else [] := by
  have hbits : ((if Mask.has (inOut r w) pollHup && !Mask.has (inOut r w) pollIn then
      [EventCallback.close] else []) ++
      (if Mask.has (inOut r w) (pollErr ||| pollNval) then [.error] else []) ++
      (if Mask.has (inOut r w) (pollIn ||| pollPri ||| pollRdHup) then [.read] else []) ++
      if Mask.has (inOut r w) pollOut then [.write] else []) =
        (if r then [.read] else []) ++ if w then [.write] else [] := by
    cases r <;> cases w <;> decide
  exact hbits

theorem inOut_eq_zero_iff (r w : Bool) : inOut r w = 0#32 ↔ r = false ∧ w = false := by
  cases r <;> cases w <;> decide

theorem in_or_inOut (r w : Bool) : pollIn ||| inOut r w = inOut true w := by
  cases r <;> cases w <;> decide

theorem out_or_inOut (r w : Bool) : pollOut ||| inOut r w = inOut r true := by
  cases r <;> cases w <;> decide

/-- Bits that are set along with one of the two do not matter here. -/
theorem has_inOut (r w : Bool) :
    Mask.has (inOut r w) (pollIn ||| pollHup ||| pollErr) = r ∧
      Mask.has (inOut r w) (pollOut ||| pollErr) = w ∧
      Mask.has (inOut r w) (pollIn ||| pollHup) = r ∧
      Mask.has (inOut r w) (pollOut ||| pollHup) = w := by
  cases r <;> cases w <;> decide

theorem inOut_and_mask (r w reading writing : Bool) :
    inOut r w &&& (mask reading writing ||| pollErr ||| pollHup) =
      inOut (reading && r) (writing && w) := by
  cases r <;> cases w <;> cases reading <;> cases writing <;> decide

theorem inOut_and_mask_nval (r w reading writing : Bool) :
    inOut r w &&& (mask reading writing ||| pollErr ||| pollHup ||| pollNval) =
      inOut (reading && r) (writing && w) := by
  cases r <;> cases w <;> cases reading <;> cases writing <;> decide

end EventPoller

open EventPoller

namespace EventSelect

/-- What `Poll` of select finds. -/
def found (reg : Fd → Reg) (ready : Readiness) (fd : Fd) : Mask :=
  inOut ((reg fd).interest.reading && Mask.has (ready fd) (pollIn ||| pollHup ||| pollErr))
    ((reg fd).interest.writing && Mask.has (ready fd) (pollOut ||| pollErr))

variable {reg : Fd → Reg} {s : EventSelect} {ready : Readiness} {a : SelectAnswer}

theorem revents_eq (h : Inv reg s) (ha : Answers s ready a) (fd : Fd) :
    revents a fd = found reg ready fd := by
  obtain ⟨hread, hwrite⟩ := @Inv.select_interest reg s fd h
  simp only [revents, found, inOut, ha.read, ha.write, ha.except, hread, hwrite]
  simp

theorem poll_found (h : Inv reg s) (ha : Answers s ready a) {dispatch : Fd → Dispatch}
    (hquiet : Quiet dispatch) :
    ∃ r, poll s dispatch a = some r ∧ Found dispatch (found reg ready) r := by
  unfold poll
  split
  · rename_i hret
    have hzero : a.ret = 0 := hret.resolve_left (by have := ha.ret.1; omega)
    have hnone (fd : Fd) : found reg ready fd = 0#32 := by
      obtain ⟨hread, hwrite⟩ := ha.ret.2 hzero fd
      rw [← revents_eq h ha]
      simp [revents, hread, hwrite, ha.except]
    refine ⟨_, rfl, ?_, fun fd hfd => absurd (hnone fd) hfd⟩
    funext fd
    rw [hnone, setRevents_zero (hquiet fd)]
  · refine ⟨_, rfl, found_report hquiet (fun e he => ?_) fun fd hfd => ?_⟩
    · obtain ⟨hmem, -⟩ := List.mem_filter.mp he
      obtain ⟨fd, -, rfl⟩ := List.mem_map.mp hmem
      exact revents_eq h ha fd
    · have hworker : fd ∈ s.workerMap := by
        rw [h.worker]
        by_contra hno
        rw [not_or, Bool.not_eq_true, Bool.not_eq_true] at hno
        exact hfd (by simp [found, hno.1, hno.2, inOut_eq_zero_iff])
      refine List.mem_map.mpr ⟨(fd, revents a fd), List.mem_filter.mpr ⟨?_, ?_⟩, rfl⟩
      · exact List.mem_map.mpr ⟨fd, (Finset.mem_sort _).mpr hworker, rfl⟩
      · simpa [revents_eq h ha] using hfd

theorem found_readiness (reg : Fd → Reg) (readable writable : Fd → Bool) (fd : Fd) :
    found reg (readiness readable writable) fd =
      inOut ((reg fd).interest.reading && readable fd)
        ((reg fd).interest.writing && writable fd) := by
  obtain ⟨hread, hwrite, -, -⟩ := has_inOut (readable fd) (writable fd)
  rw [found, readiness, hread, hwrite]

end EventSelect

namespace EventEpoll

variable {reg : Fd → Reg} {s : EventEpoll} {ready : Readiness} {events : List (Fd × Mask)}
  {size : ℕ}

theorem poll_found (ha : Answers size s ready events) (hroom : events.length < size)
    {dispatch : Fd → Dispatch} (hquiet : Quiet dispatch) :
    ∃ r, poll s dispatch events = some r ∧ Found dispatch (s.kernelEvents ready) r :=
  ⟨_, rfl, found_report hquiet (fun e he => (ha.each e he).1) (ha.whole hroom)⟩

/-- An entry with an empty interest does no harm: it would report errors only. -/
theorem kernelEvents_readiness (h : Inv reg s) (readable writable : Fd → Bool) (fd : Fd) :
    s.kernelEvents (readiness readable writable) fd =
      inOut ((reg fd).interest.reading && readable fd)
        ((reg fd).interest.writing && writable fd) := by
  unfold kernelEvents readiness
  rcases (h fd).entry_eq with ⟨hentry, hread, hwrite⟩ | hentry
  · rw [hentry, hread, hwrite]
    simp [inOut]
  · rw [hentry]
    exact inOut_and_mask _ _ _ _

theorem kernelEvents_of_interest (h : Inv reg s) {fd : Fd}
    (hsome : (reg fd).interest.reading = true ∨ (reg fd).interest.writing = true) :
    s.kernelEvents ready fd =
      ready fd &&& (mask (reg fd).interest.reading (reg fd).interest.writing |||
        pollErr ||| pollHup) := by
  unfold kernelEvents
  rcases (h fd).entry_eq with ⟨-, hread, hwrite⟩ | hentry
  · rw [hread, hwrite] at hsome
    simp at hsome
  · rw [hentry]

end EventEpoll

namespace EventPoll

variable {reg : Fd → Reg} {s : EventPoll} {ready : Readiness} {a : PollAnswer}

/-! Masks that fit into a `short` without its sign. -/

theorem toInt_and {mask : Mask} {bits : BitVec 16} (hbits : bits.msb = false) :
    toInt (toShort mask &&& bits) = mask &&& toInt bits := by
  have hand : (toShort mask &&& bits).msb = false := by rw [BitVec.msb_and, hbits, Bool.and_false]
  rw [toInt, toInt, BitVec.signExtend_eq_setWidth_of_msb_false hand,
    BitVec.signExtend_eq_setWidth_of_msb_false hbits]
  ext i hi
  by_cases hlow : i < 16
  · simp [toShort, BitVec.getElem_setWidth, BitVec.getLsbD_eq_getElem hi, hlow]
  · have hnone : bits.getLsbD i = false := BitVec.getLsbD_of_ge bits i (by omega)
    simp [toShort, BitVec.getElem_setWidth, hnone]

theorem pos_and {x bits : BitVec 16} (hbits : bits.msb = false) :
    0 < (x &&& bits).toInt ↔ x &&& bits ≠ 0#16 := by
  have hand : (x &&& bits).msb = false := by rw [BitVec.msb_and, hbits, Bool.and_false]
  rw [BitVec.toInt_eq_toNat_of_msb hand, ne_eq, ← BitVec.toNat_inj]
  simp only [BitVec.toNat_ofNat]
  omega

/-- The bits that poll(2) may set in an entry. -/
def bits (r w : Bool) : BitVec 16 :=
  toShort (mask r w) ||| toShort (pollErr ||| pollHup ||| pollNval)

theorem toInt_eq_zero_iff (x : BitVec 16) : toInt x = 0#32 ↔ x = 0#16 := by
  constructor
  · intro hx
    have hint := congrArg BitVec.toInt hx
    rw [toInt, BitVec.toInt_signExtend_of_le (by omega)] at hint
    exact BitVec.eq_of_toInt_eq hint
  · rintro rfl
    rfl

theorem msb_bits (r w : Bool) : (bits r w).msb = false := by cases r <;> cases w <;> decide

theorem toInt_bits (r w : Bool) :
    toInt (bits r w) = mask r w ||| pollErr ||| pollHup ||| pollNval := by
  cases r <;> cases w <;> decide

/-- What `Poll` finds: an entry without interest is ignored. -/
def found (reg : Fd → Reg) (ready : Readiness) (fd : Fd) : Mask :=
  if (reg fd).interest.reading || (reg fd).interest.writing then
    ready fd &&& (mask (reg fd).interest.reading (reg fd).interest.writing |||
      pollErr ||| pollHup ||| pollNval)
  else 0#32

/-- The report about one entry. -/
def reported (ready : Readiness) (p : PollFd) : Option (Fd × Mask) :=
  if kernelRevents ready p = 0#16 then none
  else some (p.fd.toNat, toInt (kernelRevents ready p))

theorem kernelRevents_entry (fd : Fd) (i : Interest) :
    kernelRevents ready (entry fd i) =
      if i.reading || i.writing then toShort (ready fd) &&& bits i.reading i.writing else 0#16 := by
  unfold kernelRevents entry
  cases i.reading || i.writing with
  | true => simp [bits]
  | false =>
    have hneg : -(fd : Int) - 1 < 0 := by omega
    simp [hneg]

theorem pos_kernelRevents (fd : Fd) (i : Interest) :
    0 < (kernelRevents ready (entry fd i)).toInt ↔ kernelRevents ready (entry fd i) ≠ 0#16 := by
  rw [kernelRevents_entry]
  split
  · exact pos_and (msb_bits _ _)
  · simp

/-- The loop stops early only when nothing is left to report. -/
theorem pollLoop_eq {dispatchMap : Fd → Bool} {l : List PollFd}
    (hpos : ∀ p ∈ l, 0 < (kernelRevents ready p).toInt ↔ kernelRevents ready p ≠ 0#16)
    (hknown : ∀ p ∈ l, kernelRevents ready p ≠ 0#16 →
      0 ≤ p.fd ∧ dispatchMap p.fd.toNat = true) :
    pollLoop dispatchMap ((l.map (kernelRevents ready)).countP fun revents => revents ≠ 0#16)
      (l.zip (l.map (kernelRevents ready))) = some (l.filterMap (reported ready)) := by
  induction l with
  | nil => rfl
  | cons p rest ih =>
    have hrest := ih (fun q hq => hpos q (List.mem_cons_of_mem p hq))
      fun q hq => hknown q (List.mem_cons_of_mem p hq)
    simp only [List.map_cons, List.zip_cons_cons]
    by_cases hzero : kernelRevents ready p = 0#16
    · have hskip : ¬ 0 < (kernelRevents ready p).toInt := by
        rw [hpos p List.mem_cons_self]
        exact fun hne => hne hzero
      have hnone : reported ready p = none := if_pos hzero
      rw [List.countP_cons_of_neg (by simp [hzero]), List.filterMap_cons_none hnone, pollLoop,
        if_neg hskip, hrest]
      split
      · rfl
      · -- the count is used up, so no entry of the rest has events
        rename_i hcount
        have hnothing : ∀ q ∈ rest, reported ready q = none := by
          intro q hq
          by_contra hq'
          have hpos : 0 <
              (rest.map (kernelRevents ready)).countP fun revents => revents ≠ 0#16 := by
            apply List.countP_pos_iff.mpr
            refine ⟨_, List.mem_map_of_mem hq, ?_⟩
            simpa [reported] using hq'
          omega
        rw [List.filterMap_eq_nil_iff.mpr hnothing]
    · have hmore : 0 < (kernelRevents ready p).toInt := (hpos p List.mem_cons_self).mpr hzero
      have hsome : reported ready p = some (p.fd.toNat, toInt (kernelRevents ready p)) :=
        if_neg hzero
      rw [List.countP_cons_of_pos (by simp [hzero]), List.filterMap_cons_some hsome, pollLoop,
        if_pos (by omega), if_pos hmore, if_pos (hknown p List.mem_cons_self hzero)]
      push_cast
      rw [add_sub_cancel_right, hrest, Option.map_some]

/-- Every entry is the one of a registered descriptor. -/
theorem Inv.entry_of_mem (h : Inv reg s) {p : PollFd} (hp : p ∈ s.pollfds) :
    ∃ fd i, reg fd = .live i ∧ p = entry fd i := by
  obtain ⟨j, hj⟩ := List.mem_iff_getElem?.mp hp
  obtain ⟨fd, hfd, -⟩ := h.slots.owner j p hj
  cases hreg : reg fd with
  | fresh => simp [table, hreg] at hfd
  | removed => simp [table, hreg] at hfd
  | live i =>
    rw [table_live hreg, Option.some.injEq] at hfd
    exact ⟨fd, i, hreg, hfd.symm⟩

theorem Inv.entry_mem (h : Inv reg s) {fd : Fd} {i : Interest} (hreg : reg fd = .live i) :
    entry fd i ∈ s.pollfds := by
  obtain ⟨n, -, hslot⟩ := h.slots.find fd _ (table_live hreg)
  exact List.mem_of_getElem? hslot

/-- What is reported about an entry is what is found for its descriptor. -/
theorem reported_entry {fd : Fd} {i : Interest} (hreg : reg fd = .live i) :
    reported ready (entry fd i) =
      if found reg ready fd = 0#32 then none else some (fd, found reg ready fd) := by
  have hinterest : (reg fd).interest = i := by
    rw [hreg]
    rfl
  unfold reported found
  rw [kernelRevents_entry, hinterest]
  cases hsome : i.reading || i.writing with
  | false => rfl
  | true =>
    have hfd : (entry fd i).fd = fd := by simp [entry, hsome]
    have hmask : toInt (toShort (ready fd) &&& bits i.reading i.writing) =
        ready fd &&& (mask i.reading i.writing ||| pollErr ||| pollHup ||| pollNval) := by
      rw [toInt_and (msb_bits _ _), toInt_bits]
    simp only [if_true, hfd, Int.toNat_natCast, ← hmask, toInt_eq_zero_iff]

theorem poll_found (h : Inv reg s) (ha : Answers s ready a) {dispatch : Fd → Dispatch}
    (hquiet : Quiet dispatch) :
    ∃ r, poll s dispatch a = some r ∧ Found dispatch (found reg ready) r := by
  have hpos : ∀ p ∈ s.pollfds,
      0 < (kernelRevents ready p).toInt ↔ kernelRevents ready p ≠ 0#16 := by
    intro p hp
    obtain ⟨fd, i, -, rfl⟩ := h.entry_of_mem hp
    exact pos_kernelRevents fd i
  have hknown : ∀ p ∈ s.pollfds, kernelRevents ready p ≠ 0#16 →
      0 ≤ p.fd ∧ s.dispatchMap p.fd.toNat = true := by
    intro p hp hne
    obtain ⟨fd, i, hreg, rfl⟩ := h.entry_of_mem hp
    rcases entry_fd fd i with hfd | hfd
    · rw [hfd, h.known]
      exact ⟨Int.natCast_nonneg fd, by simp [table_live hreg]⟩
    · refine absurd ?_ hne
      have hneg : (entry fd i).fd < 0 := by omega
      exact if_pos hneg
  have hret : a.ret ≠ -1 := by
    rw [ha.ret]
    omega
  refine ⟨_, ?_, found_report hquiet (l := s.pollfds.filterMap (reported ready)) ?_ ?_⟩
  · rw [poll, if_neg hret, ha.ret, ha.revents, pollLoop_eq hpos hknown, Option.map_some]
  · intro e he
    obtain ⟨p, hp, hreported⟩ := List.mem_filterMap.mp he
    obtain ⟨fd, i, hreg, rfl⟩ := h.entry_of_mem hp
    rw [reported_entry hreg] at hreported
    split at hreported
    · cases hreported
    · cases hreported
      rfl
  · intro fd hne
    cases hreg : reg fd with
    | fresh => simp [found, hreg, Reg.interest, Interest.none] at hne
    | removed => simp [found, hreg, Reg.interest, Interest.none] at hne
    | live i =>
      refine List.mem_map.mpr ⟨(fd, found reg ready fd), ?_, rfl⟩
      refine List.mem_filterMap.mpr ⟨_, h.entry_mem hreg, ?_⟩
      rw [reported_entry hreg, if_neg hne]

theorem found_readiness (reg : Fd → Reg) (readable writable : Fd → Bool) (fd : Fd) :
    found reg (readiness readable writable) fd =
      inOut ((reg fd).interest.reading && readable fd)
        ((reg fd).interest.writing && writable fd) := by
  unfold found readiness
  split
  · exact inOut_and_mask_nval _ _ _ _
  · rename_i hnone
    rw [Bool.or_eq_true, not_or, Bool.not_eq_true, Bool.not_eq_true] at hnone
    rw [hnone.1, hnone.2, Bool.false_and, Bool.false_and]
    rfl

theorem found_of_interest {fd : Fd}
    (hsome : (reg fd).interest.reading = true ∨ (reg fd).interest.writing = true)
    (hopen : ready fd &&& pollNval = 0#32) :
    found reg ready fd =
      ready fd &&& (mask (reg fd).interest.reading (reg fd).interest.writing |||
        pollErr ||| pollHup) := by
  rw [found, if_pos (by simpa using hsome), BitVec.and_or_distrib_left (y := _ ||| pollHup), hopen,
    BitVec.or_zero]

end EventPoll

namespace EventKqueue

variable {reg : Fd → Reg} {s : EventKqueue} {ready : Readiness} {events : List KEvent} {size : ℕ}

/-- The events of one descriptor come together in its Dispatch. -/
theorem pollLoop_spec {dispatch : Fd → Dispatch} (herror : ∀ e ∈ events, e.error = false) :
    (pollLoop dispatch events).2 = events.map KEvent.fd ∧
      ∀ fd, (pollLoop dispatch events).1 fd =
        (dispatch fd).setRevents ((dispatch fd).revents |||
          inOut (decide (⟨fd, .evfiltRead, false⟩ ∈ events))
            (decide (⟨fd, .evfiltWrite, false⟩ ∈ events))) := by
  induction events generalizing dispatch with
  | nil => exact ⟨rfl, fun fd => by simp [pollLoop, inOut, Dispatch.setRevents]⟩
  | cons e rest ih =>
    obtain ⟨hactive, hdispatch⟩ := @ih (Function.update dispatch e.fd ((dispatch e.fd).setRevents
      ((dispatch e.fd).revents ||| bit e))) fun e he => herror e (List.mem_cons_of_mem _ he)
    refine ⟨by rw [pollLoop, hactive, List.map_cons], fun fd => ?_⟩
    rw [pollLoop, hdispatch]
    obtain ⟨g, filter, error⟩ := e
    have herr : error = false := herror _ List.mem_cons_self
    subst herr
    by_cases hfd : fd = g
    · subst hfd
      cases filter with
      | evfiltRead => simp [bit, Dispatch.setRevents, BitVec.or_assoc, in_or_inOut]
      | evfiltWrite => simp [bit, Dispatch.setRevents, BitVec.or_assoc, out_or_inOut]
    · simp [hfd]

def found (reg : Fd → Reg) (ready : Readiness) (fd : Fd) : Mask :=
  inOut ((reg fd).interest.reading && Mask.has (ready fd) (pollIn ||| pollHup))
    ((reg fd).interest.writing && Mask.has (ready fd) (pollOut ||| pollHup))

theorem triggered_read (h : Inv reg s) (fd : Fd) : s.triggered ready fd .evfiltRead =
    ((reg fd).interest.reading && Mask.has (ready fd) (pollIn ||| pollHup)) := by
  rw [← tracks.readInterest fd h]
  rfl

theorem triggered_write (h : Inv reg s) (fd : Fd) : s.triggered ready fd .evfiltWrite =
    ((reg fd).interest.writing && Mask.has (ready fd) (pollOut ||| pollHup)) := by
  rw [← tracks.writeInterest fd h]
  rfl

theorem poll_found (h : Inv reg s) (ha : Answers size s ready events)
    (hroom : events.length < size) {dispatch : Fd → Dispatch} (hquiet : Quiet dispatch) :
    ∃ r, poll s dispatch events = some r ∧ Found dispatch (found reg ready) r := by
  obtain ⟨hactive, hdispatch⟩ := @pollLoop_spec events dispatch fun e he => (ha.each e he).2
  have hmem (fd : Fd) (filter : Filter) :
      decide (⟨fd, filter, false⟩ ∈ events) = s.triggered ready fd filter := by
    rw [Bool.eq_iff_iff, decide_eq_true_iff]
    exact ⟨fun he => (ha.each _ he).1, ha.whole hroom fd filter⟩
  have hfound (fd : Fd) : inOut (decide (⟨fd, .evfiltRead, false⟩ ∈ events))
      (decide (⟨fd, .evfiltWrite, false⟩ ∈ events)) = found reg ready fd := by
    rw [hmem, hmem, triggered_read h, triggered_write h]
    rfl
  refine ⟨_, rfl, ?_, fun fd hne => ?_⟩
  · funext fd
    rw [hdispatch, hquiet fd, hfound, BitVec.zero_or]
  · rw [hactive]
    by_contra hno
    have hnone (filter : Filter) : ⟨fd, filter, false⟩ ∉ events := fun he =>
      hno (List.mem_map.mpr ⟨_, he, rfl⟩)
    rw [← hfound, decide_eq_false (hnone _), decide_eq_false (hnone _)] at hne
    exact hne rfl

theorem found_readiness (reg : Fd → Reg) (readable writable : Fd → Bool) (fd : Fd) :
    found reg (readiness readable writable) fd =
      inOut ((reg fd).interest.reading && readable fd)
        ((reg fd).interest.writing && writable fd) := by
  obtain ⟨-, -, hread, hwrite⟩ := has_inOut (readable fd) (writable fd)
  rw [found, readiness, hread, hwrite]

end EventKqueue

namespace EventPoller

open Lib.Runs

variable {σ α : Type} {calls : List (Fd × Op)} {t : Usage}

/-! Runs of calls, and what is found after them. -/

theorem revents_apply (d : Dispatch) (op : Op) : (op.apply d).1.revents = d.revents := by
  cases op with
  | enableRead => rfl
  | enableWrite => exact d.revents_enableWrite
  | disableRead => rfl
  | disableWrite => exact d.revents_disableWrite
  | disableAll => exact d.revents_disableAll
  | removeEvents => rfl

theorem quiet_of_run (hrun : usage.run usage.init calls = some t) : Quiet t.dispatch := by
  refine Machine.run_invariant (M := usage) (P := fun _ t => Quiet t.dispatch)
    (fun _ => rfl) ?_ hrun
  intro _ u c u' hquiet hnext fd
  obtain ⟨g, op⟩ := c
  obtain ⟨q, -, rfl⟩ := usage_next hnext
  show (Function.update u.dispatch g (op.apply (u.dispatch g)).1 fd).revents = 0#32
  by_cases hfd : fd = g
  · subst hfd
    rw [Function.update_self, revents_apply]
    exact hquiet fd
  · rw [Function.update_of_ne hfd]
    exact hquiet fd

/-- `Poll` of `B` finds `found` in every state that `Inv` describes. -/
def Finds (B : Backend σ α) (Inv : (Fd → Reg) → σ → Prop)
    (found : (Fd → Reg) → σ → Readiness → Fd → Mask) : Prop :=
  ∀ {reg s ready answer dispatch}, Inv reg s → B.answers s ready answer → B.whole answer →
    Quiet dispatch → ∃ r, B.poll s dispatch answer = some r ∧ Found dispatch (found reg s ready) r

/-- An iteration after `calls`, whatever of it the kernel decides. -/
theorem Tracks.iterate {B : Backend σ α} {ok : Fd → Prop} {Inv : (Fd → Reg) → σ → Prop}
    {found : (Fd → Reg) → σ → Readiness → Fd → Mask} (hP : Tracks B.poller ok Inv)
    (hfinds : Finds B Inv found) (hok : ∀ c ∈ calls, ok c.1)
    (hrun : usage.run usage.init calls = some t) :
    ∃ s, B.poller.machine.run B.poller.machine.init calls = some s ∧ Follows Inv t s ∧
      ∀ ready answer, B.answers s.poller ready answer → B.whole answer →
        ∃ cs, B.iterate s answer = some (s, cs) ∧ ∀ fd, callbacksOf cs fd =
          ((t.dispatch fd).setRevents (found t.reg s.poller ready fd)).callbacks := by
  have hinit : Follows Inv usage.init B.poller.machine.init := ⟨Usage.ok_init, rfl, hP.init⟩
  obtain ⟨s, hs, hfollows⟩ := Machine.run_simulates (R := Follows Inv)
    (fun _ _ _ _ hc h hnext => hP.step hc h hnext) hok hinit hrun
  have hquiet : Quiet s.dispatch := by
    rw [hfollows.dispatch]
    exact quiet_of_run hrun
  refine ⟨s, hs, hfollows, fun ready answer hanswer hwhole => ?_⟩
  obtain ⟨r, hpoll, hfound⟩ := hfinds hfollows.inv hanswer hwhole hquiet
  obtain ⟨cs, hiterate, hcalls⟩ := iterate_eq hquiet hpoll hfound
  rw [hfollows.dispatch] at hcalls
  exact ⟨cs, hiterate, hcalls⟩

theorem finds_select : Finds EventSelect.backend EventSelect.Inv
    fun reg _ ready => EventSelect.found reg ready :=
  fun h ha _ hquiet => EventSelect.poll_found h ha hquiet

theorem finds_poll : Finds EventPoll.backend EventPoll.Inv
    fun reg _ ready => EventPoll.found reg ready :=
  fun h ha _ hquiet => EventPoll.poll_found h ha hquiet

theorem finds_epoll (size : ℕ) : Finds (EventEpoll.backend size) EventEpoll.Inv
    fun _ s ready => s.kernelEvents ready :=
  fun _ ha hroom hquiet => EventEpoll.poll_found ha hroom hquiet

theorem finds_kqueue (size : ℕ) : Finds (EventKqueue.backend size) EventKqueue.Inv
    fun reg _ ready => EventKqueue.found reg ready :=
  fun h ha hroom hquiet => EventKqueue.poll_found h ha hroom hquiet

/-- An iteration after `calls` hands each descriptor what it waits for and what is
ready, reading before writing, and leaves the Dispatches as they were. -/
def Serves (B : Backend σ α) (calls : List (Fd × Op)) (t : Usage) (readable writable : Fd → Bool) :
    Prop :=
  ∃ s, B.poller.machine.run B.poller.machine.init calls = some s ∧
    ∀ answer, B.answers s.poller (readiness readable writable) answer → B.whole answer →
      ∃ cs, B.iterate s answer = some (s, cs) ∧ ∀ fd, callbacksOf cs fd =
        (if (t.dispatch fd).isReading && readable fd then [.read] else []) ++
          if (t.dispatch fd).isWriting && writable fd then [.write] else []

theorem Tracks.serves {B : Backend σ α} {ok : Fd → Prop} {Inv : (Fd → Reg) → σ → Prop}
    {found : (Fd → Reg) → σ → Readiness → Fd → Mask} (hP : Tracks B.poller ok Inv)
    (hfinds : Finds B Inv found) (hok : ∀ c ∈ calls, ok c.1)
    (hrun : usage.run usage.init calls = some t) {readable writable : Fd → Bool}
    (hfound : ∀ {reg s}, Inv reg s → ∀ fd, found reg s (readiness readable writable) fd =
      inOut ((reg fd).interest.reading && readable fd)
        ((reg fd).interest.writing && writable fd)) :
    Serves B calls t readable writable := by
  obtain ⟨s, hs, hfollows, hiterate⟩ := hP.iterate hfinds hok hrun
  refine ⟨s, hs, fun answer hanswer hwhole => ?_⟩
  obtain ⟨cs, hcs, hcalls⟩ := hiterate _ answer hanswer hwhole
  refine ⟨cs, hcs, fun fd => ?_⟩
  rw [hcalls, hfound hfollows.inv, hfollows.ok.interest_reg, callbacks_inOut]
  rfl

/-- The four pollers in one iteration. -/
theorem iterations_agree (calls : List (Fd × Op)) (t : Usage) (readable writable : Fd → Bool)
    (size : ℕ) (hrun : usage.run usage.init calls = some t) :
    Serves EventPoll.backend calls t readable writable ∧
      Serves (EventEpoll.backend size) calls t readable writable ∧
      Serves (EventKqueue.backend size) calls t readable writable ∧
      ((∀ c ∈ calls, c.1 < EventSelect.fdSetSize) →
        Serves EventSelect.backend calls t readable writable) := by
  refine ⟨?_, ?_, ?_, ?_⟩
  · apply EventPoll.tracks.serves finds_poll (fun _ _ => trivial) hrun
    intro reg s _ fd
    exact EventPoll.found_readiness reg readable writable fd
  · apply EventEpoll.tracks.serves (finds_epoll size) (fun _ _ => trivial) hrun
    intro reg s h fd
    exact EventEpoll.kernelEvents_readiness h readable writable fd
  · apply EventKqueue.tracks.serves (finds_kqueue size) (fun _ _ => trivial) hrun
    intro reg s _ fd
    exact EventKqueue.found_readiness reg readable writable fd
  · intro hfds
    apply EventSelect.tracks.serves finds_select hfds hrun
    intro reg s _ fd
    exact EventSelect.found_readiness reg readable writable fd

/-- A listener with a connection waiting, and a connection to be read and written. -/
def busyServer : List (Fd × Op) := [(3, .enableRead), (4, .enableRead), (4, .enableWrite)]

def epollBusy : List (Fd × Mask) := [(4, pollIn ||| pollOut), (3, pollIn)]

theorem answers_epollBusy {s : EventEpoll}
    (hset : ∀ fd, s.epollSet fd = if fd = 4 then some (mask true true)
      else if fd = 3 then some (mask true false) else none) :
    EventEpoll.Answers 16 s (readiness (fun _ => true) (fun _ => true)) epollBusy := by
  have hevents (fd : Fd) : s.kernelEvents (readiness (fun _ => true) (fun _ => true)) fd =
      if fd = 4 then pollIn ||| pollOut else if fd = 3 then pollIn else 0#32 := by
    unfold EventEpoll.kernelEvents
    rw [hset]
    split_ifs
    · exact inOut_and_mask true true true true
    · exact inOut_and_mask true true true false
    · rfl
  refine ⟨fun e he => ?_, by decide, by decide, fun _ fd hne => ?_⟩
  · rw [hevents]
    obtain rfl | rfl : e = (4, pollIn ||| pollOut) ∨ e = (3, pollIn) := by
      simpa [epollBusy] using he
    · exact ⟨rfl, by decide⟩
    · exact ⟨rfl, by decide⟩
  · rw [hevents] at hne
    by_contra hno
    simp only [epollBusy, List.map_cons, List.map_nil, List.mem_cons, List.not_mem_nil, or_false,
      not_or] at hno
    simp [hno.1, hno.2] at hne

theorem iterations_agree_busyServer :
    ∃ t s, usage.run usage.init busyServer = some t ∧
      EventEpoll.poller.machine.run EventEpoll.poller.machine.init busyServer = some s ∧
      EventEpoll.Answers 16 s.poller (readiness (fun _ => true) (fun _ => true)) epollBusy ∧
      Serves EventPoll.backend busyServer t (fun _ => true) (fun _ => true) ∧
      Serves (EventEpoll.backend 16) busyServer t (fun _ => true) (fun _ => true) ∧
      Serves (EventKqueue.backend 16) busyServer t (fun _ => true) (fun _ => true) ∧
      Serves EventSelect.backend busyServer t (fun _ => true) (fun _ => true) := by
  refine ⟨_, _, rfl, rfl, answers_epollBusy fun fd => ?_, ?_⟩
  · by_cases h4 : fd = 4
    · subst h4
      rfl
    · by_cases h3 : fd = 3
      · subst h3
        rfl
      · rw [if_neg h4, if_neg h3]
        exact (Function.update_of_ne h4 _ _).trans ((Function.update_of_ne h4 _ _).trans
          (Function.update_of_ne h3 _ _))
  · obtain ⟨hpoll, hepoll, hkqueue, hselect⟩ :=
      iterations_agree busyServer _ (fun _ => true) (fun _ => true) 16 rfl
    exact ⟨hpoll, hepoll, hkqueue, hselect (by decide)⟩

/-- With errors and hang-ups the first two still agree. -/
theorem poll_epoll_agree (calls : List (Fd × Op)) (t : Usage) (ready : Readiness) (size : ℕ)
    (hrun : usage.run usage.init calls = some t) (hopen : ∀ fd, ready fd &&& pollNval = 0#32) :
    ∃ s s', EventPoll.poller.machine.run EventPoll.poller.machine.init calls = some s ∧
      EventEpoll.poller.machine.run EventEpoll.poller.machine.init calls = some s' ∧
      ∀ a events, EventPoll.Answers s.poller ready a →
        EventEpoll.Answers size s'.poller ready events → events.length < size →
        ∃ cs cs', EventPoll.backend.iterate s a = some (s, cs) ∧
          (EventEpoll.backend size).iterate s' events = some (s', cs') ∧
          ∀ fd, ((t.dispatch fd).isNoneEvent = false → callbacksOf cs fd = callbacksOf cs' fd) ∧
            ((t.dispatch fd).isNoneEvent = true → callbacksOf cs fd = []) := by
  have hok : ∀ c ∈ calls, (fun _ : Fd => True) c.1 := fun _ _ => trivial
  obtain ⟨s, hs, hfollows, hiterate⟩ := EventPoll.tracks.iterate finds_poll hok hrun
  obtain ⟨s', hs', hfollows', hiterate'⟩ := EventEpoll.tracks.iterate (finds_epoll size) hok hrun
  refine ⟨s, s', hs, hs', fun a events ha hevents hroom => ?_⟩
  obtain ⟨cs, hcs, hcalls⟩ := hiterate ready a ha trivial
  obtain ⟨cs', hcs', hcalls'⟩ := hiterate' ready events hevents hroom
  refine ⟨cs, cs', hcs, hcs', fun fd => ⟨fun hsome => ?_, fun hnone => ?_⟩⟩
  · have hinterest : (t.reg fd).interest.reading = true ∨ (t.reg fd).interest.writing = true := by
      rw [hfollows.ok.interest_reg]
      by_contra hno
      rw [not_or, Bool.not_eq_true, Bool.not_eq_true, ← (hfollows.ok.plain fd).isNoneEvent_iff,
        hsome] at hno
      cases hno
    have hsame : EventPoll.found t.reg ready fd = s'.poller.kernelEvents ready fd := by
      rw [EventEpoll.kernelEvents_of_interest hfollows'.inv hinterest,
        EventPoll.found_of_interest hinterest (hopen fd)]
    calc callbacksOf cs fd
        = ((t.dispatch fd).setRevents (EventPoll.found t.reg ready fd)).callbacks := hcalls fd
      _ = ((t.dispatch fd).setRevents (s'.poller.kernelEvents ready fd)).callbacks := by rw [hsame]
      _ = callbacksOf cs' fd := (hcalls' fd).symm
  · have hfound : EventPoll.found t.reg ready fd = 0#32 := by
      obtain ⟨hread, hwrite⟩ := (hfollows.ok.plain fd).isNoneEvent_iff.mp hnone
      rw [EventPoll.found, hfollows.ok.interest_reg, hread, hwrite]
      rfl
    calc callbacksOf cs fd
        = ((t.dispatch fd).setRevents (EventPoll.found t.reg ready fd)).callbacks := hcalls fd
      _ = ((t.dispatch fd).setRevents 0#32).callbacks := by rw [hfound]
      _ = [] := callbacks_of_quiet rfl

theorem poll_epoll_agree_busyServer :
    ∃ t s s', usage.run usage.init busyServer = some t ∧
      EventPoll.poller.machine.run EventPoll.poller.machine.init busyServer = some s ∧
      EventEpoll.poller.machine.run EventEpoll.poller.machine.init busyServer = some s' ∧
      ∀ a events, EventPoll.Answers s.poller (fun _ => pollHup ||| pollErr) a →
        EventEpoll.Answers 16 s'.poller (fun _ => pollHup ||| pollErr) events →
        events.length < 16 →
        ∃ cs cs', EventPoll.backend.iterate s a = some (s, cs) ∧
          (EventEpoll.backend 16).iterate s' events = some (s', cs') ∧
          callbacksOf cs 4 = callbacksOf cs' 4 := by
  have hrun : usage.run usage.init busyServer = some _ := rfl
  obtain ⟨s, s', hs, hs', hagree⟩ :=
    poll_epoll_agree busyServer _ (fun _ => pollHup ||| pollErr) 16 hrun fun _ => by decide
  refine ⟨_, s, s', hrun, hs, hs', fun a events ha hevents hroom => ?_⟩
  obtain ⟨cs, cs', hcs, hcs', hcalls⟩ := hagree a events ha hevents hroom
  exact ⟨cs, cs', hcs, hcs', (hcalls 4).1 rfl⟩

end EventPoller

end Voyager
