import Voyager.RpcRouting

/-!
How a call ends for its user. The request is sent before the call is registered,
and its timer is inserted through the queue of the loop but removed directly, so
a response or a timeout may come too early. If the loop handles both only when the
call is registered and its timer inserted, and the server reports errors only for
calls that are still open, every call that is answered or times out ends exactly
once.
-/
namespace Voyager.RpcChannel

open Lib.Runs

/-- The response to a call comes after its registration and after the insertion of
its timer, and with an error only while the call is open. A timer fires after the
registration of its call. Ids do not repeat. -/
def InTurn (s : State) : Label → Prop
  | .beginCall _ => s.issued + 1 < 2 ^ 32
  | .onResponse msg =>
    (∀ ticket ∈ s.log.sent, ticket.id = msg.id → ticket.call ∈ s.log.registered) ∧
      match s.callMap.lookup msg.id with
      | some ⟨_, some addr⟩ => addr ∉ s.inserting
      | some ⟨_, none⟩ => True
      | none => msg.error = .ok ∨ s.callOf msg.id = none
  | .onTimeout addr =>
    match s.timers addr with
    | some timer => timer.call ∈ s.log.registered
    | none => True
  | _ => True

instance (s : State) (a : Label) : Decidable (InTurn s a) := by
  unfold InTurn
  split
  · infer_instance
  · refine @instDecidableAnd _ _ inferInstance ?_
    split <;> infer_instance
  · split <;> infer_instance
  · infer_instance

def Log.Ended (log : Log) (i : ℕ) : Prop := ∃ o, (i, o) ∈ log.outcomes

namespace State

def InMap (s : State) (i : ℕ) : Prop := ∃ id data, s.callMap.lookup id = some data ∧ data.call = i

def InCall (s : State) (i : ℕ) : Prop := ∃ who x, s.callers who = some x ∧ x.1.call = i

/-- The timer of call `i` at `addr` is inserted or about to be. -/
def Armed (s : State) (addr : Addr) (i : ℕ) : Prop :=
  ∃ timer, s.timers addr = some timer ∧ timer.call = i ∧
    (timer.inserted = true ∨ addr ∈ s.inserting)

/-- The timer at `addr` belongs to a call that has not ended. -/
def Owned (s : State) (addr : Addr) (timer : Timer) : Prop :=
  s.callMap.lookup timer.id = some ⟨timer.call, some addr⟩ ∨
    ∃ who ticket, s.callers who = some (ticket, .register (some addr)) ∧
      ticket.call = timer.call ∧ ticket.id = timer.id

end State

/-- A call is in `CallMethod`, in the map or has ended, and its timer lives as
long as the call is open. -/
structure Open (s : State) : Prop where
  ended : ∀ i, s.log.Ended i → ¬ s.InCall i ∧ ¬ s.InMap i
  registered : ∀ i ∈ s.log.registered, ¬ s.InCall i ∧ (s.InMap i ∨ s.log.Ended i)
  timer : ∀ addr timer, s.timers addr = some timer → s.Owned addr timer
  entry : ∀ id i addr, s.callMap.lookup id = some ⟨i, some addr⟩ → s.Armed addr i
  caller : ∀ who ticket addr, s.callers who = some (ticket, .register (some addr)) →
    s.Armed addr ticket.call

structure EndsOnce (s : State) : Prop where
  issued : s.issued < 2 ^ 32
  still : s.destroyed = false → Open s
  sent : ∀ ticket ∈ s.log.sent, ticket.id = callId ticket.call
  ended : ∀ i, s.log.Ended i → i < s.issued
  registered : ∀ i ∈ s.log.registered, i < s.issued
  once : (s.log.outcomes.map Prod.fst).Nodup
  discards : ∀ d ∈ s.log.discards, d.call ≠ none → d.ended = true
  answered : ∀ i ∈ s.log.answered, s.log.Ended i

/-- Moving a caller to a stage without a new timer. -/
theorem Open.setCaller {s : State} (h : Open s) {who : Caller} {ticket : Ticket}
    {stage stage' : Stage} (hwho : s.callers who = some (ticket, stage))
    (hstage : ∀ addr, stage ≠ .register (some addr))
    (hstage' : ∀ addr, stage' ≠ .register (some addr)) :
    Open (s.setCaller who (some (ticket, stage'))) := by
  have hincall : ∀ i, (s.setCaller who (some (ticket, stage'))).InCall i → s.InCall i := by
    rintro i ⟨who', ⟨ticket', st⟩, hx, hcall⟩
    obtain ⟨st', hold⟩ := State.setCaller_ticket hwho who' ticket' st hx
    exact ⟨who', _, hold, hcall⟩
  have hregister : ∀ who' ticket' addr,
      s.callers who' = some (ticket', .register (some addr)) ↔
        (s.setCaller who (some (ticket, stage'))).callers who' =
          some (ticket', .register (some addr)) := by
    intro who' ticket' addr
    by_cases heq : who' = who
    · subst who'
      simp only [State.setCaller, Function.update_self, hwho, Option.some.injEq, Prod.mk.injEq]
      exact ⟨fun hx => absurd hx.2 (hstage addr), fun hx => absurd hx.2 (hstage' addr)⟩
    · simp only [State.setCaller, Function.update_of_ne heq]
  refine
    { ended := fun i hi => ?ended
      registered := fun i hi => ?registered
      timer := fun addr timer htimer => ?timer
      entry := h.entry
      caller := fun who' ticket' addr hx => ?caller }
  case ended =>
    exact ⟨fun hin => (h.ended i hi).1 (hincall i hin), (h.ended i hi).2⟩
  case registered =>
    exact ⟨fun hin => (h.registered i hi).1 (hincall i hin), (h.registered i hi).2⟩
  case timer =>
    refine (h.timer addr timer htimer).imp_right ?_
    rintro ⟨who', ticket', hx, hrest⟩
    exact ⟨who', ticket', (hregister who' ticket' addr).mp hx, hrest⟩
  case caller =>
    exact h.caller who' ticket' addr ((hregister who' ticket' addr).mpr hx)

theorem EndsOnce.beginCall {s : State} (h : EndsOnce s) (hlive : s.destroyed = false)
    (hbound : s.issued + 1 < 2 ^ 32) {who : Caller} (hidle : s.callers who = none) :
    EndsOnce (s.beginCall who) := by
  have hopen := h.still hlive
  have hincall : ∀ i, (s.beginCall who).InCall i → s.InCall i ∨ i = s.issued := by
    rintro i ⟨who', x, hx, rfl⟩
    rcases State.setCaller_some.mp hx with ⟨_, rfl⟩ | ⟨_, hold⟩
    · exact .inr rfl
    · exact .inl ⟨who', x, hold, rfl⟩
  have hregister : ∀ who' ticket addr,
      s.callers who' = some (ticket, .register (some addr)) ↔
        (s.beginCall who).callers who' = some (ticket, .register (some addr)) := by
    intro who' ticket addr
    simp only [State.beginCall, State.setCaller]
    by_cases heq : who' = who
    · simp [heq, hidle]
    · rw [Function.update_of_ne heq]
  refine ⟨hbound, fun _ => ⟨fun i hi => ?_, fun i hi => ?_, fun addr timer htimer => ?_,
    hopen.entry, fun who' ticket addr hx => ?_⟩, h.sent,
    fun i hi => Nat.lt_succ_of_lt (h.ended i hi),
    fun i hi => Nat.lt_succ_of_lt (h.registered i hi), h.once, h.discards, h.answered⟩
  · refine ⟨fun hin => ?_, (hopen.ended i hi).2⟩
    rcases hincall i hin with hold | rfl
    · exact (hopen.ended i hi).1 hold
    · exact Nat.lt_irrefl _ (h.ended _ hi)
  · refine ⟨fun hin => ?_, (hopen.registered i hi).2⟩
    rcases hincall i hin with hold | rfl
    · exact (hopen.registered i hi).1 hold
    · exact Nat.lt_irrefl _ (h.registered _ hi)
  · refine (hopen.timer addr timer htimer).imp_right ?_
    rintro ⟨who', ticket, hx, hrest⟩
    exact ⟨who', ticket, (hregister who' ticket addr).mp hx, hrest⟩
  · exact hopen.caller who' ticket addr ((hregister who' ticket addr).mpr hx)

/-- A call that was open ends; the others keep their places. -/
theorem EndsOnce.finish {s t : State} (h : EndsOnce s) (hlive : s.destroyed = false) {i : ℕ}
    {o : Outcome} (hi : i < s.issued) (hnot : ¬ s.log.Ended i) (hissued : t.issued = s.issued)
    (hout : t.log.outcomes = s.log.outcomes ++ [(i, o)]) (hsent : t.log.sent = s.log.sent)
    (hregistered : t.log.registered = s.log.registered)
    (hdiscards : t.log.discards = s.log.discards)
    (hanswered : ∀ j ∈ t.log.answered, j ∈ s.log.answered ∨ j = i)
    (hincall : ∀ j, t.InCall j → s.InCall j ∧ j ≠ i)
    (hinmap : ∀ j, t.InMap j → s.InMap j ∧ j ≠ i)
    (hkeep : ∀ j, s.InMap j → j ≠ i → t.InMap j)
    (htimer : ∀ addr timer, t.timers addr = some timer → t.Owned addr timer)
    (hentry : ∀ id j addr, t.callMap.lookup id = some ⟨j, some addr⟩ → t.Armed addr j)
    (hcaller : ∀ who ticket addr, t.callers who = some (ticket, .register (some addr)) →
      t.Armed addr ticket.call) : EndsOnce t := by
  have hopen := h.still hlive
  have hended : ∀ j, t.log.Ended j ↔ s.log.Ended j ∨ j = i := by
    intro j
    simp only [Log.Ended, hout, List.mem_append, List.mem_singleton, Prod.mk.injEq]
    constructor
    · rintro ⟨o', hold | ⟨rfl, _⟩⟩
      · exact .inl ⟨o', hold⟩
      · exact .inr rfl
    · rintro (⟨o', hold⟩ | rfl)
      · exact ⟨o', .inl hold⟩
      · exact ⟨o, .inr ⟨rfl, rfl⟩⟩
  refine ⟨by rw [hissued]; exact h.issued, fun _ => ⟨fun j hj => ?_, fun j hj => ?_, htimer, hentry,
    hcaller⟩, by rw [hsent]; exact h.sent, fun j hj => ?_, fun j hj => ?_, ?_,
    by rw [hdiscards]; exact h.discards, fun j hj => ?_⟩
  · rcases (hended j).mp hj with hold | rfl
    · exact ⟨fun hin => (hopen.ended j hold).1 (hincall j hin).1,
        fun hin => (hopen.ended j hold).2 (hinmap j hin).1⟩
    · exact ⟨fun hin => (hincall j hin).2 rfl, fun hin => (hinmap j hin).2 rfl⟩
  · rw [hregistered] at hj
    obtain ⟨hno, hplace⟩ := hopen.registered j hj
    refine ⟨fun hin => hno (hincall j hin).1, ?_⟩
    by_cases heq : j = i
    · exact .inr ((hended j).mpr (.inr heq))
    · exact hplace.imp (fun hin => hkeep j hin heq) fun hold => (hended j).mpr (.inl hold)
  · rw [hissued]
    rcases (hended j).mp hj with hold | rfl
    · exact h.ended j hold
    · exact hi
  · rw [hissued]
    exact h.registered j (hregistered ▸ hj)
  · rw [hout, List.map_append]
    refine nodup_concat h.once fun hmem => hnot ?_
    obtain ⟨⟨j, o'⟩, hmem', rfl⟩ := List.mem_map.mp hmem
    exact ⟨o', hmem'⟩
  · rcases hanswered j hj with hold | rfl
    · exact (hended j).mpr (.inl (h.answered j hold))
    · exact (hended j).mpr (.inr rfl)

/-- A call in the map ends: its entry leaves the map, and its timer the heap. -/
theorem EndsOnce.take {s t : State} (h : EndsOnce s) (hlive : s.destroyed = false)
    (hheld : Held s) {id : RpcId} {data : CallData} {o : Outcome}
    (hfound : s.callMap.lookup id = some data) (hissued : t.issued = s.issued)
    (hcallers : t.callers = s.callers) (hmap : t.callMap = s.callMap.erase id)
    (hinserting : t.inserting = s.inserting)
    (htimers : ∀ addr, t.timers addr = if data.timer = some addr then none else s.timers addr)
    (hout : t.log.outcomes = s.log.outcomes ++ [(data.call, o)]) (hsent : t.log.sent = s.log.sent)
    (hregistered : t.log.registered = s.log.registered)
    (hdiscards : t.log.discards = s.log.discards)
    (hanswered : t.log.answered = s.log.answered ++ [data.call]) : EndsOnce t := by
  have hopen := h.still hlive
  obtain ⟨_, hlt, _⟩ := hheld.entry id data hfound
  have hin : s.InMap data.call := ⟨id, data, hfound, rfl⟩
  have hlookup : ∀ id' data', t.callMap.lookup id' = some data' ↔
      id' ≠ id ∧ s.callMap.lookup id' = some data' := by
    intro id' data'
    rw [hmap]
    exact lookup_erase_iff
  -- the timer of another open call is not the one that goes
  have harmed : ∀ addr j, s.Armed addr j → j ≠ data.call → t.Armed addr j := by
    rintro addr j ⟨timer, htimer, hcall, hins⟩ hne
    refine ⟨timer, ?_, hcall, by rw [hinserting]; exact hins⟩
    rw [htimers, if_neg]
    · exact htimer
    · intro hdata
      obtain ⟨timer', htimer', hcall', _⟩ := hopen.entry id data.call addr (by rw [hfound, ← hdata])
      rw [htimer] at htimer'
      cases htimer'
      exact hne (hcall.symm.trans hcall')
  refine h.finish hlive hlt (fun hended => (hopen.ended _ hended).2 hin) hissued hout hsent
    hregistered hdiscards (fun j hj => ?_) (fun j hj => ?_) (fun j hj => ?_) (fun j hj hne => ?_)
    (fun addr timer htimer => ?_) (fun id' j addr hdata' => ?_) fun who ticket addr hwho => ?_
  · rw [hanswered, List.mem_append, List.mem_singleton] at hj
    exact hj
  · obtain ⟨who, x, hx, rfl⟩ := hj
    rw [hcallers] at hx
    exact ⟨⟨who, x, hx, rfl⟩, fun heq => hheld.apart who x id data hx hfound heq.symm⟩
  · obtain ⟨id', data', hdata', rfl⟩ := hj
    obtain ⟨hne, hold⟩ := (hlookup id' data').mp hdata'
    exact ⟨⟨id', data', hold, rfl⟩, fun heq => hne (hheld.id_unique hfound hold heq)⟩
  · obtain ⟨id', data', hdata', rfl⟩ := hj
    refine ⟨id', data', (hlookup id' data').mpr ⟨?_, hdata'⟩, rfl⟩
    rintro rfl
    rw [hfound] at hdata'
    cases hdata'
    exact hne rfl
  · rw [htimers] at htimer
    split at htimer
    · cases htimer
    · rename_i hother
      rcases hopen.timer addr timer htimer with hmapped | hcalling
      · refine .inl ((hlookup _ _).mpr ⟨?_, hmapped⟩)
        intro heq
        rw [heq, hfound] at hmapped
        cases hmapped
        exact hother rfl
      · right
        rw [hcallers]
        exact hcalling
  · obtain ⟨hne, hold⟩ := (hlookup id' _).mp hdata'
    refine harmed addr j (hopen.entry id' j addr hold) fun heq => hne ?_
    exact hheld.id_unique hfound hold heq
  · rw [hcallers] at hwho
    refine harmed addr _ (hopen.caller who ticket addr hwho) fun heq => ?_
    exact hheld.apart who _ id data hwho hfound heq.symm

/-- `RemoveTimer` deletes a timer that is inserted. -/
theorem State.removeTimer_timers {s : State} {timer : Option Addr}
    (hinserted : ∀ addr, timer = some addr → ∃ x, s.timers addr = some x ∧ x.inserted = true)
    (addr : Addr) : (s.removeTimer timer).timers addr =
      if timer = some addr then none else s.timers addr := by
  cases timer with
  | none => rfl
  | some a =>
    obtain ⟨⟨call, id, inserted⟩, hx, hins⟩ := hinserted a rfl
    dsimp only at hins
    subst hins
    simp only [State.removeTimer, hx, Option.some.injEq]
    by_cases heq : a = addr
    · subst addr
      simp
    · have hne : addr ≠ a := fun h => heq h.symm
      simp [heq, Function.update_of_ne hne]

@[simp] theorem State.removeTimer_inserting (s : State) (timer : Option Addr) :
    (s.removeTimer timer).inserting = s.inserting := by
  obtain ⟨timers, heq⟩ := s.removeTimer_eq timer
  rw [heq]

theorem EndsOnce.onKnown {s : State} (h : EndsOnce s) (hlive : s.destroyed = false)
    (hheld : Held s) {msg : RpcMessage} {data : CallData}
    (hfound : s.callMap.lookup msg.id = some data)
    (hinserting : ∀ addr, data.timer = some addr → addr ∉ s.inserting) :
    EndsOnce ({ s with callMap := s.callMap.erase msg.id }.onKnown msg data) := by
  have htimers : ∀ addr,
      ({ s with callMap := s.callMap.erase msg.id }.removeTimer data.timer).timers addr =
        if data.timer = some addr then none else s.timers addr := by
    refine State.removeTimer_timers (s := { s with callMap := s.callMap.erase msg.id }) ?_
    intro addr hdata
    obtain ⟨timer, htimer, _, hins⟩ := (h.still hlive).entry msg.id data.call addr
      (by rw [hfound, ← hdata])
    exact ⟨timer, htimer, hins.resolve_right (hinserting addr hdata)⟩
  by_cases hok : msg.error = .ok
  · refine h.take (o := .completed) hlive hheld hfound ?_ ?_ ?_ ?_ ?_ ?_ ?_ ?_ ?_ ?_ <;>
      simp only [State.onKnown, hok, if_true, State.removeTimer_issued, State.removeTimer_callers,
        State.removeTimer_callMap, State.removeTimer_inserting, State.removeTimer_log]
    exact htimers
  · refine h.take (o := .failed msg.error) hlive hheld hfound ?_ ?_ ?_ ?_ ?_ ?_ ?_ ?_ ?_ ?_ <;>
      simp only [State.onKnown, hok, if_false, State.removeTimer_issued, State.removeTimer_callers,
        State.removeTimer_callMap, State.removeTimer_inserting, State.removeTimer_log]
    exact htimers

theorem EndsOnce.onTimeout {s : State} (h : EndsOnce s) (hlive : s.destroyed = false)
    (hheld : Held s) {addr : Addr} {timer : Timer} (htimer : s.timers addr = some timer)
    (hregistered : timer.call ∈ s.log.registered) : EndsOnce (s.onTimeout addr timer) := by
  have hopen := h.still hlive
  have hfound : s.callMap.lookup timer.id = some ⟨timer.call, some addr⟩ := by
    rcases hopen.timer addr timer htimer with hmapped | ⟨who, ticket, hwho, hcall, _⟩
    · exact hmapped
    · exact absurd ⟨who, _, hwho, hcall⟩ (hopen.registered _ hregistered).1
  refine h.take (o := .timedOut) hlive hheld hfound ?_ ?_ ?_ ?_ (fun addr' => ?_) ?_ ?_ ?_ ?_ ?_
  case refine_5 =>
    simp only [State.onTimeout, hfound, Option.some.injEq]
    by_cases heq : addr = addr'
    · subst addr'
      simp
    · have hne : addr' ≠ addr := fun h => heq h.symm
      simp [heq, Function.update_of_ne hne]
  all_goals simp only [State.onTimeout, hfound]

/-- A response for an id that is not in the map: the call under this id, if there
was one, had been registered and so has ended. -/
theorem EndsOnce.onUnknown {s : State} (h : EndsOnce s) (hlive : s.destroyed = false)
    (hheld : Held s) {msg : RpcMessage} (hfound : s.callMap.lookup msg.id = none)
    (hregistered : ∀ ticket ∈ s.log.sent, ticket.id = msg.id → ticket.call ∈ s.log.registered)
    (herror : msg.error = .ok ∨ s.callOf msg.id = none) : EndsOnce (s.onUnknown msg) := by
  have hopen := h.still hlive
  have hended : ∀ i, s.callOf msg.id = some i → s.log.Ended i := by
    intro i hi
    obtain ⟨ticket, hticket, rfl⟩ := Option.map_eq_some_iff.mp hi
    have hmem := List.mem_of_find?_eq_some hticket
    have hid : ticket.id = msg.id := by simpa using List.find?_some hticket
    rcases (hopen.registered _ (hregistered ticket hmem hid)).2 with ⟨id, data, hdata, hcall⟩ | hend
    · have hkey : id = msg.id := by
        rw [(hheld.entry id data hdata).1, hcall, ← h.sent ticket hmem, hid]
      rw [hkey, hfound] at hdata
      cases hdata
    · exact hend
  have hsame : (s.onUnknown msg).log.outcomes = s.log.outcomes := by
    simp only [State.onUnknown]
    rcases herror with hok | hnone
    · rw [if_pos hok]
    · simp [hnone]
  have hendedEq : ∀ i, (s.onUnknown msg).log.Ended i ↔ s.log.Ended i := by
    intro i
    simp only [Log.Ended, hsame]
  refine ⟨h.issued, fun _ => ⟨fun i hi => hopen.ended i ((hendedEq i).mp hi), fun i hi => ?_,
    hopen.timer, hopen.entry, hopen.caller⟩, h.sent, fun i hi => h.ended i ((hendedEq i).mp hi),
    h.registered, by rw [hsame]; exact h.once, fun d hd hcall => ?_, fun i hi => ?_⟩
  · obtain ⟨hno, hplace⟩ := hopen.registered i hi
    exact ⟨hno, hplace.imp_right (hendedEq i).mpr⟩
  · simp only [State.onUnknown, List.mem_append, List.mem_singleton] at hd
    rcases hd with hd | rfl
    · exact h.discards d hd hcall
    · cases hi : s.callOf msg.id with
      | none => exact absurd hi hcall
      | some i =>
        obtain ⟨o, ho⟩ := hended i hi
        simp only [State.hasEnded, Option.any_some, List.any_eq_true, decide_eq_true_eq]
        exact ⟨(i, o), ho, rfl⟩
  · simp only [State.onUnknown, List.mem_append, Option.mem_toList] at hi
    rcases hi with hi | hi
    · exact (hendedEq i).mpr (h.answered i hi)
    · exact (hendedEq i).mpr (hended i hi)

theorem EndsOnce.unsent {s : State} (h : EndsOnce s) (hlive : s.destroyed = false)
    (hheld : Held s) {who : Caller} {ticket : Ticket}
    (hwho : s.callers who = some (ticket, .send)) : EndsOnce (s.send who ticket false) := by
  have hopen := h.still hlive
  refine h.finish (i := ticket.call) (o := .unsent) hlive (hheld.caller who ticket _ hwho).2.1
    (fun hended => (hopen.ended _ hended).1 ⟨who, _, hwho, rfl⟩) rfl rfl rfl rfl rfl
    (fun j hj => .inl hj) (fun j hj => ?_) (fun j hj => ⟨hj, ?_⟩) (fun j hj _ => hj)
    (fun addr timer htimer => ?_) hopen.entry fun who' ticket' addr hwho' => ?_
  · obtain ⟨who', x, hx, rfl⟩ := hj
    obtain ⟨hold, hne⟩ := hheld.leave hwho hx
    exact ⟨⟨who', x, hold, rfl⟩, hne⟩
  · obtain ⟨id, data, hdata, rfl⟩ := hj
    exact hheld.apart who _ id data hwho hdata
  · refine (hopen.timer addr timer htimer).imp_right ?_
    rintro ⟨who', ticket', hwho', hrest⟩
    refine ⟨who', ticket', State.setCaller_none.mpr ⟨?_, hwho'⟩, hrest⟩
    rintro rfl
    rw [hwho] at hwho'
    cases hwho'
  · exact hopen.caller who' ticket' addr (State.setCaller_none.mp hwho').2

/-- `RunAfter` with a timeout. -/
theorem Open.armed {s : State} (h : Open s) {who : Caller} {ticket : Ticket} {addr : Addr}
    {inserting : List Addr} (hwho : s.callers who = some (ticket, .arm))
    (hfree : s.timers addr = none)
    (hinserting : (who = .loop ∧ inserting = s.inserting) ∨ inserting = s.inserting ++ [addr]) :
    Open { s.setCaller who (some (ticket, .register (some addr))) with
      timers := Function.update s.timers addr
        (some ⟨ticket.call, ticket.id, decide (who = .loop)⟩)
      inserting := inserting } := by
  set t : State := { s.setCaller who (some (ticket, .register (some addr))) with
    timers := Function.update s.timers addr (some ⟨ticket.call, ticket.id, decide (who = .loop)⟩)
    inserting := inserting } with ht
  have hself : t.callers who = some (ticket, .register (some addr)) := by
    simp [ht, State.setCaller]
  have hother : ∀ who', who' ≠ who → t.callers who' = s.callers who' := fun who' hne => by
    simp [ht, State.setCaller, Function.update_of_ne hne]
  have htimer : ∀ addr', addr' ≠ addr → t.timers addr' = s.timers addr' := fun addr' hne => by
    simp [ht, Function.update_of_ne hne]
  have hincall : ∀ i, t.InCall i → s.InCall i := by
    rintro i ⟨who', ⟨ticket', st⟩, hx, hcall⟩
    obtain ⟨st', hold⟩ := State.setCaller_ticket hwho who' ticket' st hx
    exact ⟨who', _, hold, hcall⟩
  have harmed : ∀ addr' i, s.Armed addr' i → t.Armed addr' i := by
    rintro addr' i ⟨timer, hold, hcall, hins⟩
    have hne : addr' ≠ addr := by
      rintro rfl
      rw [hfree] at hold
      cases hold
    refine ⟨timer, by rw [htimer addr' hne]; exact hold, hcall, hins.imp_right fun hmem => ?_⟩
    change addr' ∈ inserting
    rcases hinserting with ⟨_, rfl⟩ | rfl
    · exact hmem
    · exact List.mem_append_left _ hmem
  refine
    { ended := fun i hi => ?ended
      registered := fun i hi => ?registered
      timer := fun addr' timer hold => ?timer
      entry := fun id i addr' hdata => ?entry
      caller := fun who' ticket' addr' hx => ?caller }
  case ended =>
    exact ⟨fun hin => (h.ended i hi).1 (hincall i hin), (h.ended i hi).2⟩
  case registered =>
    exact ⟨fun hin => (h.registered i hi).1 (hincall i hin), (h.registered i hi).2⟩
  case timer =>
    by_cases heq : addr' = addr
    · subst addr'
      simp only [ht, Function.update_self, Option.some.injEq] at hold
      subst timer
      exact .inr ⟨who, ticket, hself, rfl, rfl⟩
    · rw [htimer addr' heq] at hold
      refine (h.timer addr' timer hold).imp_right ?_
      rintro ⟨who', ticket', hwho', hrest⟩
      have hne : who' ≠ who := by
        rintro rfl
        rw [hwho] at hwho'
        cases hwho'
      exact ⟨who', ticket', by rw [hother who' hne]; exact hwho', hrest⟩
  case entry =>
    exact harmed addr' i (h.entry id i addr' hdata)
  case caller =>
    by_cases heq : who' = who
    · subst who'
      rw [hself] at hx
      cases hx
      refine ⟨_, Function.update_self _ _ _, rfl, ?_⟩
      change decide (who = .loop) = true ∨ addr ∈ inserting
      rcases hinserting with ⟨hloop, _⟩ | rfl
      · exact .inl (decide_eq_true hloop)
      · exact .inr (List.mem_append_right _ (List.mem_singleton.mpr rfl))
    · rw [hother who' heq] at hx
      exact harmed addr' _ (h.caller who' ticket' addr' hx)

theorem Open.insertInLoop {s : State} (h : Open s) {addr : Addr} {rest : List Addr}
    (hfirst : s.inserting = addr :: rest) : Open (s.insertInLoop addr rest) := by
  have harmed : ∀ addr' i, s.Armed addr' i → (s.insertInLoop addr rest).Armed addr' i := by
    rintro addr' i ⟨timer, hold, hcall, hins⟩
    by_cases heq : addr' = addr
    · subst addr'
      exact ⟨{ timer with inserted := true }, by simp [State.insertInLoop, hold], hcall, .inl rfl⟩
    · refine ⟨timer, by simp [State.insertInLoop, Function.update_of_ne heq, hold], hcall,
        hins.imp_right fun hmem => ?_⟩
      rw [hfirst] at hmem
      exact (List.mem_cons.mp hmem).resolve_left heq
  refine ⟨h.ended, h.registered, fun addr' timer hold => ?_,
    fun id i addr' hdata => harmed addr' i (h.entry id i addr' hdata),
    fun who ticket addr' hwho => harmed addr' _ (h.caller who ticket addr' hwho)⟩
  by_cases heq : addr' = addr
  · subst addr'
    simp only [State.insertInLoop, Function.update_self] at hold
    obtain ⟨timer', hold', rfl⟩ := Option.map_eq_some_iff.mp hold
    exact h.timer addr timer' hold'
  · simp only [State.insertInLoop, Function.update_of_ne heq] at hold
    exact h.timer addr' timer hold

theorem EndsOnce.register {s : State} (h : EndsOnce s) (hlive : s.destroyed = false)
    (hheld : Held s) {who : Caller} {ticket : Ticket} {timer : Option Addr}
    (hwho : s.callers who = some (ticket, .register timer)) :
    EndsOnce (s.register who ticket timer) := by
  have hopen := h.still hlive
  obtain ⟨hid, hlt, _⟩ := hheld.caller who ticket _ hwho
  have hbound := h.issued
  -- ids do not repeat, so nothing is overwritten
  have hfree : s.callMap.lookup ticket.id = none := by
    cases hdata : s.callMap.lookup ticket.id with
    | none => rfl
    | some data =>
      obtain ⟨hkey, hless, _⟩ := hheld.entry ticket.id data hdata
      have hsame := callId_injective (by omega) (by omega) (hid.symm.trans hkey)
      exact absurd hsame.symm (hheld.apart who _ ticket.id data hwho hdata)
  have hlookup : ∀ id data, (s.register who ticket timer).callMap.lookup id = some data ↔
      (id = ticket.id ∧ data = ⟨ticket.call, timer⟩) ∨ s.callMap.lookup id = some data := by
    intro id data
    change (s.callMap.insert ticket.id ⟨ticket.call, timer⟩).lookup id = some data ↔ _
    by_cases heq : id = ticket.id
    · subst id
      simp only [AList.lookup_insert, hfree, Option.some.injEq, reduceCtorEq, or_false, true_and]
      exact eq_comm
    · rw [AList.lookup_insert_ne heq]
      simp [heq]
  have hincall : ∀ j, (s.register who ticket timer).InCall j → s.InCall j ∧ j ≠ ticket.call := by
    rintro j ⟨who', x, hx, rfl⟩
    obtain ⟨hold, hne⟩ := hheld.leave hwho hx
    exact ⟨⟨who', x, hold, rfl⟩, hne⟩
  have hnew : (s.register who ticket timer).InMap ticket.call :=
    ⟨ticket.id, ⟨ticket.call, timer⟩, (hlookup _ _).mpr (.inl ⟨rfl, rfl⟩), rfl⟩
  have hmono : ∀ j, s.InMap j → (s.register who ticket timer).InMap j := by
    rintro j ⟨id, data, hdata, hcall⟩
    exact ⟨id, data, (hlookup id data).mpr (.inr hdata), hcall⟩
  have hopen' : Open (s.register who ticket timer) := by
    refine ⟨fun j hj => ⟨fun hin => (hopen.ended j hj).1 (hincall j hin).1, ?_⟩, fun j hj => ?_,
      fun addr x hx => ?_, fun id j addr hdata => ?_, fun who' ticket' addr hx => ?_⟩
    · rintro ⟨id, data, hdata, rfl⟩
      rcases (hlookup id data).mp hdata with ⟨_, rfl⟩ | hold
      · exact (hopen.ended _ hj).1 ⟨who, _, hwho, rfl⟩
      · exact (hopen.ended _ hj).2 ⟨id, data, hold, rfl⟩
    · change j ∈ s.log.registered ++ [ticket.call] at hj
      rcases List.mem_append.mp hj with hj | hj
      · obtain ⟨hno, hplace⟩ := hopen.registered j hj
        exact ⟨fun hin => hno (hincall j hin).1, hplace.imp_left (hmono j)⟩
      · rw [List.mem_singleton.mp hj]
        exact ⟨fun hin => (hincall _ hin).2 rfl, .inl hnew⟩
    · rcases hopen.timer addr x hx with hmapped | ⟨who', ticket', hwho', hcall, hkey⟩
      · exact .inl ((hlookup _ _).mpr (.inr hmapped))
      · by_cases heq : who' = who
        · subst who'
          rw [hwho] at hwho'
          cases hwho'
          refine .inl ((hlookup _ _).mpr (.inl ⟨hkey.symm, ?_⟩))
          rw [hcall]
        · exact .inr ⟨who', ticket', State.setCaller_none.mpr ⟨heq, hwho'⟩, hcall, hkey⟩
    · rcases (hlookup id _).mp hdata with ⟨_, hnew⟩ | hold
      · cases hnew
        exact hopen.caller who ticket addr hwho
      · exact hopen.entry id j addr hold
    · exact hopen.caller who' ticket' addr (State.setCaller_none.mp hx).2
  refine ⟨h.issued, fun _ => hopen', h.sent, h.ended, fun j hj => ?_, h.once, h.discards,
    h.answered⟩
  change j ∈ s.log.registered ++ [ticket.call] at hj
  rcases List.mem_append.mp hj with hj | hj
  · exact h.registered j hj
  · rw [List.mem_singleton.mp hj]
    exact hlt

/-- A step that concerns neither the log nor the count of calls. -/
theorem EndsOnce.of_open {s t : State} (h : EndsOnce s) (hissued : t.issued = s.issued)
    (hlog : t.log = s.log) (hopen : Open t) : EndsOnce t := by
  refine ⟨hissued ▸ h.issued, fun _ => hopen, hlog ▸ h.sent, ?_, ?_, hlog ▸ h.once,
    hlog ▸ h.discards, ?_⟩
  · rw [hlog, hissued]
    exact h.ended
  · rw [hlog, hissued]
    exact h.registered
  · rw [hlog]
    exact h.answered

theorem EndsOnce.step {s t : State} {a : Label} (h : EndsOnce s) (hlive : s.destroyed = false)
    (hheld : Held s) (hok : InTurn s a) (hstep : Step s a t) : EndsOnce t := by
  have hopen := h.still hlive
  cases hstep with
  | setTimeout on =>
    exact h.of_open rfl rfl
      ⟨hopen.ended, hopen.registered, hopen.timer, hopen.entry, hopen.caller⟩
  | beginCall hidle => exact h.beginCall hlive hok hidle
  | @sent who ticket hwho =>
    have hmoved : Open (s.setCaller who (some (ticket, .arm))) :=
      hopen.setCaller hwho (by simp) (by simp)
    refine ⟨h.issued, fun _ => ⟨hmoved.ended, hmoved.registered, hmoved.timer, hmoved.entry,
      hmoved.caller⟩, fun ticket' hmem => ?_, h.ended, h.registered, h.once, h.discards, h.answered⟩
    change ticket' ∈ s.log.sent ++ [ticket] at hmem
    rcases List.mem_append.mp hmem with hmem | hmem
    · exact h.sent ticket' hmem
    · rw [List.mem_singleton.mp hmem]
      exact (hheld.caller who ticket _ hwho).1
  | unsent hwho => exact h.unsent hlive hheld hwho
  | armed hwho hfree hinserting => exact h.of_open rfl rfl (hopen.armed hwho hfree hinserting)
  | notArmed hwho => exact h.of_open rfl rfl (hopen.setCaller hwho (by simp) (by simp))
  | register hwho => exact h.register hlive hheld hwho
  | insertInLoop hfirst => exact h.of_open rfl rfl (hopen.insertInLoop hfirst)
  | @known msg data _ hfound =>
    refine h.onKnown hlive hheld hfound fun addr hdata => ?_
    have hturn := hok.2
    obtain ⟨call, timer⟩ := data
    dsimp only at hdata
    subst hdata
    rw [hfound] at hturn
    exact hturn
  | unknown _ hfound =>
    have hturn := hok.2
    rw [hfound] at hturn
    exact h.onUnknown hlive hheld hfound hok.1 hturn
  | onTimeout _ htimer =>
    have hturn := hok
    simp only [InTurn, htimer] at hturn
    exact h.onTimeout hlive hheld htimer hturn
  | destroy =>
    obtain ⟨timers, hfold⟩ := State.foldl_removeTimer_eq s.callMap.entries s
    refine ⟨?_, fun hd => by simp [State.destroy] at hd, ?_, ?_, ?_, ?_, ?_, ?_⟩ <;>
      simp only [State.destroy, hfold]
    · exact h.issued
    · exact h.sent
    · exact h.ended
    · exact h.registered
    · exact h.once
    · exact h.discards
    · exact h.answered

/-- Moreover a response comes to a call only while it is in the map. -/
def Expected (s : State) : Label → Prop
  | .onResponse msg => InTurn s (.onResponse msg) ∧
      (s.callMap.lookup msg.id = none → s.callOf msg.id = none)
  | a => InTurn s a

instance (s : State) (a : Label) : Decidable (Expected s a) := by
  unfold Expected
  split <;> infer_instance

theorem Expected.inTurn {s : State} {a : Label} (h : Expected s a) : InTurn s a := by
  cases a with
  | onResponse msg => exact h.1
  | _ => exact h

end Voyager.RpcChannel
