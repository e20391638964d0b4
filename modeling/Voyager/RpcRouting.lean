import Voyager.RpcChannel

/-!
Who holds the `response` and `done` objects of a call: `CallMethod` until the call
is registered, then its entry in `call_map_`, then nobody. Whatever the server
sends, and however responses and timeouts interleave with the callers, `done` is run
at most once and by a response to its own call, and both objects are released at
most once.
-/
namespace Voyager.RpcChannel

open Lib.Runs

/-- Some object of the call has been given up: deleted, or run and so deleted. -/
def Log.Released (log : Log) (i : ℕ) : Prop :=
  i ∈ log.responsesDeleted ∨ i ∈ log.donesDeleted ∨ i ∈ log.runs.map Prod.fst

/-- The part of the history that is about the objects of calls. -/
def Log.objects (log : Log) : List (ℕ × RpcMessage) × List (ℕ × List Byte) × List ℕ × List ℕ :=
  (log.runs, log.fills, log.responsesDeleted, log.donesDeleted)

/-- The calls in `CallMethod` and in the map are different ones, each under its own
id, and none of their objects has been given up. -/
structure Held (s : State) : Prop where
  caller : ∀ who ticket stage, s.callers who = some (ticket, stage) →
    ticket.id = callId ticket.call ∧ ticket.call < s.issued ∧ ¬ s.log.Released ticket.call
  callers : ∀ who who' x x', s.callers who = some x → s.callers who' = some x' →
    x.1.call = x'.1.call → who = who'
  entry : ∀ id data, s.callMap.lookup id = some data →
    id = callId data.call ∧ data.call < s.issued ∧ ¬ s.log.Released data.call
  apart : ∀ who x id data, s.callers who = some x → s.callMap.lookup id = some data →
    data.call ≠ x.1.call

/-- A caller that leaves `CallMethod` takes its call along. -/
theorem Held.leave {s : State} (h : Held s) {who who' : Caller} {ticket : Ticket} {stage : Stage}
    {x : Ticket × Stage} (hwho : s.callers who = some (ticket, stage))
    (hx : (s.setCaller who none).callers who' = some x) :
    s.callers who' = some x ∧ x.1.call ≠ ticket.call := by
  obtain ⟨hne, hold⟩ := State.setCaller_none.mp hx
  exact ⟨hold, fun hsame => hne (h.callers who' who x _ hold hwho hsame)⟩

theorem Held.id_unique {s : State} (h : Held s) {id id' : RpcId} {data data' : CallData}
    (hdata : s.callMap.lookup id = some data) (hdata' : s.callMap.lookup id' = some data')
    (hsame : data'.call = data.call) : id' = id := by
  rw [(h.entry id' data' hdata').1, hsame, (h.entry id data hdata).1]

structure Routed (s : State) : Prop where
  seq : s.seq = BitVec.ofNat 32 s.issued
  held : s.destroyed = false → Held s
  released : ∀ i, s.log.Released i → i < s.issued
  responses : s.log.responsesDeleted.Nodup
  dones : (s.log.donesDeleted ++ s.log.runs.map Prod.fst).Nodup
  runs : ∀ r ∈ s.log.runs, r.2.id = callId r.1 ∧ r.2.error = .ok
  fills : ∀ f ∈ s.log.fills, ∃ msg, (f.1, msg) ∈ s.log.runs ∧ f.2 = msg.data

theorem routed_create : Routed State.create where
  seq := rfl
  held _ :=
    { caller := fun _ _ _ h => by cases h
      callers := fun _ _ _ _ h => by cases h
      entry := fun _ _ h => by cases h
      apart := fun _ _ _ _ h => by cases h }
  released i h := by
    rcases h with h | h | h <;> cases h
  responses := List.nodup_nil
  dones := List.nodup_nil
  runs r hr := by cases hr
  fills f hf := by cases hf

/-- A step that only moves callers on and takes entries out. -/
theorem Routed.frame {s t : State} (h : Routed s) (hlive : s.destroyed = false)
    (hseq : t.seq = s.seq) (hissued : t.issued = s.issued)
    (hobjects : t.log.objects = s.log.objects)
    (hcallers : ∀ who ticket stage, t.callers who = some (ticket, stage) →
      ∃ stage', s.callers who = some (ticket, stage'))
    (hmap : ∀ id data, t.callMap.lookup id = some data → s.callMap.lookup id = some data) :
    Routed t := by
  simp only [Log.objects, Prod.mk.injEq] at hobjects
  obtain ⟨hruns, hfills, hresponses, hdones⟩ := hobjects
  have hreleased : ∀ i, t.log.Released i ↔ s.log.Released i := by
    intro i
    simp only [Log.Released, hruns, hresponses, hdones]
  have hheld := h.held hlive
  refine ⟨by rw [hseq, hissued]; exact h.seq, fun _ => ⟨?_, ?_, ?_, ?_⟩, fun i hi => ?_,
    hresponses ▸ h.responses, ?_, hruns ▸ h.runs, ?_⟩
  · intro who ticket stage hwho
    obtain ⟨stage', hold⟩ := hcallers who ticket stage hwho
    rw [hissued, hreleased]
    exact hheld.caller who ticket stage' hold
  · rintro who who' ⟨ticket, stage⟩ ⟨ticket', stage'⟩ hwho hwho' hsame
    obtain ⟨st, hold⟩ := hcallers who ticket stage hwho
    obtain ⟨st', hold'⟩ := hcallers who' ticket' stage' hwho'
    exact hheld.callers who who' _ _ hold hold' hsame
  · intro id data hdata
    rw [hissued, hreleased]
    exact hheld.entry id data (hmap id data hdata)
  · rintro who ⟨ticket, stage⟩ id data hwho hdata
    obtain ⟨st, hold⟩ := hcallers who ticket stage hwho
    exact hheld.apart who (ticket, st) id data hold (hmap id data hdata)
  · rw [hissued]
    exact h.released i ((hreleased i).mp hi)
  · rw [hdones, hruns]
    exact h.dones
  · rw [hfills, hruns]
    exact h.fills

/-- How the objects of a call that is held are given up. -/
inductive Log.Finish (log log' : Log) (i : ℕ) : Prop
  | deleted (hresponses : log'.responsesDeleted = log.responsesDeleted ++ [i])
      (hdones : log'.donesDeleted = log.donesDeleted ++ [i]) (hruns : log'.runs = log.runs)
      (hfills : log'.fills = log.fills)
  | run (msg : RpcMessage) (hid : msg.id = callId i) (hok : msg.error = .ok)
      (hresponses : log'.responsesDeleted = log.responsesDeleted ++ [i])
      (hdones : log'.donesDeleted = log.donesDeleted) (hruns : log'.runs = log.runs ++ [(i, msg)])
      (hfills : log'.fills = log.fills ++ [(i, msg.data)])

theorem Log.Finish.released {log log' : Log} {i : ℕ} (h : log.Finish log' i) (j : ℕ) :
    log'.Released j ↔ log.Released j ∨ j = i := by
  cases h with
  | deleted hresponses hdones hruns _ =>
    simp only [Log.Released, hresponses, hdones, hruns, List.mem_append, List.mem_singleton]
    tauto
  | run _ _ _ hresponses hdones hruns _ =>
    simp only [Log.Released, hresponses, hdones, hruns, List.map_append, List.mem_append,
      List.map_cons, List.map_nil, List.mem_singleton]
    tauto

theorem nodup_concat {l : List ℕ} {i : ℕ} (h : l.Nodup) (hi : i ∉ l) : (l ++ [i]).Nodup := by
  rw [← List.concat_eq_append]
  exact h.concat hi

/-- A held call ends: its objects are given up, for the first time. -/
theorem Routed.finish {s t : State} (h : Routed s) (hlive : s.destroyed = false) {i : ℕ}
    (hi : i < s.issued) (hfresh : ¬ s.log.Released i) (hseq : t.seq = s.seq)
    (hissued : t.issued = s.issued) (hlog : s.log.Finish t.log i)
    (hcallers : ∀ who x, t.callers who = some x → s.callers who = some x ∧ x.1.call ≠ i)
    (hmap : ∀ id data, t.callMap.lookup id = some data →
      s.callMap.lookup id = some data ∧ data.call ≠ i) : Routed t := by
  have hheld := h.held hlive
  have hreleased := hlog.released
  have hnew : i ∉ s.log.responsesDeleted ∧ i ∉ s.log.donesDeleted ++ s.log.runs.map Prod.fst := by
    simp only [Log.Released, not_or] at hfresh
    simp only [List.mem_append, not_or]
    exact hfresh
  refine ⟨by rw [hseq, hissued]; exact h.seq, fun _ => ⟨?_, ?_, ?_, ?_⟩, fun j hj => ?_, ?_, ?_, ?_,
    ?_⟩
  · intro who ticket stage hwho
    obtain ⟨hold, hne⟩ := hcallers who _ hwho
    obtain ⟨hid, hlt, hnot⟩ := hheld.caller who ticket stage hold
    rw [hissued, hreleased]
    exact ⟨hid, hlt, fun hr => hr.elim hnot hne⟩
  · intro who who' x x' hwho hwho'
    exact hheld.callers who who' x x' (hcallers who x hwho).1 (hcallers who' x' hwho').1
  · intro id data hdata
    obtain ⟨hold, hne⟩ := hmap id data hdata
    obtain ⟨hid, hlt, hnot⟩ := hheld.entry id data hold
    rw [hissued, hreleased]
    exact ⟨hid, hlt, fun hr => hr.elim hnot hne⟩
  · intro who x id data hwho hdata
    exact hheld.apart who x id data (hcallers who x hwho).1 (hmap id data hdata).1
  · rw [hissued]
    rcases (hreleased j).mp hj with hj | rfl
    · exact h.released j hj
    · exact hi
  · cases hlog with
    | deleted hresponses _ _ _ => exact hresponses ▸ nodup_concat h.responses hnew.1
    | run _ _ _ hresponses _ _ _ => exact hresponses ▸ nodup_concat h.responses hnew.1
  · have hnodup := nodup_concat h.dones hnew.2
    cases hlog with
    | deleted _ hdones hruns _ =>
      rw [hdones, hruns]
      refine (List.Perm.nodup_iff ?_).mpr hnodup
      rw [List.append_assoc, List.append_assoc]
      exact (List.perm_append_comm).append_left _
    | run _ _ _ _ hdones hruns _ =>
      rw [hdones, hruns, List.map_append, ← List.append_assoc]
      exact hnodup
  · cases hlog with
    | deleted _ _ hruns _ => exact hruns ▸ h.runs
    | run _ hid hok _ _ hruns _ =>
      rw [hruns]
      intro r hr
      rcases List.mem_append.mp hr with hr | hr
      · exact h.runs r hr
      · cases List.mem_singleton.mp hr
        exact ⟨hid, hok⟩
  · cases hlog with
    | deleted _ _ hruns hfills =>
      rw [hfills, hruns]
      exact h.fills
    | run msg _ _ _ _ hruns hfills =>
      rw [hfills, hruns]
      intro f hf
      rcases List.mem_append.mp hf with hf | hf
      · obtain ⟨msg', hmem, hdata⟩ := h.fills f hf
        exact ⟨msg', List.mem_append_left _ hmem, hdata⟩
      · cases List.mem_singleton.mp hf
        exact ⟨msg, List.mem_append_right _ (List.mem_singleton.mpr rfl), rfl⟩

theorem Routed.beginCall {s : State} (h : Routed s) (hlive : s.destroyed = false) (who : Caller) :
    Routed (s.beginCall who) := by
  have hheld := h.held hlive
  have hnext : s.seq + 1 = BitVec.ofNat 32 (s.issued + 1) := by
    rw [h.seq, BitVec.ofNat_add]
    rfl
  have hcases : ∀ who' x, (s.beginCall who).callers who' = some x →
      (who' = who ∧ x.1 = ⟨s.issued, s.seq + 1⟩) ∨ (who' ≠ who ∧ s.callers who' = some x) := by
    intro who' x hx
    exact (State.setCaller_some.mp hx).imp_left fun hnew => ⟨hnew.1, by rw [hnew.2]⟩
  have hlt : ∀ who' x, s.callers who' = some x → x.1.call < s.issued := fun who' x hx =>
    (hheld.caller who' x.1 x.2 hx).2.1
  refine ⟨hnext, fun _ => ⟨?_, ?_, ?_, ?_⟩, fun i hi => Nat.lt_succ_of_lt (h.released i hi),
    h.responses, h.dones, h.runs, h.fills⟩
  · intro who' ticket stage hwho
    rcases hcases who' _ hwho with ⟨_, hnew⟩ | ⟨_, hold⟩
    · dsimp only at hnew
      subst hnew
      exact ⟨hnext, Nat.lt_succ_self _, fun hr => Nat.lt_irrefl _ (h.released _ hr)⟩
    · obtain ⟨hid, hcall, hnot⟩ := hheld.caller who' ticket stage hold
      exact ⟨hid, Nat.lt_succ_of_lt hcall, hnot⟩
  · intro who₁ who₂ x₁ x₂ hwho₁ hwho₂ hsame
    rcases hcases who₁ x₁ hwho₁ with ⟨rfl, hnew₁⟩ | ⟨_, hold₁⟩ <;>
      rcases hcases who₂ x₂ hwho₂ with ⟨rfl, hnew₂⟩ | ⟨_, hold₂⟩
    · rfl
    · have hless := hlt who₂ x₂ hold₂
      rw [← hsame, hnew₁] at hless
      exact absurd hless (Nat.lt_irrefl _)
    · have hless := hlt who₁ x₁ hold₁
      rw [hsame, hnew₂] at hless
      exact absurd hless (Nat.lt_irrefl _)
    · exact hheld.callers who₁ who₂ x₁ x₂ hold₁ hold₂ hsame
  · intro id data hdata
    obtain ⟨hid, hcall, hnot⟩ := hheld.entry id data hdata
    exact ⟨hid, Nat.lt_succ_of_lt hcall, hnot⟩
  · intro who' x id data hwho hdata
    rcases hcases who' x hwho with ⟨_, hnew⟩ | ⟨_, hold⟩
    · rw [hnew]
      exact Nat.ne_of_lt (hheld.entry id data hdata).2.1
    · exact hheld.apart who' x id data hold hdata

/-- The objects pass from `CallMethod` to the map. -/
theorem Routed.register {s : State} (h : Routed s) (hlive : s.destroyed = false) {who : Caller}
    {ticket : Ticket} {stage : Stage} (hwho : s.callers who = some (ticket, stage))
    (timer : Option Addr) : Routed (s.register who ticket timer) := by
  have hheld := h.held hlive
  have hcallers : ∀ who' x, (s.register who ticket timer).callers who' = some x →
      s.callers who' = some x ∧ x.1.call ≠ ticket.call := fun who' x hx => hheld.leave hwho hx
  have hmap : ∀ id data, (s.register who ticket timer).callMap.lookup id = some data →
      (id = ticket.id ∧ data.call = ticket.call) ∨ s.callMap.lookup id = some data := by
    intro id data hdata
    simp only [State.register] at hdata
    by_cases heq : id = ticket.id
    · rw [heq, AList.lookup_insert] at hdata
      cases hdata
      exact .inl ⟨heq, rfl⟩
    · rw [AList.lookup_insert_ne heq] at hdata
      exact .inr hdata
  refine ⟨h.seq, fun _ => ⟨?_, ?_, ?_, ?_⟩, h.released, h.responses, h.dones, h.runs, h.fills⟩
  · intro who' ticket' stage' hwho'
    exact hheld.caller who' ticket' stage' (hcallers who' _ hwho').1
  · intro who₁ who₂ x₁ x₂ hwho₁ hwho₂
    exact hheld.callers who₁ who₂ x₁ x₂ (hcallers who₁ x₁ hwho₁).1 (hcallers who₂ x₂ hwho₂).1
  · intro id data hdata
    rcases hmap id data hdata with ⟨rfl, hcall⟩ | hold
    · rw [hcall]
      exact hheld.caller who ticket stage hwho
    · exact hheld.entry id data hold
  · intro who' x id data hwho' hdata
    obtain ⟨hold', hne⟩ := hcallers who' x hwho'
    rcases hmap id data hdata with ⟨_, hcall⟩ | hold
    · rw [hcall]
      exact hne.symm
    · exact hheld.apart who' x id data hold' hold

theorem State.foldl_removeTimer_eq (entries : List (Sigma fun _ : RpcId => CallData)) (s : State) :
    ∃ timers, entries.foldl (fun s entry => s.removeTimer entry.2.timer) s =
      { s with timers := timers } := by
  induction entries generalizing s with
  | nil => exact ⟨s.timers, rfl⟩
  | cons entry rest ih =>
    obtain ⟨timers, heq⟩ := s.removeTimer_eq entry.2.timer
    obtain ⟨timers', hrest⟩ := ih (s.removeTimer entry.2.timer)
    exact ⟨timers', by rw [List.foldl_cons, hrest, heq]⟩

/-- The destructor gives up what the map still holds. -/
theorem Routed.destroy {s : State} (h : Routed s) (hlive : s.destroyed = false) :
    Routed s.destroy := by
  have hheld := h.held hlive
  obtain ⟨timers, hfold⟩ := State.foldl_removeTimer_eq s.callMap.entries s
  set calls := s.callMap.entries.map fun entry => entry.2.call with hcalls
  have hmem : ∀ i ∈ calls, i < s.issued ∧ ¬ s.log.Released i := by
    intro i hi
    obtain ⟨⟨id, data⟩, hentry, rfl⟩ := List.mem_map.mp hi
    exact (hheld.entry id data (AList.mem_lookup_iff.mpr hentry)).2
  have hkeys : s.callMap.keys = calls.map callId := by
    rw [hcalls, List.map_map]
    refine List.map_congr_left fun entry hentry => ?_
    exact (hheld.entry entry.1 entry.2 (AList.mem_lookup_iff.mpr hentry)).1
  have hnodup : calls.Nodup := List.Nodup.of_map callId (hkeys ▸ s.callMap.keys_nodup)
  have hresponses : s.destroy.log.responsesDeleted = s.log.responsesDeleted ++ calls := by
    simp only [State.destroy, hfold, hcalls]
  have hdones : s.destroy.log.donesDeleted = s.log.donesDeleted ++ calls := by
    simp only [State.destroy, hfold, hcalls]
  have hruns : s.destroy.log.runs = s.log.runs := by simp only [State.destroy, hfold]
  have hfills : s.destroy.log.fills = s.log.fills := by simp only [State.destroy, hfold]
  have hissued : s.destroy.issued = s.issued := by simp only [State.destroy, hfold]
  refine
    { seq := ?seq
      held := fun hd => by simp [State.destroy] at hd
      released := fun i hi => ?released
      responses := ?responses
      dones := ?dones
      runs := ?runs
      fills := ?fills }
  case seq =>
    simp only [State.destroy, hfold]
    exact h.seq
  case released =>
    rw [hissued]
    simp only [Log.Released, hresponses, hdones, hruns, List.mem_append] at hi
    have hor : s.log.Released i ∨ i ∈ calls := by
      simp only [Log.Released]
      tauto
    exact hor.elim (h.released i) fun hc => (hmem i hc).1
  case responses =>
    rw [hresponses]
    refine List.nodup_append.mpr ⟨h.responses, hnodup, fun a ha b hb => ?_⟩
    rintro rfl
    exact (hmem a hb).2 (.inl ha)
  case dones =>
    rw [hdones, hruns]
    have hperm : (s.log.donesDeleted ++ calls ++ s.log.runs.map Prod.fst).Perm
        (s.log.donesDeleted ++ s.log.runs.map Prod.fst ++ calls) := by
      rw [List.append_assoc, List.append_assoc]
      exact List.perm_append_comm.append_left _
    refine hperm.nodup_iff.mpr (List.nodup_append.mpr ⟨h.dones, hnodup, fun a ha b hb => ?_⟩)
    rintro rfl
    exact (hmem a hb).2 (.inr (List.mem_append.mp ha))
  case runs =>
    exact hruns ▸ h.runs
  case fills =>
    rw [hfills, hruns]
    exact h.fills

/-- The entry under `id` leaves the map, and its call ends. -/
theorem Routed.take {s t : State} (h : Routed s) (hlive : s.destroyed = false) {id : RpcId}
    {data : CallData} (hfound : s.callMap.lookup id = some data) (hseq : t.seq = s.seq)
    (hissued : t.issued = s.issued) (hcallers : t.callers = s.callers)
    (hmap : t.callMap = s.callMap.erase id) (hlog : s.log.Finish t.log data.call) : Routed t := by
  have hheld := h.held hlive
  obtain ⟨_, hlt, hnot⟩ := hheld.entry id data hfound
  refine h.finish hlive hlt hnot hseq hissued hlog (fun who x hx => ?_) fun id' data' hdata' => ?_
  · rw [hcallers] at hx
    exact ⟨hx, fun hsame => hheld.apart who x id data hx hfound hsame.symm⟩
  · rw [hmap] at hdata'
    obtain ⟨hne, hold⟩ := lookup_erase_iff.mp hdata'
    exact ⟨hold, fun hsame => hne (hheld.id_unique hfound hold hsame)⟩

theorem Routed.onKnown {s : State} (h : Routed s) (hlive : s.destroyed = false) {msg : RpcMessage}
    {data : CallData} (hfound : s.callMap.lookup msg.id = some data) :
    Routed ({ s with callMap := s.callMap.erase msg.id }.onKnown msg data) := by
  have hid := ((h.held hlive).entry msg.id data hfound).1
  by_cases hok : msg.error = .ok
  · refine h.take hlive hfound ?_ ?_ ?_ ?_ (.run msg hid hok ?_ ?_ ?_ ?_) <;>
      simp [State.onKnown, hok]
  · refine h.take hlive hfound ?_ ?_ ?_ ?_ (.deleted ?_ ?_ ?_ ?_) <;> simp [State.onKnown, hok]

theorem Routed.onTimeout {s : State} (h : Routed s) (hlive : s.destroyed = false) (addr : Addr)
    (timer : Timer) : Routed (s.onTimeout addr timer) := by
  cases hfound : s.callMap.lookup timer.id with
  | none =>
    refine h.frame hlive ?_ ?_ ?_ (fun who ticket stage hwho => ⟨stage, ?_⟩) fun id data hdata => ?_
    · simp [State.onTimeout, hfound]
    · simp [State.onTimeout, hfound]
    · simp [State.onTimeout, hfound, Log.objects]
    · simpa [State.onTimeout, hfound] using hwho
    · simpa [State.onTimeout, hfound] using hdata
  | some data =>
    refine h.take hlive hfound ?_ ?_ ?_ ?_ (.deleted ?_ ?_ ?_ ?_) <;> simp [State.onTimeout, hfound]

/-- A caller that moves on keeps its ticket. -/
theorem State.setCaller_ticket {s : State} {who : Caller} {ticket : Ticket} {stage stage' : Stage}
    (hwho : s.callers who = some (ticket, stage)) (who' : Caller) (ticket' : Ticket) (st : Stage)
    (h : (s.setCaller who (some (ticket, stage'))).callers who' = some (ticket', st)) :
    ∃ st', s.callers who' = some (ticket', st') := by
  rcases State.setCaller_some.mp h with ⟨rfl, hnew⟩ | ⟨_, hold⟩
  · cases hnew
    exact ⟨stage, hwho⟩
  · exact ⟨st, hold⟩

theorem Routed.step {s t : State} {a : Label} (h : Routed s) (hlive : s.destroyed = false)
    (hstep : Step s a t) : Routed t := by
  cases hstep with
  | setTimeout on =>
    exact h.frame hlive rfl rfl rfl (fun _ _ stage hwho => ⟨stage, hwho⟩) fun _ _ hdata => hdata
  | beginCall _ => exact h.beginCall hlive _
  | sent hwho =>
    exact h.frame hlive rfl rfl rfl (State.setCaller_ticket hwho) fun _ _ hdata => hdata
  | @unsent who ticket hwho =>
    obtain ⟨_, hlt, hnot⟩ := (h.held hlive).caller who ticket .send hwho
    exact h.finish hlive hlt hnot rfl rfl (.deleted rfl rfl rfl rfl)
      (fun _ _ hx => (h.held hlive).leave hwho hx)
      fun id data hdata => ⟨hdata, (h.held hlive).apart who (ticket, .send) id data hwho hdata⟩
  | armed hwho _ _ =>
    exact h.frame hlive rfl rfl rfl (State.setCaller_ticket hwho) fun _ _ hdata => hdata
  | notArmed hwho =>
    exact h.frame hlive rfl rfl rfl (State.setCaller_ticket hwho) fun _ _ hdata => hdata
  | register hwho => exact h.register hlive hwho _
  | insertInLoop _ =>
    exact h.frame hlive rfl rfl rfl (fun _ _ stage hwho => ⟨stage, hwho⟩) fun _ _ hdata => hdata
  | known _ hfound => exact h.onKnown hlive hfound
  | unknown _ _ =>
    exact h.frame hlive rfl rfl rfl (fun _ _ stage hwho => ⟨stage, hwho⟩) fun _ _ hdata => hdata
  | onTimeout _ _ => exact h.onTimeout hlive _ _
  | destroy => exact h.destroy hlive

theorem routed_of_reachable {s : State} (hs : machine.Reachable s) : Routed s :=
  Machine.Reachable.invariant (M := machine) routed_create
    (fun _ _ _ _ h ha => h.step (step_of_next ha).1 (step_of_next ha).2) hs

/-- In every run of fewer than 2^32 calls, whatever the server sends: `done` of a
call is run at most once, by a response without error under the id of this call
and no other; its response object is filled from the data of that message; both
objects are released at most once. -/
theorem responses_routed (s : State) (hs : machine.Reachable s) (hcalls : s.issued < 2 ^ 32) :
    (∀ i, (s.log.runs.map Prod.fst).count i ≤ 1) ∧
      (∀ r ∈ s.log.runs, r.2.error = .ok ∧ r.1 < s.issued ∧
        ∀ j < s.issued, r.2.id = callId j ↔ j = r.1) ∧
      (∀ f ∈ s.log.fills, ∃ msg, (f.1, msg) ∈ s.log.runs ∧ f.2 = msg.data) ∧
      (∀ i, s.log.responsesDeleted.count i ≤ 1) ∧
      ∀ i, (s.log.donesDeleted ++ s.log.runs.map Prod.fst).count i ≤ 1 := by
  have h := routed_of_reachable hs
  have hruns : (s.log.runs.map Prod.fst).Nodup := (List.nodup_append.mp h.dones).2.1
  refine ⟨List.nodup_iff_count_le_one.mp hruns, fun r hr => ?_, h.fills,
    List.nodup_iff_count_le_one.mp h.responses, List.nodup_iff_count_le_one.mp h.dones⟩
  obtain ⟨hid, hok⟩ := h.runs r hr
  have hlt : r.1 < s.issued := h.released r.1 (.inr (.inr (List.mem_map_of_mem hr)))
  refine ⟨hok, hlt, fun j hj => ?_⟩
  rw [hid]
  constructor
  · intro hsame
    exact (callId_injective (by omega) (by omega) hsame).symm
  · rintro rfl
    rfl

/-- `CallMethod` on another thread, undisturbed. -/
def callMethod (t : ThreadId) (addr : Addr) : List Label :=
  [.beginCall (.thread t), .send (.thread t) true, .runAfter (.thread t) addr,
    .register (.thread t)]

def response (id : RpcId) : RpcMessage := ⟨id, "", "", [7], .ok⟩

/-- The server answers twice, and once under an id it made up. -/
theorem responses_routed_duplicate :
    ∃ s, machine.Reachable s ∧ s.issued < 2 ^ 32 ∧ s.log.runs = [(0, response 1)] ∧
      (∀ r ∈ s.log.runs, r.2.error = .ok ∧ r.1 < s.issued ∧
        ∀ j < s.issued, r.2.id = callId j ↔ j = r.1) ∧
      ∀ i, s.log.responsesDeleted.count i ≤ 1 := by
  obtain ⟨s, hs, hissued, hruns⟩ := Machine.exists_reachable_of_run (M := machine)
    ([.setTimeout true] ++ callMethod 0 0 ++ [.insertInLoop, .onResponse (response 1),
      .onResponse (response 1), .onResponse (response 9)])
    (fun s => s.issued < 2 ^ 32 ∧ s.log.runs = [(0, response 1)]) (by decide)
  have hrouted := responses_routed s hs hissued
  exact ⟨s, hs, hissued, hruns, hrouted.2.1, hrouted.2.2.2.1⟩

end Voyager.RpcChannel
