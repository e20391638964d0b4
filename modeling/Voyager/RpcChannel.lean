import Voyager.RpcServer
import Mathlib.Data.List.AList
import Mathlib.Algebra.Group.Nat.Defs

/-!
`RpcChannel` of rpc/rpc_channel.h and rpc/rpc_channel.cc, with the part of
core/timerlist.cc it rests on. `CallMethod` may be called on any thread; its
steps are apart, so that the loop thread, which executes responses, timeouts and
queued timer insertions, comes in between. A server may send anything. Calls are
numbered in the order of `++seq_`; `response` and `done` of a call are not null,
and `done` deletes itself when it is run.
-/
namespace Voyager.RpcChannel

open Lib.Runs

abbrev ThreadId := ℕ
abbrev Addr := ℕ

/-- Who is in `CallMethod`: the loop thread or another one. -/
inductive Caller
  | loop
  | thread (t : ThreadId)
deriving DecidableEq, Repr

/-- A call in `CallMethod`, with its local variable `id`. -/
structure Ticket where
  call : ℕ
  id : RpcId
deriving DecidableEq, Repr

/-- Where a caller stands: before `SendMessage`, before `RunAfter`, or before the
registration, with the address of its timer if it has one. -/
inductive Stage
  | send
  | arm
  | register (timer : Option Addr)
deriving DecidableEq, Repr

/-- An entry of `call_map_`: the objects of call number `call`, and its timer. -/
structure CallData where
  call : ℕ
  timer : Option Addr
deriving DecidableEq, Repr

/-- A `Timer` on the heap that will call `OnTimeout(id)`; `inserted` says whether
it is in `timer_ptrs_` already. -/
structure Timer where
  call : ℕ
  id : RpcId
  inserted : Bool
deriving DecidableEq, Repr

/-- How a call ends for its user: `done` is run, or `error_cb_` is called. -/
inductive Outcome
  | completed
  | failed (error : ErrorCode)
  | timedOut
  | unsent
deriving DecidableEq, Repr

/-- A response whose id is not in `call_map_`: the call that had been sent under
this id, and whether it had ended by then. -/
structure Discard where
  call : Option ℕ
  ended : Bool
deriving DecidableEq, Repr

/-- The history, which influences nothing. `answered` are the calls for which a
response or a timeout was processed. -/
structure Log where
  sent : List Ticket
  registered : List ℕ
  answered : List ℕ
  runs : List (ℕ × RpcMessage)
  fills : List (ℕ × List Byte)
  responsesDeleted : List ℕ
  donesDeleted : List ℕ
  outcomes : List (ℕ × Outcome)
  discards : List Discard
deriving DecidableEq, Repr

/-- `inserting` are the timers whose `InsertInLoop` waits in the queue of the loop. -/
structure State where
  hasTimeout : Bool
  seq : RpcId
  issued : ℕ
  callers : Caller → Option (Ticket × Stage)
  callMap : AList fun _ : RpcId => CallData
  timers : Addr → Option Timer
  inserting : List Addr
  destroyed : Bool
  log : Log

namespace State

def create : State where
  hasTimeout := false
  seq := 0
  issued := 0
  callers _ := none
  callMap := ∅
  timers _ := none
  inserting := []
  destroyed := false
  log := ⟨[], [], [], [], [], [], [], [], []⟩

def setCaller (s : State) (who : Caller) (place : Option (Ticket × Stage)) : State :=
  { s with callers := Function.update s.callers who place }

/-- `int id = ++seq_` -/
def beginCall (s : State) (who : Caller) : State :=
  { s.setCaller who (some (⟨s.issued, s.seq + 1⟩, .send)) with
    seq := s.seq + 1
    issued := s.issued + 1 }

/-- `SendMessage` succeeds, or the call ends with `ERROR_CODE_UNKNOWN`. -/
def send (s : State) (who : Caller) (ticket : Ticket) (ok : Bool) : State :=
  if ok then
    { s.setCaller who (some (ticket, .arm)) with
      log := { s.log with sent := s.log.sent ++ [ticket] } }
  else
    { s.setCaller who none with
      log := { s.log with
        outcomes := s.log.outcomes ++ [(ticket.call, .unsent)]
        responsesDeleted := s.log.responsesDeleted ++ [ticket.call]
        donesDeleted := s.log.donesDeleted ++ [ticket.call] } }

/-- `RunAfter`: `new Timer` returns an address that is not in use; the insertion
is executed at once on the loop thread and queued on another one. -/
def runAfter (s : State) (who : Caller) (ticket : Ticket) (addr : Addr) : Option State :=
  if s.hasTimeout then
    match s.timers addr with
    | none =>
      let inserted := decide (who = .loop)
      some { s.setCaller who (some (ticket, .register (some addr))) with
        timers := Function.update s.timers addr (some ⟨ticket.call, ticket.id, inserted⟩)
        inserting := if inserted then s.inserting else s.inserting ++ [addr] }
    | some _ => none
  else some (s.setCaller who (some (ticket, .register none)))

/-- `call_map_[id] = CallData(response, done, t)` -/
def register (s : State) (who : Caller) (ticket : Ticket) (timer : Option Addr) : State :=
  { s.setCaller who none with
    callMap := s.callMap.insert ticket.id ⟨ticket.call, timer⟩
    log := { s.log with registered := s.log.registered ++ [ticket.call] } }

/-- `InsertInLoop` -/
def insertInLoop (s : State) (addr : Addr) (rest : List Addr) : State :=
  { s with
    timers := Function.update s.timers addr
      ((s.timers addr).map fun timer => { timer with inserted := true })
    inserting := rest }

/-- `RemoveTimer` on the loop thread: only a timer in `timer_ptrs_` is deleted. -/
def removeTimer (s : State) (timer : Option Addr) : State :=
  match timer with
  | none => s
  | some addr =>
    match s.timers addr with
    | some ⟨_, _, true⟩ => { s with timers := Function.update s.timers addr none }
    | _ => s

/-- The call that was sent under an id. -/
def callOf (s : State) (id : RpcId) : Option ℕ :=
  (s.log.sent.find? fun ticket => ticket.id = id).map Ticket.call

def hasEnded (s : State) (call : Option ℕ) : Bool :=
  call.any fun i => s.log.outcomes.any fun o => o.1 = i

/-- `OnResponse` for an id that is not in the map. `error_cb_` is called all the
same, on account of the call that was sent under it. -/
def onUnknown (s : State) (msg : RpcMessage) : State :=
  let call := s.callOf msg.id
  { s with log := { s.log with
      answered := s.log.answered ++ call.toList
      discards := s.log.discards ++ [⟨call, s.hasEnded call⟩]
      outcomes := if msg.error = .ok then s.log.outcomes
        else s.log.outcomes ++ (call.map fun i => (i, Outcome.failed msg.error)).toList } }

/-- `OnResponse` once the entry has been taken out of the map. -/
def onKnown (s : State) (msg : RpcMessage) (data : CallData) : State :=
  let s := s.removeTimer data.timer
  if msg.error = .ok then
    { s with log := { s.log with
        answered := s.log.answered ++ [data.call]
        fills := s.log.fills ++ [(data.call, msg.data)]
        runs := s.log.runs ++ [(data.call, msg)]
        outcomes := s.log.outcomes ++ [(data.call, .completed)]
        responsesDeleted := s.log.responsesDeleted ++ [data.call] } }
  else
    { s with log := { s.log with
        answered := s.log.answered ++ [data.call]
        outcomes := s.log.outcomes ++ [(data.call, .failed msg.error)]
        donesDeleted := s.log.donesDeleted ++ [data.call]
        responsesDeleted := s.log.responsesDeleted ++ [data.call] } }

def onResponse (s : State) (msg : RpcMessage) : State :=
  match s.callMap.lookup msg.id with
  | some data => { s with callMap := s.callMap.erase msg.id }.onKnown msg data
  | none => s.onUnknown msg

/-- `RunTimerProcs` deletes the timer and calls `OnTimeout`, which reports the
timeout whether or not it finds the call. -/
def onTimeout (s : State) (addr : Addr) (timer : Timer) : State :=
  let s := { s with timers := Function.update s.timers addr none }
  let s := match s.callMap.lookup timer.id with
    | some data =>
      { s with
        callMap := s.callMap.erase timer.id
        log := { s.log with
          responsesDeleted := s.log.responsesDeleted ++ [data.call]
          donesDeleted := s.log.donesDeleted ++ [data.call] } }
    | none => s
  { s with log := { s.log with
      answered := s.log.answered ++ [timer.call]
      outcomes := s.log.outcomes ++ [(timer.call, .timedOut)] } }

/-- The destructor. -/
def destroy (s : State) : State :=
  let calls := s.callMap.entries.map fun entry => entry.2.call
  let s := s.callMap.entries.foldl (fun s entry => s.removeTimer entry.2.timer) s
  { s with
    destroyed := true
    log := { s.log with
      responsesDeleted := s.log.responsesDeleted ++ calls
      donesDeleted := s.log.donesDeleted ++ calls } }

end State

inductive Label
  | setTimeout (on : Bool)
  | beginCall (who : Caller)
  | send (who : Caller) (ok : Bool)
  | runAfter (who : Caller) (addr : Addr)
  | register (who : Caller)
  | insertInLoop
  | onResponse (msg : RpcMessage)
  | onTimeout (addr : Addr)
  | destroy

/-- One step of a caller or of the loop thread, which does nothing else while it is
in `CallMethod` itself. Nothing is called after the destructor. -/
def next (s : State) (a : Label) : Option State :=
  if s.destroyed then none
  else
    match a with
    | .setTimeout on => some { s with hasTimeout := on }
    | .beginCall who => if (s.callers who).isNone then some (s.beginCall who) else none
    | .send who ok =>
      match s.callers who with
      | some (ticket, .send) => some (s.send who ticket ok)
      | _ => none
    | .runAfter who addr =>
      match s.callers who with
      | some (ticket, .arm) => s.runAfter who ticket addr
      | _ => none
    | .register who =>
      match s.callers who with
      | some (ticket, .register timer) => some (s.register who ticket timer)
      | _ => none
    | .insertInLoop =>
      match s.callers .loop, s.inserting with
      | none, addr :: rest => some (s.insertInLoop addr rest)
      | _, _ => none
    | .onResponse msg => if (s.callers .loop).isNone then some (s.onResponse msg) else none
    | .onTimeout addr =>
      match s.callers .loop, s.timers addr with
      | none, some ⟨call, id, true⟩ => some (s.onTimeout addr ⟨call, id, true⟩)
      | _, _ => none
    | .destroy => some s.destroy

def machine : Machine State Label := ⟨State.create, next⟩

/-- All that a step can do, with its guards. -/
inductive Step (s : State) : Label → State → Prop
  | setTimeout (on : Bool) : Step s (.setTimeout on) { s with hasTimeout := on }
  | beginCall {who : Caller} (hidle : s.callers who = none) :
      Step s (.beginCall who) (s.beginCall who)
  | sent {who : Caller} {ticket : Ticket} (hwho : s.callers who = some (ticket, .send)) :
      Step s (.send who true) (s.send who ticket true)
  | unsent {who : Caller} {ticket : Ticket} (hwho : s.callers who = some (ticket, .send)) :
      Step s (.send who false) (s.send who ticket false)
  | armed {who : Caller} {ticket : Ticket} {addr : Addr} {inserting : List Addr}
      (hwho : s.callers who = some (ticket, .arm)) (hfree : s.timers addr = none)
      (hinserting : (who = .loop ∧ inserting = s.inserting) ∨
        inserting = s.inserting ++ [addr]) :
      Step s (.runAfter who addr)
        { s.setCaller who (some (ticket, .register (some addr))) with
          timers := Function.update s.timers addr
            (some ⟨ticket.call, ticket.id, decide (who = .loop)⟩)
          inserting := inserting }
  | notArmed {who : Caller} {ticket : Ticket} {addr : Addr}
      (hwho : s.callers who = some (ticket, .arm)) :
      Step s (.runAfter who addr) (s.setCaller who (some (ticket, .register none)))
  | register {who : Caller} {ticket : Ticket} {timer : Option Addr}
      (hwho : s.callers who = some (ticket, .register timer)) :
      Step s (.register who) (s.register who ticket timer)
  | insertInLoop {addr : Addr} {rest : List Addr} (hfirst : s.inserting = addr :: rest) :
      Step s .insertInLoop (s.insertInLoop addr rest)
  | known {msg : RpcMessage} {data : CallData} (hloop : s.callers .loop = none)
      (hfound : s.callMap.lookup msg.id = some data) :
      Step s (.onResponse msg) ({ s with callMap := s.callMap.erase msg.id }.onKnown msg data)
  | unknown {msg : RpcMessage} (hloop : s.callers .loop = none)
      (hfound : s.callMap.lookup msg.id = none) : Step s (.onResponse msg) (s.onUnknown msg)
  | onTimeout {addr : Addr} {timer : Timer} (hloop : s.callers .loop = none)
      (htimer : s.timers addr = some timer) : Step s (.onTimeout addr) (s.onTimeout addr timer)
  | destroy : Step s .destroy s.destroy

theorem step_of_next {s t : State} {a : Label} (ha : next s a = some t) :
    s.destroyed = false ∧ Step s a t := by
  unfold next at ha
  split at ha
  · cases ha
  rename_i hlive
  refine ⟨by simpa using hlive, ?_⟩
  cases a with
  | setTimeout on =>
    cases ha
    exact .setTimeout on
  | beginCall who =>
    dsimp only at ha
    split at ha
    · rename_i hidle
      cases ha
      exact .beginCall (Option.isNone_iff_eq_none.mp hidle)
    · cases ha
  | send who ok =>
    dsimp only at ha
    split at ha
    · cases ha
      cases ok with
      | true => exact .sent ‹_›
      | false => exact .unsent ‹_›
    · cases ha
  | runAfter who addr =>
    dsimp only at ha
    split at ha
    · simp only [State.runAfter] at ha
      split at ha
      · split at ha
        · cases ha
          refine .armed ‹_› ‹_› ?_
          by_cases hwho : who = .loop
          · exact .inl ⟨hwho, by simp [hwho]⟩
          · exact .inr (by simp [hwho])
        · cases ha
      · cases ha
        exact .notArmed ‹_›
    · cases ha
  | register who =>
    dsimp only at ha
    split at ha
    · cases ha
      exact .register ‹_›
    · cases ha
  | insertInLoop =>
    dsimp only at ha
    split at ha
    · cases ha
      exact .insertInLoop ‹_›
    · cases ha
  | onResponse msg =>
    dsimp only at ha
    split at ha
    · rename_i hloop
      cases ha
      have hnone := Option.isNone_iff_eq_none.mp hloop
      cases hfound : s.callMap.lookup msg.id with
      | none =>
        simp only [State.onResponse, hfound]
        exact .unknown hnone hfound
      | some data =>
        simp only [State.onResponse, hfound]
        exact .known hnone hfound
    · cases ha
  | onTimeout addr =>
    dsimp only at ha
    split at ha
    · cases ha
      exact .onTimeout ‹_› ‹_›
    · cases ha
  | destroy =>
    cases ha
    exact .destroy

/-- The id of the call number `i`. -/
def callId (i : ℕ) : RpcId := BitVec.ofNat 32 (i + 1)

theorem callId_injective {i j : ℕ} (hi : i < 2 ^ 32) (hj : j < 2 ^ 32) (h : callId i = callId j) :
    i = j := by
  have hmod := congrArg BitVec.toNat h
  simp only [callId, BitVec.toNat_ofNat] at hmod
  omega

section Callers

variable {s : State} {who who' : Caller} {x y : Ticket × Stage}

theorem State.setCaller_some : (s.setCaller who (some y)).callers who' = some x ↔
    (who' = who ∧ x = y) ∨ (who' ≠ who ∧ s.callers who' = some x) := by
  simp only [State.setCaller]
  by_cases heq : who' = who
  · rw [heq, Function.update_self]
    simp [eq_comm]
  · simp [heq]

theorem State.setCaller_none : (s.setCaller who none).callers who' = some x ↔
    who' ≠ who ∧ s.callers who' = some x := by
  simp only [State.setCaller]
  by_cases heq : who' = who
  · simp [heq]
  · simp [heq]

end Callers

theorem lookup_erase_iff {m : AList fun _ : RpcId => CallData} {id id' : RpcId} {data : CallData} :
    (m.erase id).lookup id' = some data ↔ id' ≠ id ∧ m.lookup id' = some data := by
  by_cases heq : id' = id
  · rw [heq, AList.lookup_erase]
    simp
  · rw [AList.lookup_erase_ne heq]
    simp [heq]

section RemoveTimer

variable (s : State) (timer : Option Addr)

/-- `RemoveTimer` touches nothing but the timers. -/
theorem State.removeTimer_eq : ∃ timers, s.removeTimer timer = { s with timers := timers } := by
  unfold State.removeTimer
  split
  · exact ⟨s.timers, rfl⟩
  · split
    · exact ⟨_, rfl⟩
    · exact ⟨s.timers, rfl⟩

@[simp] theorem State.removeTimer_callers : (s.removeTimer timer).callers = s.callers := by
  obtain ⟨timers, heq⟩ := s.removeTimer_eq timer
  rw [heq]

@[simp] theorem State.removeTimer_callMap : (s.removeTimer timer).callMap = s.callMap := by
  obtain ⟨timers, heq⟩ := s.removeTimer_eq timer
  rw [heq]

@[simp] theorem State.removeTimer_log : (s.removeTimer timer).log = s.log := by
  obtain ⟨timers, heq⟩ := s.removeTimer_eq timer
  rw [heq]

@[simp] theorem State.removeTimer_issued : (s.removeTimer timer).issued = s.issued := by
  obtain ⟨timers, heq⟩ := s.removeTimer_eq timer
  rw [heq]

@[simp] theorem State.removeTimer_seq : (s.removeTimer timer).seq = s.seq := by
  obtain ⟨timers, heq⟩ := s.removeTimer_eq timer
  rw [heq]

end RemoveTimer

end Voyager.RpcChannel
