import Voyager.Lib.Runs
import Voyager.Buffer
import Mathlib.Data.List.Nodup

/-!
rpc/rpc.proto, and `RpcServer` of rpc/rpc_server.h and rpc/rpc_server.cc. The
server keeps the id of a request in a heap cell that the context slot of the
connection points to, and reads it back when the service is done. The services
are generated code: which names they know, which data their requests parse
from, what they answer and when they run `done` is up to the labels. While at most
one accepted request of each connection is unanswered, every answer carries the
id of its request; a second one overwrites the slot.
-/
namespace Voyager

open Lib.Runs

inductive ErrorCode
  | ok
  | timeout
  | invalidService
  | invalidMethod
  | invalidRequest
  | unknown
deriving DecidableEq, Repr

/-- The `int32` of `RpcMessage`. -/
abbrev RpcId := BitVec 32

structure RpcMessage where
  id : RpcId
  serviceName : String
  methodName : String
  data : List Byte
  error : ErrorCode
deriving DecidableEq, Repr

namespace RpcServer

abbrev ConnId := ℕ
abbrev Addr := ℕ

/-- Whether the request prototype of the method parses the data. -/
structure Method where
  parseFromString : List Byte → Bool

structure Service where
  findMethodByName : String → Option Method

/-- An accepted request: `CallMethod` was called for it. -/
structure Call where
  conn : ConnId
  id : RpcId
deriving DecidableEq, Repr

/-- A message given to the codec, and the call whose response it contains. -/
structure Reply where
  conn : ConnId
  msg : RpcMessage
  call : Option ℕ
deriving DecidableEq, Repr

/-- `cells` are the live `int`s on the heap. Accepted requests are numbered;
`pending` lists those whose `done` has not been run. -/
structure State where
  services : String → Option Service
  cells : Addr → Option RpcId
  context : ConnId → Option Addr
  calls : List Call
  pending : List ℕ
  replies : List Reply

namespace State

def create : State where
  services _ := none
  cells _ := none
  context _ := none
  calls := []
  pending := []
  replies := []

def registerService (s : State) (fullName : String) (service : Service) : State :=
  { s with services := Function.update s.services fullName (some service) }

/-- The `error` that `OnRequest` computes. -/
def error (s : State) (msg : RpcMessage) : ErrorCode :=
  match s.services msg.serviceName with
  | none => .invalidService
  | some service =>
    match service.findMethodByName msg.methodName with
    | none => .invalidMethod
    | some method => if method.parseFromString msg.data then .ok else .invalidRequest

/-- `new int` returns any address that is not in use. -/
def onRequest (s : State) (p : ConnId) (msg : RpcMessage) (addr : Addr) : Option State :=
  match s.error msg with
  | .ok =>
    match s.cells addr with
    | none =>
      some { s with
        cells := Function.update s.cells addr (some msg.id)
        context := Function.update s.context p (some addr)
        calls := s.calls ++ [⟨p, msg.id⟩]
        pending := s.pending ++ [s.calls.length] }
    | some _ => none
  | error => some { s with replies := s.replies ++ [⟨p, ⟨msg.id, "", "", [], error⟩, none⟩] }

/-- What `*id` reads: anything, if the pointer is null or the cell is gone. -/
def readContext (s : State) (p : ConnId) (garbage : RpcId) : RpcId :=
  match s.context p with
  | some addr => (s.cells addr).getD garbage
  | none => garbage

/-- `delete id` -/
def deleteContext (s : State) (p : ConnId) : Addr → Option RpcId :=
  match s.context p with
  | some addr => Function.update s.cells addr none
  | none => s.cells

/-- `Done` for the call number `k`, whose response serializes to `data`. -/
def done (s : State) (k : ℕ) (data : List Byte) (garbage : RpcId) : Option State :=
  match s.calls[k]? with
  | some call =>
    if k ∈ s.pending then
      some { s with
        replies := s.replies ++
          [⟨call.conn, ⟨s.readContext call.conn garbage, "", "", data, .ok⟩, some k⟩]
        cells := s.deleteContext call.conn
        pending := s.pending.erase k }
    else none
  | none => none

theorem deleteContext_of_ne (s : State) (p : ConnId) {addr : Addr} (h : s.context p ≠ some addr) :
    s.deleteContext p addr = s.cells addr := by
  unfold deleteContext
  cases hp : s.context p with
  | none => rfl
  | some addr' =>
    have hne : addr ≠ addr' := by
      rintro rfl
      exact h hp
    exact Function.update_of_ne hne _ _

end State

inductive Label
  | registerService (fullName : String) (service : Service)
  | onRequest (p : ConnId) (msg : RpcMessage) (addr : Addr)
  | done (k : ℕ) (data : List Byte) (garbage : RpcId)

def next (s : State) : Label → Option State
  | .registerService fullName service => some (s.registerService fullName service)
  | .onRequest p msg addr => s.onRequest p msg addr
  | .done k data garbage => s.done k data garbage

def machine : Machine State Label := ⟨State.create, next⟩

/-- All that a step can do, with its guards. -/
inductive Step (s : State) : Label → State → Prop
  | registerService (fullName : String) (service : Service) :
      Step s (.registerService fullName service) (s.registerService fullName service)
  | accept {p : ConnId} {msg : RpcMessage} {addr : Addr} (herror : s.error msg = .ok)
      (hfree : s.cells addr = none) :
      Step s (.onRequest p msg addr)
        { s with
          cells := Function.update s.cells addr (some msg.id)
          context := Function.update s.context p (some addr)
          calls := s.calls ++ [⟨p, msg.id⟩]
          pending := s.pending ++ [s.calls.length] }
  | reject {p : ConnId} {msg : RpcMessage} {addr : Addr} {reply : RpcMessage} :
      Step s (.onRequest p msg addr) { s with replies := s.replies ++ [⟨p, reply, none⟩] }
  | done {k : ℕ} {data : List Byte} {garbage : RpcId} {call : Call}
      (hcall : s.calls[k]? = some call) (hk : k ∈ s.pending) :
      Step s (.done k data garbage)
        { s with
          replies := s.replies ++
            [⟨call.conn, ⟨s.readContext call.conn garbage, "", "", data, .ok⟩, some k⟩]
          cells := s.deleteContext call.conn
          pending := s.pending.erase k }

theorem step_of_next {s t : State} {a : Label} (ha : next s a = some t) : Step s a t := by
  cases a with
  | registerService fullName service =>
    cases ha
    exact .registerService fullName service
  | onRequest p msg addr =>
    simp only [next, State.onRequest] at ha
    split at ha
    · rename_i herror
      split at ha
      · rename_i hfree
        cases ha
        exact .accept herror hfree
      · cases ha
    · cases ha
      exact .reject
  | done k data garbage =>
    simp only [next, State.done] at ha
    split at ha
    · rename_i call hcall
      split at ha
      · rename_i hk
        cases ha
        exact .done hcall hk
      · cases ha
    · cases ha

/-- A request is accepted on a connection only when no earlier one is pending there. -/
def OneAtATime (s : State) : Label → Prop
  | .onRequest p msg _ =>
    s.error msg = .ok → ∀ k ∈ s.pending, (s.calls[k]?).map Call.conn ≠ some p
  | _ => True

instance (s : State) (a : Label) : Decidable (OneAtATime s a) := by
  unfold OneAtATime
  split <;> infer_instance

structure Answering (s : State) : Prop where
  known : ∀ k ∈ s.pending, k < s.calls.length
  nodup : s.pending.Nodup
  slot : ∀ k ∈ s.pending, ∀ call, s.calls[k]? = some call →
    ∃ addr, s.context call.conn = some addr ∧ s.cells addr = some call.id
  alone : ∀ k ∈ s.pending, ∀ k' ∈ s.pending, ∀ call call', s.calls[k]? = some call →
    s.calls[k']? = some call' → s.context call.conn = s.context call'.conn → k = k'
  replies : ∀ r ∈ s.replies, ∀ k, r.call = some k →
    ∃ call, s.calls[k]? = some call ∧ r.conn = call.conn ∧ r.msg.id = call.id
  count : ∀ k < s.calls.length,
    s.replies.countP (fun r => r.call = some k) = if k ∈ s.pending then 0 else 1

theorem answering_create : Answering State.create where
  known k hk := by cases hk
  nodup := List.nodup_nil
  slot k hk := by cases hk
  alone k hk := by cases hk
  replies r hr := by cases hr
  count k hk := absurd hk (Nat.not_lt_zero k)

/-- A call that is pending behind a new one is the new one, or an earlier one with another slot. -/
theorem Answering.accept_cases {s : State} (h : Answering s) {p : ConnId} {id : RpcId} {addr : Addr}
    (hfree : s.cells addr = none)
    (halone : ∀ k ∈ s.pending, (s.calls[k]?).map Call.conn ≠ some p) {k : ℕ} {call : Call}
    (hk : k ∈ s.pending ++ [s.calls.length])
    (hcall : (s.calls ++ [⟨p, id⟩])[k]? = some call) :
    (k = s.calls.length ∧ call = ⟨p, id⟩) ∨
    (k ∈ s.pending ∧ s.calls[k]? = some call ∧ call.conn ≠ p ∧
      ∃ a, s.context call.conn = some a ∧ s.cells a = some call.id ∧ a ≠ addr) := by
  rcases List.mem_append.mp hk with hk | hk
  · rw [List.getElem?_append_left (h.known k hk)] at hcall
    obtain ⟨a, hcontext, hcell⟩ := h.slot k hk call hcall
    have hconn : call.conn ≠ p := fun heq => halone k hk (by rw [hcall, ← heq]; rfl)
    refine .inr ⟨hk, hcall, hconn, a, hcontext, hcell, ?_⟩
    rintro rfl
    rw [hfree] at hcell
    cases hcell
  · obtain rfl := List.mem_singleton.mp hk
    rw [List.getElem?_concat_length] at hcall
    exact .inl ⟨rfl, (Option.some.inj hcall).symm⟩

theorem Answering.accept {s : State} (h : Answering s) {p : ConnId} {id : RpcId} {addr : Addr}
    (hfree : s.cells addr = none)
    (halone : ∀ k ∈ s.pending, (s.calls[k]?).map Call.conn ≠ some p) :
    Answering { s with
      cells := Function.update s.cells addr (some id)
      context := Function.update s.context p (some addr)
      calls := s.calls ++ [⟨p, id⟩]
      pending := s.pending ++ [s.calls.length] } where
  known k hk := by
    simp only [List.length_append, List.length_singleton]
    rcases List.mem_append.mp hk with hk | hk
    · exact Nat.lt_succ_of_lt (h.known k hk)
    · rw [List.mem_singleton.mp hk]
      exact Nat.lt_succ_self _
  nodup := by
    refine List.nodup_append.mpr ⟨h.nodup, List.nodup_singleton _, fun a ha b hb => ?_⟩
    rw [List.mem_singleton.mp hb]
    rintro rfl
    exact Nat.lt_irrefl _ (h.known _ ha)
  slot k hk call hcall := by
    rcases h.accept_cases hfree halone hk hcall with
      ⟨-, rfl⟩ | ⟨-, -, hconn, a, hcontext, hcell, hne⟩
    · exact ⟨addr, by simp, by simp⟩
    · refine ⟨a, ?_, ?_⟩
      · simpa only [Function.update_of_ne hconn] using hcontext
      · simpa only [Function.update_of_ne hne] using hcell
  alone k hk k' hk' call call' hcall hcall' := by
    -- the slot of the new call is not that of an earlier one
    intro hsame
    rcases h.accept_cases hfree halone hk hcall with
        ⟨rfl, rfl⟩ | ⟨hold, hget, hconn, a, hcontext, -, hne⟩ <;>
      rcases h.accept_cases hfree halone hk' hcall' with
        ⟨rfl, rfl⟩ | ⟨hold', hget', hconn', a', hcontext', -, hne'⟩
    · rfl
    · simp only [Function.update_self, Function.update_of_ne hconn', hcontext'] at hsame
      exact absurd (Option.some.inj hsame).symm hne'
    · simp only [Function.update_self, Function.update_of_ne hconn, hcontext] at hsame
      exact absurd (Option.some.inj hsame) hne
    · simp only [Function.update_of_ne hconn, Function.update_of_ne hconn'] at hsame
      exact h.alone k hold k' hold' call call' hget hget' hsame
  replies r hr k hrk := by
    obtain ⟨call, hcall, hrest⟩ := h.replies r hr k hrk
    refine ⟨call, ?_, hrest⟩
    rw [List.getElem?_append_left (List.getElem?_eq_some_iff.mp hcall).1]
    exact hcall
  count k hk := by
    have hfresh : s.calls.length ∉ s.pending := fun hmem => Nat.lt_irrefl _ (h.known _ hmem)
    simp only [List.length_append, List.length_singleton] at hk
    rcases Nat.lt_succ_iff_lt_or_eq.mp hk with hlt | rfl
    · have hne : k ≠ s.calls.length := Nat.ne_of_lt hlt
      simpa [hne] using h.count k hlt
    · have hzero : s.replies.countP (fun r => r.call = some s.calls.length) = 0 := by
        rw [List.countP_eq_zero]
        intro r hr hrk
        obtain ⟨call, hcall, _⟩ := h.replies r hr _ (by simpa using hrk)
        rw [List.getElem?_eq_none (Nat.le_refl _)] at hcall
        cases hcall
      simp [hzero, hfresh]

theorem Answering.done {s : State} (h : Answering s) {k : ℕ} {data : List Byte} {garbage : RpcId}
    {call : Call} (hcall : s.calls[k]? = some call) (hk : k ∈ s.pending) :
    Answering { s with
      replies := s.replies ++
        [⟨call.conn, ⟨s.readContext call.conn garbage, "", "", data, .ok⟩, some k⟩]
      cells := s.deleteContext call.conn
      pending := s.pending.erase k } := by
  have hread : s.readContext call.conn garbage = call.id := by
    obtain ⟨addr, hcontext, hcell⟩ := h.slot k hk call hcall
    simp [State.readContext, hcontext, hcell]
  refine ⟨fun k' hk' => h.known k' (List.mem_of_mem_erase hk'), h.nodup.erase k,
    fun k' hk' call' hcall' => ?_, fun k₁ hk₁ k₂ hk₂ => ?_, fun r hr k' hrk => ?_, fun k' hk' => ?_⟩
  · have hmem := List.mem_of_mem_erase hk'
    obtain ⟨addr, hcontext, hcell⟩ := h.slot k' hmem call' hcall'
    refine ⟨addr, hcontext, ?_⟩
    change s.deleteContext call.conn addr = some call'.id
    rw [s.deleteContext_of_ne]
    · exact hcell
    · intro hsame
      have heq := h.alone k hk k' hmem call call' hcall hcall' (hsame.trans hcontext.symm)
      subst k'
      exact (List.Nodup.not_mem_erase h.nodup) hk'
  · exact h.alone k₁ (List.mem_of_mem_erase hk₁) k₂ (List.mem_of_mem_erase hk₂)
  · rcases List.mem_append.mp hr with hr | hr
    · exact h.replies r hr k' hrk
    · rw [List.mem_singleton] at hr
      subst r
      cases hrk
      exact ⟨call, hcall, rfl, hread⟩
  · have hcount := h.count k' hk'
    rw [List.countP_append, hcount]
    by_cases heq : k' = k
    · subst k'
      simp [hk, List.Nodup.not_mem_erase h.nodup]
    · have hne : ¬ k = k' := fun h => heq h.symm
      simp [List.mem_erase_of_ne heq, hne]

theorem Answering.step {s t : State} {a : Label} (h : Answering s) (hok : OneAtATime s a)
    (hstep : Step s a t) : Answering t := by
  cases hstep with
  | registerService fullName service =>
    exact ⟨h.known, h.nodup, h.slot, h.alone, h.replies, h.count⟩
  | accept herror hfree => exact h.accept hfree (hok herror)
  | reject =>
    refine ⟨h.known, h.nodup, h.slot, h.alone, fun r hr k hrk => ?_, fun k hk => ?_⟩
    · rcases List.mem_append.mp hr with hr | hr
      · exact h.replies r hr k hrk
      · rw [List.mem_singleton] at hr
        subst r
        cases hrk
    · rw [List.countP_append, h.count k hk]
      simp
  | done hcall hk => exact h.done hcall hk

/-- In every run that accepts requests of a connection one at a time: an answer
sent by `Done` carries the id of the request it answers and goes to its connection,
and each accepted request has one answer once its `done` was run, and none before. -/
theorem replies_match_requests (s : State) (hs : machine.ReachableWhen OneAtATime s) :
    (∀ r ∈ s.replies, ∀ k, r.call = some k →
      ∃ call, s.calls[k]? = some call ∧ r.conn = call.conn ∧ r.msg.id = call.id) ∧
      ∀ k < s.calls.length,
        s.replies.countP (fun r => r.call = some k) = if k ∈ s.pending then 0 else 1 := by
  have h : Answering s := Machine.ReachableWhen.invariant (M := machine) answering_create
    (fun _ _ _ _ hok h ha => h.step hok (step_of_next ha)) hs
  exact ⟨h.replies, h.count⟩

/-- A service with one method that parses everything. -/
def echo : List Label :=
  [.registerService "Echo" ⟨fun name => if name = "echo" then some ⟨fun _ => true⟩ else none⟩]

def request (id : RpcId) : RpcMessage := ⟨id, "Echo", "echo", [], .ok⟩

/-- Two requests of one connection, the second one after the answer to the first. -/
theorem replies_match_requests_in_turn :
    ∃ s, machine.ReachableWhen OneAtATime s ∧ s.calls.length = 2 ∧ s.replies.length = 2 ∧
      ∀ r ∈ s.replies, ∀ k, r.call = some k →
        ∃ call, s.calls[k]? = some call ∧ r.conn = call.conn ∧ r.msg.id = call.id := by
  obtain ⟨s, hs, hcalls, hreplies⟩ := Machine.exists_reachableWhen_of_run (M := machine) OneAtATime
    (echo ++ [Label.onRequest 0 (request 1) 0, .done 0 [] 0, .onRequest 0 (request 2) 0,
      .done 1 [] 0])
    (fun s => s.calls.length = 2 ∧ s.replies.length = 2) (by decide)
  exact ⟨s, hs, hcalls, hreplies, (replies_match_requests s hs).1⟩

/-- The second request arrives while the first is still pending: the answer to the
first one carries the id of the second. -/
theorem not_replies_match_requests :
    ¬ ∀ s : State, machine.Reachable s → ∀ r ∈ s.replies, ∀ k, r.call = some k →
      ∃ call, s.calls[k]? = some call ∧ r.conn = call.conn ∧ r.msg.id = call.id := by
  intro h
  obtain ⟨s, hs, hcalls, hreplies⟩ := Machine.exists_reachable_of_run (M := machine)
    (echo ++ [Label.onRequest 0 (request 1) 0, .onRequest 0 (request 2) 1, .done 0 [] 0])
    (fun s => s.calls = [⟨0, 1⟩, ⟨0, 2⟩] ∧ s.replies = [⟨0, ⟨2, "", "", [], .ok⟩, some 0⟩])
    (by decide)
  have hreply : ⟨0, ⟨2, "", "", [], .ok⟩, some 0⟩ ∈ s.replies := by
    rw [hreplies]
    exact List.mem_singleton.mpr rfl
  obtain ⟨call, hcall, _, hid⟩ := h s hs _ hreply 0 rfl
  rw [hcalls] at hcall
  cases hcall
  exact absurd hid (by decide)

end RpcServer

end Voyager
