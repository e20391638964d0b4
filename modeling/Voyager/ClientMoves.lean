import Voyager.ClientLoop

/-!
What the steps of the client's world do to its parts: a call before it comes to the
connector, the calls of a method of the connector, `Poll`, and the steps of the loop, which
move closures from `funcs_` to the batch and go through the phases of an iteration.
-/
namespace Voyager.ClientLoop

open Lib.Runs EventLoop

namespace World

/-- Before it calls the connector, a call changes nothing but the client's flag. -/
theorem check_cases {w w' : World} {spurious : Bool} {call : Call}
    (hcheck : w.check spurious call = some w') : w' = w ∨ w' = w.setConnect false := by
  cases call with
  | connect retry =>
    simp only [check] at hcheck
    split at hcheck
    · cases hcheck
    · cases hcheck
      exact .inr rfl
  | close =>
    simp only [check] at hcheck
    split at hcheck
    · cases hcheck
      exact .inl rfl
    · cases hcheck
  | start retry =>
    cases hcheck
    exact .inl rfl
  | stop =>
    cases hcheck
    exact .inl rfl

section Report

variable (k : TcpConnector) (events : List (DispatchId Owner × Mask))

/-- What `Poll` reports changes no more than the last events of a dispatch. -/
theorem report_same {β : Type*} (g : TcpConnector → β)
    (hg : ∀ k n rv, g (TcpConnector.setRevents k n rv) = g k) : g (report k events) = g k := by
  induction events generalizing k with
  | nil => rfl
  | cons event rest ih =>
    obtain ⟨d, rv⟩ := event
    cases d with
    | wakeup => exact ih k
    | owned o =>
      cases o with
      | connector n => exact (ih _).trans (hg k n rv)
      | other m => exact ih k

@[simp] theorem report_state : (report k events).state = k.state :=
  report_same k events TcpConnector.state fun _ _ _ => rfl

@[simp] theorem report_connect : (report k events).connect_ = k.connect_ :=
  report_same k events TcpConnector.connect_ fun _ _ _ => rfl

@[simp] theorem report_dispatches : (report k events).dispatches = k.dispatches :=
  report_same k events TcpConnector.dispatches fun _ _ _ => rfl

@[simp] theorem report_current : (report k events).current = k.current :=
  report_same k events TcpConnector.current TcpConnector.setRevents_current

end Report

section Settle

variable {β : Type*} (w : World) (out : TcpConnector.Outcome)

/-- What the calls of a method do to a part of the world, call by call. -/
theorem settle_fold (g : World → β) (f : β → TcpConnector.Effect → β)
    (hg : ∀ w e, g (perform w e) = f (g w) e) (hsame : g { w with connector := out.1 } = g w) :
    g (w.settle out) = out.2.foldl f (g w) := by
  have hfold (effects : List TcpConnector.Effect) (w : World) :
      g (effects.foldl perform w) = effects.foldl f (g w) := by
    induction effects generalizing w with
    | nil => rfl
    | cons e rest ih => rw [List.foldl_cons, ih, hg, List.foldl_cons]
  rw [settle, hfold, hsame]

/-- What none of the calls of a method changes. -/
theorem settle_same (g : World → β) (hg : ∀ w e, g (perform w e) = g w)
    (hsame : g { w with connector := out.1 } = g w) : g (w.settle out) = g w := by
  rw [settle_fold w out g (fun b _ => b) hg hsame]
  generalize g w = b
  induction out.2 with
  | nil => rfl
  | cons e rest ih => exact ih

theorem foldl_count (p : TcpConnector.Effect → Bool) (effects : List TcpConnector.Effect) (n : ℕ) :
    effects.foldl (fun n e => if p e then n + 1 else n) n = n + effects.countP p := by
  induction effects generalizing n with
  | nil => rfl
  | cons e rest ih =>
    rw [List.foldl_cons, ih, List.countP_cons]
    split <;> omega

@[simp] theorem settle_connector : (w.settle out).connector = out.1 := by
  have hfold (effects : List TcpConnector.Effect) (w : World) :
      (effects.foldl perform w).connector = w.connector := by
    induction effects generalizing w with
    | nil => rfl
    | cons e rest ih =>
      rw [List.foldl_cons, ih]
      cases e <;> rfl
  exact hfold _ _

@[simp] theorem settle_client : (w.settle out).client = w.client :=
  settle_same w out World.client (fun _ e => by cases e <;> rfl) rfl

@[simp] theorem settle_calls : (w.settle out).calls = w.calls :=
  settle_same w out World.calls (fun _ e => by cases e <;> rfl) rfl

@[simp] theorem settle_phase : (w.settle out).loop.phase = w.loop.phase :=
  settle_same w out (fun w => w.loop.phase) (fun _ e => by cases e <;> rfl) rfl

@[simp] theorem settle_timers :
    (w.settle out).timers = w.timers + out.2.countP TcpConnector.Effect.isRunAfter := by
  rw [← foldl_count]
  exact settle_fold w out World.timers _ (fun _ e => by cases e <;> rfl) rfl

theorem settle_failed :
    (w.settle out).log.failed = w.log.failed + out.2.countP (· = .assertFailed) := by
  rw [← foldl_count]
  exact settle_fold w out (fun w => w.log.failed) _ (fun _ e => by cases e <;> rfl) rfl

theorem settle_opened :
    (w.settle out).opened.length = w.opened.length + out.2.countP (· = .newConnection) := by
  rw [← foldl_count]
  exact settle_fold w out (fun w => w.opened.length) _ (fun _ e => by cases e <;> rfl) rfl

@[simp] theorem settle_batched : (w.settle out).batched = w.batched := by
  simp only [batched, State.batch, settle_phase]

/-- Methods queue nothing but `dispatch_.reset`. -/
theorem settle_queued : (w.settle out).queued =
    w.queued ++ List.replicate (out.2.countP (· = .queueReset)) Func.resetDispatch := by
  have hfold := settle_fold w out queued
    (fun fs e => if e = .queueReset then fs ++ [.resetDispatch] else fs)
    (fun w e => by
      cases e <;> simp [perform, queued, State.updateDispatch, State.removeDispatch,
        State.queueInLoop, State.push, noteFailed, noteEntered, destroyDispatch, State.destroy,
        newConnection]) rfl
  rw [hfold]
  generalize w.queued = fs
  induction out.2 generalizing fs with
  | nil => simp
  | cons e rest ih =>
    rw [List.foldl_cons, ih, List.countP_cons]
    by_cases heq : e = .queueReset
    · simp [heq, List.replicate_succ]
    · simp [heq]

@[simp] theorem settle_handling : (w.settle out).handling = w.handling :=
  settle_same w out handling (fun _ e => by cases e <;> rfl) rfl

/-- What the quiet calls of a method leave alone. -/
theorem settle_quiet (hquiet : ∀ e ∈ out.2, e.isQuiet = true) :
    (w.settle out).log.overlapping = w.log.overlapping ∧
      (w.settle out).log.destroyed = w.log.destroyed := by
  have hfold (effects : List TcpConnector.Effect) (hquiet : ∀ e ∈ effects, e.isQuiet = true)
      (w : World) : (effects.foldl perform w).log.overlapping = w.log.overlapping ∧
        (effects.foldl perform w).log.destroyed = w.log.destroyed := by
    induction effects generalizing w with
    | nil => exact ⟨rfl, rfl⟩
    | cons e rest ih =>
      obtain ⟨hoverlapping, hdestroyed⟩ :=
        ih (fun e he => hquiet e (List.mem_cons_of_mem _ he)) (perform w e)
      rw [List.foldl_cons, hoverlapping, hdestroyed]
      have he := hquiet e List.mem_cons_self
      cases e with
      | enterConnect state => cases he
      | destroyDispatch n => cases he
      | _ => exact ⟨rfl, rfl⟩
  exact hfold out.2 hquiet _

/-- A new-connection callback is late only without the client. -/
theorem settle_late (h : w.client.alive = true ∨ .newConnection ∉ out.2) :
    (w.settle out).log.late = w.log.late := by
  have hfold (effects : List TcpConnector.Effect) (w : World)
      (h : w.client.alive = true ∨ .newConnection ∉ effects) :
      (effects.foldl perform w).log.late = w.log.late := by
    induction effects generalizing w with
    | nil => rfl
    | cons e rest ih =>
      have hclient : (perform w e).client = w.client := by cases e <;> rfl
      have hlate : (perform w e).log.late = w.log.late := by
        cases e with
        | newConnection =>
          rcases h with halive | hnone
          · simp [perform, World.newConnection, halive]
          · exact absurd List.mem_cons_self hnone
        | _ => rfl
      rw [List.foldl_cons, ih, hlate]
      rw [hclient]
      exact h.imp_right fun hnone hmem => hnone (List.mem_cons_of_mem _ hmem)
  exact hfold out.2 _ h

theorem settle_waiting : (w.settle out).waiting =
    w.waiting ++ List.replicate (out.2.countP (· = .queueReset)) Func.resetDispatch := by
  rw [waiting, settle_queued, settle_batched, waiting, List.append_assoc]

theorem settle_registered :
    (w.settle out).registered = out.2.foldl TcpConnector.Effect.registers w.registered := by
  refine settle_fold w out registered _ (fun w e => ?_) rfl
  funext n
  cases e with
  | updateEvents m =>
    simp [perform, registered, State.updateDispatch, TcpConnector.Effect.registers,
      Function.update_apply]
  | removeEvents m =>
    simp [perform, registered, State.removeDispatch, TcpConnector.Effect.registers,
      Function.update_apply]
  | _ => rfl

end Settle

section Loop

variable {w : World} {l : State Func Owner}

/-- How the loop thread goes through an iteration, taking no closures. -/
inductive PhaseMove : Phase Func Owner → Phase Func Owner → Prop
  | enter : PhaseMove .outside .test
  | leave : PhaseMove .test .outside
  | iterate : PhaseMove .test .poll
  | poll (ds : List (DispatchId Owner)) : PhaseMove .poll (.timers ds)
  | timersDone (ds : List (DispatchId Owner)) : PhaseMove (.timers ds) (.dispatch ds)
  | handleEvent (d : DispatchId Owner) (rest : List (DispatchId Owner)) :
      PhaseMove (.dispatch (d :: rest)) (.dispatch rest)
  | runFuncs : PhaseMove (.dispatch []) .swap
  | funcsDone : PhaseMove (.funcs []) .release
  | released : PhaseMove .release .test

theorem batch_of_move {s l : State Func Owner} (hmove : PhaseMove s.phase l.phase) :
    s.batch = [] ∧ l.batch = [] := by
  unfold State.batch
  generalize s.phase = p, l.phase = q at hmove
  cases hmove <;> exact ⟨rfl, rfl⟩

theorem other_of_allows {d : DispatchId Owner} {a : EventLoop.Label Func Owner}
    (ha : a = .updateDispatch d ∨ a = .removeDispatch d) (hallows : w.allows a = true) :
    ∃ k, d = .owned (.other k) := by
  rcases ha with rfl | rfl
  · cases d with
    | wakeup => cases hallows
    | owned o =>
      cases o with
      | connector n => cases hallows
      | other k => exact ⟨k, rfl⟩
  · cases d with
    | wakeup => cases hallows
    | owned o =>
      cases o with
      | connector n => cases hallows
      | other k => exact ⟨k, rfl⟩

/-- What a step of the loop that runs no closure does to its phase, to the closures that
wait and to the connector's dispatches in the poller. -/
structure LoopMove (w : World) (l : State Func Owner) : Prop where
  moved : (l.phase = w.loop.phase ∧ ∃ extra, (∀ f ∈ extra, f = Func.user) ∧
      l.funcs.map EventLoop.Task.func = w.queued ++ extra) ∨
    (w.stack = [] ∧ l.funcs = w.loop.funcs ∧ PhaseMove w.loop.phase l.phase) ∨
    (w.stack = [] ∧ w.loop.phase = .swap ∧ l.phase = .funcs w.loop.funcs ∧ l.funcs = [])
  registered : { w with loop := l }.registered = w.registered

theorem loopMove_of_next {a : EventLoop.Label Func Owner} (hallows : w.allows a = true)
    (hl : EventLoop.next w.loop a = some l) : w.LoopMove l := by
  have hstill {l : State Func Owner} (hphase : l.phase = w.loop.phase)
      (hfuncs : l.funcs = w.loop.funcs) (hreg : { w with loop := l }.registered = w.registered) :
      w.LoopMove l :=
    ⟨.inl ⟨hphase, [], by simp, by rw [hfuncs, List.append_nil]; rfl⟩, hreg⟩
  cases EventLoop.step_of_next hl with
  | enter hphase _ => exact ⟨.inr (.inl ⟨stack_of_idle hallows, rfl, hphase ▸ .enter⟩), rfl⟩
  | leave hphase _ => exact ⟨.inr (.inl ⟨stack_of_idle hallows, rfl, hphase ▸ .leave⟩), rfl⟩
  | iterate hphase _ =>
    exact ⟨.inr (.inl ⟨stack_of_idle hallows, rfl, hphase ▸ .iterate⟩), rfl⟩
  | poll _ _ _ => cases hallows
  | timersDone hphase _ =>
    exact ⟨.inr (.inl ⟨stack_of_idle hallows, rfl, hphase ▸ .timersDone _⟩), rfl⟩
  | handleEvent _ _ _ _ _ _ _ => cases hallows
  | runFuncs hphase _ => exact ⟨.inr (.inl ⟨stack_of_idle hallows, rfl, hphase ▸ .runFuncs⟩), rfl⟩
  | swap hphase => exact ⟨.inr (.inr ⟨stack_of_idle hallows, hphase, rfl, rfl⟩), rfl⟩
  | exec _ _ => cases hallows
  | funcsDone hphase _ =>
    exact ⟨.inr (.inl ⟨stack_of_idle hallows, rfl, hphase ▸ .funcsDone⟩), rfl⟩
  | released hphase _ =>
    exact ⟨.inr (.inl ⟨stack_of_idle hallows, rfl, hphase ▸ .released⟩), rfl⟩
  | queueInLoop f _ _ =>
    cases f with
    | user =>
      have hfuncs : (w.loop.queueInLoop .user).funcs.map EventLoop.Task.func =
          w.queued ++ [.user] := by
        simp [State.queueInLoop, State.push, queued]
      exact ⟨.inl ⟨rfl, [.user], by simp, hfuncs⟩, rfl⟩
    | _ => cases hallows
  | wakeUp _ => exact hstill rfl rfl rfl
  | exit _ _ => exact hstill rfl rfl rfl
  | updateDispatch d _ _ =>
    obtain ⟨k, rfl⟩ := other_of_allows (.inl rfl) hallows
    exact hstill rfl rfl (by funext n; simp [registered, State.updateDispatch])
  | removeDispatch d _ _ =>
    obtain ⟨k, rfl⟩ := other_of_allows (.inr rfl) hallows
    exact hstill rfl rfl (by funext n; simp [registered, State.removeDispatch])
  | destroy d _ _ => exact hstill rfl rfl rfl
  | threadQueueInLoop t f _ =>
    cases f with
    | user =>
      have hfuncs : (w.loop.threadQueueInLoop t .user).funcs.map EventLoop.Task.func =
          w.queued ++ [.user] := by
        simp [State.threadQueueInLoop, State.push, queued]
      exact ⟨.inl ⟨rfl, [.user], by simp, hfuncs⟩, rfl⟩
    | _ => cases hallows
  | threadExit t _ => exact hstill rfl rfl rfl
  | threadWakeUp t _ => exact hstill rfl rfl rfl

theorem loopMove_poll {ds : List (DispatchId Owner)} (hidle : w.stack = [])
    (hl : EventLoop.next w.loop (.poll ds) = some l) :
    w.LoopMove l ∧ w.loop.phase = .poll ∧ l.phase = .timers ds ∧
      ∀ d ∈ ds, w.loop.registered d = true := by
  cases EventLoop.step_of_next hl with
  | poll _ hphase hds =>
    exact ⟨⟨.inr (.inl ⟨hidle, rfl, hphase ▸ .poll ds⟩), rfl⟩, hphase, rfl, hds⟩

theorem loopMove_handleEvent {reads : Bool} {d : DispatchId Owner} {rest : List (DispatchId Owner)}
    (hidle : w.stack = []) (hphase : w.loop.phase = .dispatch (d :: rest))
    (hl : EventLoop.next w.loop (.handleEvent reads) = some l) :
    w.LoopMove l ∧ l.phase = .dispatch rest := by
  cases EventLoop.step_of_next hl with
  | handleEvent d' rest' _ hphase' _ _ ht =>
    rw [hphase] at hphase'
    cases hphase'
    refine ⟨⟨.inr (.inl ⟨hidle, by rw [ht], ?_⟩), by rw [ht]; rfl⟩, by rw [ht]⟩
    rw [ht, hphase]
    exact .handleEvent d rest

/-- The loop takes the first closure of the batch. -/
theorem next_exec {task : EventLoop.Task Func} {rest : List (EventLoop.Task Func)}
    (hphase : w.loop.phase = .funcs (task :: rest))
    (hl : EventLoop.next w.loop .exec = some l) :
    l.phase = .funcs rest ∧ l.funcs = w.loop.funcs ∧
      { w with loop := l }.registered = w.registered := by
  cases EventLoop.step_of_next hl with
  | exec hphase' _ =>
    rw [hphase] at hphase'
    cases hphase'
    exact ⟨rfl, rfl, rfl⟩

theorem waiting_exec {task : EventLoop.Task Func} {rest : List (EventLoop.Task Func)}
    (hphase : w.loop.phase = .funcs (task :: rest))
    (hl : EventLoop.next w.loop .exec = some l) :
    w.waiting = task.func :: { w with loop := l }.waiting := by
  obtain ⟨hnew, hfuncs, -⟩ := next_exec hphase hl
  simp only [waiting, batched, State.batch, queued, hphase, hnew, hfuncs, List.map_cons,
    List.cons_append]

end Loop

end World

end Voyager.ClientLoop
