import Voyager.DispatchNumbers

/-!
A client that is destroyed. The connector has its address in the new-connection callback
and lives on while closures and retry timers hold it. An attempt in progress ends there
when nothing else holds the connector: the handler of its dispatch finds the tie broken.
-/
namespace Voyager

namespace TcpConnector

theorem stopped_stopInLoop (k : TcpConnector) :
    k.stopInLoop.1.state ≠ .kConnecting ∧ k.stopInLoop.1.connect_ = false := by
  by_cases hstate : k.state = .kConnecting
  · have hkept := k.stopped.reset_resetDispatch.kept
    rw [k.stopInLoop_of_connecting hstate, hkept.state, hkept.connect]
    exact ⟨fun hc => (by cases hc), rfl⟩
  · rw [k.stopInLoop_of_ne hstate]
    exact ⟨hstate, rfl⟩

theorem newConnection_startInLoop (k : TcpConnector) (err : Err) :
    .newConnection ∉ (k.startInLoop err).2 := by
  have hattempt {out : Outcome} (h : k.Attempt out) : .newConnection ∉ out.2 := by
    cases h with
    | connecting =>
      unfold connecting destroys
      cases k.current with
      | none => simp
      | some n => simp
    | retried hretried => cases hretried <;> simp
    | failed => simp
  have hconnect := hattempt (k.attempt_connect err)
  simp only [startInLoop]
  split
  · split
    · exact hconnect
    · simpa using hconnect
  · split
    · simp
    · simp

theorem newConnection_reset {k : TcpConnector} {out : Outcome} (hreset : k.Reset out) :
    .newConnection ∉ out.2 := by
  cases hreset with
  | none _ => simp
  | some d' calls _ => cases calls <;> simp

/-- Only the handler of an event calls the new-connection callback. -/
theorem newConnection_exec (k : TcpConnector) {op : Op} (hop : ∀ r, op ≠ .handleEvent r) :
    .newConnection ∉ (k.exec op).2 := by
  cases op with
  | start retry err => exact newConnection_startInLoop _ err
  | startInLoop err => exact newConnection_startInLoop _ err
  | stopInLoop =>
    by_cases hstate : k.state = .kConnecting
    · rw [exec, k.stopInLoop_of_connecting hstate]
      exact newConnection_reset k.stopped.reset_resetDispatch
    · simp [exec, k.stopInLoop_of_ne hstate]
  | dispatchReset =>
    simp only [exec, dispatchReset, destroys]
    cases k.current <;> simp
  | handleEvent r => exact absurd rfl (hop r)

end TcpConnector

namespace ClientLoop

open Lib.Runs EventLoop

namespace World

/-- The closures of `Start` that wait. -/
def startsWaiting (w : World) : ℕ := w.waiting.countP Func.isStart

/-- A closure of `Stop` or `ResetDispatch` waits. -/
def endsWaiting (w : World) : Prop := .stop ∈ w.waiting ∨ .resetDispatch ∈ w.waiting

instance (w : World) : Decidable w.endsWaiting := instDecidableOr

/-- The attempts that are in progress or can still begin: a socket that connects, a closure of
`Start`, and a retry timer unless `connect_` is off and stays so. -/
def units (w : World) : ℕ :=
  (if w.connector.state = .kConnecting then 1 else 0) + w.startsWaiting +
    (if w.connector.connect_ = true ∨ 0 < w.startsWaiting then w.timers else 0)

/-- At most one attempt is in progress or can still begin, and unless that is up to a retry
timer nothing but it holds the connector. -/
def Lone (w : World) : Prop :=
  w.units ≤ 1 ∧ (w.connector.state = .kConnecting → ¬w.endsWaiting ∧ w.handling = []) ∧
    (0 < w.startsWaiting → ¬w.endsWaiting)

instance (w : World) : Decidable w.Lone := instDecidableAnd

end World

/-- A client is destroyed only in a state that is `Lone`. -/
def DestroysLone (w : World) : Label → Prop
  | .destroy => w.Lone
  | _ => True

instance (w : World) (a : Label) : Decidable (DestroysLone w a) := by
  unfold DestroysLone
  split
  · infer_instance
  · infer_instance

/-- The phases in which the closures of `funcs_` come before the next call of `Poll`. -/
def beforeFuncs : Phase Func Owner → Prop
  | .timers _ | .dispatch _ | .swap => True
  | _ => False

/-- No event of the current dispatch is handled before all closures in `funcs_` have run. -/
def World.Ahead (w : World) : Prop :=
  (∀ f ∈ w.queued, f = .user) ∨
    (beforeFuncs w.loop.phase ∧
      ∀ n, w.connector.current = some n → .owned (.connector n) ∉ w.loop.pending)

/-- After the destructor of the client. -/
structure After (w : World) : Prop where
  calls : w.calls = []
  units : w.units ≤ 1
  connecting : w.connector.state = .kConnecting → w.handling = [] ∧ w.Ahead
  starting : 0 < w.startsWaiting → ¬w.endsWaiting

section

variable {w w' : World}

/-- Nothing else can begin besides an attempt in progress. -/
theorem After.alone (h : After w) (hstate : w.connector.state = .kConnecting)
    (hconnect : w.connector.connect_ = true) : w.startsWaiting = 0 ∧ w.timers = 0 := by
  have hunits := h.units
  simp only [World.units, hstate, hconnect, true_or, if_true] at hunits
  omega

theorem user_of_none (hstarts : w.startsWaiting = 0) (hends : ¬w.endsWaiting) :
    ∀ f ∈ w.waiting, f = .user := by
  intro f hf
  cases f with
  | start retry =>
    rw [World.startsWaiting, List.countP_eq_zero] at hstarts
    exact absurd rfl (hstarts _ hf)
  | stop => exact absurd (.inl hf) hends
  | resetDispatch => exact absurd (.inr hf) hends
  | user => rfl

theorem After.frame (h : After w) (hloop : w'.loop = w.loop)
    (hstate : w'.connector.state = w.connector.state)
    (hconnect : w'.connector.connect_ = w.connector.connect_)
    (hcurrent : w'.connector.current = w.connector.current) (htimers : w'.timers = w.timers)
    (hcalls : w'.calls = w.calls) (hhandling : w.handling = [] → w'.handling = []) :
    After w' where
  calls := hcalls.trans h.calls
  units := by
    have hstarts : w'.startsWaiting = w.startsWaiting := by
      simp only [World.startsWaiting, World.waiting, World.batched, World.queued, hloop]
    rw [World.units, hstate, hstarts, hconnect, htimers]
    exact h.units
  connecting hc := by
    obtain ⟨hnone, hahead⟩ := h.connecting (hstate ▸ hc)
    refine ⟨hhandling hnone, ?_⟩
    simpa only [World.Ahead, World.queued, hloop, hcurrent] using hahead
  starting hs := by
    have hstarting := h.starting
    simp only [World.startsWaiting, World.endsWaiting, World.waiting, World.batched, World.queued,
      hloop] at hs hstarting ⊢
    exact hstarting hs

theorem After.waiting (h : After w) {l : State Func Owner} (extra : List Func)
    (hextra : ∀ f ∈ extra, f = .user) (hwaiting : { w with loop := l }.waiting = w.waiting ++ extra)
    (hahead : w.Ahead → { w with loop := l }.Ahead) : After { w with loop := l } := by
  have hstarts : { w with loop := l }.startsWaiting = w.startsWaiting := by
    have hnone : extra.countP Func.isStart = 0 := by
      rw [List.countP_eq_zero]
      intro f hf
      rw [hextra f hf]
      exact Bool.false_ne_true
    rw [World.startsWaiting, hwaiting, List.countP_append, hnone, Nat.add_zero,
      World.startsWaiting]
  have hends : { w with loop := l }.endsWaiting → w.endsWaiting := by
    intro hends
    rw [World.endsWaiting, hwaiting, List.mem_append, List.mem_append] at hends
    rcases hends with (hstop | hextra') | hreset | hextra'
    · exact .inl hstop
    · cases hextra _ hextra'
    · exact .inr hreset
    · cases hextra _ hextra'
  refine ⟨h.calls, ?_, fun hc => ⟨(h.connecting hc).1, hahead (h.connecting hc).2⟩,
    fun hs hends' => h.starting (hstarts ▸ hs) (hends hends')⟩
  rw [World.units, hstarts]
  exact h.units

theorem ahead_move {s l : State Func Owner} (hmove : World.PhaseMove s.phase l.phase)
    (hbefore : beforeFuncs s.phase) :
    beforeFuncs l.phase ∧ ∀ d ∈ l.pending, d ∈ s.pending := by
  unfold State.pending
  generalize s.phase = p, l.phase = q at hmove hbefore
  cases hmove with
  | enter => cases hbefore
  | leave => cases hbefore
  | iterate => cases hbefore
  | poll ds => cases hbefore
  | timersDone ds => exact ⟨trivial, fun _ hd => hd⟩
  | handleEvent d rest => exact ⟨trivial, fun _ hd => List.mem_cons_of_mem _ hd⟩
  | runFuncs => exact ⟨trivial, fun _ hd => by cases hd⟩
  | funcsDone => cases hbefore
  | released => cases hbefore

theorem After.loop (h : After w) {l : State Func Owner} (hmove : w.LoopMove l) :
    After { w with loop := l } := by
  rcases hmove.moved with ⟨hphase, extra, hextra, hfuncs⟩ | ⟨-, hfuncs, hmove⟩ |
    ⟨-, hphase, hnew, hfuncs⟩
  · have hqueued : { w with loop := l }.queued = w.queued ++ extra := hfuncs
    refine h.waiting extra hextra ?_ fun hahead => ?_
    · simp only [World.waiting, World.batched, State.batch, hphase, hqueued, List.append_assoc]
    · rcases hahead with huser | ⟨hbefore, hnone⟩
      · refine .inl fun f hf => ?_
        rw [hqueued, List.mem_append] at hf
        exact hf.elim (huser f) (hextra f)
      · exact .inr ⟨hphase ▸ hbefore, by simpa only [State.pending, hphase] using hnone⟩
  · obtain ⟨hbatch, hbatch'⟩ := World.batch_of_move hmove
    refine h.waiting [] (fun f hf => by cases hf) ?_ fun hahead => ?_
    · simp only [World.waiting, World.batched, World.queued, hbatch, hbatch', hfuncs,
        List.append_nil]
    · rcases hahead with huser | ⟨hbefore, hnone⟩
      · exact .inl (by simpa only [World.queued, hfuncs] using huser)
      · obtain ⟨hbefore', hsub⟩ := ahead_move hmove hbefore
        exact .inr ⟨hbefore', fun n hn hmem => hnone n hn (hsub _ hmem)⟩
  · refine h.waiting [] (fun f hf => by cases hf) ?_ fun _ => .inl fun f hf => ?_
    · simp only [World.waiting, World.batched, State.batch, World.queued, hphase, hnew, hfuncs,
        List.map_nil, List.append_nil, List.nil_append]
    · simp only [World.queued, hfuncs, List.map_nil] at hf
      cases hf

/-- An attempt where nothing else is in progress or can begin. -/
theorem after_attempt {k : TcpConnector} {out : TcpConnector.Outcome} (hattempt : k.Attempt out)
    (hstate : k.state ≠ .kConnecting) (hcalls : w.calls = []) (htimers : w.timers = 0)
    (hstarts : w.startsWaiting = 0) (hhandling : w.handling = [])
    (hahead : (∀ f ∈ w.queued, f = .user) ∨
      (beforeFuncs w.loop.phase ∧ .owned (.connector k.dispatches) ∉ w.loop.pending)) :
    After (w.settle out) := by
  obtain ⟨hcount, hqueue, hretrying⟩ := TcpConnector.attempt_counts hattempt
  have hqueued : (w.settle out).queued = w.queued := by
    rw [World.settle_queued, hqueue, List.replicate_zero, List.append_nil]
  have hstarts' : (w.settle out).startsWaiting = 0 := by
    rw [World.startsWaiting, World.settle_waiting, hqueue, List.replicate_zero, List.append_nil]
    exact hstarts
  refine ⟨?_, ?_, fun hc => ⟨?_, ?_⟩, fun hs => ?_⟩
  · rw [World.settle_calls]
    exact hcalls
  · rw [World.units, hstarts', World.settle_connector, World.settle_timers, htimers]
    by_cases hc : out.1.state = .kConnecting
    · have hnone : out.2.countP TcpConnector.Effect.isRunAfter = 0 := by
        by_contra hpos
        exact hretrying (Nat.pos_of_ne_zero hpos) hc
      simp [hc, hnone]
    · simp only [hc, if_false]
      split <;> omega
  · rw [World.settle_handling]
    exact hhandling
  · rw [World.settle_connector] at hc
    rw [World.Ahead, hqueued, World.settle_phase, World.settle_connector]
    refine hahead.imp_right fun ⟨hbefore, hnone⟩ => ⟨hbefore, fun n hn => ?_⟩
    have hpending : (w.settle out).loop.pending = w.loop.pending := by
      simp only [State.pending, World.settle_phase]
    cases hattempt with
    | connecting =>
      cases hn
      rw [hpending]
      exact hnone
    | retried hretried => cases hretried <;> cases hc
    | failed => exact absurd hc hstate
  · rw [hstarts'] at hs
    cases hs

theorem after_startInLoop {k : TcpConnector} (hconnect : k.connect_ = true)
    (hstate : k.state ≠ .kConnecting) (hcalls : w.calls = []) (htimers : w.timers = 0)
    (hstarts : w.startsWaiting = 0) (hhandling : w.handling = [])
    (hahead : (∀ f ∈ w.queued, f = .user) ∨
      (beforeFuncs w.loop.phase ∧ .owned (.connector k.dispatches) ∉ w.loop.pending))
    (err : TcpConnector.Err) : After (w.settle (k.startInLoop err)) := by
  have hattempt := k.attempt_connect err
  simp only [TcpConnector.startInLoop, hconnect, if_true]
  split
  · exact after_attempt hattempt hstate hcalls htimers hstarts hhandling hahead
  · exact after_attempt (w := w.noteFailed) hattempt hstate hcalls htimers hstarts hhandling hahead

theorem After.stop (h : After w) (hstarts : w.startsWaiting = 0) : After (w.act .stopInLoop) := by
  obtain ⟨hstate, hconnect⟩ := w.connector.stopped_stopInLoop
  have hstarts' : (w.act .stopInLoop).startsWaiting = 0 := by
    rw [World.act, World.startsWaiting, World.settle_waiting, List.countP_append,
      List.countP_replicate]
    exact hstarts
  refine ⟨?_, ?_, fun hc => ?_, fun hs => ?_⟩
  · rw [World.act, World.settle_calls]
    exact h.calls
  · rw [World.units, hstarts', World.act, World.settle_connector]
    simp [TcpConnector.exec, hstate, hconnect]
  · rw [World.act, World.settle_connector] at hc
    exact absurd hc hstate
  · rw [hstarts'] at hs
    cases hs

theorem After.dispatchReset (h : After w) : After (w.act .dispatchReset) := by
  have hnone (p : TcpConnector.Effect → Bool) (hp : ∀ n, p (.destroyDispatch n) = false) :
      (w.connector.exec .dispatchReset).2.countP p = 0 := w.connector.countP_destroys hp
  have hqueued : (w.act .dispatchReset).queued = w.queued := by
    rw [World.act, World.settle_queued, hnone _ fun n => rfl, List.replicate_zero,
      List.append_nil]
  have hwaiting : (w.act .dispatchReset).waiting = w.waiting := by
    rw [World.act, World.settle_waiting, hnone _ fun n => rfl, List.replicate_zero,
      List.append_nil]
  have hstarts : (w.act .dispatchReset).startsWaiting = w.startsWaiting := by
    rw [World.startsWaiting, hwaiting, World.startsWaiting]
  have hphase : (w.act .dispatchReset).loop.phase = w.loop.phase := World.settle_phase _ _
  have hconnector : (w.act .dispatchReset).connector = { w.connector with dispatch := none } :=
    World.settle_connector _ _
  have htimers : (w.act .dispatchReset).timers = w.timers := by
    rw [World.act, World.settle_timers, hnone _ fun n => rfl, Nat.add_zero]
  refine ⟨?_, ?_, fun hc => ⟨?_, ?_⟩, fun hs => ?_⟩
  · rw [World.act, World.settle_calls]
    exact h.calls
  · rw [World.units, hstarts, hconnector, htimers]
    exact h.units
  · rw [hconnector] at hc
    rw [World.act, World.settle_handling]
    exact (h.connecting hc).1
  · rw [hconnector] at hc
    rw [World.Ahead, hqueued, hphase, hconnector]
    exact (h.connecting hc).2.imp_right fun hahead => ⟨hahead.1, fun n hn => by cases hn⟩
  · rw [World.endsWaiting, hwaiting]
    exact h.starting (hstarts ▸ hs)

/-- The loop takes a closure that is not one of `Start` from the batch. -/
theorem After.taken (h : After w) {l : State Func Owner} {task : EventLoop.Task Func}
    {rest : List (EventLoop.Task Func)} (hphase : w.loop.phase = .funcs (task :: rest))
    (hl : EventLoop.next w.loop .exec = some l) (hstart : task.func.isStart = false) :
    After { w with loop := l } ∧ { w with loop := l }.startsWaiting = w.startsWaiting := by
  obtain ⟨hnew, hfuncs, -⟩ := World.next_exec hphase hl
  have hwaiting := World.waiting_exec hphase hl
  have hstarts : { w with loop := l }.startsWaiting = w.startsWaiting := by
    rw [World.startsWaiting, World.startsWaiting, hwaiting, List.countP_cons, hstart]
    rfl
  refine ⟨⟨h.calls, ?_, fun hc => ⟨(h.connecting hc).1, ?_⟩, fun hs hends => ?_⟩, hstarts⟩
  · rw [World.units, hstarts]
    exact h.units
  · rcases (h.connecting hc).2 with huser | ⟨hbefore, -⟩
    · exact .inl (by simpa only [World.queued, hfuncs] using huser)
    · rw [hphase] at hbefore
      cases hbefore
  · refine h.starting (hstarts ▸ hs) ?_
    rw [World.endsWaiting, hwaiting]
    exact hends.imp (List.mem_cons_of_mem _) (List.mem_cons_of_mem _)

theorem After.exec (h : After w) {l : State Func Owner} {task : EventLoop.Task Func}
    {rest : List (EventLoop.Task Func)} (hidle : w.stack = [])
    (hphase : w.loop.phase = .funcs (task :: rest))
    (hl : EventLoop.next w.loop .exec = some l) (err : TcpConnector.Err) :
    After ({ w with loop := l }.runFunc err task.func) := by
  have hwaiting := World.waiting_exec hphase hl
  cases hf : task.func with
  | start retry =>
    rw [hf] at hwaiting
    have hpos : w.startsWaiting = { w with loop := l }.startsWaiting + 1 := by
      rw [World.startsWaiting, hwaiting, List.countP_cons]
      rfl
    have hunits := h.units
    rw [World.units, if_pos (c := w.connector.connect_ = true ∨ _) (.inr (hpos ▸ Nat.succ_pos _)),
      hpos] at hunits
    have hstarts : { w with loop := l }.startsWaiting = 0 := by omega
    have hstate : w.connector.state ≠ .kConnecting := by
      intro hc
      rw [if_pos hc] at hunits
      omega
    have hends : ¬{ w with loop := l }.endsWaiting := by
      intro hends
      refine h.starting (hpos ▸ Nat.succ_pos _) ?_
      rw [World.endsWaiting, hwaiting]
      exact hends.imp (List.mem_cons_of_mem _) (List.mem_cons_of_mem _)
    refine after_startInLoop (w := { w with loop := l })
      (k := { w.connector with retry_ := retry, connect_ := true }) rfl hstate h.calls ?_ hstarts
      ?_ (.inl fun f hmem => ?_) err
    · show w.timers = 0
      omega
    · simp [World.handling, hidle]
    · exact user_of_none hstarts hends f (List.mem_append_right _ hmem)
  | stop =>
    obtain ⟨htaken, hstarts⟩ := h.taken hphase hl (by rw [hf]; rfl)
    refine htaken.stop (hstarts.trans ?_)
    by_contra hpos
    refine h.starting (Nat.pos_of_ne_zero hpos) (.inl ?_)
    rw [hwaiting, hf]
    exact List.mem_cons_self
  | resetDispatch => exact (h.taken hphase hl (by rw [hf]; rfl)).1.dispatchReset
  | user =>
    exact (h.taken hphase hl (by rw [hf]; rfl)).1.frame rfl rfl rfl rfl rfl rfl id

theorem After.fireRetry (h : After w) (hsound : Sound w) (hidle : w.stack = [])
    {ds : List (DispatchId Owner)} {n : ℕ} (hphase : w.loop.phase = .timers ds)
    (htimers : w.timers = n + 1) (err : TcpConnector.Err) :
    After ({ w with timers := n }.act (.startInLoop err)) := by
  have hunits := h.units
  rw [World.units, htimers] at hunits
  have hstarts : w.startsWaiting = 0 := by
    by_contra hpos
    rw [if_pos (c := w.connector.connect_ = true ∨ _) (.inr (Nat.pos_of_ne_zero hpos))] at hunits
    omega
  have hstate : w.connector.state ≠ .kConnecting := by
    intro hc
    rw [if_pos hc, if_pos (.inl (hsound.connecting hc))] at hunits
    omega
  by_cases hconnect : w.connector.connect_ = true
  · rw [if_pos (c := w.connector.connect_ = true ∨ _) (.inl hconnect)] at hunits
    refine after_startInLoop (w := { w with timers := n }) hconnect hstate h.calls ?_ hstarts ?_
      (.inr ⟨?_, fun hmem => ?_⟩) err
    · show n = 0
      omega
    · simp [World.handling, hidle]
    · show beforeFuncs w.loop.phase
      rw [hphase]
      trivial
    · exact Nat.lt_irrefl _ (hsound.pending _ hmem)
  · have hafter : After { w with timers := n } := by
      refine ⟨h.calls, ?_, fun hc => absurd hc hstate, h.starting⟩
      have hstarts' : { w with timers := n }.startsWaiting = 0 := hstarts
      rw [World.units, hstarts']
      simp [hstate, hconnect]
    have hfailed : After { w with timers := n }.noteFailed :=
      hafter.frame rfl rfl rfl rfl rfl rfl id
    have hignored : w.connector.startInLoop err = (w.connector,
        if w.connector.state = .kDisConnected then [] else [.assertFailed]) := by
      simp [TcpConnector.startInLoop, hconnect]
    show After ({ w with timers := n }.settle (w.connector.startInLoop err))
    rw [hignored]
    split
    · exact hafter.frame rfl rfl rfl rfl rfl rfl id
    · exact hfailed.frame rfl rfl rfl rfl rfl rfl id

/-- The handler of the current dispatch is not called any more: no one holds the connector
while an attempt is in progress. -/
theorem After.handleEvent (h : After w) (hsound : Sound w) (halive : w.client.alive = false)
    {d : DispatchId Owner} {rest : List (DispatchId Owner)}
    (hphase : w.loop.phase = .dispatch (d :: rest)) {l : State Func Owner}
    (hloop : After { w with loop := l }) :
    After { w with loop := l, stack := w.handleEvent d } := by
  refine ⟨hloop.calls, hloop.units, fun hc => ⟨?_, (hloop.connecting hc).2⟩, hloop.starting⟩
  obtain ⟨-, htimers⟩ := h.alone hc (hsound.connecting hc)
  have hbatched : w.batched = [] := by
    simp only [World.batched, State.batch, hphase, List.map_nil]
  cases d with
  | wakeup => rfl
  | owned o =>
    cases o with
    | other k => rfl
    | connector n =>
      rcases (h.connecting hc).2 with huser | ⟨-, hnone⟩
      · have hfree : w.held = false := by
          rw [World.held, halive, htimers, World.waiting, hbatched]
          simpa using huser
        simp [World.handling, World.handleEvent, hfree]
      · have hother : w.connector.current ≠ some n := fun hcur => by
          refine hnone n hcur ?_
          simp [State.pending, hphase]
        simp [World.handling, World.handleEvent, hother]

theorem After.destroy (hlone : w.Lone) (hcalls : w.calls = []) :
    After { w with client := { w.client with alive := false } } := by
  obtain ⟨hunits, hconnecting, hstarting⟩ := hlone
  refine ⟨hcalls, hunits, fun hc => ⟨(hconnecting hc).2, .inl fun f hf => ?_⟩, hstarting⟩
  have hstarts : w.startsWaiting = 0 := by
    rw [World.units, if_pos hc] at hunits
    omega
  exact user_of_none hstarts (hconnecting hc).1 f (List.mem_append_right _ hf)

/-- In every state: no new-connection callback has been called after the destructor. -/
structure Gone (w : World) : Prop where
  late : w.log.late = 0
  after : w.client.alive = false → After w

theorem gone_create : Gone World.create where
  late := rfl
  after h := by cases h

theorem Gone.frame (h : Gone w) (hclient : w'.client.alive = w.client.alive)
    (hlate : w'.log.late = w.log.late) (hafter : w.client.alive = false → After w') :
    Gone w' where
  late := hlate.trans h.late
  after hdead := hafter (hclient ▸ hdead)

/-- Everything but the handler of the connector. -/
theorem Gone.act (h : Gone w) {w₀ : World} {op : TcpConnector.Op}
    (hop : ∀ r, op ≠ .handleEvent r) (hclient : w₀.client.alive = w.client.alive)
    (hlate : w₀.log.late = w.log.late) (hafter : w.client.alive = false → After (w₀.act op)) :
    Gone (w₀.act op) := by
  refine h.frame ?_ ?_ hafter
  · rw [World.act, World.settle_client]
    exact hclient
  · rw [World.act, World.settle_late _ _ (.inr (TcpConnector.newConnection_exec _ hop))]
    exact hlate

theorem Gone.runFunc (h : Gone w) {w₀ : World} (err : TcpConnector.Err) (f : Func)
    (hclient : w₀.client.alive = w.client.alive) (hlate : w₀.log.late = w.log.late)
    (hafter : w.client.alive = false → After (w₀.runFunc err f)) : Gone (w₀.runFunc err f) := by
  cases f with
  | start retry => exact h.act (fun r heq => by cases heq) hclient hlate hafter
  | stop => exact h.act (fun r heq => by cases heq) hclient hlate hafter
  | resetDispatch => exact h.act (fun r heq => by cases heq) hclient hlate hafter
  | user => exact h.frame hclient hlate hafter

/-- A branch of the handler: after the destructor no attempt is in progress there. -/
theorem Gone.branch (h : Gone w) {n : ℕ} {rest : List Frame}
    (hstack : w.stack = .handleEvent (n + 1) :: rest) (r : TcpConnector.SocketResult) :
    Gone ({ w with stack := .handleEvent n :: rest }.act (.handleEvent r)) := by
  cases halive : w.client.alive with
  | true =>
    constructor
    · have hlive : { w with stack := .handleEvent n :: rest }.client.alive = true := halive
      exact (World.settle_late _ _ (.inl hlive)).trans h.late
    · intro hdead
      rw [World.act, World.settle_client] at hdead
      rw [halive] at hdead
      cases hdead
  | false =>
    have hafter := h.after halive
    have hstate : w.connector.state ≠ .kConnecting := by
      intro hc
      have hnone := (hafter.connecting hc).1
      simp [World.handling, hstack] at hnone
    show Gone ({ w with stack := .handleEvent n :: rest }.settle (w.connector.handleEvent r))
    rw [w.connector.handleEvent_of_ne hstate]
    refine ⟨h.late, fun _ => hafter.frame rfl rfl rfl rfl rfl rfl fun hempty => ?_⟩
    simp [World.handling, hstack] at hempty

/-- The step lemma. -/
theorem Gone.step {a : Label} (h : Gone w) (hsound : Sound w) (hok : DestroysLone w a)
    (ha : Step w a w') : Gone w' := by
  cases ha with
  | loop hallows hl =>
    exact h.frame rfl rfl fun hdead => (h.after hdead).loop (World.loopMove_of_next hallows hl)
  | poll hidle hl =>
    refine h.frame rfl rfl fun hdead => ?_
    exact ((h.after hdead).loop (World.loopMove_poll hidle hl).1).frame rfl (World.report_state _ _)
      (World.report_connect _ _) (World.report_current _ _) rfl rfl id
  | @handleEvent reads d rest l hidle hphase hl =>
    have hmove := (World.loopMove_handleEvent hidle hphase hl).1
    exact ⟨h.late, fun hdead =>
      (h.after hdead).handleEvent hsound hdead hphase ((h.after hdead).loop hmove)⟩
  | exec hidle hphase hl =>
    exact h.runFunc _ _ rfl rfl fun hdead => (h.after hdead).exec hidle hphase hl _
  | fireRetry hidle hphase htimers =>
    exact h.act (fun r heq => by cases heq) rfl rfl fun hdead =>
      (h.after hdead).fireRetry hsound hidle hphase htimers _
  | handled hstack =>
    refine h.frame rfl rfl fun hdead => (h.after hdead).frame rfl rfl rfl rfl rfl rfl ?_
    exact fun hempty => by simp [World.handling, hstack] at hempty
  | branch hstack => exact h.branch hstack _
  | connected hstack =>
    refine h.frame rfl rfl fun hdead => (h.after hdead).frame rfl rfl rfl rfl rfl rfl ?_
    exact fun hempty => by simpa [World.handling, hstack] using hempty
  | set hstack =>
    refine h.frame rfl rfl fun hdead => (h.after hdead).frame rfl rfl rfl rfl rfl rfl ?_
    exact fun hempty => by simpa [World.handling, hstack, World.setConnect] using hempty
  | ret hstack =>
    refine h.frame rfl rfl fun hdead => (h.after hdead).frame rfl rfl rfl rfl rfl rfl ?_
    exact fun hempty => by simpa [World.handling, hstack] using hempty
  | callIgnored _ => exact h
  | @call w₁ call _ _ _ halive hcheck =>
    have hsame : w₁.client.alive = w.client.alive ∧ w₁.log.late = w.log.late := by
      rcases World.check_cases hcheck with rfl | rfl
      · exact ⟨rfl, rfl⟩
      · exact ⟨rfl, rfl⟩
    refine h.runFunc _ _ hsame.1 hsame.2 fun hdead => ?_
    rw [halive] at hdead
    cases hdead
  | threadCallIgnored => exact h
  | threadCall halive hcheck =>
    have hdead : w.client.alive ≠ false := fun hdead => by
      rw [halive] at hdead
      cases hdead
    rcases World.check_cases hcheck with rfl | rfl
    · exact h.frame rfl rfl fun hdead' => absurd hdead' hdead
    · exact h.frame rfl rfl fun hdead' => absurd hdead' hdead
  | threadPush hcall =>
    refine h.frame rfl rfl fun hdead => ?_
    rw [(h.after hdead).calls] at hcall
    cases hcall
  | threadSet hcall =>
    refine h.frame rfl rfl fun hdead => ?_
    rw [(h.after hdead).calls] at hcall
    cases hcall
  | destroy halive hcalls => exact ⟨h.late, fun _ => After.destroy hok hcalls⟩
  | closeConnection _ =>
    exact h.frame rfl rfl fun hdead => (h.after hdead).frame rfl rfl rfl rfl rfl rfl id
  | release => exact h.frame rfl rfl fun hdead => (h.after hdead).frame rfl rfl rfl rfl rfl rfl id

end

/-- The connector never calls back into a destroyed client, in runs that destroy it only while
at most one attempt is in progress or can still begin and, unless that is a retry timer, no
closure of `Stop` or `ResetDispatch` waits and no handler of the dispatch is running. -/
theorem no_late_callback (w : World) (hw : machine.ReachableWhen DestroysLone w) :
    w.log.late = 0 := by
  have h : Gone w := Machine.ReachableWhen.invariant (M := machine) gone_create
    (fun _ _ _ hs hok h ha => h.step (sound_of_reachable hs.reachable) hok (step_of_next ha)) hw
  exact h.late

/-- The client is deleted while a retry timer is pending; the timer begins an attempt that
nobody waits for. -/
theorem no_late_callback_retrying : ∃ w, machine.ReachableWhen DestroysLone w ∧
    w.client.alive = false ∧ w.connector.state = .kConnecting ∧ w.log.late = 0 := by
  obtain ⟨w, hw, hdead, hstate⟩ := Machine.exists_reachableWhen_of_run (M := machine) DestroysLone
    [.call (.connect true) false .econnrefused, .resume .error, .loop .enter, .loop .iterate,
      .destroy, .poll [], .fireRetry .einprogress, .loop .timersDone, .loop .runFuncs]
    (fun w => w.client.alive = false ∧ w.connector.state = .kConnecting) (by decide +kernel)
  exact ⟨w, hw, hdead, hstate, no_late_callback w hw⟩

/-- The retry timer of a refused attempt keeps the connector alive, while the attempt of a
second `Connect` succeeds after the client is gone. -/
theorem late_callback : ∃ w, machine.Reachable w ∧ w.client.alive = false ∧ w.log.late = 1 :=
  Machine.exists_reachable_of_run (M := machine)
    [.call (.connect true) false .econnrefused, .resume .error,
      .call (.connect true) false .einprogress, .resume .error, .destroy, .loop .enter,
      .loop .iterate, .poll [(.owned (.connector 0), pollOut)], .loop .timersDone,
      .handleEvent false, .resume .connected]
    (fun w => w.client.alive = false ∧ w.log.late = 1) (by decide +kernel)

/-- Another thread closes the client and deletes it. The closure of `Stop` keeps the connector
alive and comes after the event. -/
theorem late_callback_closed :
    ∃ w, machine.Reachable w ∧ w.client.alive = false ∧ w.log.late = 1 :=
  Machine.exists_reachable_of_run (M := machine)
    [.call (.connect true) false .einprogress, .resume .error, .loop .enter, .loop .iterate,
      .poll [(.owned (.connector 0), pollOut)], .threadCall 0 .close false, .threadStep 0,
      .loop (.threadWakeUp 0), .threadStep 0, .destroy, .loop .timersDone, .handleEvent false,
      .resume .connected]
    (fun w => w.client.alive = false ∧ w.log.late = 1) (by decide +kernel)

end ClientLoop

end Voyager
