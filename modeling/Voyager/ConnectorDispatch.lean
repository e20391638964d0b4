import Voyager.ClientMoves

/-!
The dispatch of a connector. It is in the poller while the connector is connecting. An
attempt that ends takes it out and leaves its destruction to a closure, which destroys the
dispatch that is current when it runs: that of a later attempt, if one began before.
-/
namespace Voyager

namespace TcpConnector

/-- Of a connector and which dispatches are in the poller: none but the current one, and
this one exactly while connecting. -/
structure Agrees (k : TcpConnector) (registered : ℕ → Bool) : Prop where
  current : ∀ n, registered n = true → k.state = .kConnecting ∧ k.current = some n
  connecting : k.state = .kConnecting → ∃ n, k.current = some n ∧ registered n = true

section

variable {k : TcpConnector} {registered : ℕ → Bool}

theorem agrees_out (hstate : k.state ≠ .kConnecting) (hout : ∀ n, registered n = false) :
    k.Agrees registered where
  current n hn := by
    rw [hout n] at hn
    cases hn
  connecting hconnecting := absurd hconnecting hstate

theorem Agrees.out (h : k.Agrees registered) (hstate : k.state ≠ .kConnecting) (n : ℕ) :
    registered n = false := by
  cases hn : registered n with
  | false => rfl
  | true => exact absurd (h.current n hn).1 hstate

/-- `ResetDispatch` empties the poller. -/
theorem registers_reset {out : Outcome} (hcurrent : ∀ n, registered n = true → k.current = some n)
    (hreset : k.Reset out) (n : ℕ) : out.2.foldl Effect.registers registered n = false := by
  cases hreset with
  | none hnone =>
    cases hn : registered n with
    | false => exact hn
    | true =>
      have hcur := hcurrent n hn
      rw [TcpConnector.current, hnone] at hcur
      cases hcur
  | @some m d d' calls hsome =>
    by_cases heq : n = m
    · subst heq
      cases calls <;> simp [Effect.registers]
    · have hn : registered n = false := by
        cases hn : registered n with
        | false => rfl
        | true =>
          have hcur := hcurrent n hn
          rw [TcpConnector.current, hsome] at hcur
          exact absurd (Option.some.inj hcur).symm heq
      cases calls <;> simp [Effect.registers, heq, hn]

theorem agrees_attempt {out : Outcome} (hstate : k.state ≠ .kConnecting)
    (hout : ∀ n, registered n = false) (hattempt : k.Attempt out) :
    out.1.Agrees (out.2.foldl Effect.registers registered) := by
  cases hattempt with
  | connecting =>
    rw [registers_connecting]
    refine ⟨fun n hn => ⟨rfl, ?_⟩, fun _ => ⟨k.dispatches, rfl, Function.update_self _ _ _⟩⟩
    by_cases heq : n = k.dispatches
    · rw [heq]
      rfl
    · rw [Function.update_of_ne heq, hout n] at hn
      cases hn
  | retried hretried =>
    cases hretried with
    | retrying time delay => exact agrees_out (by simp) hout
    | failed => exact agrees_out (by simp) hout
    | stopped => exact agrees_out (by simp) hout
  | failed => exact agrees_out hstate hout

/-- An outcome that ends the attempt of a connecting connector. -/
structure Ends (out : Outcome) (registered : ℕ → Bool) : Prop where
  state : out.1.state ≠ .kConnecting
  emptied : ∀ n, out.2.foldl Effect.registers registered n = false
  quiet : ∀ e ∈ out.2, e.isQuiet = true
  timers : out.2.countP Effect.isRunAfter ≤ 1

theorem quiet_reset {out : Outcome} (hreset : k.Reset out) :
    (∀ e ∈ out.2, e.isQuiet = true) ∧ out.2.countP Effect.isRunAfter = 0 := by
  cases hreset with
  | none _ => exact ⟨fun e he => (by cases he), rfl⟩
  | some d' calls _ => cases calls <;> exact ⟨by simp [Effect.isQuiet], by simp [Effect.isRunAfter]⟩

theorem ends_reset {out : Outcome} (out' : Outcome)
    (hcurrent : ∀ n, registered n = true → k.current = some n) (hreset : k.Reset out)
    (hstate : out'.1.state ≠ .kConnecting)
    (hregisters : ∀ registered, out'.2.foldl Effect.registers registered = registered)
    (hquiet : ∀ e ∈ out'.2, e.isQuiet = true) (htimers : out'.2.countP Effect.isRunAfter ≤ 1) :
    Ends (out'.1, out.2 ++ out'.2) registered where
  state := hstate
  emptied n := by
    rw [List.foldl_append, hregisters]
    exact registers_reset hcurrent hreset n
  quiet e he := by
    rcases List.mem_append.mp he with he | he
    · exact (quiet_reset hreset).1 e he
    · exact hquiet e he
  timers := by
    rw [List.countP_append, (quiet_reset hreset).2, Nat.zero_add]
    exact htimers

theorem ends_ending {out out' : Outcome}
    (hcurrent : ∀ n, registered n = true → k.current = some n) (hreset : k.Reset out)
    (hending : out.1.Ending out') : Ends (out'.1, out.2 ++ out'.2) registered := by
  cases hending with
  | stopped hstate => exact ends_reset _ hcurrent hreset hstate (fun _ => rfl) (by simp) (by simp)
  | retried hretried =>
    cases hretried with
    | retrying time delay =>
      exact ends_reset _ hcurrent hreset (by simp) (fun _ => rfl) (by simp [Effect.isQuiet])
        (by simp [Effect.isRunAfter])
    | failed =>
      exact ends_reset _ hcurrent hreset (by simp) (fun _ => rfl) (by simp [Effect.isQuiet])
        (by simp [Effect.isRunAfter])
    | stopped => exact ends_reset _ hcurrent hreset (by simp) (fun _ => rfl) (by simp) (by simp)
  | connected calls =>
    apply ends_reset _ hcurrent hreset
    · simp
    · cases calls <;> exact fun _ => rfl
    · cases calls <;> simp [Effect.isQuiet]
    · cases calls <;> simp [Effect.isRunAfter]

theorem ends_stopInLoop (hstate : k.state = .kConnecting)
    (hcurrent : ∀ n, registered n = true → k.current = some n) :
    Ends k.stopInLoop registered ∧ k.stopInLoop.2.countP Effect.isRunAfter = 0 := by
  have hends := ends_ending (k := k.stopped) hcurrent k.stopped.reset_resetDispatch
    k.ending_stopped
  rw [List.append_nil] at hends
  rw [k.stopInLoop_of_connecting hstate]
  exact ⟨hends, (quiet_reset k.stopped.reset_resetDispatch).2⟩

theorem ends_handleEvent (hstate : k.state = .kConnecting)
    (hcurrent : ∀ n, registered n = true → k.current = some n) (r : SocketResult) :
    Ends (k.handleEvent r) registered := by
  obtain ⟨out, hending, heq⟩ := k.ending_handleEvent hstate r
  rw [heq]
  exact ends_ending hcurrent k.reset_resetDispatch hending

end

end TcpConnector

namespace ClientLoop

open Lib.Runs EventLoop

/-- A closure of `Start` finds no attempt in progress, and no dispatch that waits for its
destruction. -/
def StartsOver (w : World) (a : Label) : Prop :=
  w.starts a = true → w.connector.state ≠ .kConnecting ∧ w.timers = 0 ∧
    .resetDispatch ∉ w.waiting

instance (w : World) (a : Label) : Decidable (StartsOver w a) := by
  unfold StartsOver
  infer_instance

/-- The phases that come before the next batch of closures and after the timers. -/
def afterTimers : Phase Func Owner → Prop
  | .dispatch _ | .swap => True
  | _ => False

theorem afterTimers_move {p q : Phase Func Owner} (hmove : World.PhaseMove p q)
    (hafter : afterTimers p) : afterTimers q := by
  cases hmove with
  | enter => cases hafter
  | leave => cases hafter
  | iterate => cases hafter
  | poll ds => cases hafter
  | timersDone ds => trivial
  | handleEvent d rest => trivial
  | runFuncs => trivial
  | funcsDone => cases hafter
  | released => cases hafter

/-- In every state. A retry timer and the destruction of the dispatch before it are set at
the same time, and the latter comes first. -/
structure Owns (w : World) : Prop where
  agrees : w.connector.Agrees w.registered
  timers : w.timers ≤ 1
  retrying : 0 < w.timers → w.connector.state ≠ .kConnecting ∧
    (.resetDispatch ∈ w.queued → afterTimers w.loop.phase)
  connecting : w.connector.state = .kConnecting → .resetDispatch ∉ w.waiting
  handling : w.handling ≠ [] → ∃ ds, w.loop.phase = .dispatch ds
  overlapping : w.log.overlapping = 0
  destroyed : w.log.destroyed = []

theorem owns_create : Owns World.create where
  agrees := TcpConnector.agrees_out (by decide) fun _ => rfl
  timers := Nat.zero_le 1
  retrying h := by cases h
  connecting h := by cases h
  handling h := by cases h rfl
  overlapping := rfl
  destroyed := rfl

section

variable {w w' : World}

theorem Owns.no_timer (h : Owns w) (hstate : w.connector.state = .kConnecting) : w.timers = 0 := by
  by_contra htimers
  exact (h.retrying (Nat.pos_of_ne_zero htimers)).1 hstate

/-- A step besides the loop, the connector's attempts and its timers. -/
theorem Owns.frame (h : Owns w) (hloop : w'.loop = w.loop)
    (hstate : w'.connector.state = w.connector.state)
    (hcurrent : w'.connector.current = w.connector.current) (htimers : w'.timers = w.timers)
    (hhandling : w'.handling ≠ [] → w.handling ≠ [])
    (hoverlapping : w'.log.overlapping = w.log.overlapping)
    (hdestroyed : w'.log.destroyed = w.log.destroyed) : Owns w' where
  agrees := by
    have hreg : w'.registered = w.registered := by
      unfold World.registered
      rw [hloop]
    rw [hreg]
    exact ⟨fun n hn => by rw [hstate, hcurrent]; exact h.agrees.current n hn,
      fun hc => by rw [hcurrent]; exact h.agrees.connecting (hstate ▸ hc)⟩
  timers := htimers ▸ h.timers
  retrying ht := by
    rw [hstate, World.queued, hloop]
    exact h.retrying (htimers ▸ ht)
  connecting hc := by
    rw [World.waiting, World.batched, World.queued, hloop]
    exact h.connecting (hstate ▸ hc)
  handling hne := by
    rw [hloop]
    exact h.handling (hhandling hne)
  overlapping := hoverlapping.trans h.overlapping
  destroyed := hdestroyed.trans h.destroyed

/-- A step that adds closures to the queue. -/
theorem Owns.still (h : Owns w) {l : State Func Owner} (hphase : l.phase = w.loop.phase)
    {extra : List Func} (hextra : .resetDispatch ∉ extra)
    (hfuncs : l.funcs.map EventLoop.Task.func = w.queued ++ extra)
    (hreg : { w with loop := l }.registered = w.registered) : Owns { w with loop := l } := by
  have hqueued : .resetDispatch ∈ { w with loop := l }.queued → .resetDispatch ∈ w.queued := by
    rw [World.queued, hfuncs, List.mem_append]
    exact (or_iff_left hextra).mp
  have hbatched : { w with loop := l }.batched = w.batched := by
    simp only [World.batched, State.batch, hphase]
  have hagrees : w.connector.Agrees { w with loop := l }.registered := hreg ▸ h.agrees
  refine ⟨hagrees, h.timers, fun ht => ⟨(h.retrying ht).1, fun hmem => ?_⟩, fun hc hmem => ?_,
    fun hne => ?_, h.overlapping, h.destroyed⟩
  · rw [hphase]
    exact (h.retrying ht).2 (hqueued hmem)
  · refine h.connecting hc ?_
    rcases List.mem_append.mp hmem with hmem | hmem
    · exact List.mem_append_left _ (hbatched ▸ hmem)
    · exact List.mem_append_right _ (hqueued hmem)
  · rw [hphase]
    exact h.handling hne

theorem Owns.loop (h : Owns w) {l : State Func Owner} (hmove : w.LoopMove l) :
    Owns { w with loop := l } := by
  obtain ⟨hmoved, hreg⟩ := hmove
  have hagrees : w.connector.Agrees { w with loop := l }.registered := hreg ▸ h.agrees
  rcases hmoved with ⟨hphase, extra, hextra, hfuncs⟩ | ⟨hidle, hfuncs, hmove⟩ |
    ⟨hidle, hphase, hnew, hfuncs⟩
  · exact h.still hphase (fun hmem => by cases hextra _ hmem) hfuncs hreg
  · obtain ⟨hbatch, hbatch'⟩ := World.batch_of_move hmove
    have hqueued : { w with loop := l }.queued = w.queued := by
      simp only [World.queued, hfuncs]
    have hwaiting : { w with loop := l }.waiting = w.waiting := by
      simp only [World.waiting, World.batched, World.queued, hbatch, hbatch', hfuncs]
    refine ⟨hagrees, h.timers, fun ht => ⟨(h.retrying ht).1, fun hmem => ?_⟩, fun hc => ?_,
      fun hne => ?_, h.overlapping, h.destroyed⟩
    · exact afterTimers_move hmove ((h.retrying ht).2 (hqueued ▸ hmem))
    · rw [hwaiting]
      exact h.connecting hc
    · exact absurd (by simp [World.handling, hidle]) hne
  · have hqueued : { w with loop := l }.queued = [] := by
      simp only [World.queued, hfuncs, List.map_nil]
    have hwaiting : { w with loop := l }.waiting = w.queued := by
      simp only [World.waiting, World.batched, State.batch, hnew, hfuncs, List.map_nil,
        List.append_nil, World.queued]
    refine ⟨hagrees, h.timers, fun ht => ⟨(h.retrying ht).1, fun hmem => ?_⟩, fun hc hmem => ?_,
      fun hne => ?_, h.overlapping, h.destroyed⟩
    · rw [hqueued] at hmem
      cases hmem
    · rw [hwaiting] at hmem
      exact h.connecting hc (List.mem_append_right _ hmem)
    · exact absurd (by simp [World.handling, hidle]) hne

/-- The end of an attempt. -/
theorem Owns.ends (h : Owns w) {out : TcpConnector.Outcome}
    (hstate : w.connector.state = .kConnecting) (hends : TcpConnector.Ends out w.registered)
    (hafter : out.2.countP TcpConnector.Effect.isRunAfter = 0 ∨ afterTimers w.loop.phase) :
    Owns (w.settle out) where
  agrees := by
    rw [World.settle_connector, World.settle_registered]
    exact TcpConnector.agrees_out hends.state hends.emptied
  timers := by
    rw [World.settle_timers, h.no_timer hstate, Nat.zero_add]
    exact hends.timers
  retrying ht := by
    rw [World.settle_timers, h.no_timer hstate, Nat.zero_add] at ht
    rw [World.settle_connector, World.settle_phase]
    refine ⟨hends.state, fun _ => ?_⟩
    rcases hafter with hnone | hafter
    · rw [hnone] at ht
      cases ht
    · exact hafter
  connecting hc := by
    rw [World.settle_connector] at hc
    exact absurd hc hends.state
  handling hne := by
    rw [World.settle_handling] at hne
    rw [World.settle_phase]
    exact h.handling hne
  overlapping := (w.settle_quiet out hends.quiet).1.trans h.overlapping
  destroyed := (w.settle_quiet out hends.quiet).2.trans h.destroyed

theorem overlapping_attempt {k : TcpConnector} {out : TcpConnector.Outcome}
    (hattempt : k.Attempt out) : (w.settle out).log.overlapping =
      if w.attempting k.state then w.log.overlapping + 1 else w.log.overlapping := by
  cases hattempt with
  | connecting =>
    cases hcurrent : k.current with
    | none =>
      simp [World.settle, TcpConnector.connecting, TcpConnector.destroys, hcurrent, World.perform,
        World.noteEntered, World.attempting]
    | some n =>
      simp [World.settle, TcpConnector.connecting, TcpConnector.destroys, hcurrent, World.perform,
        World.noteEntered, World.attempting, World.destroyDispatch]
  | retried hretried =>
    cases hretried with
    | _ => simp [World.settle, World.perform, World.noteEntered, World.attempting]
  | failed => simp [World.settle, World.perform, World.noteEntered, World.attempting]

theorem destroyed_attempt {k : TcpConnector} {out : TcpConnector.Outcome}
    (hattempt : k.Attempt out) (hout : ∀ n, w.registered n = false) :
    (w.settle out).log.destroyed = w.log.destroyed := by
  simp only [World.registered] at hout
  cases hattempt with
  | connecting =>
    cases hcurrent : k.current with
    | none =>
      simp [World.settle, TcpConnector.connecting, TcpConnector.destroys, hcurrent, World.perform,
        World.noteEntered]
    | some n =>
      simp [World.settle, TcpConnector.connecting, TcpConnector.destroys, hcurrent, World.perform,
        World.noteEntered, World.destroyDispatch, World.registered, hout]
  | retried hretried =>
    cases hretried with
    | _ => rfl
  | failed => rfl

theorem Owns.attempt (h : Owns w) {k : TcpConnector} {out : TcpConnector.Outcome}
    (hattempt : k.Attempt out) (hk : k.state = w.connector.state)
    (hstate : w.connector.state ≠ .kConnecting) (htimers : w.timers = 0)
    (hreset : .resetDispatch ∉ w.waiting) : Owns (w.settle out) := by
  have hover : (w.settle out).log.overlapping = w.log.overlapping := by
    rw [overlapping_attempt hattempt, hk]
    exact if_neg (by simp [World.attempting, hstate, htimers])
  have hdestroyed := destroyed_attempt hattempt (h.agrees.out hstate)
  obtain ⟨hcount, hqueue, hretrying⟩ := TcpConnector.attempt_counts hattempt
  have htimers' : (w.settle out).timers = out.2.countP TcpConnector.Effect.isRunAfter := by
    rw [World.settle_timers, htimers, Nat.zero_add]
  have hqueued : (w.settle out).queued = w.queued := by
    rw [World.settle_queued, hqueue, List.replicate_zero, List.append_nil]
  have hwaiting : (w.settle out).waiting = w.waiting := by
    rw [World.waiting, hqueued, World.settle_batched, World.waiting]
  refine ⟨?_, htimers' ▸ hcount, fun ht => ?_, fun _ => hwaiting ▸ hreset, fun hne => ?_,
    hover.trans h.overlapping, hdestroyed.trans h.destroyed⟩
  · rw [World.settle_connector, World.settle_registered]
    exact TcpConnector.agrees_attempt (hk ▸ hstate) (h.agrees.out hstate) hattempt
  · rw [World.settle_connector, hqueued]
    refine ⟨hretrying (htimers' ▸ ht), fun hmem => absurd ?_ hreset⟩
    exact List.mem_append_right _ hmem
  · rw [World.settle_handling] at hne
    rw [World.settle_phase]
    exact h.handling hne

/-- By a closure of `Start` or a retry timer. -/
theorem Owns.startInLoop (h : Owns w) {k : TcpConnector} (hk : k.state = w.connector.state)
    (hcurrent : k.current = w.connector.current) (hstate : w.connector.state ≠ .kConnecting)
    (htimers : w.timers = 0) (hreset : .resetDispatch ∉ w.waiting) (err : TcpConnector.Err) :
    Owns (w.settle (k.startInLoop err)) := by
  have hfailed : Owns w.noteFailed := h.frame rfl rfl rfl rfl id rfl rfl
  simp only [TcpConnector.startInLoop]
  split
  · split
    · exact h.attempt (k.attempt_connect err) hk hstate htimers hreset
    · exact hfailed.attempt (k.attempt_connect err) hk hstate htimers hreset
  · split
    · exact h.frame rfl hk hcurrent rfl id rfl rfl
    · exact hfailed.frame rfl hk hcurrent rfl id rfl rfl

/-- The closure of `ResetDispatch`, when no attempt has begun since. -/
theorem Owns.dispatchReset (h : Owns w) (hstate : w.connector.state ≠ .kConnecting) :
    Owns (w.act .dispatchReset) := by
  have hnone (p : TcpConnector.Effect → Bool) (hp : ∀ n, p (.destroyDispatch n) = false) :
      (w.connector.exec .dispatchReset).2.countP p = 0 := w.connector.countP_destroys hp
  have htimers : (w.act .dispatchReset).timers = w.timers := by
    rw [World.act, World.settle_timers, hnone _ fun n => rfl, Nat.add_zero]
  have hqueued : (w.act .dispatchReset).queued = w.queued := by
    rw [World.act, World.settle_queued, hnone _ fun n => rfl, List.replicate_zero,
      List.append_nil]
  have hlog : (w.act .dispatchReset).log = w.log := by
    have hout := h.agrees.out hstate
    simp only [World.registered] at hout
    unfold World.act TcpConnector.exec TcpConnector.dispatchReset TcpConnector.destroys
    cases w.connector.current with
    | none => rfl
    | some n =>
      simp [World.settle, World.perform, World.destroyDispatch, World.registered, hout]
  refine ⟨?_, htimers ▸ h.timers, fun ht => ?_, fun hc => ?_, fun hne => ?_,
    hlog ▸ h.overlapping, hlog ▸ h.destroyed⟩
  · rw [World.act, World.settle_connector, World.settle_registered]
    exact TcpConnector.agrees_out hstate fun n => by
      rw [TcpConnector.exec, TcpConnector.dispatchReset, TcpConnector.registers_destroys]
      exact h.agrees.out hstate n
  · rw [hqueued, World.act, World.settle_connector, World.settle_phase]
    exact h.retrying (htimers ▸ ht)
  · rw [World.act, World.settle_connector] at hc
    exact absurd hc hstate
  · rw [World.act, World.settle_handling] at hne
    rw [World.act, World.settle_phase]
    exact h.handling hne

theorem Owns.act (h : Owns w) (op : TcpConnector.Op)
    (hstart : op.starts = true → w.connector.state ≠ .kConnecting ∧ w.timers = 0 ∧
      .resetDispatch ∉ w.waiting)
    (hreset : op = .dispatchReset → w.connector.state ≠ .kConnecting)
    (hhandle : (∃ r, op = .handleEvent r) → w.handling ≠ []) : Owns (w.act op) := by
  cases op with
  | start retry err =>
    obtain ⟨hstate, htimers, hreset⟩ := hstart rfl
    exact h.startInLoop (k := { w.connector with retry_ := retry, connect_ := true }) rfl rfl hstate
      htimers hreset err
  | startInLoop err =>
    obtain ⟨hstate, htimers, hreset⟩ := hstart rfl
    exact h.startInLoop rfl rfl hstate htimers hreset err
  | stopInLoop =>
    by_cases hstate : w.connector.state = .kConnecting
    · obtain ⟨hends, hnone⟩ := TcpConnector.ends_stopInLoop hstate
        fun n hn => (h.agrees.current n hn).2
      exact h.ends hstate hends (.inl hnone)
    · rw [World.act, TcpConnector.exec, w.connector.stopInLoop_of_ne hstate]
      exact h.frame rfl rfl rfl rfl id rfl rfl
  | dispatchReset => exact h.dispatchReset (hreset rfl)
  | handleEvent r =>
    by_cases hstate : w.connector.state = .kConnecting
    · have hends := TcpConnector.ends_handleEvent hstate
        (fun n hn => (h.agrees.current n hn).2) r
      obtain ⟨ds, hphase⟩ := h.handling (hhandle ⟨r, rfl⟩)
      exact h.ends hstate hends (.inr (by rw [hphase]; trivial))
    · rw [World.act, TcpConnector.exec, w.connector.handleEvent_of_ne hstate]
      exact h.frame rfl rfl rfl rfl id rfl rfl

/-- The loop takes a closure from the batch. -/
theorem Owns.taken (h : Owns w) {l : State Func Owner} {task : EventLoop.Task Func}
    {rest : List (EventLoop.Task Func)} (hidle : w.stack = [])
    (hphase : w.loop.phase = .funcs (task :: rest))
    (hl : EventLoop.next w.loop .exec = some l) :
    Owns { w with loop := l } ∧ w.waiting = task.func :: { w with loop := l }.waiting := by
  obtain ⟨hnew, hfuncs, hreg⟩ := World.next_exec hphase hl
  have hwaiting := World.waiting_exec hphase hl
  have hagrees : w.connector.Agrees { w with loop := l }.registered := hreg ▸ h.agrees
  refine ⟨⟨hagrees, h.timers, fun ht => ⟨(h.retrying ht).1, fun hmem => ?_⟩, fun hc hmem => ?_,
    fun hne => ?_, h.overlapping, h.destroyed⟩, hwaiting⟩
  · have hafter := (h.retrying ht).2 (by simpa only [World.queued, hfuncs] using hmem)
    rw [hphase] at hafter
    cases hafter
  · refine h.connecting hc ?_
    rw [hwaiting]
    exact List.mem_cons_of_mem _ hmem
  · exact absurd (by simp [World.handling, hidle]) hne

theorem Owns.runFunc (h : Owns w) (err : TcpConnector.Err) (f : Func)
    (hstart : f.isStart = true → w.connector.state ≠ .kConnecting ∧ w.timers = 0 ∧
      .resetDispatch ∉ w.waiting)
    (hreset : f = .resetDispatch → w.connector.state ≠ .kConnecting) :
    Owns (w.runFunc err f) := by
  cases f with
  | start retry =>
    exact h.act _ (fun _ => hstart rfl) (fun heq => by cases heq) (fun ⟨r, heq⟩ => by cases heq)
  | stop =>
    exact h.act _ (fun hs => by cases hs) (fun heq => by cases heq) (fun ⟨r, heq⟩ => by cases heq)
  | resetDispatch => exact h.dispatchReset (hreset rfl)
  | user => exact h.frame rfl rfl rfl rfl id rfl rfl

/-- A retry timer runs out: the destruction of the dispatch before it is over. -/
theorem Owns.fireRetry (h : Owns w) {ds : List (DispatchId Owner)} {n : ℕ}
    (hphase : w.loop.phase = .timers ds) (htimers : w.timers = n + 1) (err : TcpConnector.Err) :
    Owns ({ w with timers := n }.act (.startInLoop err)) := by
  obtain ⟨hstate, hafter⟩ := h.retrying (htimers ▸ Nat.succ_pos n)
  obtain rfl : n = 0 := by
    have hle := h.timers
    omega
  rw [hphase] at hafter
  have hframe : Owns { w with timers := 0 } :=
    ⟨h.agrees, Nat.zero_le 1, fun ht => (by cases ht), h.connecting, h.handling, h.overlapping,
      h.destroyed⟩
  refine hframe.startInLoop rfl rfl hstate rfl (fun hmem => ?_) err
  rw [World.waiting, World.batched, State.batch, hphase] at hmem
  exact hafter hmem

/-- The step lemma. -/
theorem Owns.step {a : Label} (h : Owns w) (hok : StartsOver w a) (ha : Step w a w') :
    Owns w' := by
  cases ha with
  | loop hallows hl => exact h.loop (World.loopMove_of_next hallows hl)
  | poll hidle hl =>
    exact (h.loop (World.loopMove_poll hidle hl).1).frame rfl (World.report_state _ _)
      (World.report_current _ _) rfl id rfl rfl
  | @handleEvent reads d rest l hidle hphase hl =>
    obtain ⟨hmove, hnew⟩ := World.loopMove_handleEvent hidle hphase hl
    have hloop := h.loop hmove
    exact ⟨hloop.agrees, hloop.timers, hloop.retrying, hloop.connecting, fun _ => ⟨rest, hnew⟩,
      hloop.overlapping, hloop.destroyed⟩
  | @exec err task rest l hidle hphase hl =>
    obtain ⟨hloop, hwaiting⟩ := h.taken hidle hphase hl
    refine hloop.runFunc _ _ (fun hstart => ?_) fun hreset hc => ?_
    · obtain ⟨hstate, htimers, hnone⟩ :=
        hok (by simp [World.starts, State.batch, hphase, hstart])
      exact ⟨hstate, htimers, fun hmem => hnone (hwaiting ▸ List.mem_cons_of_mem _ hmem)⟩
    · refine h.connecting hc ?_
      rw [hwaiting, hreset]
      exact List.mem_cons_self
  | fireRetry _ hphase htimers => exact h.fireRetry hphase htimers _
  | handled hstack =>
    exact h.frame rfl rfl rfl rfl (fun _ => by simp [World.handling, hstack]) rfl rfl
  | @branch r n rest hstack =>
    have hframe : Owns { w with stack := .handleEvent n :: rest } :=
      h.frame rfl rfl rfl rfl (fun _ => by simp [World.handling, hstack]) rfl rfl
    exact hframe.act _ (fun hs => by cases hs) (fun heq => by cases heq)
      fun _ => by simp [World.handling]
  | connected hstack =>
    exact h.frame rfl rfl rfl rfl (fun hne => by simpa [World.handling, hstack] using hne) rfl rfl
  | set hstack =>
    exact h.frame rfl rfl rfl rfl
      (fun hne => by simpa [World.handling, hstack, World.setConnect] using hne) rfl rfl
  | ret hstack =>
    exact h.frame rfl rfl rfl rfl (fun hne => by simpa [World.handling, hstack] using hne) rfl rfl
  | callIgnored _ => exact h
  | @call w₁ call spurious err _ _ hcheck =>
    have hsame := World.check_cases hcheck
    have hframe : Owns { w₁ with stack := call.sets.toList.map Frame.set ++ w₁.stack } := by
      have hhandling : { w₁ with
          stack := call.sets.toList.map Frame.set ++ w₁.stack }.handling = w₁.handling := by
        cases call <;> rfl
      rcases hsame with rfl | rfl
      · exact h.frame rfl rfl rfl rfl (fun hne => hhandling ▸ hne) rfl rfl
      · exact h.frame rfl rfl rfl rfl (fun hne => hhandling ▸ hne) rfl rfl
    refine hframe.runFunc _ _ (fun hstart => ?_) fun hreset => ?_
    · have hfound := hok (by simp [World.starts, hcheck, hstart])
      rcases hsame with rfl | rfl
      · exact hfound
      · exact hfound
    · cases call <;> cases hreset
  | threadCallIgnored => exact h
  | threadCall _ hcheck =>
    rcases World.check_cases hcheck with rfl | rfl
    · exact h.frame rfl rfl rfl rfl id rfl rfl
    · exact h.frame rfl rfl rfl rfl id rfl rfl
  | @threadPush i t call _ =>
    have hextra : Func.resetDispatch ∉ [call.func] := by cases call <;> simp [Call.func]
    have hpushed : Owns { w with loop := w.loop.threadQueueInLoop t call.func } :=
      h.still rfl hextra (by simp [State.threadQueueInLoop, State.push, World.queued]) rfl
    exact hpushed.frame rfl rfl rfl rfl id rfl rfl
  | threadSet _ => exact h.frame rfl rfl rfl rfl id rfl rfl
  | destroy _ _ => exact h.frame rfl rfl rfl rfl id rfl rfl
  | closeConnection _ => exact h.frame rfl rfl rfl rfl id rfl rfl
  | release => exact h.frame rfl rfl rfl rfl id rfl rfl

end

theorem overlapping_startInLoop {w : World} {k : TcpConnector} (hconnect : k.connect_ = true)
    (err : TcpConnector.Err) : (w.settle (k.startInLoop err)).log.overlapping =
      if w.attempting k.state then w.log.overlapping + 1 else w.log.overlapping := by
  have hattempt := k.attempt_connect err
  simp only [TcpConnector.startInLoop, hconnect, if_true]
  split
  · exact overlapping_attempt hattempt
  · exact overlapping_attempt (w := w.noteFailed) hattempt

/-- A `Start` enters `Connect` while an attempt is in progress exactly when it finds one. -/
theorem overlapping_start {w : World} (hnone : w.log.overlapping = 0) (retry : Bool)
    (err : TcpConnector.Err) : (w.act (.start retry err)).log.overlapping = 0 ↔
      w.connector.state ≠ .kConnecting ∧ w.timers = 0 := by
  have hfree : w.attempting w.connector.state = false ↔
      w.connector.state ≠ .kConnecting ∧ w.timers = 0 := by
    simp [World.attempting]
  have hover : (w.act (.start retry err)).log.overlapping =
      if w.attempting w.connector.state then w.log.overlapping + 1 else w.log.overlapping :=
    overlapping_startInLoop (k := { w.connector with retry_ := retry, connect_ := true }) rfl err
  rw [hover, hnone, ← hfree]
  cases w.attempting w.connector.state <;> simp

/-- The closure of `ResetDispatch` destroys a dispatch in the poller exactly when it finds the
connector connecting. -/
theorem destroyed_dispatchReset {w : World} (h : Owns w) :
    (w.act .dispatchReset).log.destroyed = [] ↔ w.connector.state ≠ .kConnecting := by
  refine ⟨fun hnone hstate => ?_, fun hstate => (h.dispatchReset hstate).destroyed⟩
  obtain ⟨n, hcurrent, hreg⟩ := h.agrees.connecting hstate
  rw [World.registered] at hreg
  simp [World.act, TcpConnector.exec, TcpConnector.dispatchReset, TcpConnector.destroys, hcurrent,
    World.settle, World.perform, World.destroyDispatch, World.registered, hreg] at hnone

/-- The dispatch of the connector is in the poller exactly while it is connecting, none is
destroyed there and no attempt begins during another, in runs whose closures of `Start` all
find no attempt in progress and no dispatch waiting for its destruction. -/
theorem owns_dispatch (w : World) (hw : machine.ReachableWhen StartsOver w) :
    ((w.connector.state = .kConnecting ↔
        ∃ n, w.connector.current = some n ∧ w.registered n = true) ∧
      (∀ n, w.registered n = true → w.connector.current = some n) ∧
      w.log.destroyed = [] ∧ w.log.overlapping = 0) ∧
    (∀ retry err, (w.act (.start retry err)).log.overlapping = 0 ↔
      w.connector.state ≠ .kConnecting ∧ w.timers = 0) ∧
    ((w.act .dispatchReset).log.destroyed = [] ↔ w.connector.state ≠ .kConnecting) := by
  have h : Owns w := Machine.ReachableWhen.invariant (M := machine) owns_create
    (fun _ _ _ _ hok h ha => h.step hok (step_of_next ha)) hw
  refine ⟨⟨⟨h.agrees.connecting, fun ⟨n, _, hn⟩ => (h.agrees.current n hn).1⟩,
    fun n hn => (h.agrees.current n hn).2, h.destroyed, h.overlapping⟩, fun retry err => ?_,
    destroyed_dispatchReset h⟩
  exact overlapping_start h.overlapping retry err

/-- The first attempt fails when the socket is writable; its dispatch is destroyed before the
retry, which connects. -/
def retriedDispatch : List Label :=
  [.call (.connect true) false .einprogress, .resume .error, .loop .enter, .loop .iterate,
    .poll [(.owned (.connector 0), pollOut ||| pollErr)], .loop .timersDone, .handleEvent false,
    .resume .error, .resume .error, .resume .error, .loop .runFuncs, .loop .swap,
    .exec .zero, .loop .funcsDone, .loop .released, .loop .iterate, .poll [],
    .fireRetry .einprogress]

theorem owns_dispatch_retried : ∃ w, machine.ReachableWhen StartsOver w ∧
    w.connector.current = some 1 ∧ w.registered 1 = true ∧ w.connector.state = .kConnecting := by
  obtain ⟨w, hw, hcurrent, hreg⟩ := Machine.exists_reachableWhen_of_run (M := machine) StartsOver
    retriedDispatch (fun w => w.connector.current = some 1 ∧ w.registered 1 = true)
    (by decide +kernel)
  exact ⟨w, hw, hcurrent, hreg, (owns_dispatch w hw).1.1.mpr ⟨1, hcurrent, hreg⟩⟩

/-- `Close` and `Connect` in one callback: the closure that `Close` left behind destroys the
dispatch of the new attempt. -/
theorem not_owns_dispatch : ∃ w, machine.Reachable w ∧ w.connector.state = .kConnecting ∧
    w.connector.current = none ∧ w.registered 1 = true ∧ w.log.destroyed = [1] :=
  Machine.exists_reachable_of_run (M := machine)
    [.call (.connect true) false .einprogress, .resume .error, .loop .enter, .loop .iterate,
      .poll [], .call .close false .zero, .resume .error, .call (.connect true) false .einprogress,
      .resume .error, .loop .timersDone, .loop .runFuncs, .loop .swap, .exec .zero]
    (fun w => w.connector.state = .kConnecting ∧ w.connector.current = none ∧
      w.registered 1 = true ∧ w.log.destroyed = [1]) (by decide +kernel)

end ClientLoop

end Voyager
