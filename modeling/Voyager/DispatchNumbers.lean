import Voyager.ClientMoves

/-!
The dispatches of a connector are numbered as they are created. What the poller and the
active list know of them is older than the next one, and an attempt is in progress only with
`connect_` set, whatever the client does.
-/
namespace Voyager

namespace TcpConnector

/-- What an outcome does to the numbers of the dispatches, and that it goes on only with
`connect_` set. -/
structure Grows (k : TcpConnector) (out : Outcome) : Prop where
  connecting : out.1.state = .kConnecting → out.1.connect_ = true
  dispatches : k.dispatches ≤ out.1.dispatches
  registers : ∀ registered : ℕ → Bool, (∀ n, registered n = true → n < k.dispatches) →
    ∀ n, out.2.foldl Effect.registers registered n = true → n < out.1.dispatches

section

variable {k : TcpConnector}

theorem grows_same {k' : TcpConnector} {effects : List Effect}
    (hconnecting : k'.state = .kConnecting → k'.connect_ = true)
    (hdispatches : k'.dispatches = k.dispatches)
    (hregisters : ∀ registered, effects.foldl Effect.registers registered = registered) :
    k.Grows (k', effects) where
  connecting := hconnecting
  dispatches := hdispatches.ge
  registers registered hreg n hn := by
    rw [hregisters] at hn
    rw [hdispatches]
    exact hreg n hn

theorem grows_retried {out : Outcome} (hretried : k.Retried out) : k.Grows out := by
  cases hretried with
  | retrying time delay => exact grows_same (fun hc => by cases hc) rfl fun _ => rfl
  | failed => exact grows_same (fun hc => by cases hc) rfl fun _ => rfl
  | stopped => exact grows_same (fun hc => by cases hc) rfl fun _ => rfl

theorem grows_ending {out : Outcome} (hending : k.Ending out) : k.Grows out := by
  cases hending with
  | stopped hstate => exact grows_same (fun hc => absurd hc hstate) rfl fun _ => rfl
  | retried hretried => exact grows_retried hretried
  | connected calls =>
    refine grows_same (fun hc => by cases hc) rfl fun _ => ?_
    cases calls <;> rfl

theorem grows_reset {out out' : Outcome} (hreset : k.Reset out) (hgrows : out.1.Grows out') :
    k.Grows (out'.1, out.2 ++ out'.2) where
  connecting := hgrows.connecting
  dispatches := hreset.kept.dispatches ▸ hgrows.dispatches
  registers registered hreg n hn := by
    rw [List.foldl_append] at hn
    refine hgrows.registers _ (fun m hm => ?_) n hn
    rw [hreset.kept.dispatches]
    refine hreg m ?_
    cases hreset with
    | none _ => exact hm
    | @some i d d' calls _ =>
      by_cases heq : m = i
      · cases calls <;> simp [Effect.registers, heq] at hm
      · cases calls <;> simpa [Effect.registers, heq] using hm

theorem grows_attempt {out : Outcome} (hconnect : k.connect_ = true) (hattempt : k.Attempt out) :
    k.Grows out := by
  cases hattempt with
  | connecting =>
    refine ⟨fun _ => hconnect, Nat.le_succ _, fun registered hreg n hn => ?_⟩
    rw [registers_connecting] at hn
    show n < k.dispatches + 1
    by_cases heq : n = k.dispatches
    · exact heq ▸ Nat.lt_succ_self n
    · rw [Function.update_of_ne heq] at hn
      exact Nat.lt_succ_of_lt (hreg n hn)
  | retried hretried =>
    have hgrows := grows_retried hretried
    exact ⟨hgrows.connecting, hgrows.dispatches, hgrows.registers⟩
  | failed => exact grows_same (fun _ => hconnect) rfl fun _ => rfl

theorem grows_startInLoop (hconnecting : k.state = .kConnecting → k.connect_ = true) (err : Err) :
    k.Grows (k.startInLoop err) := by
  simp only [startInLoop]
  split
  · rename_i hconnect
    have hgrows := grows_attempt hconnect (k.attempt_connect err)
    refine ⟨hgrows.connecting, hgrows.dispatches, fun registered hreg n hn => ?_⟩
    refine hgrows.registers registered hreg n ?_
    rw [List.foldl_append] at hn
    split at hn
    · exact hn
    · exact hn
  · refine grows_same hconnecting rfl fun _ => ?_
    split
    · rfl
    · rfl

theorem grows_exec (hconnecting : k.state = .kConnecting → k.connect_ = true) (op : Op) :
    k.Grows (k.exec op) := by
  cases op with
  | start retry err =>
    have hgrows : Grows { k with retry_ := retry, connect_ := true } _ :=
      grows_startInLoop (fun _ => rfl) err
    exact ⟨hgrows.connecting, hgrows.dispatches, hgrows.registers⟩
  | startInLoop err => exact grows_startInLoop hconnecting err
  | stopInLoop =>
    by_cases hstate : k.state = .kConnecting
    · have hgrows := grows_reset k.stopped.reset_resetDispatch (grows_ending k.ending_stopped)
      rw [List.append_nil, ← k.stopInLoop_of_connecting hstate] at hgrows
      exact ⟨hgrows.connecting, hgrows.dispatches, hgrows.registers⟩
    · rw [exec, k.stopInLoop_of_ne hstate]
      exact grows_same (fun hc => absurd hc hstate) rfl fun _ => rfl
  | dispatchReset => exact grows_same hconnecting rfl fun _ => registers_destroys
  | handleEvent r =>
    by_cases hstate : k.state = .kConnecting
    · obtain ⟨out, hending, heq⟩ := k.ending_handleEvent hstate r
      rw [exec, heq]
      exact grows_reset k.reset_resetDispatch (grows_ending hending)
    · rw [exec, k.handleEvent_of_ne hstate r]
      exact grows_same hconnecting rfl fun _ => rfl

end

end TcpConnector

namespace ClientLoop

open Lib.Runs EventLoop

/-- In every state: an attempt in progress has `connect_` set, and the dispatches that the
poller and the active list know have been created. -/
structure Sound (w : World) : Prop where
  connecting : w.connector.state = .kConnecting → w.connector.connect_ = true
  registered : ∀ n, w.registered n = true → n < w.connector.dispatches
  pending : ∀ n, .owned (.connector n) ∈ w.loop.pending → n < w.connector.dispatches

theorem sound_create : Sound World.create where
  connecting h := by cases h
  registered n h := by cases h
  pending n h := by cases h

section

variable {w w' : World}

/-- A step that leaves the connector and what the poller and the active list know alone. -/
theorem Sound.frame (h : Sound w) (hstate : w'.connector.state = w.connector.state)
    (hconnect : w'.connector.connect_ = w.connector.connect_)
    (hdispatches : w'.connector.dispatches = w.connector.dispatches)
    (hregistered : w'.registered = w.registered)
    (hpending : ∀ d ∈ w'.loop.pending, d ∈ w.loop.pending) : Sound w' where
  connecting hc := by
    rw [hconnect]
    exact h.connecting (hstate ▸ hc)
  registered n hn := by
    rw [hdispatches]
    exact h.registered n (hregistered ▸ hn)
  pending n hn := by
    rw [hdispatches]
    exact h.pending n (hpending _ hn)

theorem Sound.same (h : Sound w) (hloop : w'.loop = w.loop)
    (hconnector : w'.connector = w.connector) : Sound w' := by
  refine h.frame ?_ ?_ ?_ ?_ ?_
  · rw [hconnector]
  · rw [hconnector]
  · rw [hconnector]
  · unfold World.registered
    rw [hloop]
  · rw [hloop]
    exact fun _ hd => hd

theorem Sound.act (h : Sound w) (op : TcpConnector.Op) : Sound (w.act op) := by
  have hgrows := TcpConnector.grows_exec h.connecting op
  refine ⟨?_, fun n hn => ?_, fun n hn => ?_⟩
  · rw [World.act, World.settle_connector]
    exact hgrows.connecting
  · rw [World.act, World.settle_registered] at hn
    rw [World.act, World.settle_connector]
    exact hgrows.registers _ h.registered n hn
  · rw [World.act, World.settle_connector]
    have hphase : (w.act op).loop.phase = w.loop.phase := World.settle_phase _ _
    have hn' : .owned (.connector n) ∈ w.loop.pending := by
      simpa only [State.pending, hphase] using hn
    exact Nat.lt_of_lt_of_le (h.pending n hn') hgrows.dispatches

theorem Sound.runFunc (h : Sound w) (err : TcpConnector.Err) (f : Func) :
    Sound (w.runFunc err f) := by
  cases f with
  | start retry => exact h.act _
  | stop => exact h.act _
  | resetDispatch => exact h.act _
  | user => exact h.same rfl rfl

theorem Sound.loop (h : Sound w) {l : State Func Owner} (hmove : w.LoopMove l)
    (hpending : ∀ n, .owned (.connector n) ∈ l.pending →
      .owned (.connector n) ∈ w.loop.pending ∨ w.registered n = true) :
    Sound { w with loop := l } where
  connecting := h.connecting
  registered n hn := h.registered n (hmove.registered ▸ hn)
  pending n hn := by
    rcases hpending n hn with hold | hreg
    · exact h.pending n hold
    · exact h.registered n hreg

/-- Only `Poll` adds to the active list. -/
theorem pending_move {a : EventLoop.Label Func Owner} {l : State Func Owner}
    (hallows : w.allows a = true) (hl : EventLoop.next w.loop a = some l) :
    ∀ d ∈ l.pending, d ∈ w.loop.pending := by
  intro d hd
  cases EventLoop.step_of_next hl with
  | poll _ _ _ => cases hallows
  | handleEvent _ _ _ _ _ _ _ => cases hallows
  | timersDone hphase _ => simpa only [State.pending, hphase] using hd
  | enter _ _ => cases hd
  | leave _ _ => cases hd
  | iterate _ _ => cases hd
  | runFuncs _ _ => cases hd
  | swap _ => cases hd
  | exec _ _ => cases hd
  | funcsDone _ _ => cases hd
  | released _ _ => cases hd
  | _ => exact hd

theorem Sound.step {a : Label} (h : Sound w) (ha : Step w a w') : Sound w' := by
  cases ha with
  | loop hallows hl =>
    exact h.loop (World.loopMove_of_next hallows hl) fun n hn =>
      .inl (pending_move hallows hl _ hn)
  | poll hidle hl =>
    obtain ⟨hmove, -, hphase, hds⟩ := World.loopMove_poll hidle hl
    have hloop := h.loop hmove fun n hn => by
      rw [State.pending, hphase] at hn
      exact .inr (hds _ hn)
    exact hloop.frame (World.report_state _ _) (World.report_connect _ _)
      (World.report_dispatches _ _) rfl fun _ hd => hd
  | @handleEvent reads d rest l hidle hphase hl =>
    obtain ⟨hmove, hnew⟩ := World.loopMove_handleEvent hidle hphase hl
    have hloop := h.loop hmove fun n hn => by
      rw [State.pending, hnew] at hn
      rw [State.pending, hphase]
      exact .inl (List.mem_cons_of_mem _ hn)
    exact hloop.same rfl rfl
  | @exec err task rest l hidle hphase hl =>
    obtain ⟨hnew, -, hreg⟩ := World.next_exec hphase hl
    have hloop : Sound { w with loop := l } :=
      h.frame rfl rfl rfl hreg fun d hd => by
        rw [State.pending, hnew] at hd
        cases hd
    exact hloop.runFunc _ _
  | @fireRetry _ ds n _ _ _ =>
    have hframe : Sound { w with timers := n } := h.same rfl rfl
    exact hframe.act _
  | handled _ => exact h.same rfl rfl
  | @branch _ n rest _ =>
    have hframe : Sound { w with stack := .handleEvent n :: rest } := h.same rfl rfl
    exact hframe.act _
  | connected _ => exact h.frame rfl rfl rfl rfl fun _ hd => hd
  | set _ => exact h.same rfl rfl
  | ret _ => exact h.same rfl rfl
  | callIgnored _ => exact h
  | @call w₁ call _ _ _ _ hcheck =>
    have hframe : Sound { w₁ with stack := call.sets.toList.map Frame.set ++ w₁.stack } := by
      rcases World.check_cases hcheck with rfl | rfl
      · exact h.same rfl rfl
      · exact h.same rfl rfl
    exact hframe.runFunc _ _
  | threadCallIgnored => exact h
  | threadCall _ hcheck =>
    rcases World.check_cases hcheck with rfl | rfl
    · exact h.same rfl rfl
    · exact h.same rfl rfl
  | threadPush _ => exact h.frame rfl rfl rfl rfl fun _ hd => hd
  | threadSet _ => exact h.same rfl rfl
  | destroy _ _ => exact h.same rfl rfl
  | closeConnection _ => exact h.same rfl rfl
  | release => exact h.same rfl rfl

end

theorem sound_of_reachable {w : World} (hw : machine.Reachable w) : Sound w :=
  Machine.Reachable.invariant sound_create (fun _ _ _ _ h ha => h.step (step_of_next ha)) hw

end ClientLoop

end Voyager
