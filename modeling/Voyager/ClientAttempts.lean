import Voyager.ClientMoves

/-!
The attempts of one client. Whether `Connect` does something is up to the client's flag and
weak pointer, which know nothing of an attempt that has not succeeded; the connector asserts
that it is disconnected, which it never is again after its first connection, and forgets
about its retry timers. Where each closure of `Start` finds it disconnected and without a
retry timer, there is at most one attempt or connection.
-/
namespace Voyager

namespace TcpConnector

/-- What each state of the connector leaves room for. -/
def Room : ConnectState → ℕ → ℕ → Prop
  | .kDisConnected, timers, opened => timers ≤ 1 ∧ opened = 0
  | .kConnecting, timers, opened => timers = 0 ∧ opened = 0
  | .kConnected, timers, opened => timers = 0 ∧ opened ≤ 1

/-- An outcome with `timers` retry timers and `opened` connections before it. -/
structure Fits (out : Outcome) (timers opened : ℕ) : Prop where
  failed : out.2.countP (· = .assertFailed) = 0
  room : Room out.1.state (timers + out.2.countP Effect.isRunAfter)
    (opened + out.2.countP (· = .newConnection))

variable {k : TcpConnector} {timers opened : ℕ}

theorem fits_connecting : Fits (k.connecting.1, .enterConnect k.state :: k.connecting.2) 0 0 := by
  unfold connecting destroys
  cases k.current with
  | none => exact ⟨rfl, rfl, rfl⟩
  | some n => exact ⟨rfl, rfl, rfl⟩

theorem fits_retried {out : Outcome} (hout : k.Retried out) : Fits out 0 0 := by
  cases hout with
  | retrying time delay => exact ⟨rfl, Nat.le_refl 1, rfl⟩
  | failed => exact ⟨rfl, Nat.zero_le 1, rfl⟩
  | stopped => exact ⟨rfl, Nat.zero_le 1, rfl⟩

theorem fits_attempt {out : Outcome} (hstate : k.state = .kDisConnected) (hout : k.Attempt out) :
    Fits out 0 0 := by
  cases hout with
  | connecting => exact fits_connecting
  | retried hretried => exact ⟨(fits_retried hretried).failed, (fits_retried hretried).room⟩
  | failed =>
    refine ⟨rfl, ?_⟩
    rw [hstate]
    exact ⟨Nat.zero_le 1, rfl⟩

/-- By a closure of `Start` or a retry timer, without another timer or a connection. -/
theorem fits_startInLoop (hstate : k.state = .kDisConnected) (err : Err) :
    Fits (k.startInLoop err) 0 0 := by
  simp only [startInLoop, hstate, if_true, List.nil_append]
  split
  · exact fits_attempt hstate (k.attempt_connect err)
  · refine ⟨rfl, ?_⟩
    rw [hstate]
    exact ⟨Nat.zero_le 1, rfl⟩

theorem fits_same (h : Room k.state timers opened) {k' : TcpConnector}
    (hstate : k'.state = k.state) : Fits (k', []) timers opened := by
  refine ⟨rfl, ?_⟩
  rw [hstate]
  exact h

/-- `ResetDispatch` calls nothing that counts. -/
theorem fits_reset {out out' : Outcome} (hreset : k.Reset out) (hfits : Fits out' timers opened) :
    Fits (out'.1, out.2 ++ out'.2) timers opened := by
  have hquiet (p : Effect → Bool) (hp : ∀ n, p (.updateEvents n) = false ∧
      p (.removeEvents n) = false) (hqueue : p .queueReset = false) :
      (out.2 ++ out'.2).countP p = out'.2.countP p := by
    rw [List.countP_append]
    cases hreset with
    | none _ => exact Nat.zero_add _
    | some d' calls _ => cases calls <;> simp [hp, hqueue]
  constructor
  · rw [hquiet _ (fun n => ⟨rfl, rfl⟩) rfl]
    exact hfits.failed
  · rw [hquiet _ (fun n => ⟨rfl, rfl⟩) rfl, hquiet _ (fun n => ⟨rfl, rfl⟩) rfl]
    exact hfits.room

theorem fits_ending {out out' : Outcome} (hreset : k.Reset out) (hending : out.1.Ending out') :
    Fits (out'.1, out.2 ++ out'.2) 0 0 := by
  apply fits_reset hreset
  cases hending with
  | stopped hstate =>
    refine ⟨rfl, ?_⟩
    cases out.1.state with
    | kDisConnected => exact ⟨Nat.zero_le 1, rfl⟩
    | kConnecting => exact ⟨rfl, rfl⟩
    | kConnected => exact ⟨rfl, Nat.zero_le 1⟩
  | retried hretried => exact fits_retried hretried
  | connected calls =>
    cases calls with
    | true => exact ⟨rfl, rfl, Nat.le_refl 1⟩
    | false => exact ⟨rfl, rfl, Nat.zero_le 1⟩

theorem fits_stopInLoop (h : Room k.state timers opened) : Fits k.stopInLoop timers opened := by
  by_cases hstate : k.state = .kConnecting
  · rw [hstate] at h
    obtain ⟨rfl, rfl⟩ := h
    have hfits := fits_ending k.stopped.reset_resetDispatch k.ending_stopped
    rw [List.append_nil] at hfits
    rw [k.stopInLoop_of_connecting hstate]
    exact hfits
  · rw [k.stopInLoop_of_ne hstate]
    exact fits_same h rfl

theorem fits_handleEvent (h : Room k.state timers opened) (r : SocketResult) :
    Fits (k.handleEvent r) timers opened := by
  by_cases hstate : k.state = .kConnecting
  · rw [hstate] at h
    obtain ⟨rfl, rfl⟩ := h
    obtain ⟨out, hending, heq⟩ := k.ending_handleEvent hstate r
    rw [heq]
    exact fits_ending k.reset_resetDispatch hending
  · rw [k.handleEvent_of_ne hstate r]
    exact fits_same h rfl

/-- The step lemma for the connector: an attempt begins without a timer or a connection. -/
theorem fits_exec (h : Room k.state timers opened) (op : Op)
    (hstart : op.starts = true → k.state = .kDisConnected ∧ timers = 0) :
    Fits (k.exec op) timers opened := by
  cases op with
  | start retry err =>
    obtain ⟨hstate, rfl⟩ := hstart rfl
    rw [hstate] at h
    rw [h.2]
    exact fits_startInLoop (k := { k with retry_ := retry, connect_ := true }) hstate err
  | startInLoop err =>
    obtain ⟨hstate, rfl⟩ := hstart rfl
    rw [hstate] at h
    rw [h.2]
    exact fits_startInLoop hstate err
  | stopInLoop => exact fits_stopInLoop h
  | dispatchReset =>
    refine ⟨k.countP_destroys fun n => rfl, ?_⟩
    simp only [exec, dispatchReset]
    rw [k.countP_destroys fun n => rfl, k.countP_destroys fun n => rfl]
    exact h
  | handleEvent r => exact fits_handleEvent h r

end TcpConnector

namespace ClientLoop

open Lib.Runs EventLoop

namespace World

/-- The attempts in progress: the one whose socket is connecting, and those that wait for
their retry timer. -/
def attempts (w : World) : ℕ := (if w.connector.state = .kConnecting then 1 else 0) + w.timers

end World

/-- A closure of `Start` finds the connector disconnected, and no retry timer. -/
def StartsApart (w : World) (a : Label) : Prop :=
  w.starts a = true → w.connector.state = .kDisConnected ∧ w.timers = 0

instance (w : World) (a : Label) : Decidable (StartsApart w a) := by
  unfold StartsApart
  infer_instance

/-- `assert(state_ == kDisConnected)` has not failed, and there is at most one attempt or open
connection. -/
def OneAttempt (w : World) : Prop := w.log.failed = 0 ∧ w.attempts + w.opened.length ≤ 1

/-- In every state. -/
structure AtMostOne (w : World) : Prop where
  failed : w.log.failed = 0
  room : TcpConnector.Room w.connector.state w.timers w.opened.length

theorem atMostOne_create : AtMostOne World.create := ⟨rfl, by decide, rfl⟩

section

variable {w w' : World}

/-- A step that opens nothing and leaves the connector's state and timers alone. -/
theorem AtMostOne.frame (h : AtMostOne w) (hlog : w'.log.failed = w.log.failed)
    (hstate : w'.connector.state = w.connector.state) (htimers : w'.timers = w.timers)
    (hopened : w'.opened.length ≤ w.opened.length) : AtMostOne w' where
  failed := hlog.trans h.failed
  room := by
    have hroom := h.room
    rw [hstate, htimers]
    cases hs : w.connector.state with
    | kDisConnected =>
      rw [hs] at hroom
      exact ⟨hroom.1, Nat.le_zero.mp (hroom.2 ▸ hopened)⟩
    | kConnecting =>
      rw [hs] at hroom
      exact ⟨hroom.1, Nat.le_zero.mp (hroom.2 ▸ hopened)⟩
    | kConnected =>
      rw [hs] at hroom
      exact ⟨hroom.1, hopened.trans hroom.2⟩

theorem AtMostOne.act (h : AtMostOne w) (op : TcpConnector.Op)
    (hstart : op.starts = true → w.connector.state = .kDisConnected ∧ w.timers = 0) :
    AtMostOne (w.act op) := by
  have hfits := TcpConnector.fits_exec h.room op hstart
  constructor
  · rw [World.act, World.settle_failed, h.failed, hfits.failed]
  · rw [World.act, World.settle_connector, World.settle_timers, World.settle_opened]
    exact hfits.room

theorem AtMostOne.runFunc (h : AtMostOne w) (err : TcpConnector.Err) (f : Func)
    (hstart : f.isStart = true → w.connector.state = .kDisConnected ∧ w.timers = 0) :
    AtMostOne (w.runFunc err f) := by
  cases f with
  | start retry => exact h.act _ fun _ => hstart rfl
  | stop => exact h.act _ fun hstart => by cases hstart
  | resetDispatch => exact h.act _ fun hstart => by cases hstart
  | user => exact h.frame rfl rfl rfl (Nat.le_refl _)

/-- The step lemma. -/
theorem AtMostOne.step {a : Label} (h : AtMostOne w) (hok : StartsApart w a) (ha : Step w a w') :
    AtMostOne w' := by
  cases ha with
  | loop _ _ => exact h.frame rfl rfl rfl (Nat.le_refl _)
  | poll _ _ => exact h.frame rfl (World.report_state _ _) rfl (Nat.le_refl _)
  | handleEvent _ _ _ => exact h.frame rfl rfl rfl (Nat.le_refl _)
  | @exec _ task rest l _ hphase _ =>
    have hframe : AtMostOne { w with loop := l } := h.frame rfl rfl rfl (Nat.le_refl _)
    refine hframe.runFunc _ _ fun hstart => hok ?_
    simp [World.starts, State.batch, hphase, hstart]
  | @fireRetry _ ds n _ _ htimers =>
    have hroom := h.room
    have hstate : w.connector.state = .kDisConnected := by
      cases hs : w.connector.state with
      | kDisConnected => rfl
      | _ =>
        rw [hs, htimers] at hroom
        cases hroom.1
    rw [hstate, htimers] at hroom
    obtain rfl : n = 0 := Nat.le_zero.mp (Nat.le_of_succ_le_succ hroom.1)
    have hframe : AtMostOne { w with timers := 0 } := by
      refine ⟨h.failed, ?_⟩
      rw [hstate]
      exact ⟨Nat.zero_le 1, hroom.2⟩
    exact hframe.act _ fun _ => ⟨hstate, rfl⟩
  | handled _ => exact h.frame rfl rfl rfl (Nat.le_refl _)
  | @branch _ n rest _ =>
    have hframe : AtMostOne { w with stack := .handleEvent n :: rest } :=
      h.frame rfl rfl rfl (Nat.le_refl _)
    exact hframe.act _ fun hstart => by cases hstart
  | connected _ => exact h.frame rfl rfl rfl (Nat.le_refl _)
  | set _ => exact h.frame rfl rfl rfl (Nat.le_refl _)
  | ret _ => exact h.frame rfl rfl rfl (Nat.le_refl _)
  | callIgnored _ => exact h
  | @call w₁ call spurious err _ _ hcheck =>
    have hsame := World.check_cases hcheck
    have hframe : AtMostOne { w₁ with stack := call.sets.toList.map Frame.set ++ w₁.stack } := by
      rcases hsame with rfl | rfl
      · exact h.frame rfl rfl rfl (Nat.le_refl _)
      · exact h.frame rfl rfl rfl (Nat.le_refl _)
    refine hframe.runFunc _ _ fun hstart => ?_
    have hfound := hok (by simp [World.starts, hcheck, hstart])
    rcases hsame with rfl | rfl
    · exact hfound
    · exact hfound
  | threadCallIgnored => exact h
  | threadCall _ hcheck =>
    rcases World.check_cases hcheck with rfl | rfl
    · exact h.frame rfl rfl rfl (Nat.le_refl _)
    · exact h.frame rfl rfl rfl (Nat.le_refl _)
  | threadPush _ => exact h.frame rfl rfl rfl (Nat.le_refl _)
  | threadSet _ => exact h.frame rfl rfl rfl (Nat.le_refl _)
  | destroy _ _ => exact h.frame rfl rfl rfl (Nat.le_refl _)
  | closeConnection _ => exact h.frame rfl rfl rfl (List.length_erase_le)
  | release => exact h.frame rfl rfl rfl (Nat.le_refl _)

end

theorem AtMostOne.oneAttempt {w : World} (h : AtMostOne w) : OneAttempt w := by
  have hroom := h.room
  refine ⟨h.failed, ?_⟩
  unfold World.attempts
  cases hs : w.connector.state with
  | kDisConnected =>
    rw [hs] at hroom
    obtain ⟨htimers, hopened⟩ := hroom
    simpa [hopened] using htimers
  | kConnecting =>
    rw [hs] at hroom
    obtain ⟨htimers, hopened⟩ := hroom
    simp [htimers, hopened]
  | kConnected =>
    rw [hs] at hroom
    obtain ⟨htimers, hopened⟩ := hroom
    simpa [htimers] using hopened

/-- A `Start` that finds another state or a retry timer does not fit in when the socket
connects. -/
theorem not_oneAttempt_start {w : World} (retry : Bool)
    (hstart : OneAttempt (w.act (.start retry .einprogress))) :
    w.connector.state = .kDisConnected ∧ w.timers = 0 := by
  obtain ⟨hfailed, hattempts⟩ := hstart
  rw [World.act, World.settle_failed] at hfailed
  have hstate : w.connector.state = .kDisConnected := by
    by_contra hother
    simp [TcpConnector.exec, TcpConnector.start, TcpConnector.startInLoop, hother] at hfailed
  have hconnecting : (w.act (.start retry .einprogress)).connector.state = .kConnecting := by
    rw [World.act, World.settle_connector]
    rfl
  have htimers : w.timers ≤ (w.act (.start retry .einprogress)).timers := by
    rw [World.act, World.settle_timers]
    exact Nat.le_add_right _ _
  simp only [World.attempts, hconnecting, if_true] at hattempts
  exact ⟨hstate, by omega⟩

theorem AtMostOne.none_before {w : World} (h : AtMostOne w)
    (hstate : w.connector.state = .kDisConnected) (htimers : w.timers = 0) :
    w.attempts + w.opened.length = 0 := by
  have hroom := h.room
  rw [hstate] at hroom
  simp [World.attempts, hstate, htimers, hroom.2]

/-- One attempt or connection at a time and no failed assertion, in runs whose closures of
`Start` all find the connector disconnected and without a retry timer. These begin an attempt
where there is none and no connection; any other closure of `Start` ends this for some answer
of connect(2). -/
theorem connects_at_most_once (w : World) (hw : machine.ReachableWhen StartsApart w) :
    OneAttempt w ∧
    (∀ a, StartsApart w a → w.starts a = true → w.attempts + w.opened.length = 0) ∧
    ∀ retry, (∀ err, OneAttempt (w.act (.start retry err))) ↔
      w.connector.state = .kDisConnected ∧ w.timers = 0 := by
  have h : AtMostOne w := Machine.ReachableWhen.invariant (M := machine) atMostOne_create
    (fun _ _ _ _ hok h ha => h.step hok (step_of_next ha)) hw
  refine ⟨h.oneAttempt, fun a hok hstarts => ?_, fun retry => ⟨fun hall => ?_, ?_⟩⟩
  · exact h.none_before (hok hstarts).1 (hok hstarts).2
  · exact not_oneAttempt_start retry (hall .einprogress)
  · exact fun hfound err => (h.act (.start retry err) fun _ => hfound).oneAttempt

/-- The first attempt is refused, the retry connects, and the peer closes later. -/
def retriedConnect : List Label :=
  [.call (.connect true) false .econnrefused, .resume .error, .loop .enter, .loop .iterate,
    .poll [], .fireRetry .einprogress, .loop .timersDone, .loop .runFuncs, .loop .swap,
    .loop .funcsDone, .loop .released, .loop .iterate, .poll [(.owned (.connector 0), pollOut)],
    .loop .timersDone, .handleEvent false, .resume .connected, .ret, .resume .error,
    .resume .error]

theorem connects_at_most_once_retried : ∃ w, machine.ReachableWhen StartsApart w ∧
    w.opened = [0] ∧ OneAttempt w := by
  obtain ⟨w, hw, hopened⟩ := Machine.exists_reachableWhen_of_run (M := machine) StartsApart
    retriedConnect (fun w => w.opened = [0]) (by decide +kernel)
  exact ⟨w, hw, hopened, (connects_at_most_once w hw).1⟩

/-- Three times `Connect`: the first is refused, the second does not know of its retry timer,
and the third not of the second. -/
theorem not_connects_at_most_once :
    ∃ w, machine.Reachable w ∧ w.log.failed = 1 ∧ w.attempts = 2 :=
  Machine.exists_reachable_of_run (M := machine)
    [.call (.connect true) false .econnrefused, .resume .error,
      .call (.connect true) false .einprogress, .resume .error,
      .call (.connect true) false .einprogress]
    (fun w => w.log.failed = 1 ∧ w.attempts = 2) (by decide +kernel)

end ClientLoop

end Voyager
