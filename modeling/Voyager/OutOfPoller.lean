import Voyager.SendOrder

/-!
A disconnected connection and the poller. `HandleClose` disables all events of the
dispatch and takes it out of the poller. What runs on the connection afterwards looks at
the state, or at what is enabled, before it enables anything; only the closure of
`StartRead` does not. The state itself only moves forward.
-/
namespace Voyager

namespace Dispatch

def plainEvents (reads writes : Bool) : Mask :=
  (if reads then kReadEvent else kNoneEvent) ||| (if writes then kWriteEvent else kNoneEvent)

/-- The read events are set as a whole or not at all, and none but them and the write
event. -/
def Plain (d : Dispatch) : Prop := ∃ reads writes, d.events = plainEvents reads writes

theorem plainEvents_or_read (reads writes : Bool) :
    plainEvents reads writes ||| kReadEvent = plainEvents true writes := by
  cases reads <;> cases writes <;> decide

theorem plainEvents_or_write (reads writes : Bool) :
    plainEvents reads writes ||| kWriteEvent = plainEvents reads true := by
  cases reads <;> cases writes <;> decide

theorem plainEvents_not_read (reads writes : Bool) :
    plainEvents reads writes &&& ~~~kReadEvent = plainEvents false writes := by
  cases reads <;> cases writes <;> decide

theorem plainEvents_not_write (reads writes : Bool) :
    plainEvents reads writes &&& ~~~kWriteEvent = plainEvents reads false := by
  cases reads <;> cases writes <;> decide

theorem has_plainEvents (reads writes : Bool) :
    Mask.has (plainEvents reads writes) kReadEvent = reads ∧
      Mask.has (plainEvents reads writes) kWriteEvent = writes := by
  cases reads <;> cases writes <;> decide

section

variable {d : Dispatch}

theorem plain_create : create.Plain := ⟨false, false, by decide⟩

theorem Plain.enableRead (h : d.Plain) : d.enableRead.Plain := by
  obtain ⟨reads, writes, hevents⟩ := h
  refine ⟨true, writes, ?_⟩
  rw [← plainEvents_or_read reads writes, ← hevents]
  rfl

theorem Plain.disableRead (h : d.Plain) : d.disableRead.Plain := by
  obtain ⟨reads, writes, hevents⟩ := h
  refine ⟨false, writes, ?_⟩
  rw [← plainEvents_not_read reads writes, ← hevents]
  rfl

theorem Plain.enableWrite (h : d.Plain) : d.enableWrite.Plain := by
  obtain ⟨reads, writes, hevents⟩ := h
  refine ⟨reads, true, ?_⟩
  rw [← plainEvents_or_write reads writes, ← hevents]
  unfold Dispatch.enableWrite
  dsimp only
  split <;> rfl

theorem Plain.disableWrite (h : d.Plain) : d.disableWrite.1.Plain := by
  obtain ⟨reads, writes, hevents⟩ := h
  unfold Dispatch.disableWrite
  split
  · refine ⟨reads, false, ?_⟩
    rw [← plainEvents_not_write reads writes, ← hevents]
  · exact ⟨reads, writes, hevents⟩

/-- `DisableAll` leaves nothing enabled, also where it takes nothing back. -/
theorem Plain.events_disableAll (h : d.Plain) (hwf : d.Wf) :
    d.disableAll.1.events = kNoneEvent := by
  obtain ⟨reads, writes, hevents⟩ := h
  obtain ⟨hreads, hwrites⟩ := has_plainEvents reads writes
  rw [← hevents] at hreads hwrites
  cases hread : d.isReading with
  | true => cases hadd : d.addWrite <;> simp [disableAll, hread, hadd]
  | false =>
    cases hadd : d.addWrite with
    | true => simp [disableAll, hread, hadd]
    | false =>
      have hwrite : d.isWriting = false := hwf.not_isWriting hadd
      have hnone : d.events = plainEvents false false := by
        rw [hevents, ← hreads, ← hwrites]
        exact congrArg₂ plainEvents hread hwrite
      simp [disableAll, hread, hadd, hnone, plainEvents, kNoneEvent]

theorem isReading_of_none (h : d.events = kNoneEvent) : d.isReading = false := by
  rw [isReading, h]
  decide

theorem isWriting_of_none (h : d.events = kNoneEvent) : d.isWriting = false := by
  rw [isWriting, h]
  decide

end

end Dispatch

def ConnectState.rank : ConnectState → ℕ
  | .kConnecting => 0
  | .kConnected => 1
  | .kDisconnecting => 2
  | .kDisconnected => 3

/-- Whether the dispatch is in the poller after a call. -/
def Effect.registers (registered : Bool) : Effect → Bool
  | .updateEvents => true
  | .removeEvents => false
  | _ => registered

namespace TcpConnection

/-- Of a connection and whether its dispatch is in the poller. -/
structure Out (k : TcpConnection) (registered : Bool) : Prop where
  plain : k.dispatch.Plain
  out : k.state = .kDisconnected → k.dispatch.events = Dispatch.kNoneEvent ∧ registered = false

/-- A method's outcome for a connection whose dispatch was in the poller or not. -/
def Outcome.Out (out : Outcome) (registered : Bool) : Prop :=
  TcpConnection.Out out.1 (out.2.foldl Effect.registers registered)

section

variable {k : TcpConnection} {registered : Bool}

theorem out_open {out : Outcome} (hplain : out.1.dispatch.Plain)
    (hopen : out.1.state ≠ .kDisconnected) : out.Out registered :=
  ⟨hplain, fun hclosed => absurd hclosed hopen⟩

theorem Out.same (h : k.Out registered) {k' : TcpConnection} {effects : List Effect}
    (hdispatch : k'.dispatch.events = k.dispatch.events) (hstate : k'.state = k.state)
    (hcalls : effects.foldl Effect.registers registered = registered) :
    Outcome.Out (k', effects) registered := by
  obtain ⟨reads, writes, hevents⟩ := h.plain
  refine ⟨⟨reads, writes, hdispatch.trans hevents⟩, fun hclosed => ?_⟩
  have hout := h.out (hstate ▸ hclosed)
  exact ⟨hdispatch.trans hout.1, hcalls.trans hout.2⟩

theorem registers_invoke (k : TcpConnection) (cb : Callback) (registered : Bool) :
    (k.invoke cb).foldl Effect.registers registered = registered := by
  unfold invoke
  cases cb <;> dsimp only <;> split <;> rfl

/-- `HandleClose` takes the connection out, whatever it was. -/
theorem out_handleClose (hplain : k.dispatch.Plain) (hwf : k.dispatch.Wf) (excused : Bool) :
    (k.handleClose excused).Out registered where
  plain := ⟨false, false, hplain.events_disableAll hwf⟩
  out _ := by
    refine ⟨hplain.events_disableAll hwf, ?_⟩
    simp only [handleClose, List.foldl_append, registers_invoke]
    rfl

theorem Out.handleRead (h : k.Out registered) (hwf : k.dispatch.Wf) (r : ReadResult) :
    (k.handleRead r).Out registered := by
  cases r with
  | bytes data =>
    simp only [TcpConnection.handleRead]
    split
    · exact h.same rfl rfl (registers_invoke _ _ _)
    · apply out_handleClose
      · exact h.plain
      · exact hwf
  | failed errno =>
    simp only [TcpConnection.handleRead]
    split
    · apply out_handleClose
      · exact h.plain
      · exact hwf
    · exact h.same rfl rfl rfl

theorem Out.isOpen_of_isWriting (h : k.Out registered) (hwriting : k.dispatch.isWriting = true) :
    k.state ≠ .kDisconnected := by
  intro hclosed
  rw [Dispatch.isWriting_of_none (h.out hclosed).1] at hwriting
  cases hwriting

theorem Out.handleWrite (h : k.Out registered) (hwf : k.dispatch.Wf) (r : WriteResult) :
    (k.handleWrite r).Out registered := by
  unfold TcpConnection.handleWrite
  split
  · rename_i hwriting
    have hopen := h.isOpen_of_isWriting hwriting
    cases r with
    | wrote n =>
      dsimp only
      split
      · exact out_open h.plain.disableWrite hopen
      · exact h.same rfl rfl rfl
    | failed errno =>
      dsimp only
      split
      · exact out_handleClose h.plain hwf true
      · exact h.same rfl rfl rfl
  · exact h.same rfl rfl rfl

theorem out_sendRemaining (hplain : k.dispatch.Plain) (hopen : k.state ≠ .kDisconnected)
    (remaining : List Byte) : (k.sendRemaining remaining).Out registered := by
  unfold sendRemaining
  split
  · dsimp only
    split
    · exact out_open hplain hopen
    · exact out_open hplain.enableWrite hopen
  · exact out_open hplain hopen

theorem Out.sendInLoop (h : k.Out registered) (hwf : k.dispatch.Wf) (m : Message)
    (r : WriteResult) : (k.sendInLoop m r).Out registered := by
  unfold TcpConnection.sendInLoop
  split
  · exact h.same rfl rfl rfl
  · rename_i hopen
    dsimp only
    split
    · cases r with
      | wrote n =>
        dsimp only
        split
        · exact out_open h.plain hopen
        · apply out_sendRemaining
          · exact h.plain
          · exact hopen
      | failed errno =>
        dsimp only
        split
        · apply out_handleClose
          · exact h.plain
          · exact hwf
        · apply out_sendRemaining
          · exact h.plain
          · exact hopen
    · apply out_sendRemaining
      · exact h.plain
      · exact hopen

/-- The step lemma: only the closure of `StartRead` can bring a connection back. -/
theorem Out.exec (h : k.Out registered) (hwf : k.dispatch.Wf) (op : Op)
    (hop : op = .startReadInLoop → k.state ≠ .kDisconnected) : (k.exec op).Out registered := by
  cases op with
  | handleEventClose =>
    simp only [TcpConnection.exec, handleEventClose]
    split
    · exact out_handleClose h.plain hwf true
    · exact h.same rfl rfl rfl
  | handleEventRead r =>
    simp only [TcpConnection.exec, handleEventRead]
    split
    · exact h.handleRead hwf r
    · exact h.same rfl rfl rfl
  | handleEventWrite r =>
    simp only [TcpConnection.exec, handleEventWrite]
    split
    · exact h.handleWrite hwf r
    · exact h.same rfl rfl rfl
  | handleEventDone => exact h.same rfl rfl rfl
  | resumeHandleWrite =>
    simp only [TcpConnection.exec, resumeHandleWrite]
    split
    · exact out_handleClose h.plain hwf false
    · exact h.same rfl rfl rfl
  | sendInLoop m r => exact h.sendInLoop hwf m r
  | shutDownInLoop =>
    simp only [TcpConnection.exec, shutDownInLoop]
    split
    · exact h.same rfl rfl rfl
    · exact h.same rfl rfl rfl
  | forceCloseInLoop =>
    simp only [TcpConnection.exec, forceCloseInLoop]
    split
    · exact out_handleClose h.plain hwf true
    · exact h.same rfl rfl rfl
  | startReadInLoop =>
    simp only [TcpConnection.exec, startReadInLoop]
    split
    · exact out_open h.plain.enableRead (hop rfl)
    · exact h.same rfl rfl rfl
  | stopReadInLoop =>
    simp only [TcpConnection.exec, stopReadInLoop]
    split
    · rename_i hreading
      refine out_open h.plain.disableRead fun hclosed => ?_
      rw [Dispatch.isReading_of_none (h.out hclosed).1] at hreading
      cases hreading
    · exact h.same rfl rfl rfl
  | setCallbacks callbacks => exact h.same rfl rfl rfl
  | setHighWaterMark size => exact h.same rfl rfl rfl
  | retrieve size => exact h.same rfl rfl rfl

/-- `StartRead` after the close. -/
theorem Out.startRead_closed (h : k.Out registered) (hclosed : k.state = .kDisconnected) :
    (k.exec .startReadInLoop).1.state = .kDisconnected ∧
      (k.exec .startReadInLoop).1.dispatch.events ≠ Dispatch.kNoneEvent := by
  have hreading := Dispatch.isReading_of_none (h.out hclosed).1
  simp only [TcpConnection.exec, startReadInLoop, hreading, Bool.not_false, if_true]
  refine ⟨hclosed, fun hnone => ?_⟩
  have hback := Dispatch.isReading_of_none hnone
  rw [Dispatch.isReading_enableRead] at hback
  cases hback

theorem rank_exec (k : TcpConnection) (op : Op) : k.state.rank ≤ (k.exec op).1.state.rank := by
  generalize hout : k.exec op = out
  have hdoes := k.does_exec op
  rw [hout] at hdoes
  cases hdoes with
  | quiet _ hstate => rw [hstate]
  | shutDownWrite _ _ => exact Nat.le_refl _
  | close _ _ _ =>
    show k.state.rank ≤ 3
    cases k.state <;> decide

end

end TcpConnection

namespace ConnectionLoop

open Lib.Runs EventLoop

/-- No closure of `StartRead` runs on a connection that is disconnected already. -/
def NoLateRead (w : World) : Label → Prop
  | .resume r wr =>
    match w.turn r wr with
    | some (c, .startReadInLoop, _) => (w.conns c).state ≠ .kDisconnected
    | _ => True
  | _ => True

/-- The test of `NoLateRead`. -/
def noLateRead (w : World) : Label → Bool
  | .resume r wr =>
    match w.turn r wr with
    | some (c, .startReadInLoop, _) => decide ((w.conns c).state ≠ .kDisconnected)
    | _ => true
  | _ => true

theorem noLateRead_iff (w : World) (a : Label) : noLateRead w a = true ↔ NoLateRead w a := by
  unfold noLateRead NoLateRead
  cases a with
  | resume r wr =>
    dsimp only
    split
    · exact decide_eq_true_iff
    · exact iff_of_true rfl trivial
  | _ => exact iff_of_true rfl trivial

instance (w : World) (a : Label) : Decidable (NoLateRead w a) :=
  decidable_of_iff _ (noLateRead_iff w a)

namespace World

def registered (w : World) (c : ConnId) : Bool := w.loop.registered (.owned (.conn c))

theorem registered_perform (w : World) (c c' : ConnId) (e : Effect) :
    (perform c w e).registered c' =
      if c' = c then Effect.registers (w.registered c) e else w.registered c' := by
  by_cases heq : c' = c
  · subst heq
    cases e <;> simp [perform, registered, Effect.registers, State.updateDispatch,
      State.removeDispatch, addConnection, removeConnection, State.queueInLoop, State.push,
      noteEnded, noteClosed, noteFailed, callback]
  · cases e <;> simp [perform, registered, State.updateDispatch, State.removeDispatch, heq,
      addConnection, removeConnection, State.queueInLoop, State.push, noteEnded, noteClosed,
      noteFailed, callback]

theorem registered_settle (w : World) (c c' : ConnId) (out : TcpConnection.Outcome) :
    (w.settle c out).registered c' =
      if c' = c then out.2.foldl Effect.registers (w.registered c) else w.registered c' := by
  have hfold (effects : List Effect) (w : World) : (effects.foldl (perform c) w).registered c' =
      if c' = c then effects.foldl Effect.registers (w.registered c) else w.registered c' := by
    induction effects generalizing w with
    | nil =>
      split
      · rename_i heq
        rw [heq]
        rfl
      · rfl
    | cons e rest ih =>
      rw [List.foldl_cons, ih, registered_perform, registered_perform, if_pos rfl]
      split
      · rfl
      · rfl
  exact hfold out.2 _

end World

/-- A step of the loop that is not about the dispatch. -/
theorem registered_next {l l' : State Func Owner} {a : EventLoop.Label Func Owner}
    (hl : EventLoop.next l a = some l') {d : DispatchId Owner}
    (hne : ∀ d', a = .updateDispatch d' ∨ a = .removeDispatch d' → d' ≠ d) :
    l'.registered d = l.registered d := by
  cases EventLoop.step_of_next hl with
  | updateDispatch d' _ _ => exact Function.update_of_ne (hne d' (.inl rfl)).symm _ _
  | removeDispatch d' _ _ => exact Function.update_of_ne (hne d' (.inr rfl)).symm _ _
  | handleEvent d' rest reads _ _ _ ht => rw [ht]
  | _ => rfl

/-- In every state: a connection that is disconnected is out of the poller, and one
that does not exist yet is connecting. -/
structure OutOfPoller (w : World) : Prop where
  out : ∀ c, (w.conns c).Out (w.registered c)
  unborn : ∀ c, w.created ≤ c → (w.conns c).state = .kConnecting

theorem outOfPoller_create : OutOfPoller World.create where
  out c := ⟨Dispatch.plain_create, fun h => by cases h⟩
  unborn c _ := rfl

section

variable {w w' : World}

/-- A step that changes no events, and no state but to an open one. -/
theorem OutOfPoller.frame (h : OutOfPoller w) (hcreated : w'.created = w.created)
    (hregistered : ∀ c, w'.registered c = w.registered c)
    (hevents : ∀ c, (w'.conns c).dispatch.events = (w.conns c).dispatch.events)
    (hstate : ∀ c, (w'.conns c).state = (w.conns c).state ∨
      c < w.created ∧ (w'.conns c).state ≠ .kDisconnected) : OutOfPoller w' where
  out c := by
    obtain ⟨reads, writes, hplain⟩ := (h.out c).plain
    refine ⟨⟨reads, writes, (hevents c).trans hplain⟩, fun hclosed => ?_⟩
    rcases hstate c with heq | ⟨-, hopen⟩
    · obtain ⟨hnone, hout⟩ := (h.out c).out (heq ▸ hclosed)
      exact ⟨(hevents c).trans hnone, (hregistered c).trans hout⟩
    · exact absurd hclosed hopen
  unborn c hc := by
    rw [hcreated] at hc
    rcases hstate c with heq | ⟨hlt, -⟩
    · exact heq.trans (h.unborn c hc)
    · exact absurd hlt (Nat.not_lt.mpr hc)

/-- A step that leaves the connections and the poller alone. -/
theorem OutOfPoller.frame_conns (h : OutOfPoller w) (hcreated : w'.created = w.created)
    (hregistered : ∀ c, w'.registered c = w.registered c) (hconns : w'.conns = w.conns) :
    OutOfPoller w' :=
  h.frame hcreated hregistered (fun c => by rw [hconns]) fun c => .inl (by rw [hconns])

theorem OutOfPoller.settle (h : OutOfPoller w) {c : ConnId} {out : TcpConnection.Outcome}
    (hout : out.Out (w.registered c)) (hc : c < w.created) : OutOfPoller (w.settle c out) where
  out c' := by
    rw [World.settle_conns, World.registered_settle]
    by_cases heq : c' = c
    · rw [if_pos heq, heq, Function.update_self]
      exact hout
    · rw [if_neg heq, Function.update_of_ne heq]
      exact h.out c'
  unborn c' hc' := by
    rw [World.settle_created] at hc'
    rw [World.settle_conns, Function.update_of_ne (Nat.ne_of_gt (Nat.lt_of_lt_of_le hc hc'))]
    exact h.unborn c' hc'

theorem OutOfPoller.startWorking (h : OutOfPoller w) (callbacks : Callbacks) :
    OutOfPoller (w.startWorking callbacks) where
  out c := by
    rw [World.startWorking, World.settle_conns, World.registered_settle]
    by_cases heq : c = w.created
    · rw [if_pos heq, heq, Function.update_self]
      have hout : (TcpConnection.create callbacks).startWorking.Out (w.registered w.created) := by
        apply TcpConnection.out_open
        · exact Dispatch.plain_create.enableRead
        · simp [TcpConnection.startWorking]
      exact hout
    · rw [if_neg heq, Function.update_of_ne heq]
      exact h.out c
  unborn c hc := by
    rw [World.startWorking, World.settle_created] at hc
    rw [World.startWorking, World.settle_conns, Function.update_of_ne (Nat.ne_of_gt hc)]
    exact h.unborn c (Nat.le_of_succ_le hc)

theorem OutOfPoller.act (h : OutOfPoller w) {c : ConnId} (hordered : (w.conns c).Ordered)
    (hc : c < w.created) (op : TcpConnection.Op)
    (hop : op = .startReadInLoop → (w.conns c).state ≠ .kDisconnected) :
    OutOfPoller (w.act c op) :=
  h.settle ((h.out c).exec hordered.dispatch op hop) hc

theorem OutOfPoller.check (h : OutOfPoller w) {spurious : Bool} {call : Call}
    (hknows : w.knows call = true) (hcheck : w.check spurious call = some w') :
    OutOfPoller w' := by
  have hset (c : ConnId) (hc : call.conn? = some c) :
      OutOfPoller (w.setState c .kDisconnecting) := by
    have hlt : c < w.created := by simpa [World.knows, hc] using hknows
    refine h.frame rfl (fun _ => rfl) (fun c' => ?_) fun c' => ?_
    · by_cases heq : c' = c
      · simp [heq, World.setState]
      · simp [World.setState, heq]
    · by_cases heq : c' = c
      · exact .inr ⟨heq ▸ hlt, by simp [heq, World.setState]⟩
      · exact .inl (by simp [World.setState, heq])
  rcases World.check_cases hcheck with rfl | ⟨c, hc, ⟨rfl, -⟩ | ⟨-, ⟨-, rfl⟩ | ⟨-, rfl⟩⟩⟩
  · exact h
  · exact h.frame_conns rfl (fun _ => rfl) rfl
  · exact (hset c hc).frame_conns rfl (fun _ => rfl) rfl
  · exact (hset c hc).frame_conns rfl (fun _ => rfl) rfl

theorem registered_enterCall (w : World) (call : Call) (c : ConnId) :
    (w.enterCall call).registered c = w.registered c := by
  cases call <;> rfl

theorem registered_pushCall (w : World) (t : ThreadId) (call : Call) (c : ConnId) :
    (w.pushCall t call).registered c = w.registered c := by
  cases call <;> rfl

theorem registered_allows {a : EventLoop.Label Func Owner} {l : State Func Owner}
    (hallows : w.allows a = true) (hl : EventLoop.next w.loop a = some l) (c : ConnId) :
    l.registered (.owned (.conn c)) = w.registered c := by
  refine registered_next hl fun d' hd' => ?_
  rintro rfl
  rcases hd' with rfl | rfl <;> simp [World.allows] at hallows

theorem OutOfPoller.step {a : Label} (h : OutOfPoller w) (hordered : ∀ c, (w.conns c).Ordered)
    (hok : NoLateRead w a) (hstep : Step w a w') : OutOfPoller w' := by
  cases hstep with
  | loop hallows hl => exact h.frame_conns rfl (registered_allows hallows hl) rfl
  | @poll events l _ hl =>
    have hregistered (c : ConnId) : l.registered (.owned (.conn c)) = w.registered c :=
      registered_next hl (by simp)
    refine h.frame rfl hregistered (fun c => ?_) fun c => .inl ?_
    · obtain ⟨rv, hrv⟩ := World.report_cases w.conns events c
      show (World.report w.conns events c).dispatch.events = _
      rw [hrv]
      rfl
    · obtain ⟨rv, hrv⟩ := World.report_cases w.conns events c
      show (World.report w.conns events c).state = _
      rw [hrv]
      rfl
  | handleEvent _ _ hl => exact h.frame_conns rfl (fun c => registered_next hl (by simp)) rfl
  | exec _ _ hl => exact h.frame_conns rfl (fun c => registered_next hl (by simp)) rfl
  | start _ _ =>
    exact OutOfPoller.startWorking (w := { w with running := none })
      (h.frame_conns rfl (fun _ => rfl) rfl) _
  | callback _ _ _ => exact h.frame_conns rfl (fun _ => rfl) rfl
  | @turn r wr c op stack hturn hc _ =>
    refine OutOfPoller.act (w := { w with running := none, stack := stack })
      (h.frame_conns rfl (fun _ => rfl) rfl) (hordered c) hc op ?_
    rintro rfl
    simpa only [NoLateRead, hturn] using hok
  | ret _ => exact h.frame_conns rfl (fun _ => rfl) rfl
  | @user a c op hop _ hc =>
    refine h.act (hordered c) hc op ?_
    rintro rfl
    cases a <;> simp [Label.op?] at hop
  | callIgnored => exact h
  | call _ hknows hcheck =>
    exact (h.check hknows hcheck).frame_conns (World.enterCall_created _ _)
      (registered_enterCall _ _) (World.enterCall_conns _ _)
  | threadCallIgnored => exact h
  | threadCall _ hknows hcheck _ =>
    exact (h.check hknows hcheck).frame_conns rfl (fun _ => rfl) rfl
  | threadPush _ =>
    exact h.frame_conns (World.pushCall_created _ _ _) (registered_pushCall _ _ _)
      (World.pushCall_conns _ _ _)

/-- A connection's state goes on, or stays, in a step. -/
theorem World.rank_settle (w : World) (c c' : ConnId) {out : TcpConnection.Outcome}
    (hout : (w.conns c).state.rank ≤ out.1.state.rank) :
    (w.conns c').state.rank ≤ ((w.settle c out).conns c').state.rank := by
  rw [World.settle_conns]
  by_cases heq : c' = c
  · rw [heq, Function.update_self]
    exact hout
  · rw [Function.update_of_ne heq]

theorem World.rank_check {spurious : Bool} {call : Call} (hcheck : w.check spurious call = some w')
    (c : ConnId) : (w.conns c).state.rank ≤ (w'.conns c).state.rank := by
  have hset (c' : ConnId) (hstate : (w.conns c').state = .kConnected) :
      (w.conns c).state.rank ≤ ((w.setState c' .kDisconnecting).conns c).state.rank := by
    by_cases heq : c = c'
    · simp [heq, World.setState, hstate, ConnectState.rank]
    · simp [World.setState, heq]
  rcases World.check_cases hcheck with rfl | ⟨c', -, ⟨rfl, -⟩ | ⟨hstate, ⟨-, rfl⟩ | ⟨-, rfl⟩⟩⟩
  · exact Nat.le_refl _
  · exact Nat.le_refl _
  · exact hset c' hstate
  · exact hset c' hstate

theorem OutOfPoller.rank_step {a : Label} (h : OutOfPoller w) (hstep : Step w a w') (c : ConnId) :
    (w.conns c).state.rank ≤ (w'.conns c).state.rank := by
  cases hstep with
  | @poll events _ _ _ =>
    obtain ⟨rv, hrv⟩ := World.report_cases w.conns events c
    show _ ≤ (World.report w.conns events c).state.rank
    rw [hrv]
    exact Nat.le_refl _
  | start _ _ =>
    refine World.rank_settle { w with running := none, created := w.created + 1 } w.created c ?_
    show (w.conns w.created).state.rank ≤ 1
    rw [h.unborn w.created (Nat.le_refl _)]
    exact Nat.zero_le _
  | @turn _ _ c' op stack _ _ _ =>
    exact World.rank_settle { w with running := none, stack := stack } c' c
      (TcpConnection.rank_exec _ op)
  | user _ _ _ => exact w.rank_settle _ c (TcpConnection.rank_exec _ _)
  | call _ _ hcheck =>
    rw [World.enterCall_conns]
    exact World.rank_check hcheck c
  | threadCall _ _ hcheck _ => exact World.rank_check hcheck c
  | threadPush _ => rw [World.pushCall_conns]
  | _ => exact Nat.le_refl _

/-- Only the closure of `StartRead` calls its body. -/
theorem World.running_of_turn {r : ReadResult} {wr : WriteResult} {c : ConnId}
    {stack : List Frame} (hturn : w.turn r wr = some (c, .startReadInLoop, stack)) :
    w.running = some (.startRead c) := by
  unfold World.turn at hturn
  split at hturn <;> simp at hturn
  rename_i hrun
  rw [hrun, hturn.1]

/-- The disconnected connection that a late `StartRead` brings back. -/
theorem OutOfPoller.not_step {a : Label} (h : OutOfPoller w) (hok : ¬NoLateRead w a)
    (hnext : next w a = some w') :
    ∃ c, (w'.conns c).state = .kDisconnected ∧
      (w'.conns c).dispatch.events ≠ Dispatch.kNoneEvent := by
  cases a with
  | resume r wr =>
    unfold NoLateRead at hok
    dsimp only at hok
    split at hok
    · rename_i c stack hturn
      have hclosed := not_not.mp hok
      have hrun := World.running_of_turn hturn
      simp only [next, hrun, hturn, Option.ite_none_left_eq_some, Option.ite_none_right_eq_some,
        Option.some.injEq] at hnext
      obtain ⟨-, -, rfl⟩ := hnext
      refine ⟨c, ?_⟩
      rw [World.act_conns, Function.update_self]
      exact (h.out c).startRead_closed hclosed
    · exact absurd trivial hok
  | _ => exact absurd trivial hok

end

/-- A disconnected connection stays out of the poller in runs without a late
`StartRead`, and comes back with the first one. In any case its state only goes on. -/
theorem stays_out_of_poller (w : World) (hw : machine.ReachableWhen NoLateRead w) :
    (∀ c, (w.conns c).state = .kDisconnected →
      (w.conns c).dispatch.events = Dispatch.kNoneEvent ∧ w.registered c = false) ∧
    ∀ a w', next w a = some w' →
      (∀ c, (w.conns c).state.rank ≤ (w'.conns c).state.rank) ∧
      (NoLateRead w a ↔ ∀ c, (w'.conns c).state = .kDisconnected →
        (w'.conns c).dispatch.events = Dispatch.kNoneEvent ∧ w'.registered c = false) := by
  have h : OutOfPoller w := Machine.ReachableWhen.invariant (M := machine) outOfPoller_create
    (fun _ _ _ hs hok h ha =>
      h.step (fun c => ordered_of_reachable hs.reachable c) hok (step_of_next ha)) hw
  refine ⟨fun c => (h.out c).out, fun a w' hnext => ⟨h.rank_step (step_of_next hnext), ?_, ?_⟩⟩
  · intro hok c
    have hordered (c : ConnId) := ordered_of_reachable hw.reachable c
    exact ((h.step hordered hok (step_of_next hnext)).out c).out
  · intro hall
    by_contra hok
    obtain ⟨c, hclosed, hevents⟩ := h.not_step hok hnext
    exact hevents (hall c hclosed).1

/-- The peer closes the connection, whose read events were off for a while. -/
def closeByPeer : List Label :=
  accept ⟨false, false, false, false, false⟩ ++
    [.call (.stopRead 0) false, .resume readNothing (.wrote 0), .call (.startRead 0) false,
      .resume readNothing (.wrote 0), .loop .enter, .loop .iterate,
      .poll [(.owned (.conn 0), pollIn)], .loop .timersDone, .handleEvent false true,
      .resume readNothing (.wrote 0), .resume (.bytes []) (.wrote 0),
      .resume readNothing (.wrote 0), .resume readNothing (.wrote 0), .loop .runFuncs, .loop .swap,
      .loop .funcsDone, .loop .released, .loop .iterate, .poll []]

theorem stays_out_of_poller_closed :
    ∃ w, machine.ReachableWhen NoLateRead w ∧ (w.conns 0).state = .kDisconnected ∧
      w.registered 0 = false := by
  obtain ⟨w, hw, hclosed⟩ := Machine.exists_reachableWhen_of_run (M := machine) NoLateRead
    closeByPeer (fun w => (w.conns 0).state = .kDisconnected) (by decide +kernel)
  exact ⟨w, hw, hclosed, ((stays_out_of_poller w hw).1 0 hclosed).2⟩

/-- A `StartRead` after the close registers the dispatch again. -/
theorem not_stays_out_of_poller :
    ∃ w, machine.Reachable w ∧ (w.conns 0).state = .kDisconnected ∧
      (w.conns 0).dispatch.events ≠ Dispatch.kNoneEvent ∧ w.registered 0 = true :=
  Machine.exists_reachable_of_run (M := machine)
    (closeByPeer ++ [.call (.startRead 0) false, .resume readNothing (.wrote 0)])
    (fun w => (w.conns 0).state = .kDisconnected ∧
      (w.conns 0).dispatch.events ≠ Dispatch.kNoneEvent ∧ w.registered 0 = true) (by decide +kernel)

end ConnectionLoop

end Voyager
