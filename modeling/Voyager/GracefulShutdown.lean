import Voyager.ShutdownInvariant

/-!
What happens to the messages accepted before `ShutDown`. The queue is first in
first out, so a `ShutDown` that goes through it comes behind all of them. A
`ShutDown` made on the loop thread does not go through it, and `HandleWrite`
closes a disconnecting connection once the buffer was drained, whatever has been
queued or buffered again since. As long as neither finds anything left, the
local end of the connection loses no byte.
-/
namespace Voyager.ConnectionLoop

open Lib.Runs Lib.Framing EventLoop

/-- A method of `c` runs; the closure that called it no longer waits. -/
theorem Graceful.settle {w : World} {waiting : List Func} (h : Graceful w waiting) {c : ConnId}
    {out : TcpConnection.Outcome} (hothers : ∀ c' m, .send c' m ∈ waiting → c' = c)
    (hkept : ∀ m, (c, m) ∈ w.log.accepted → out.1.state ≠ .kDisconnected →
      m ∈ out.1.sent ∨ .send c m ∈ w.queue)
    (hshut : ∀ n, w.log.shutDownAt c = some n → out.1.state ≠ .kConnected)
    (hexcused : ∀ c', c' ≠ c → (w.settle c out).log.excused c' = w.log.excused c')
    (hclosed : out.1.state = .kDisconnected →
      (w.settle c out).log.excused c = true ∨ (w.settle c out).unflushed c = [])
    (hended : ∀ e ∈ (w.settle c out).log.ended, e.excused = true ∨ e.unflushed = []) :
    Graceful (w.settle c out) [] := by
  obtain ⟨extra, hqueue, hextra⟩ := w.queue_settle c out
  have hself : (w.settle c out).conns c = out.1 := by rw [World.settle_conns, Function.update_self]
  have hother : ∀ c', c' ≠ c → (w.settle c out).conns c' = w.conns c' := fun c' hne => by
    rw [World.settle_conns, Function.update_of_ne hne]
  have hlate : ∀ c' m, (w.settle c out).late c' m ↔ w.late c' m := by
    intro c' m
    simp only [World.late, World.settle_shutDownAt]
  have hplain : ∀ f ∈ extra, (∀ c' m, f ≠ .send c' m) ∧ ∀ c', f ≠ .shutDown c' := by
    intro f hf
    obtain ⟨size, rfl⟩ := hextra f hf
    simp
  refine
    { ids := fun i c' m hget => ?ids
      known := fun c' m hmem => ?known
      knows := fun t call hcall => ?knows
      shutDownAt := fun c' n hn => ?shutDownAt
      requested := fun c' hreq => ?requested
      kept := fun c' m hmem hstate => ?kept
      order := ?order
      waiting := fun c' hmem => by cases hmem
      closed := fun c' hstate => ?closed
      ended := hended }
  case ids =>
    rw [World.settle_accepted] at hget
    exact h.ids i c' m hget
  case known =>
    rw [World.settle_accepted] at hmem
    rw [World.settle_created]
    exact h.known c' m hmem
  case knows =>
    rw [World.settle_calls] at hcall
    simpa only [World.knows, World.settle_created] using h.knows t call hcall
  case shutDownAt =>
    rw [World.settle_shutDownAt] at hn
    obtain ⟨hle, hc', hnot⟩ := h.shutDownAt c' n hn
    refine ⟨by rw [World.settle_accepted]; exact hle, by rw [World.settle_created]; exact hc', ?_⟩
    by_cases heq : c' = c
    · subst c'
      rw [hself]
      exact hshut n hn
    · rw [hother c' heq]
      exact hnot
  case requested =>
    rw [World.settle_shutDownAt]
    rw [hqueue, World.settle_calls] at hreq
    rcases hreq with hq | hr | ht
    · rcases List.mem_append.mp hq with hq | hq
      · exact h.requested c' (.inl hq)
      · exact absurd rfl ((hplain _ hq).2 c')
    · cases hr
    · exact h.requested c' (.inr (.inr ht))
  case kept =>
    rw [World.settle_accepted] at hmem
    rw [hqueue]
    by_cases heq : c' = c
    · subst c'
      rw [hself] at hstate ⊢
      rcases hkept m hmem hstate with hs | hq
      · exact .inl hs
      · exact .inr (.inl (List.mem_append_left _ hq))
    · rw [hother c' heq] at hstate ⊢
      rcases h.kept c' m hmem hstate with hs | hq | hr
      · exact .inl hs
      · exact .inr (.inl (List.mem_append_left _ hq))
      · exact absurd (hothers c' m hr) heq
  case order =>
    rw [hqueue]
    refine List.pairwise_append.mpr ⟨?_, ?_, fun f _ g hg c' m _ hsend => ?_⟩
    · exact h.order.imp fun hfg c' m hf hg => (hlate c' m).mpr (hfg c' m hf hg)
    · refine List.pairwise_of_forall_mem_list fun f _ g hg c' m _ hsend => ?_
      exact absurd hsend ((hplain g hg).1 c' m)
    · exact absurd hsend ((hplain g hg).1 c' m)
  case closed =>
    by_cases heq : c' = c
    · subst c'
      rw [hself] at hstate
      exact hclosed hstate
    · have hsame : (w.settle c out).unflushed c' = w.unflushed c' :=
        World.unflushed_congr (w.settle_due c c' out) (by rw [hother c' heq])
          (by rw [hother c' heq])
      rw [hother c' heq] at hstate
      rw [hexcused c' heq, hsame]
      exact h.closed c' hstate

theorem Graceful.startWorking {w : World} {waiting : List Func} (h : Graceful w waiting)
    (hwaiting : ∀ c m, .send c m ∉ waiting) (callbacks : Callbacks) :
    Graceful (w.startWorking callbacks) [] := by
  have hgrow : Graceful { w with created := w.created + 1 } waiting := by
    refine ⟨h.ids, fun c m hmem => Nat.lt_succ_of_lt (h.known c m hmem), fun t call hcall => ?_,
      fun c n hn => ?_, h.requested, h.kept, h.order, h.waiting, h.closed, h.ended⟩
    · have hknows := h.knows t call hcall
      simp only [World.knows, Option.all_eq_true, decide_eq_true_eq] at hknows ⊢
      exact fun c hc => Nat.lt_succ_of_lt (hknows c hc)
    · obtain ⟨hle, hc, hnot⟩ := h.shutDownAt c n hn
      exact ⟨hle, Nat.lt_succ_of_lt hc, hnot⟩
  have hlog : ({ w with created := w.created + 1 }.settle w.created
        (TcpConnection.create callbacks).startWorking).log.excused = w.log.excused ∧
      ({ w with created := w.created + 1 }.settle w.created
        (TcpConnection.create callbacks).startWorking).log.ended = w.log.ended := by
    cases hcb : callbacks.connection <;>
      simp [World.settle, TcpConnection.startWorking, TcpConnection.create, TcpConnection.assert,
        TcpConnection.invoke, hcb, World.perform, World.callback, World.addConnection]
  refine hgrow.settle (fun c m hm => absurd hm (hwaiting c m)) (fun m hmem _ => ?_)
    (fun n hn => ?_) (fun c _ => by rw [hlog.1]) (fun hclosed => by cases hclosed) ?_
  · exact absurd (h.known _ m hmem) (Nat.lt_irrefl _)
  · exact absurd (h.shutDownAt _ n hn).2.1 (Nat.lt_irrefl _)
  · rw [hlog.2]
    exact h.ended

/-- The local end of the connection in `ShutDownWrite`. -/
theorem Graceful.shutDownWrite {w : World} {waiting : List Func} (h : Graceful w waiting)
    {c : ConnId} (hordered : (w.conns c).Ordered)
    (hwriting : (w.conns c).dispatch.isWriting = false) (hshut : .shutDown c ∈ waiting)
    (hsend : ∀ c' m, .send c' m ∉ waiting) :
    Graceful (w.settle c (w.conns c, [.shutDownWrite])) [] := by
  have hlossless : w.log.excused c = true ∨ w.unflushed c = [] := by
    by_cases hclosed : (w.conns c).state = .kDisconnected
    · exact h.closed c hclosed
    · right
      have hempty : (w.conns c).writebuf.readable = [] := by
        by_contra hne
        rw [(hordered.isWriting hclosed).mpr hne] at hwriting
        cases hwriting
      refine h.unflushed_eq_nil hordered hclosed hempty (hsend c) fun m hm hqueued => ?_
      rcases h.waiting c hshut with hw | hlate
      · rw [hw] at hwriting
        cases hwriting
      · exact h.not_late hm (hlate m hqueued)
  have hupdate : Function.update w.conns c (w.conns c) = w.conns := Function.update_eq_self _ _
  have hsame : (w.settle c (w.conns c, [.shutDownWrite])).unflushed c = w.unflushed c :=
    World.unflushed_congr (w.settle_due c c _) (by rw [World.settle_conns, hupdate])
      (by rw [World.settle_conns, hupdate])
  have hexcused : (w.settle c (w.conns c, [.shutDownWrite])).log.excused = w.log.excused := by
    simp [World.settle, World.perform, World.noteEnded]
  refine h.settle (fun c' m hm => absurd hm (hsend c' m)) (fun m hmem hstate => ?_)
    (fun n hn => (h.shutDownAt c n hn).2.2) (fun c' _ => by rw [hexcused]) (fun hclosed => ?_)
    fun e he => ?_
  · rcases h.kept c m hmem hstate with hs | hq | hr
    · exact .inl hs
    · exact .inr hq
    · exact absurd hr (hsend c m)
  · rw [hexcused, hsame]
    exact hlossless
  · simp only [World.settle, World.perform, World.noteEnded, hupdate, List.foldl_cons,
      List.foldl_nil, Bool.or_false, List.mem_append, List.mem_singleton] at he
    rcases he with he | rfl
    · exact h.ended e he
    · exact hlossless

/-- The local end of the connection in `HandleClose`. -/
theorem Graceful.handleClose {w : World} {waiting : List Func} (h : Graceful w waiting)
    {c : ConnId} (hothers : ∀ c' m, .send c' m ∈ waiting → c' = c) {k : TcpConnection}
    {excused : Bool} (hlossless : excused = false → k = w.conns c ∧
      (w.log.excused c = true ∨ w.unflushed c = [])) :
    Graceful (w.settle c (k.handleClose excused)) [] := by
  obtain ⟨hexcused, hended⟩ := w.settle_ended_handleClose c k excused
  have hend : (w.log.excused c || excused) = true ∨
      ({ w with conns := Function.update w.conns c (k.handleClose excused).1 }.unflushed c = [] ∧
        (w.settle c (k.handleClose excused)).unflushed c = []) := by
    cases excused with
    | true => exact .inl (Bool.or_true _)
    | false =>
      obtain ⟨rfl, hold⟩ := hlossless rfl
      refine hold.imp (fun he => by rw [he]; rfl) fun hnil => ⟨?_, ?_⟩
      · rw [← hnil]
        exact World.unflushed_congr rfl (by simp [TcpConnection.handleClose])
          (by simp [TcpConnection.handleClose])
      · rw [← hnil]
        exact World.unflushed_congr (w.settle_due c c _) (by simp [TcpConnection.handleClose])
          (by simp [TcpConnection.handleClose])
  refine h.settle hothers (fun m _ hstate => absurd rfl hstate)
    (fun n _ => by simp [TcpConnection.handleClose])
    (fun c' hne => by rw [hexcused, Function.update_of_ne hne]) (fun _ => ?_) fun e he => ?_
  · rw [hexcused, Function.update_self]
    exact hend.imp_right fun hnil => hnil.2
  · rw [hended, List.mem_append, List.mem_singleton] at he
    rcases he with he | rfl
    · exact h.ended e he
    · exact hend.imp_right fun hnil => hnil.1

/-- If the connection is disconnecting, and not closed by force, then its write buffer is
empty and no message accepted before `ShutDown` waits in the queue. -/
def World.NothingLeft (w : World) (c : ConnId) : Prop :=
  (w.conns c).state = .kDisconnecting → w.log.excused c = true ∨
    ((w.conns c).writebuf.readable = [] ∧ ∀ m ∈ w.due c, .send c m ∉ w.queue)

instance (w : World) (c : ConnId) : Decidable (w.NothingLeft c) := by
  unfold World.NothingLeft
  infer_instance

theorem Graceful.act {w : World} {waiting : List Func} (h : Graceful w waiting) {c : ConnId}
    {op : TcpConnection.Op} (hordered : (w.conns c).Ordered)
    (hsend : ∀ c' m, .send c' m ∈ waiting → c' = c ∧ ∃ r, op = .sendInLoop m r)
    (hshut : op = .shutDownInLoop → .shutDown c ∈ waiting)
    (hdrained : op = .resumeHandleWrite → w.NothingLeft c) : Graceful (w.act c op) [] := by
  have hothers : ∀ c' m, .send c' m ∈ waiting → c' = c := fun c' m hm => (hsend c' m hm).1
  unfold World.act
  have hdoes := (w.conns c).does_exec op
  generalize hout : (w.conns c).exec op = out at hdoes ⊢
  cases hdoes with
  | quiet hquiet hstate =>
    obtain ⟨hexcused, hended⟩ := w.settle_ended_quiet c out hquiet
    refine h.settle hothers (fun m hmem hopen => ?_) (fun n hn => ?_)
      (fun c' _ => by rw [hexcused]) (fun hclosed => ?_) (by rw [hended]; exact h.ended)
    · rw [hstate] at hopen
      rw [← hout]
      rcases h.kept c m hmem hopen with hs | hq | hr
      · exact .inl (mem_sent_exec hopen op (.inl hs))
      · exact .inr hq
      · exact .inl (mem_sent_exec hopen op (.inr (hsend c m hr).2))
    · rw [hstate]
      exact (h.shutDownAt c n hn).2.2
    · rw [hstate] at hclosed
      obtain ⟨hs, hw⟩ := TcpConnection.exec_disconnected hordered hclosed op
      have hsame : (w.settle c out).unflushed c = w.unflushed c := by
        refine World.unflushed_congr (w.settle_due c c out) ?_ ?_
        · rw [World.settle_conns, Function.update_self, ← hout, hs]
        · rw [World.settle_conns, Function.update_self, ← hout, hw]
      rw [hexcused, hsame]
      exact h.closed c hclosed
  | shutDownWrite hop hwriting =>
    refine h.shutDownWrite hordered hwriting (hshut hop) fun c' m hm => ?_
    obtain ⟨_, r, hsendop⟩ := hsend c' m hm
    rw [hop] at hsendop
    cases hsendop
  | @close k excused hcloses _ hk =>
    refine h.handleClose hothers fun hfalse => ⟨hk hfalse, ?_⟩
    subst hfalse
    cases hcloses with
    | drained hstate =>
      refine (hdrained rfl hstate).imp_right fun ⟨hempty, hqueue⟩ => ?_
      refine h.unflushed_eq_nil hordered (by rw [hstate]; decide) hempty (fun m hm => ?_) hqueue
      obtain ⟨_, r, hsendop⟩ := hsend c m hm
      cases hsendop

/-- Neither `HandleWrite`, when it closes a disconnecting connection, nor a
`ShutDown` made on the loop thread, when the connection is not writing, finds
anything left. -/
def LeavesNothing (w : World) : Label → Prop
  | .resume r wr => ∀ x ∈ w.turn r wr, x.2.1 = .resumeHandleWrite → w.NothingLeft x.1
  | .call (.shutDown c) spurious =>
    (w.conns c).state = .kConnected → spurious = false →
      (w.conns c).dispatch.isWriting = false → ∀ f ∈ w.queue, f.sends c = false
  | _ => True

instance (w : World) (a : Label) : Decidable (LeavesNothing w a) :=
  match a with
  | .resume r wr => inferInstanceAs
      (Decidable (∀ x ∈ w.turn r wr, x.2.1 = .resumeHandleWrite → w.NothingLeft x.1))
  | .call (.shutDown c) spurious => inferInstanceAs (Decidable
      ((w.conns c).state = .kConnected → spurious = false →
        (w.conns c).dispatch.isWriting = false → ∀ f ∈ w.queue, f.sends c = false))
  | .call (.newConnection _) _ | .call (.sendMessage _ _) _ | .call (.forceClose _) _
  | .call (.startRead _) _ | .call (.stopRead _) _ | .loop _ | .poll _ | .handleEvent _ _ | .exec
  | .ret | .setCallbacks _ _ | .setHighWaterMark _ _ | .retrieve _ _ | .threadCall _ _ _
  | .threadPush _ => .isTrue trivial

theorem Graceful.step {w w' : World} {a : Label} (h : Graceful w w.running.toList)
    (hordered : ∀ c, (w.conns c).Ordered) (hok : LeavesNothing w a) (hstep : Step w a w') :
    Graceful w' w'.running.toList := by
  cases hstep with
  | loop hallows hl =>
    rcases World.queue_loop hallows hl with hqueue | hqueue
    · exact h.still (.of_eq rfl rfl rfl rfl) hqueue (fun _ _ hm => hm) fun _ hc => hc
    · refine h.extend (.of_eq rfl rfl rfl rfl) hqueue (fun f hf => ?_) (fun _ _ hm => hm)
        fun _ hc => hc
      cases List.mem_singleton.mp hf
      simp
  | @poll events l hidle hl =>
    refine h.still ⟨rfl, rfl, rfl, rfl, rfl, fun _ _ hcall => hcall, fun c => ?_⟩
      (World.queue_poll hl) (fun _ _ hm => hm) fun _ hc => hc
    obtain ⟨rv, hrv⟩ := World.report_cases w.conns events c
    change SameConn _ (World.report w.conns events c)
    rw [hrv]
    exact ⟨rfl, rfl, rfl, rfl⟩
  | handleEvent hidle hphase hl =>
    exact h.still (.of_eq rfl rfl rfl rfl) (World.queue_handleEvent hl) (fun _ _ hm => hm)
      fun _ hc => hc
  | exec hidle hphase hl =>
    rw [World.running_of_idle hidle] at h
    exact h.exec (.of_eq rfl rfl rfl rfl) (World.queue_exec hphase hl)
  | @start _ _ callbacks hrun =>
    rw [hrun] at h
    have hbase : Graceful { w with running := none } [.startWorking callbacks] :=
      h.still (.of_eq rfl rfl rfl rfl) rfl (fun _ _ hm => hm) fun _ hc => hc
    have hnone : ({ w with running := none }.startWorking callbacks).running = none :=
      World.settle_running _ _ _
    rw [hnone]
    exact hbase.startWorking (by simp) callbacks
  | callback hrun hsend =>
    rw [hrun] at h
    refine h.still (.of_eq rfl rfl rfl rfl) rfl (fun c m hm => ?_) fun _ hc => by cases hc
    exact absurd (List.mem_singleton.mp hm).symm (hsend c m)
  | @turn r wr c op stack hturn hc =>
    obtain ⟨hsend, hshut⟩ := World.turn_running hturn
    have hbase : Graceful { w with running := none, stack := stack } w.running.toList :=
      h.still (.of_eq rfl rfl rfl rfl) rfl (fun _ _ hm => hm) fun _ hc => hc
    have hnone : ({ w with running := none, stack := stack }.act c op).running = none :=
      World.settle_running _ _ _
    rw [hnone]
    refine hbase.act (hordered c) (fun c' m hm => ?_) (fun hop => ?_) ?_
    · exact hsend c' m (Option.mem_toList.mp hm)
    · exact Option.mem_toList.mpr (hshut hop)
    · exact hok _ hturn
  | ret hstack => exact h.still (.of_eq rfl rfl rfl rfl) rfl (fun _ _ hm => hm) fun _ hc => hc
  | @user a c op hop huser hc =>
    rw [World.running_of_userTurn huser] at h
    have hnone : (w.act c op).running = none := by
      rw [← World.running_of_userTurn huser]
      exact World.settle_running _ _ _
    rw [hnone]
    refine h.act (hordered c) (fun c' m hm => by cases hm) ?_ ?_
    · rintro rfl
      cases a <;> simp [Label.op?] at hop
    · rintro rfl
      cases a <;> simp [Label.op?] at hop
  | callIgnored => exact h
  | @call w' call spurious huser hknows hcheck =>
    have hrun := World.running_of_userTurn huser
    have hframe := World.check_frame hcheck
    rw [hrun] at h
    obtain ⟨hchecked, hcreated, hshut⟩ := h.check hknows hcheck
    refine hchecked.enterCall (hframe.running.trans hrun) ?_ ?_
    · simpa only [World.knows, hcreated] using hknows
    · rintro c rfl
      refine ⟨hshut c rfl, ?_⟩
      rw [hframe.queue, hframe.dispatch]
      cases hwriting : (w.conns c).dispatch.isWriting with
      | true => exact .inl rfl
      | false =>
        right
        simp only [World.check] at hcheck
        split at hcheck
        · rename_i hguard
          exact hok hguard.1 hguard.2 hwriting
        · cases hcheck
  | threadCallIgnored => exact h
  | @threadCall w' t call spurious hcalls hknows hcheck =>
    obtain ⟨hchecked, hcreated, hshut⟩ := h.check hknows hcheck
    rw [← (World.check_frame hcheck).running] at hchecked
    refine hchecked.addCall t ?_ hshut
    simpa only [World.knows, hcreated] using hknows
  | @threadPush t call hcall =>
    have hsame : (w.pushCall t call).running = w.running := by cases call <;> rfl
    rw [hsame]
    exact h.pushCall hcall

/-- In every run in which closing finds nothing left: when `HandleClose` runs or the
write side is shut down, every message accepted before `ShutDown` has been written
completely, unless the peer, a broken write or `ForceClose` ended the connection. -/
theorem shutDown_loses_nothing (w : World) (hw : machine.ReachableWhen LeavesNothing w) :
    ∀ e ∈ w.log.ended, e.excused = true ∨ e.unflushed = [] := by
  have h := Machine.ReachableWhen.invariant (M := machine)
    (P := fun w => Graceful w w.running.toList) graceful_create
    (fun _ _ _ hs hok h ha =>
      h.step (fun c => ordered_of_reachable hs.reachable c) hok (step_of_next ha)) hw
  exact h.ended

/-- A message is written in part, and the loop is entered. -/
def sendPart : List Label :=
  accept ⟨false, false, false, false, false⟩ ++ sendMessage 0 [1, 2, 3] (.wrote 1) ++
    [.loop .enter, .loop .iterate]

/-- Another thread calls `ShutDown`, then the socket takes the rest of the message. -/
def shutDownAndDrain : List Label :=
  [.threadCall 1 (.shutDown 0) false, .poll [(.owned (.conn 0), pollOut)], .loop .timersDone] ++
    handleWritable (.wrote 2) ++ [.resume readNothing (.wrote 0)]

theorem shutDown_loses_nothing_drained :
    ∃ w, machine.ReachableWhen LeavesNothing w ∧ w.due 0 = [⟨0, [1, 2, 3]⟩] ∧
      (∃ e ∈ w.log.ended, e.conn = 0 ∧ e.excused = false) ∧
      ∀ e ∈ w.log.ended, e.excused = true ∨ e.unflushed = [] := by
  obtain ⟨w, hw, hdue, hended⟩ := Machine.exists_reachableWhen_of_run (M := machine) LeavesNothing
    (sendPart ++ shutDownAndDrain)
    (fun w => w.due 0 = [⟨0, [1, 2, 3]⟩] ∧ ∃ e ∈ w.log.ended, e.conn = 0 ∧ e.excused = false)
    (by decide +kernel)
  exact ⟨w, hw, hdue, hended, shutDown_loses_nothing w hw⟩

/-- The thread has sent a second message before its `ShutDown`. It still waits in
the queue when `HandleWrite` has drained the first one and closes. -/
theorem not_shutDown_loses_nothing :
    ¬ ∀ w : World, machine.Reachable w →
      ∀ e ∈ w.log.ended, e.excused = true ∨ e.unflushed = [] := by
  intro h
  obtain ⟨w, hw, hended⟩ := Machine.exists_reachable_of_run (M := machine)
    (sendPart ++ [.threadCall 1 (.sendMessage 0 [4]) false, .threadPush 1,
      .loop (.threadWakeUp 1)] ++ shutDownAndDrain)
    (fun w => w.log.ended = [⟨0, false, [⟨1, [4]⟩]⟩]) (by decide +kernel)
  have hall := h w hw
  rw [hended] at hall
  exact absurd (hall _ List.mem_cons_self) (by decide)

end Voyager.ConnectionLoop
