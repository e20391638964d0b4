import Voyager.SendOrder
import Mathlib.Algebra.Order.Group.Unbundled.Int
import Mathlib.Data.Finset.Card

/-!
How often a connection is closed. `HandleClose` has five callers; three of them
look at the state or at the write event first. The other two are branches of
`HandleEvent`, which may come late: the connection may have been closed by a
callback since `Poll`. As long as these branches find the connection open, each
connection is closed at most once and the loop's counter is exact.
-/
namespace Voyager.ConnectionLoop

open Lib.Runs Lib.Framing EventLoop

/-- The branches of `HandleEvent` that close the connection without looking at
its state are not taken on a connection that is disconnected already. -/
def FindsOpen (w : World) : Label → Prop
  | .resume r wr =>
    match w.turn r wr with
    | some (c, .handleEventClose, _) =>
      (w.conns c).dispatch.closes = true → (w.conns c).state ≠ .kDisconnected
    | some (c, .handleEventRead r, _) =>
      (w.conns c).dispatch.reads = true → r.ends = true → (w.conns c).state ≠ .kDisconnected
    | _ => True
  | _ => True

instance (w : World) (a : Label) : Decidable (FindsOpen w a) := by
  unfold FindsOpen
  split
  · split <;> infer_instance
  · infer_instance

/-- What opening and closing connections is counted in. -/
structure Books where
  connectionSize : Int
  failed : List ConnId
  closed : List ConnId
  closeCbs : List ConnId

namespace World

def books (w : World) : Books := ⟨w.connectionSize, w.log.failed, w.log.closed, w.log.closeCbs⟩

theorem books_settle_quiet (w : World) (c : ConnId) (out : TcpConnection.Outcome)
    (hquiet : ∀ e ∈ out.2, e.isQuiet = true) : (w.settle c out).books = w.books := by
  refine foldl_perform_eq _ c books out.2 fun w e he => ?_
  have hq := hquiet e he
  cases e with
  | callback cb =>
    have hcb : cb ≠ .close := by simpa [Effect.isQuiet] using hq
    simp only [perform, callback, books, hcb, if_false]
  | updateEvents => rfl
  | queueHighWaterMark size => rfl
  | resumeHandleWrite => rfl
  | removeEvents => cases hq
  | addConnection => cases hq
  | removeConnection => cases hq
  | shutDownWrite => cases hq
  | closed excused => cases hq
  | assertFailed => cases hq

theorem books_settle_handleClose (w : World) (c : ConnId) {k : TcpConnection} (excused : Bool)
    (hopen : k.isOpen = true) : (w.settle c (k.handleClose excused)).books =
      ⟨w.connectionSize - 1, w.log.failed, w.log.closed ++ [c],
        if k.callbacks.close then w.log.closeCbs ++ [c] else w.log.closeCbs⟩ := by
  cases hcalled : k.dispatch.disableAll.2 <;> cases hcb : k.callbacks.close <;>
    simp [settle, TcpConnection.handleClose, TcpConnection.assert, hopen, hcalled, hcb,
      TcpConnection.updateEvents, TcpConnection.invoke, perform, books, callback, removeConnection,
      noteClosed, noteEnded]

theorem books_startWorking (w : World) (callbacks : Callbacks) :
    (w.startWorking callbacks).books =
      ⟨w.connectionSize + 1, w.log.failed, w.log.closed, w.log.closeCbs⟩ := by
  cases hcb : callbacks.connection <;>
    simp [startWorking, settle, TcpConnection.startWorking, TcpConnection.create,
      TcpConnection.assert, TcpConnection.invoke, hcb, perform, books, callback, addConnection]

theorem books_enterCall (w : World) (call : Call) : (w.enterCall call).books = w.books := by
  cases call <;> rfl

theorem books_pushCall (w : World) (t : ThreadId) (call : Call) :
    (w.pushCall t call).books = w.books := by
  cases call <;> rfl

end World

structure ClosedOnce (w : World) : Prop where
  failed : w.log.failed = []
  started : ∀ c < w.created, (w.conns c).state ≠ .kConnecting
  closed : ∀ c, c ∈ w.log.closed ↔ c < w.created ∧ (w.conns c).state = .kDisconnected
  nodup : w.log.closed.Nodup
  closeCbs : w.log.closeCbs.Sublist w.log.closed
  size : w.connectionSize + w.log.closed.length = w.created

/-- A step that closes and opens nothing. -/
theorem ClosedOnce.frame {w w' : World} (h : ClosedOnce w) (hbooks : w'.books = w.books)
    (hcreated : w'.created = w.created)
    (hstarted : ∀ c < w.created, (w'.conns c).state ≠ .kConnecting)
    (hstate : ∀ c < w.created,
      ((w'.conns c).state = .kDisconnected ↔ (w.conns c).state = .kDisconnected)) :
    ClosedOnce w' := by
  simp only [World.books, Books.mk.injEq] at hbooks
  obtain ⟨hsize, hfailed, hclosed, hcbs⟩ := hbooks
  refine ⟨hfailed ▸ h.failed, hcreated ▸ hstarted, fun c => ?_, hclosed ▸ h.nodup, ?_, ?_⟩
  · rw [hclosed, hcreated, h.closed c]
    exact and_congr_right fun hc => (hstate c hc).symm
  · rw [hcbs, hclosed]
    exact h.closeCbs
  · rw [hsize, hclosed, hcreated]
    exact h.size

/-- A step that changes at most what the states do not depend on. -/
theorem ClosedOnce.frame_state {w w' : World} (h : ClosedOnce w) (hbooks : w'.books = w.books)
    (hcreated : w'.created = w.created)
    (hstate : ∀ c, (w'.conns c).state = (w.conns c).state) : ClosedOnce w' :=
  h.frame hbooks hcreated (fun c hc => hstate c ▸ h.started c hc) fun c _ => by rw [hstate c]

theorem closedOnce_create : ClosedOnce World.create where
  failed := rfl
  started c hc := absurd hc (Nat.not_lt_zero c)
  closed c := by simp [World.create]
  nodup := List.nodup_nil
  closeCbs := List.Sublist.refl []
  size := rfl

theorem ClosedOnce.startWorking {w : World} (h : ClosedOnce w) (callbacks : Callbacks) :
    ClosedOnce (w.startWorking callbacks) := by
  have hbooks := w.books_startWorking callbacks
  simp only [World.books, Books.mk.injEq] at hbooks
  obtain ⟨hsize, hfailed, hclosed, hcbs⟩ := hbooks
  have hcreated : (w.startWorking callbacks).created = w.created + 1 := World.settle_created _ _ _
  have hconns : (w.startWorking callbacks).conns = Function.update w.conns w.created
      (TcpConnection.create callbacks).startWorking.1 := World.settle_conns _ _ _
  have hnew : ((w.startWorking callbacks).conns w.created).state = .kConnected := by
    rw [hconns, Function.update_self]
    rfl
  have hold : ∀ c < w.created, (w.startWorking callbacks).conns c = w.conns c := fun c hc => by
    rw [hconns, Function.update_of_ne (Nat.ne_of_lt hc)]
  refine
    { failed := hfailed ▸ h.failed
      started := fun c hc => ?started
      closed := fun c => ?closed
      nodup := hclosed ▸ h.nodup
      closeCbs := ?closeCbs
      size := ?size }
  case started =>
    rcases Nat.lt_succ_iff_lt_or_eq.mp (hcreated ▸ hc) with hlt | rfl
    · rw [hold c hlt]
      exact h.started c hlt
    · rw [hnew]
      decide
  case closed =>
    rw [hclosed, hcreated, h.closed c]
    constructor
    · rintro ⟨hc, hstate⟩
      exact ⟨Nat.lt_succ_of_lt hc, by rw [hold c hc]; exact hstate⟩
    · rintro ⟨hc, hstate⟩
      rcases Nat.lt_succ_iff_lt_or_eq.mp hc with hlt | rfl
      · exact ⟨hlt, by rw [← hold c hlt]; exact hstate⟩
      · rw [hnew] at hstate
        cases hstate
  case closeCbs =>
    rw [hcbs, hclosed]
    exact h.closeCbs
  case size =>
    rw [hsize, hclosed, hcreated]
    have hsum := h.size
    push_cast
    omega

/-- `HandleClose` on a connection that is open. -/
theorem ClosedOnce.handleClose {w : World} (h : ClosedOnce w) {c : ConnId} (hc : c < w.created)
    {k : TcpConnection} (hstate : k.state = (w.conns c).state) (hopen : k.isOpen = true)
    (excused : Bool) : ClosedOnce (w.settle c (k.handleClose excused)) := by
  have hbooks := w.books_settle_handleClose c excused hopen
  simp only [World.books, Books.mk.injEq] at hbooks
  obtain ⟨hsize, hfailed, hclosed, hcbs⟩ := hbooks
  have hcreated := w.settle_created c (k.handleClose excused)
  have hconns := w.settle_conns c (k.handleClose excused)
  have hfresh : c ∉ w.log.closed := by
    intro hmem
    have hdis := ((h.closed c).mp hmem).2
    rw [← hstate] at hdis
    simp [TcpConnection.isOpen, hdis] at hopen
  refine
    { failed := hfailed ▸ h.failed
      started := fun c' hc' => ?started
      closed := fun c' => ?closed
      nodup := ?nodup
      closeCbs := ?closeCbs
      size := ?size }
  case started =>
    rw [hconns]
    by_cases heq : c' = c
    · subst c'
      rw [Function.update_self]
      simp [TcpConnection.handleClose]
    · rw [Function.update_of_ne heq]
      exact h.started c' (hcreated ▸ hc')
  case closed =>
    rw [hclosed, hcreated, hconns, List.mem_append, List.mem_singleton]
    by_cases heq : c' = c
    · subst c'
      simp [hc, TcpConnection.handleClose]
    · rw [Function.update_of_ne heq, h.closed c']
      simp [heq]
  case nodup =>
    rw [hclosed]
    exact List.nodup_append.mpr ⟨h.nodup, List.nodup_singleton c, by
      intro a ha b hb
      rw [List.mem_singleton] at hb
      subst b
      rintro rfl
      exact hfresh ha⟩
  case closeCbs =>
    rw [hcbs, hclosed]
    split
    · exact h.closeCbs.append (List.Sublist.refl _)
    · exact h.closeCbs.trans (List.sublist_append_left _ _)
  case size =>
    rw [hsize, hclosed, hcreated, List.length_append, List.length_singleton]
    have hsum := h.size
    push_cast
    omega

/-- Every caller of `HandleClose` finds the connection open. -/
theorem isOpen_of_closes {k : TcpConnection} (h : k.Ordered) (hstarted : k.state ≠ .kConnecting)
    {op : TcpConnection.Op} {excused : Bool} (hcloses : TcpConnection.Closes k op excused)
    (hevent : op = .handleEventClose → k.dispatch.closes = true → k.state ≠ .kDisconnected)
    (hread : ∀ r, op = .handleEventRead r → k.dispatch.reads = true → r.ends = true →
      k.state ≠ .kDisconnected) : k.isOpen = true := by
  have hopen : k.state ≠ .kDisconnected → k.isOpen = true := by
    intro hstate
    cases hk : k.state with
    | kDisconnected => exact absurd hk hstate
    | kConnecting => exact absurd hk hstarted
    | kDisconnecting => simp [TcpConnection.isOpen, hk]
    | kConnected => simp [TcpConnection.isOpen, hk]
  cases hcloses with
  | event hcloses => exact hopen (hevent rfl hcloses)
  | read hreads hends => exact hopen (hread _ rfl hreads hends)
  | write hwriting =>
    refine hopen fun hclosed => ?_
    rw [h.closed hclosed] at hwriting
    cases hwriting
  | drained hstate => exact hopen (by rw [hstate]; decide)
  | send hstate => exact hopen hstate
  | force hopen => exact hopen

theorem ClosedOnce.act {w : World} (h : ClosedOnce w) {c : ConnId} (hc : c < w.created)
    (hordered : (w.conns c).Ordered) (op : TcpConnection.Op)
    (hevent : op = .handleEventClose → (w.conns c).dispatch.closes = true →
      (w.conns c).state ≠ .kDisconnected)
    (hread : ∀ r, op = .handleEventRead r → (w.conns c).dispatch.reads = true → r.ends = true →
      (w.conns c).state ≠ .kDisconnected) : ClosedOnce (w.act c op) := by
  have hsame : ∀ out : TcpConnection.Outcome, out.1.state = (w.conns c).state → ∀ c',
      ((w.settle c out).conns c').state = (w.conns c').state := by
    intro out hstate c'
    rw [World.settle_conns]
    by_cases heq : c' = c
    · subst c'
      rw [Function.update_self, hstate]
    · rw [Function.update_of_ne heq]
  unfold World.act
  generalize hout : (w.conns c).exec op = out
  have hdoes := (w.conns c).does_exec op
  rw [hout] at hdoes
  cases hdoes with
  | quiet hquiet hstate =>
    exact h.frame_state (w.books_settle_quiet c out hquiet) (World.settle_created _ _ _)
      (hsame out hstate)
  | shutDownWrite _ _ =>
    exact h.frame_state rfl (World.settle_created _ _ _) (hsame _ rfl)
  | close hcloses hstate _ =>
    refine h.handleClose hc hstate ?_ _
    have hopen := isOpen_of_closes hordered (h.started c hc) hcloses hevent hread
    simpa only [TcpConnection.isOpen, hstate] using hopen

theorem ClosedOnce.check {w w' : World} (h : ClosedOnce w) {spurious : Bool} {call : Call}
    (hcheck : w.check spurious call = some w') : ClosedOnce w' := by
  have hset : ∀ c, (w.conns c).state = .kConnected → ClosedOnce (w.setState c .kDisconnecting) := by
    intro c hstate
    have hcases : ∀ c', (w.setState c .kDisconnecting).conns c' = w.conns c' ∨
        (c' = c ∧ ((w.setState c .kDisconnecting).conns c').state = .kDisconnecting) := by
      intro c'
      by_cases heq : c' = c
      · exact .inr ⟨heq, by simp [World.setState, heq]⟩
      · exact .inl (Function.update_of_ne heq _ _)
    refine h.frame rfl rfl (fun c' hc' => ?_) fun c' hc' => ?_
    · rcases hcases c' with heq | ⟨_, hnew⟩
      · rw [heq]
        exact h.started c' hc'
      · rw [hnew]
        decide
    · rcases hcases c' with heq | ⟨rfl, hnew⟩
      · rw [heq]
      · simp [hnew, hstate]
  rcases World.check_cases hcheck with rfl | ⟨c, _, ⟨rfl, _⟩ | ⟨hstate, ⟨_, rfl⟩ | ⟨_, rfl⟩⟩⟩
  · exact h
  · exact h.frame_state rfl rfl fun _ => rfl
  · exact (hset c hstate).frame_state rfl rfl fun _ => rfl
  · exact (hset c hstate).frame_state rfl rfl fun _ => rfl

theorem ClosedOnce.step {w w' : World} {a : Label} (h : ClosedOnce w)
    (hordered : ∀ c, (w.conns c).Ordered) (hok : FindsOpen w a) (hstep : Step w a w') :
    ClosedOnce w' := by
  cases hstep with
  | loop _ _ => exact h.frame_state rfl rfl fun _ => rfl
  | @poll events _ _ _ =>
    refine h.frame_state rfl rfl fun c => ?_
    obtain ⟨rv, hrv⟩ := World.report_cases w.conns events c
    change (World.report w.conns events c).state = _
    rw [hrv]
    rfl
  | handleEvent _ _ _ => exact h.frame_state rfl rfl fun _ => rfl
  | exec _ _ _ => exact h.frame_state rfl rfl fun _ => rfl
  | start _ =>
    exact ClosedOnce.startWorking (w := { w with running := none })
      (h.frame_state rfl rfl fun _ => rfl) _
  | callback _ _ => exact h.frame_state rfl rfl fun _ => rfl
  | @turn r wr c op stack hturn hc =>
    refine ClosedOnce.act (w := { w with running := none, stack := stack })
      (h.frame_state rfl rfl fun _ => rfl) hc (hordered c) op ?_ ?_
    · rintro rfl
      simpa only [FindsOpen, hturn] using hok
    · rintro r rfl
      simpa only [FindsOpen, hturn] using hok
  | ret _ => exact h.frame_state rfl rfl fun _ => rfl
  | @user a c op hop _ hc =>
    refine h.act hc (hordered c) op ?_ ?_
    · rintro rfl
      cases a <;> simp [Label.op?] at hop
    · rintro r rfl
      cases a <;> simp [Label.op?] at hop
  | callIgnored => exact h
  | call _ _ hcheck =>
    exact (h.check hcheck).frame_state (World.books_enterCall _ _) (World.enterCall_created _ _)
      fun _ => by rw [World.enterCall_conns]
  | threadCallIgnored => exact h
  | threadCall _ _ hcheck => exact (h.check hcheck).frame_state rfl rfl fun _ => rfl
  | threadPush _ =>
    exact h.frame_state (World.books_pushCall _ _ _) (World.pushCall_created _ _ _)
      fun _ => by rw [World.pushCall_conns]

/-- The connections that ran `StartWorking` and were not closed. -/
def World.open (w : World) : Finset ConnId :=
  (Finset.range w.created).filter fun c => c ∉ w.log.closed

theorem ClosedOnce.card_open {w : World} (h : ClosedOnce w) :
    w.connectionSize = w.open.card := by
  have hsub : w.log.closed.toFinset ⊆ Finset.range w.created := by
    intro c hc
    exact Finset.mem_range.mpr ((h.closed c).mp (List.mem_toFinset.mp hc)).1
  have hopen : w.open = Finset.range w.created \ w.log.closed.toFinset := by
    ext c
    simp [World.open]
  have hle : w.log.closed.length ≤ w.created := by
    simpa only [List.toFinset_card_of_nodup h.nodup, Finset.card_range] using
      Finset.card_le_card hsub
  have hcard : w.open.card = w.created - w.log.closed.length := by
    rw [hopen, Finset.card_sdiff_of_subset hsub, Finset.card_range,
      List.toFinset_card_of_nodup h.nodup]
  have hsum := h.size
  omega

/-- In every run whose `HandleEvent`s find the connections they close open: no
assertion of `HandleClose` fails, `HandleClose` and `close_cb_` run at most once
for each connection, and the counter is the number of open connections. -/
theorem closes_at_most_once (w : World) (hw : machine.ReachableWhen FindsOpen w) :
    w.log.failed = [] ∧ (∀ c, w.log.closed.count c ≤ 1) ∧ (∀ c, w.log.closeCbs.count c ≤ 1) ∧
      w.connectionSize = w.open.card := by
  have h : ClosedOnce w := Machine.ReachableWhen.invariant (M := machine) closedOnce_create
    (fun _ _ _ hs hok h ha =>
      h.step (fun c => ordered_of_reachable hs.reachable c) hok (step_of_next ha)) hw
  have hclosed : ∀ c, w.log.closed.count c ≤ 1 := List.nodup_iff_count_le_one.mp h.nodup
  exact ⟨h.failed, hclosed, fun c => (h.closeCbs.count_le c).trans (hclosed c), h.card_open⟩

/-- `HandleEvent` on the next active dispatch, up to `HandleRead`. -/
def handleReadable (r : ReadResult) : List Label :=
  [.handleEvent false true, .resume r (.wrote 0), .resume r (.wrote 0)]

/-- Both connections have data; the message callback of the first one writes to
the second one, whose peer is gone. -/
def sendToBroken : List Label :=
  accept ⟨false, true, false, true, false⟩ ++ accept ⟨false, true, false, true, false⟩ ++
    [.loop .enter, .loop .iterate, .poll [(.owned (.conn 0), pollIn), (.owned (.conn 1), pollIn)],
      .loop .timersDone] ++
    handleReadable (.bytes [1]) ++ sendMessage 1 [2] (.failed .epipe) ++
    [.ret, .ret, .resume readNothing (.wrote 0), .resume readNothing (.wrote 0)]

/-- The closed connection has nothing more to read. -/
theorem closes_at_most_once_broken :
    ∃ w, machine.ReachableWhen FindsOpen w ∧ w.created = 2 ∧ w.log.closed = [1] ∧
      w.connectionSize = w.open.card := by
  obtain ⟨w, hw, hcreated, hclosed⟩ := Machine.exists_reachableWhen_of_run (M := machine) FindsOpen
    (sendToBroken ++ handleReadable readNothing)
    (fun w => w.created = 2 ∧ w.log.closed = [1]) (by decide +kernel)
  exact ⟨w, hw, hcreated, hclosed, (closes_at_most_once w hw).2.2.2⟩

/-- Its end of the stream is still reported and read: the connection is closed
again, against the assertion, with a second callback and a wrong count. -/
theorem not_closes_at_most_once :
    (¬ ∀ w, machine.Reachable w → w.log.failed = []) ∧
      (¬ ∀ w, machine.Reachable w → ∀ c, w.log.closeCbs.count c ≤ 1) ∧
      ¬ ∀ w, machine.Reachable w → w.connectionSize = w.open.card := by
  obtain ⟨w, hw, hfailed, hcbs, hsize, hopen⟩ := Machine.exists_reachable_of_run (M := machine)
    (sendToBroken ++ handleReadable (.bytes []))
    (fun w => w.log.failed = [1] ∧ w.log.closeCbs.count 1 = 2 ∧ w.connectionSize = 0 ∧
      w.open.card = 1) (by decide +kernel)
  refine ⟨fun h => ?_, fun h => ?_, fun h => ?_⟩
  · rw [h w hw] at hfailed
    cases hfailed
  · have hcount := h w hw 1
    omega
  · have hcount := h w hw
    omega

end Voyager.ConnectionLoop
