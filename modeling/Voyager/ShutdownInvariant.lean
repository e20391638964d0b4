import Voyager.LoopQueue

/-!
The invariant behind a graceful shutdown. An accepted message has been sent or
waits to be, and what waits behind a `ShutDown` was accepted after it. Here it is
carried over everything that only moves closures, and over the calls of the users.
-/
namespace Voyager.ConnectionLoop

open Lib.Framing EventLoop

/-- The invariant, where the closures `waiting` are in no queue: the loop thread is about
to run them. An accepted message has been sent or waits for it; what waits behind a
`ShutDown` was accepted after it. -/
structure Graceful (w : World) (waiting : List Func) : Prop where
  ids : ∀ (i : ℕ) c m, w.log.accepted[i]? = some (c, m) → m.id = i
  known : ∀ c m, (c, m) ∈ w.log.accepted → c < w.created
  knows : ∀ t call, w.calls t = some call → w.knows call = true
  shutDownAt : ∀ c n, w.log.shutDownAt c = some n →
    n ≤ w.log.accepted.length ∧ c < w.created ∧ (w.conns c).state ≠ .kConnected
  requested : ∀ c, .shutDown c ∈ w.queue ∨ .shutDown c ∈ waiting ∨
    (∃ t, w.calls t = some (.shutDown c)) → w.log.shutDownAt c ≠ none
  kept : ∀ c m, (c, m) ∈ w.log.accepted → (w.conns c).state ≠ .kDisconnected →
    m ∈ (w.conns c).sent ∨ .send c m ∈ w.queue ∨ .send c m ∈ waiting
  order : w.queue.Pairwise fun f g => ∀ c m, f = .shutDown c → g = .send c m → w.late c m
  waiting : ∀ c, .shutDown c ∈ waiting →
    (w.conns c).dispatch.isWriting = true ∨ ∀ m, .send c m ∈ w.queue → w.late c m
  closed : ∀ c, (w.conns c).state = .kDisconnected →
    w.log.excused c = true ∨ w.unflushed c = []
  ended : ∀ e ∈ w.log.ended, e.excused = true ∨ e.unflushed = []

theorem graceful_create : Graceful World.create [] where
  ids i c m h := by simp [World.create] at h
  known c m h := by cases h
  knows t call h := by cases h
  shutDownAt c n h := by cases h
  requested c h := by
    rcases h with h | h | ⟨t, h⟩
    · cases h
    · cases h
    · cases h
  kept c m h := by cases h
  order := List.Pairwise.nil
  waiting c h := by cases h
  closed c h := by cases h
  ended e h := by cases h

theorem Graceful.not_late {w : World} {waiting : List Func} (h : Graceful w waiting) {c : ConnId}
    {m : Message} (hm : m ∈ w.due c) : ¬ w.late c m := by
  intro hlate
  obtain ⟨hdata, n, hn, hmem⟩ := World.mem_due hm
  obtain ⟨i, hi, hget⟩ := List.mem_iff_getElem.mp hmem
  rw [List.length_take] at hi
  rw [List.getElem_take] at hget
  have hid := h.ids i c m (by rw [List.getElem?_eq_getElem (by omega), hget])
  have hle := hlate.resolve_left hdata n hn
  omega

theorem Graceful.accepted_of_due {w : World} {c : ConnId} {m : Message} (hm : m ∈ w.due c) :
    (c, m) ∈ w.log.accepted := by
  obtain ⟨_, n, _, hmem⟩ := World.mem_due hm
  exact List.mem_of_mem_take hmem

/-- Nothing is lost when the buffer is empty and no message due waits. -/
theorem Graceful.unflushed_eq_nil {w : World} {waiting : List Func} (h : Graceful w waiting)
    {c : ConnId} (hordered : (w.conns c).Ordered) (hopen : (w.conns c).state ≠ .kDisconnected)
    (hempty : (w.conns c).writebuf.readable = []) (hwaiting : ∀ m, .send c m ∉ waiting)
    (hqueue : ∀ m ∈ w.due c, .send c m ∉ w.queue) : w.unflushed c = [] := by
  have hcontents := hordered.contents hopen
  rw [hempty, List.append_nil] at hcontents
  refine World.unflushed_eq_nil hcontents fun m hm => ?_
  rcases h.kept c m (Graceful.accepted_of_due hm) hopen with hsent | hqueued | hrun
  · exact hsent
  · exact absurd hqueued (hqueue m hm)
  · exact absurd hrun (hwaiting m)

/-- What the invariant looks at in a connection. -/
structure SameConn (k k' : TcpConnection) : Prop where
  state : k'.state = k.state
  sent : k'.sent = k.sent
  written : k'.written = k.written
  isWriting : k'.dispatch.isWriting = k.dispatch.isWriting

theorem SameConn.refl (k : TcpConnection) : SameConn k k := ⟨rfl, rfl, rfl, rfl⟩

/-- What the invariant looks at apart from the closures. -/
structure SameRest (w w' : World) : Prop where
  accepted : w'.log.accepted = w.log.accepted
  shutDownAt : w'.log.shutDownAt = w.log.shutDownAt
  excused : w'.log.excused = w.log.excused
  ended : w'.log.ended = w.log.ended
  created : w'.created = w.created
  calls : ∀ t call, w'.calls t = some call → w.calls t = some call
  conns : ∀ c, SameConn (w.conns c) (w'.conns c)

theorem SameRest.of_eq {w w' : World} (hlog : w'.log = w.log) (hcreated : w'.created = w.created)
    (hcalls : w'.calls = w.calls) (hconns : w'.conns = w.conns) : SameRest w w' := by
  refine ⟨by rw [hlog], by rw [hlog], by rw [hlog], by rw [hlog], hcreated, fun t call hcall => ?_,
    fun c => ?_⟩
  · rwa [← hcalls]
  · rw [hconns]
    exact .refl _

theorem SameRest.late {w w' : World} (hsame : SameRest w w') (c : ConnId) (m : Message) :
    w'.late c m ↔ w.late c m := by
  simp only [World.late, hsame.shutDownAt]

theorem SameRest.unflushed {w w' : World} (hsame : SameRest w w') (c : ConnId) :
    w'.unflushed c = w.unflushed c :=
  World.unflushed_congr (by simp only [World.due, hsame.shutDownAt, hsame.accepted])
    (hsame.conns c).sent (hsame.conns c).written

/-- A step that only moves or adds closures: no message gets lost, and what
comes behind a `ShutDown` is late. -/
theorem Graceful.transfer {w w' : World} {waiting waiting' : List Func}
    (h : Graceful w waiting) (hsame : SameRest w w')
    (hrequested : ∀ c, .shutDown c ∈ w'.queue ∨ .shutDown c ∈ waiting' →
      .shutDown c ∈ w.queue ∨ .shutDown c ∈ waiting ∨ w.log.shutDownAt c ≠ none)
    (hkept : ∀ c m, .send c m ∈ w.queue ∨ .send c m ∈ waiting →
      .send c m ∈ w'.queue ∨ .send c m ∈ waiting')
    (horder : w'.queue.Pairwise fun f g => ∀ c m, f = .shutDown c → g = .send c m → w.late c m)
    (hwaiting : ∀ c, .shutDown c ∈ waiting' →
      (w.conns c).dispatch.isWriting = true ∨ ∀ m, .send c m ∈ w'.queue → w.late c m) :
    Graceful w' waiting' where
  ids i c m hget := h.ids i c m (hsame.accepted ▸ hget)
  known c m hmem := hsame.created ▸ h.known c m (hsame.accepted ▸ hmem)
  knows t call hcall := by
    simpa only [World.knows, hsame.created] using h.knows t call (hsame.calls t call hcall)
  shutDownAt c n hn := by
    rw [hsame.accepted, hsame.created, (hsame.conns c).state]
    exact h.shutDownAt c n (hsame.shutDownAt ▸ hn)
  requested c hreq := by
    rw [hsame.shutDownAt]
    have hold : ∀ hr : .shutDown c ∈ w'.queue ∨ .shutDown c ∈ waiting',
        w.log.shutDownAt c ≠ none := fun hr => by
      rcases hrequested c hr with hq | hr | hs
      · exact h.requested c (.inl hq)
      · exact h.requested c (.inr (.inl hr))
      · exact hs
    rcases hreq with hq | hr | ⟨t, ht⟩
    · exact hold (.inl hq)
    · exact hold (.inr hr)
    · exact h.requested c (.inr (.inr ⟨t, hsame.calls t _ ht⟩))
  kept c m hmem hopen := by
    rw [(hsame.conns c).state] at hopen
    rw [(hsame.conns c).sent]
    rcases h.kept c m (hsame.accepted ▸ hmem) hopen with hsent | hq
    · exact .inl hsent
    · exact .inr (hkept c m hq)
  order := horder.imp fun hfg c m hf hg => (hsame.late c m).mpr (hfg c m hf hg)
  waiting c hr := by
    rw [(hsame.conns c).isWriting]
    exact (hwaiting c hr).imp_right fun hlate m hm => (hsame.late c m).mpr (hlate m hm)
  closed c hclosed := by
    rw [(hsame.conns c).state] at hclosed
    rw [hsame.excused, hsame.unflushed c]
    exact h.closed c hclosed
  ended e he := h.ended e (hsame.ended ▸ he)

/-- Further closures are queued, none of which sends, and those that shut down
have announced it. -/
theorem Graceful.extend {w w' : World} {waiting waiting' extra : List Func}
    (h : Graceful w waiting) (hsame : SameRest w w') (hqueue : w'.queue = w.queue ++ extra)
    (hextra : ∀ f ∈ extra, (∀ c m, f ≠ .send c m) ∧
      ∀ c, f = .shutDown c → w.log.shutDownAt c ≠ none)
    (hsends : ∀ c m, .send c m ∈ waiting → .send c m ∈ waiting')
    (hshuts : ∀ c, .shutDown c ∈ waiting' → .shutDown c ∈ waiting) : Graceful w' waiting' := by
  have hold : ∀ c m, .send c m ∈ w'.queue → .send c m ∈ w.queue := by
    intro c m hm
    rw [hqueue] at hm
    rcases List.mem_append.mp hm with hm | hm
    · exact hm
    · exact absurd rfl ((hextra _ hm).1 c m)
  refine h.transfer hsame (fun c hreq => ?_) (fun c m hw => ?_) ?_ fun c hc => ?_
  · rcases hreq with hq | hr
    · rw [hqueue] at hq
      rcases List.mem_append.mp hq with hq | hq
      · exact .inl hq
      · exact .inr (.inr ((hextra _ hq).2 c rfl))
    · exact .inr (.inl (hshuts c hr))
  · rcases hw with hq | hr
    · exact .inl (hqueue ▸ List.mem_append_left _ hq)
    · exact .inr (hsends c m hr)
  · rw [hqueue]
    refine List.pairwise_append.mpr ⟨h.order, ?_, fun f _ g hg c m _ hsend => ?_⟩
    · refine List.pairwise_of_forall_mem_list fun f _ g hg c m _ hsend => ?_
      exact absurd hsend ((hextra g hg).1 c m)
    · exact absurd hsend ((hextra g hg).1 c m)
  · exact (h.waiting c (hshuts c hc)).imp_right fun hlate m hm => hlate m (hold c m hm)

/-- The queue stays, and so does every closure that sends. -/
theorem Graceful.still {w w' : World} {waiting waiting' : List Func} (h : Graceful w waiting)
    (hsame : SameRest w w') (hqueue : w'.queue = w.queue)
    (hsends : ∀ c m, .send c m ∈ waiting → .send c m ∈ waiting')
    (hshuts : ∀ c, .shutDown c ∈ waiting' → .shutDown c ∈ waiting) : Graceful w' waiting' := by
  have hnil : w'.queue = w.queue ++ [] := by rw [hqueue, List.append_nil]
  exact h.extend hsame hnil (fun _ hf => by cases hf) hsends hshuts

/-- The loop thread takes the first closure of the batch. -/
theorem Graceful.exec {w w' : World} {f : Func} (h : Graceful w []) (hsame : SameRest w w')
    (hqueue : w.queue = f :: w'.queue) : Graceful w' [f] := by
  have horder := h.order
  rw [hqueue] at horder
  obtain ⟨hfirst, hrest⟩ := List.pairwise_cons.mp horder
  refine h.transfer hsame (fun c hreq => .inl ?_) (fun c m hw => ?_) hrest fun c hc => .inr ?_
  · rw [hqueue]
    rcases hreq with hq | hr
    · exact List.mem_cons_of_mem _ hq
    · exact List.mem_singleton.mp hr ▸ List.mem_cons_self
  · rcases hw with hq | hr
    · rw [hqueue] at hq
      exact (List.mem_cons.mp hq).symm.imp_right fun heq => List.mem_singleton.mpr heq
    · cases hr
  · exact fun m hm => hfirst _ hm c m (List.mem_singleton.mp hc).symm rfl

/-- A closure that is ready to be run is queued instead. -/
theorem Graceful.push {w w' : World} {f : Func} {waiting : List Func}
    (h : Graceful w (f :: waiting)) (hsame : SameRest w w') (hqueue : w'.queue = w.queue ++ [f])
    (hlate : ∀ c m, f = .send c m → w.late c m) : Graceful w' waiting := by
  refine h.transfer hsame (fun c hreq => ?_) (fun c m hw => ?_) ?_ fun c hc => ?_
  · rcases hreq with hq | hr
    · rw [hqueue] at hq
      rcases List.mem_append.mp hq with hq | hq
      · exact .inl hq
      · exact .inr (.inl (List.mem_singleton.mp hq ▸ List.mem_cons_self))
    · exact .inr (.inl (List.mem_cons_of_mem _ hr))
  · rw [hqueue]
    rcases hw with hq | hr
    · exact .inl (List.mem_append_left _ hq)
    · rcases List.mem_cons.mp hr with rfl | hr
      · exact .inl (List.mem_append_right _ (List.mem_singleton.mpr rfl))
      · exact .inr hr
  · rw [hqueue]
    refine List.pairwise_append.mpr ⟨h.order, List.pairwise_singleton _ _, ?_⟩
    intro _ _ g hg c m _ hsend
    exact hlate c m (List.mem_singleton.mp hg ▸ hsend)
  · refine (h.waiting c (List.mem_cons_of_mem _ hc)).imp_right fun hold m hm => ?_
    rw [hqueue] at hm
    rcases List.mem_append.mp hm with hm | hm
    · exact hold m hm
    · exact hlate c m (List.mem_singleton.mp hm).symm

/-- A message is accepted; its closure waits, and is late if it ever matters. -/
theorem Graceful.accept {w : World} {waiting : List Func} (h : Graceful w waiting) {c : ConnId}
    (hc : c < w.created) (data : List Byte) :
    Graceful (w.closure (.sendMessage c data)).1 ((w.closure (.sendMessage c data)).2 :: waiting) ∧
      (w.closure (.sendMessage c data)).1.late c ⟨w.log.accepted.length, data⟩ := by
  have hdue : ∀ c', (w.closure (.sendMessage c data)).1.due c' = w.due c' := by
    intro c'
    simp only [World.due, World.closure]
    cases hn : w.log.shutDownAt c' with
    | none => rfl
    | some n => simp only [List.take_append_of_le_length (h.shutDownAt c' n hn).1]
  have hunflushed : ∀ c', (w.closure (.sendMessage c data)).1.unflushed c' = w.unflushed c' :=
    fun c' => World.unflushed_congr (hdue c') rfl rfl
  have hshuts : ∀ c', .shutDown c' ∈ (w.closure (.sendMessage c data)).2 :: waiting →
      .shutDown c' ∈ waiting := by
    intro c' hmem
    rcases List.mem_cons.mp hmem with heq | hmem
    · cases heq
    · exact hmem
  refine ⟨⟨fun i c' m hget => ?_, fun c' m hmem => ?_, h.knows, fun c' n hn => ?_,
    fun c' hreq => ?_, fun c' m hmem hopen => ?_, h.order, fun c' hmem => ?_, fun c' hclosed => ?_,
    h.ended⟩, .inr fun n hn => (h.shutDownAt c n hn).1⟩
  · change (w.log.accepted ++ [(c, ⟨w.log.accepted.length, data⟩)])[i]? = some (c', m) at hget
    rcases Nat.lt_trichotomy i w.log.accepted.length with hlt | rfl | hgt
    · rw [List.getElem?_append_left hlt] at hget
      exact h.ids i c' m hget
    · rw [List.getElem?_concat_length] at hget
      cases hget
      rfl
    · rw [List.getElem?_eq_none (by simp; omega)] at hget
      cases hget
  · rcases List.mem_append.mp hmem with hmem | hmem
    · exact h.known c' m hmem
    · cases List.mem_singleton.mp hmem
      exact hc
  · obtain ⟨hle, hrest⟩ := h.shutDownAt c' n hn
    refine ⟨?_, hrest⟩
    simp only [World.closure, List.length_append]
    omega
  · rcases hreq with hq | hr | ht
    · exact h.requested c' (.inl hq)
    · exact h.requested c' (.inr (.inl (hshuts c' hr)))
    · exact h.requested c' (.inr (.inr ht))
  · rcases List.mem_append.mp hmem with hmem | hmem
    · exact (h.kept c' m hmem hopen).imp_right fun hw =>
        hw.imp_right fun hr => List.mem_cons_of_mem _ hr
    · cases List.mem_singleton.mp hmem
      exact .inr (.inr List.mem_cons_self)
  · exact h.waiting c' (hshuts c' hmem)
  · rw [hunflushed c']
    exact h.closed c' hclosed

/-- `ForceClose` is called. -/
theorem Graceful.noteExcused {w : World} {waiting : List Func} (h : Graceful w waiting)
    (c : ConnId) : Graceful (w.noteExcused c) waiting where
  ids := h.ids
  known := h.known
  knows := h.knows
  shutDownAt := h.shutDownAt
  requested := h.requested
  kept := h.kept
  order := h.order
  waiting := h.waiting
  closed c' hclosed := by
    by_cases heq : c' = c
    · left
      simp [World.noteExcused, heq]
    · have hexcused : (w.noteExcused c).log.excused c' = w.log.excused c' := by
        simp only [World.noteExcused, Function.update_of_ne heq]
      rw [hexcused]
      exact h.closed c' hclosed
  ended := h.ended

/-- A connected connection becomes disconnecting. -/
theorem Graceful.setState {w : World} {waiting : List Func} (h : Graceful w waiting) {c : ConnId}
    (hstate : (w.conns c).state = .kConnected) :
    Graceful (w.setState c .kDisconnecting) waiting := by
  have hconns : ∀ c', (w.setState c .kDisconnecting).conns c' = w.conns c' ∨
      (c' = c ∧ (w.setState c .kDisconnecting).conns c' =
        { w.conns c with state := .kDisconnecting }) := by
    intro c'
    by_cases heq : c' = c
    · exact .inr ⟨heq, by simp [World.setState, heq]⟩
    · exact .inl (Function.update_of_ne heq _ _)
  have hunflushed : ∀ c', (w.setState c .kDisconnecting).unflushed c' = w.unflushed c' := by
    intro c'
    rcases hconns c' with heq | ⟨rfl, heq⟩
    · exact World.unflushed_congr rfl (by rw [heq]) (by rw [heq])
    · exact World.unflushed_congr rfl (by rw [heq]) (by rw [heq])
  refine
    { ids := h.ids
      known := h.known
      knows := h.knows
      shutDownAt := fun c' n hn => ?shutDownAt
      requested := h.requested
      kept := fun c' m hmem hopen => ?kept
      order := h.order
      waiting := fun c' hmem => ?waiting
      closed := fun c' hclosed => ?closed
      ended := h.ended }
  case shutDownAt =>
    obtain ⟨hle, hc, hnot⟩ := h.shutDownAt c' n hn
    refine ⟨hle, hc, ?_⟩
    rcases hconns c' with heq | ⟨rfl, heq⟩
    · rw [heq]
      exact hnot
    · exact absurd hstate hnot
  case kept =>
    rcases hconns c' with heq | ⟨rfl, heq⟩
    · rw [heq] at hopen ⊢
      exact h.kept c' m hmem hopen
    · rw [heq]
      exact h.kept c' m hmem (by rw [hstate]; decide)
  case waiting =>
    rcases hconns c' with heq | ⟨rfl, heq⟩
    · rw [heq]
      exact h.waiting c' hmem
    · rw [heq]
      exact h.waiting c' hmem
  case closed =>
    rw [hunflushed c']
    rcases hconns c' with heq | ⟨rfl, heq⟩
    · rw [heq] at hclosed
      exact h.closed c' hclosed
    · rw [heq] at hclosed
      cases hclosed

/-- `ShutDown` takes effect, for the first time on this connection. -/
theorem Graceful.noteShutDown {w : World} {waiting : List Func} (h : Graceful w waiting)
    {c : ConnId} (hc : c < w.created) (hstate : (w.conns c).state = .kDisconnecting)
    (hfirst : w.log.shutDownAt c = none) : Graceful (w.noteShutDown c) waiting := by
  have hlate : ∀ c' m, c' ≠ c → ((w.noteShutDown c).late c' m ↔ w.late c' m) := by
    intro c' m hne
    simp only [World.late, World.noteShutDown, Function.update_of_ne hne]
  have hnew : (w.noteShutDown c).log.shutDownAt c = some w.log.accepted.length := by
    simp [World.noteShutDown]
  refine
    { ids := h.ids
      known := h.known
      knows := h.knows
      shutDownAt := fun c' n hn => ?shutDownAt
      requested := fun c' hreq => ?requested
      kept := h.kept
      order := ?order
      waiting := fun c' hmem => ?waiting
      closed := fun c' hclosed => ?closed
      ended := h.ended }
  case shutDownAt =>
    by_cases heq : c' = c
    · subst c'
      rw [hnew] at hn
      cases hn
      exact ⟨Nat.le_refl _, hc, by change (w.conns c).state ≠ _; rw [hstate]; decide⟩
    · simp only [World.noteShutDown, Function.update_of_ne heq] at hn
      exact h.shutDownAt c' n hn
  case requested =>
    by_cases heq : c' = c
    · subst c'
      rw [hnew]
      exact Option.some_ne_none _
    · simp only [World.noteShutDown, Function.update_of_ne heq]
      exact h.requested c' hreq
  case order =>
    refine h.order.imp_of_mem fun {f g} hf _ hfg c' m hshut hsend => ?_
    by_cases heq : c' = c
    · subst c'
      exact absurd hfirst (h.requested c (.inl (hshut ▸ hf)))
    · exact (hlate c' m heq).mpr (hfg c' m hshut hsend)
  case waiting =>
    by_cases heq : c' = c
    · subst c'
      exact absurd hfirst (h.requested c (.inr (.inl hmem)))
    · exact (h.waiting c' hmem).imp_right fun hall m hm => (hlate c' m heq).mpr (hall m hm)
  case closed =>
    have hne : c' ≠ c := by
      rintro rfl
      change (w.conns c').state = _ at hclosed
      rw [hstate] at hclosed
      cases hclosed
    have hsame : (w.noteShutDown c).unflushed c' = w.unflushed c' := by
      refine World.unflushed_congr ?_ rfl rfl
      simp only [World.due, World.noteShutDown, Function.update_of_ne hne]
    rw [hsame]
    exact h.closed c' hclosed

theorem Graceful.check {w w' : World} {waiting : List Func} (h : Graceful w waiting)
    {spurious : Bool} {call : Call} (hknows : w.knows call = true)
    (hcheck : w.check spurious call = some w') :
    Graceful w' waiting ∧ w'.created = w.created ∧
      ∀ c, call = .shutDown c → w'.log.shutDownAt c ≠ none := by
  rcases World.check_cases hcheck with
    rfl | ⟨c, hconn, ⟨rfl, rfl⟩ | ⟨hstate, ⟨rfl, rfl⟩ | ⟨rfl, rfl⟩⟩⟩
  · refine ⟨h, rfl, ?_⟩
    rintro c rfl
    simp only [World.check] at hcheck
    split at hcheck
    · rename_i hguard
      have hsome := congrArg (fun w : World => (w.conns c).state) (Option.some.inj hcheck)
      simp [World.setState, World.noteShutDown, hguard.1] at hsome
    · cases hcheck
  · exact ⟨h.noteExcused c, rfl, fun c' hcall => by cases hcall⟩
  · have hc : c < w.created := by simpa [World.knows, Call.conn?] using hknows
    have hfirst : w.log.shutDownAt c = none := by
      cases hn : w.log.shutDownAt c with
      | none => rfl
      | some n => exact absurd hstate (h.shutDownAt c n hn).2.2
    refine ⟨(h.setState hstate).noteShutDown hc (by simp [World.setState]) hfirst, rfl, ?_⟩
    rintro c' hcall
    cases hcall
    simp [World.noteShutDown]
  · exact ⟨(h.setState hstate).noteExcused c, rfl, fun c' hcall => by cases hcall⟩

/-- A call on the loop thread. -/
theorem Graceful.enterCall {w : World} (h : Graceful w []) (hrun : w.running = none) {call : Call}
    (hknows : w.knows call = true) (hrequested : ∀ c, call = .shutDown c →
      w.log.shutDownAt c ≠ none ∧ ((w.conns c).dispatch.isWriting = true ∨
        ∀ f ∈ w.queue, f.sends c = false)) :
    Graceful (w.enterCall call) (w.enterCall call).running.toList := by
  have hplain : ∀ f : Func, (∀ c m, f ≠ .send c m) → (∀ c, f ≠ .shutDown c) →
      Graceful { w with running := some f } [f] := by
    intro f hsend hshut
    refine h.still (.of_eq rfl rfl rfl rfl) rfl (fun _ _ hm => by cases hm) fun c hc => ?_
    exact absurd (List.mem_singleton.mp hc).symm (hshut c)
  cases call with
  | newConnection callbacks => exact hplain _ (by simp) (by simp)
  | sendMessage c data =>
    have hc : c < w.created := by simpa [World.knows, Call.conn?] using hknows
    exact (h.accept hc data).1.still (.of_eq rfl rfl rfl rfl) rfl (fun _ _ hm => hm) fun _ hc => hc
  | shutDown c =>
    obtain ⟨hsome, hleft⟩ := hrequested c rfl
    refine h.transfer (.of_eq rfl rfl rfl rfl)
      (fun c' hreq => ?_) (fun c' m hw => ?_) h.order fun c' hc' => ?_
    · rcases hreq with hq | hr
      · exact .inl hq
      · cases List.mem_singleton.mp hr
        exact .inr (.inr hsome)
    · rcases hw with hq | hr
      · exact .inl hq
      · cases hr
    · cases List.mem_singleton.mp hc'
      refine hleft.imp_right fun hnone m hm => ?_
      have hno := hnone _ hm
      left
      simpa [Func.sends] using hno
  | forceClose c =>
    have hqueue : (w.enterCall (.forceClose c)).queue = w.queue ++ [.forceClose c] := by
      simp [World.enterCall, World.closure, World.queue, State.batch, State.queueInLoop, State.push]
    have hnone : (w.enterCall (.forceClose c)).running = none := hrun
    rw [hnone]
    refine h.extend (.of_eq rfl rfl rfl rfl) hqueue ?_
      (fun _ _ hm => hm) fun _ hc => hc
    intro f hf
    cases List.mem_singleton.mp hf
    simp
  | startRead c => exact hplain _ (by simp) (by simp)
  | stopRead c => exact hplain _ (by simp) (by simp)

/-- Another thread queues the closure of its call. -/
theorem Graceful.pushCall {w : World} {waiting : List Func} (h : Graceful w waiting)
    {t : ThreadId} {call : Call} (hcall : w.calls t = some call) :
    Graceful (w.pushCall t call) waiting := by
  have hcalls : ∀ t' call', Function.update w.calls t none t' = some call' →
      w.calls t' = some call' := by
    intro t' call' hcall'
    by_cases heq : t' = t
    · rw [heq, Function.update_self] at hcall'
      cases hcall'
    · rwa [Function.update_of_ne heq] at hcall'
  have hqueue : ∀ (w : World) (f : Func),
      { w with loop := w.loop.threadQueueInLoop t f }.queue = w.queue ++ [f] := by
    intro w f
    simp [World.queue, State.batch, State.threadQueueInLoop, State.push]
  have hplain : ∀ f : Func, (∀ c m, f ≠ .send c m) → (∀ c, f = .shutDown c → call = .shutDown c) →
      Graceful { w with
        loop := w.loop.threadQueueInLoop t f
        calls := Function.update w.calls t none } waiting := by
    intro f hsend hshut
    refine h.extend ⟨rfl, rfl, rfl, rfl, rfl, hcalls, fun c => .refl _⟩ (hqueue w f) ?_
      (fun _ _ hm => hm) fun _ hc => hc
    intro g hg
    cases List.mem_singleton.mp hg
    refine ⟨hsend, fun c hc => h.requested c (.inr (.inr ⟨t, ?_⟩))⟩
    rw [hcall, hshut c hc]
  cases call with
  | newConnection callbacks => exact hplain _ (by simp) (by simp)
  | sendMessage c data =>
    have hc : c < w.created := by simpa [World.knows, Call.conn?] using h.knows t _ hcall
    obtain ⟨haccept, hlate⟩ := h.accept hc data
    refine haccept.push ⟨rfl, rfl, rfl, rfl, rfl, hcalls, fun c => .refl _⟩ (hqueue _ _) ?_
    rintro c' m heq
    cases heq
    exact hlate
  | shutDown c => exact hplain _ (by simp) (by simp)
  | forceClose c => exact hplain _ (by simp) (by simp)
  | startRead c => exact hplain _ (by simp) (by simp)
  | stopRead c => exact hplain _ (by simp) (by simp)

/-- Another thread is about to queue the closure of its call. -/
theorem Graceful.addCall {w : World} {waiting : List Func} (h : Graceful w waiting)
    (t : ThreadId) {call : Call} (hknows : w.knows call = true)
    (hshut : ∀ c, call = .shutDown c → w.log.shutDownAt c ≠ none) :
    Graceful { w with calls := Function.update w.calls t (some call) } waiting := by
  have hcalls : ∀ t' call', Function.update w.calls t (some call) t' = some call' →
      call' = call ∨ w.calls t' = some call' := by
    intro t' call' hcall'
    by_cases heq : t' = t
    · rw [heq, Function.update_self] at hcall'
      exact .inl (Option.some.inj hcall').symm
    · rw [Function.update_of_ne heq] at hcall'
      exact .inr hcall'
  refine ⟨h.ids, h.known, fun t' call' hcall' => ?_, h.shutDownAt, fun c hreq => ?_, h.kept,
    h.order, h.waiting, h.closed, h.ended⟩
  · rcases hcalls t' call' hcall' with rfl | hold
    · exact hknows
    · exact h.knows t' call' hold
  · rcases hreq with hq | hr | ⟨t', ht'⟩
    · exact h.requested c (.inl hq)
    · exact h.requested c (.inr (.inl hr))
    · rcases hcalls t' _ ht' with heq | hold
      · exact hshut c heq.symm
      · exact h.requested c (.inr (.inr ⟨t', hold⟩))

end Voyager.ConnectionLoop
