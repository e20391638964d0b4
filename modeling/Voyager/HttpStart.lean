import Voyager.IdleWheel

/-!
`HttpServer::Start` of http/http_server.cc beside the connections that the server
accepts meanwhile. `Start` first lets `TcpServer` listen and then gives every loop its
bucket list and its `OnTimer`, if the options make for at least one tick; it may run on
another thread than the base loop.
-/
namespace Voyager

open Lib.Runs

/-- Where `Start` is, and whether it runs on the thread of the base loop. -/
inductive StartStage
  | before
  | insert (inBase : Bool) (loop : ℕ)
  | runEvery (inBase : Bool) (loop : ℕ)
  | returned
deriving DecidableEq, Repr

namespace StartStage

/-- `Start` has been at the buckets of the loop, if it has any to insert. -/
def past : StartStage → ℕ → Prop
  | before, _ => False
  | insert _ i, loop => loop < i
  | runEvery _ i, loop => loop ≤ i
  | returned, _ => True

instance (st : StartStage) (loop : ℕ) : Decidable (st.past loop) := by
  unfold past
  split <;> infer_instance

/-- `Start` keeps the base loop from polling. -/
def holdsBase : StartStage → Bool
  | insert inBase _ => inBase
  | runEvery inBase _ => inBase
  | _ => false

end StartStage

/-- `loops` are those of `AllLoops`. For each of them `waiting` counts the accepted
connections whose `OnConnection` has not run yet, and `timers` says whether `RunEvery`
has been called. `failed` is a failed assertion or a throwing `at`. -/
structure HttpStart where
  tickTime : Int
  keepAliveTimeOut : Int
  loops : ℕ
  stage : StartStage
  listenQueued : Bool
  listening : Bool
  waiting : ℕ → ℕ
  buckets : ℕ → Option IdleLoop
  timers : ℕ → Bool
  failed : Bool

namespace HttpStart

inductive Act
  | start (inBase : Bool)
  | enableListen
  | insert
  | runEvery
  | accept (loop : ℕ)
  | onConnection (loop : ℕ) (admitted : Bool)
  | onMessage (loop c : ℕ) (connected : Bool)
  | onTimer (loop : ℕ)
  | onClose (loop c : ℕ)
  | release (loop c : ℕ)
deriving DecidableEq, Repr

/-- `idle_ticks_`, an integer division. -/
def idleTicks (s : HttpStart) : Int := s.keepAliveTimeOut.tdiv s.tickTime

def setBuckets (s : HttpStart) (loop : ℕ) (l : IdleLoop) : HttpStart :=
  { s with buckets := Function.update s.buckets loop (some l) }

/-- `buckets_.find` with its assertion, and what is done there. -/
def find (s : HttpStart) (loop : ℕ) (f : IdleLoop → Option IdleLoop) : HttpStart :=
  match (s.buckets loop).bind f with
  | some l => s.setBuckets loop l
  | none => { s with failed := true }

/-- A step on a connection that the loop has admitted. -/
def onAdmitted (s : HttpStart) (loop c : ℕ) (f : IdleLoop → Option IdleLoop) : Option HttpStart :=
  (s.buckets loop).bind fun l =>
    if c < l.created ∧ l.conn c = .working then some (s.find loop f) else none

def act (s : HttpStart) : Act → Option HttpStart
  | .start inBase =>
    if s.stage = .before then
      some { s with
        listening := inBase
        listenQueued := !inBase
        stage := if 0 < s.idleTicks then .insert inBase 0 else .returned }
    else none
  | .enableListen =>
    if s.listenQueued then some { s with listenQueued := false, listening := true } else none
  | .insert =>
    match s.stage with
    | .insert inBase i =>
      if i < s.loops then
        some { s.setBuckets i ((s.buckets i).getD (.create s.idleTicks.toNat)) with
          stage := .runEvery inBase i }
      else some { s with stage := .returned }
    | _ => none
  | .runEvery =>
    match s.stage with
    | .runEvery inBase i =>
      some { s with timers := Function.update s.timers i true, stage := .insert inBase (i + 1) }
    | _ => none
  | .accept loop =>
    if s.listening ∧ s.stage.holdsBase = false ∧ loop < s.loops then
      some { s with waiting := Function.update s.waiting loop (s.waiting loop + 1) }
    else none
  | .onConnection loop admitted =>
    if 0 < s.waiting loop then
      let s := { s with waiting := Function.update s.waiting loop (s.waiting loop - 1) }
      some (if admitted then s.find loop IdleLoop.onConnection else s)
    else none
  | .onMessage loop c connected => s.onAdmitted loop c fun l => l.onMessage c connected
  | .onTimer loop => if s.timers loop then some (s.find loop IdleLoop.onTimer) else none
  | .onClose loop c => s.onAdmitted loop c fun l => l.next (.onClose c)
  | .release loop c =>
    (s.buckets loop).bind fun l => (l.next (.release c)).map (s.setBuckets loop)

/-- Nothing follows a failure. -/
def next (s : HttpStart) (a : Act) : Option HttpStart := if s.failed then none else s.act a

def system (tickTime keepAliveTimeOut : Int) (loops : ℕ) : Machine HttpStart Act where
  init := ⟨tickTime, keepAliveTimeOut, loops, .before, false, false, fun _ => 0, fun _ => none,
    fun _ => false, false⟩
  next := next

/-- The options make for at least one tick, and a connection is admitted on a loop only
when `Start` has been at its buckets. -/
def Ready (s : HttpStart) : Act → Prop
  | .onConnection loop true => s.tickTime ≤ s.keepAliveTimeOut ∧ s.stage.past loop
  | _ => True

instance (s : HttpStart) (a : Act) : Decidable (s.Ready a) := by
  unfold Ready
  split <;> infer_instance

/-- The bucket lists are those of the loops that `Start` has been at, none if there is
no tick to wait for, and a timer runs only on a loop that has one. -/
structure Inv (s : HttpStart) : Prop where
  holds : s.failed = false
  tick : 0 < s.tickTime
  inserting : s.stage ≠ .before → s.stage ≠ .returned → 0 < s.idleTicks
  inserted : ∀ inBase i, s.stage = .runEvery inBase i → (s.buckets i).isSome
  filled : ∀ loop < s.loops, (s.buckets loop).isSome ↔ 0 < s.idleTicks ∧ s.stage.past loop
  good : ∀ loop l, s.buckets loop = some l → ∃ n, 1 ≤ n ∧ IdleLoop.Good n l
  timers : ∀ loop, s.timers loop = true → (s.buckets loop).isSome
  waiting : ∀ loop, 0 < s.waiting loop → loop < s.loops

section

variable {s : HttpStart}

theorem idleTicks_pos (h : 0 < s.tickTime) :
    0 < s.idleTicks ↔ s.tickTime ≤ s.keepAliveTimeOut := by
  unfold idleTicks
  rcases Int.le_total 0 s.keepAliveTimeOut with hnonneg | hneg
  · rw [Int.tdiv_eq_ediv_of_nonneg hnonneg, ← Int.add_one_le_iff, Int.le_ediv_iff_mul_le h]
    omega
  · have hneg' : 0 ≤ (-s.keepAliveTimeOut).tdiv s.tickTime := Int.tdiv_nonneg (by omega) (by omega)
    rw [Int.neg_tdiv] at hneg'
    omega

theorem inv_init {tickTime : Int} (htick : 0 < tickTime) (keepAliveTimeOut : Int) (loops : ℕ) :
    Inv (system tickTime keepAliveTimeOut loops).init where
  holds := rfl
  tick := htick
  inserting hbefore := absurd rfl hbefore
  inserted _ _ hstage := by cases hstage
  filled loop _ := by
    constructor
    · intro h
      cases h
    · intro h
      exact absurd h.2 id
  good loop l hl := by cases hl
  timers loop h := by cases h
  waiting loop h := by cases h

theorem isSome_setBuckets {loop : ℕ} (l : IdleLoop) (i : ℕ) :
    ((s.setBuckets loop l).buckets i).isSome ↔ i = loop ∨ (s.buckets i).isSome := by
  unfold setBuckets
  by_cases hi : i = loop
  · simp [hi]
  · simp [hi]

/-- The buckets of a loop that has some already are replaced by good ones. -/
theorem Inv.setBuckets (h : Inv s) {loop n : ℕ} {l : IdleLoop} (hsome : (s.buckets loop).isSome)
    (hn : 1 ≤ n) (hl : IdleLoop.Good n l) : Inv (s.setBuckets loop l) where
  holds := h.holds
  tick := h.tick
  inserting := h.inserting
  inserted b i hi := (isSome_setBuckets l i).mpr (.inr (h.inserted b i hi))
  filled i hi := by
    rw [isSome_setBuckets]
    refine Iff.trans ⟨fun hor => ?_, .inr⟩ (h.filled i hi)
    exact hor.elim (fun heq => heq ▸ hsome) id
  good i k hk := by
    by_cases hi : i = loop
    · subst hi
      have hself : (s.setBuckets i l).buckets i = some l := Function.update_self ..
      rw [hself, Option.some.injEq] at hk
      exact ⟨n, hn, hk ▸ hl⟩
    · exact h.good i k ((Function.update_of_ne hi _ _).symm.trans hk)
  timers i hi := (isSome_setBuckets l i).mpr (.inr (h.timers i hi))
  waiting := h.waiting

theorem Inv.setWaiting (h : Inv s) {waiting : ℕ → ℕ}
    (hwaiting : ∀ loop, 0 < waiting loop → loop < s.loops) : Inv { s with waiting := waiting } where
  holds := h.holds
  tick := h.tick
  inserting := h.inserting
  inserted := h.inserted
  filled := h.filled
  good := h.good
  timers := h.timers
  waiting := hwaiting

/-- What is done to a bucket list that is found, if it cannot fail. -/
theorem Inv.find (h : Inv s) {loop : ℕ} {f : IdleLoop → Option IdleLoop}
    (hsome : (s.buckets loop).isSome)
    (hf : ∀ n l, IdleLoop.Good n l → ∃ t, f l = some t ∧ IdleLoop.Good n t) :
    Inv (s.find loop f) := by
  obtain ⟨l, hl⟩ := Option.isSome_iff_exists.mp hsome
  obtain ⟨n, hn, hgood⟩ := h.good loop l hl
  obtain ⟨t, ht, hkept⟩ := hf n l hgood
  have hfind : s.find loop f = s.setBuckets loop t := by simp [HttpStart.find, hl, ht]
  exact hfind ▸ h.setBuckets hsome hn hkept

theorem find_fails {loop : ℕ} (f : IdleLoop → Option IdleLoop) (hnone : ¬(s.buckets loop).isSome) :
    (s.find loop f).failed = true := by
  rw [Option.not_isSome_iff_eq_none] at hnone
  simp [HttpStart.find, hnone]

theorem Inv.ready_iff (h : Inv s) {loop : ℕ} (hloop : loop < s.loops) :
    s.Ready (.onConnection loop true) ↔ (s.buckets loop).isSome := by
  rw [h.filled loop hloop, idleTicks_pos h.tick]
  rfl

theorem Inv.start (h : Inv s) (hbefore : s.stage = .before) (inBase : Bool) : Inv { s with
    listening := inBase
    listenQueued := !inBase
    stage := if 0 < s.idleTicks then .insert inBase 0 else .returned } where
  holds := h.holds
  tick := h.tick
  inserting _ hreturned := by
    by_contra hpos
    exact hreturned (if_neg hpos)
  inserted b i hi := by
    replace hi : (if 0 < s.idleTicks then .insert inBase 0 else .returned) =
      StartStage.runEvery b i := hi
    split at hi <;> cases hi
  filled loop hloop := by
    refine (h.filled loop hloop).trans ?_
    rw [hbefore]
    refine ⟨fun hpast => absurd hpast.2 id, fun ⟨hpos, hpast⟩ => ?_⟩
    replace hpast :
        StartStage.past (if 0 < s.idleTicks then .insert inBase 0 else .returned) loop :=
      hpast
    rw [if_pos (show 0 < s.idleTicks from hpos)] at hpast
    exact absurd hpast (Nat.not_lt_zero loop)
  good := h.good
  timers := h.timers
  waiting := h.waiting

/-- `buckets_.insert` keeps what is there. -/
theorem Inv.insert (h : Inv s) {inBase : Bool} {i : ℕ} (hstage : s.stage = .insert inBase i)
    (hi : i < s.loops) : Inv { s.setBuckets i ((s.buckets i).getD (.create s.idleTicks.toNat)) with
      stage := .runEvery inBase i } where
  holds := h.holds
  tick := h.tick
  inserting _ _ := h.inserting (by simp [hstage]) (by simp [hstage])
  inserted b i' hi' := by
    cases hi'
    exact (isSome_setBuckets _ i).mpr (.inl rfl)
  filled loop hloop := by
    have hpos : 0 < s.idleTicks := h.inserting (by simp [hstage]) (by simp [hstage])
    refine (isSome_setBuckets _ loop).trans ?_
    rw [h.filled loop hloop, hstage]
    show loop = i ∨ 0 < s.idleTicks ∧ loop < i ↔ 0 < s.idleTicks ∧ loop ≤ i
    omega
  good loop l hl := by
    by_cases hloop : loop = i
    · subst hloop
      rw [show (s.setBuckets loop _).buckets loop = some _ from Function.update_self ..,
        Option.some.injEq] at hl
      cases hbefore : s.buckets loop with
      | none =>
        have hpos : 0 < s.idleTicks := h.inserting (by simp [hstage]) (by simp [hstage])
        have hn : 1 ≤ s.idleTicks.toNat := by omega
        rw [hbefore, Option.getD_none] at hl
        exact ⟨_, hn, hl ▸ IdleLoop.good_create hn⟩
      | some k =>
        rw [hbefore, Option.getD_some] at hl
        exact h.good loop l (hl ▸ hbefore)
    · exact h.good loop l ((Function.update_of_ne hloop _ _).symm.trans hl)
  timers loop hloop := (isSome_setBuckets _ loop).mpr (.inr (h.timers loop hloop))
  waiting := h.waiting

theorem Inv.returned (h : Inv s) {inBase : Bool} {i : ℕ} (hstage : s.stage = .insert inBase i)
    (hi : s.loops ≤ i) : Inv { s with stage := .returned } where
  holds := h.holds
  tick := h.tick
  inserting _ hreturned := absurd rfl hreturned
  inserted _ _ heq := by cases heq
  filled loop hloop := by
    refine (h.filled loop hloop).trans ?_
    rw [hstage]
    exact ⟨fun hpast => ⟨hpast.1, trivial⟩, fun hpast => ⟨hpast.1, Nat.lt_of_lt_of_le hloop hi⟩⟩
  good := h.good
  timers := h.timers
  waiting := h.waiting

theorem Inv.runEvery (h : Inv s) {inBase : Bool} {i : ℕ} (hstage : s.stage = .runEvery inBase i) :
    Inv { s with
      timers := Function.update s.timers i true
      stage := .insert inBase (i + 1) } where
  holds := h.holds
  tick := h.tick
  inserting _ _ := h.inserting (by simp [hstage]) (by simp [hstage])
  inserted _ _ heq := by cases heq
  filled loop hloop := by
    refine (h.filled loop hloop).trans ?_
    rw [hstage]
    exact and_congr_right fun _ => Nat.lt_succ_iff.symm
  good := h.good
  timers loop hloop := by
    by_cases heq : loop = i
    · exact heq ▸ h.inserted inBase i hstage
    · exact h.timers loop ((Function.update_of_ne heq _ _).symm.trans hloop)
  waiting := h.waiting

theorem Inv.onAdmitted (h : Inv s) {loop c : ℕ} {f : IdleLoop → Option IdleLoop} {t : HttpStart}
    (hf : ∀ n l, IdleLoop.Good n l → l.conn c = .working → c < l.created →
      ∃ t, f l = some t ∧ IdleLoop.Good n t)
    (hnext : s.onAdmitted loop c f = some t) : Inv t := by
  obtain ⟨l, hl, hnext⟩ := Option.bind_eq_some_iff.mp hnext
  rw [Option.ite_none_right_eq_some, Option.some.injEq] at hnext
  obtain ⟨⟨hcreated, hworking⟩, rfl⟩ := hnext
  obtain ⟨n, hn, hgood⟩ := h.good loop l hl
  obtain ⟨u, hu, hkept⟩ := hf n l hgood hworking hcreated
  have hfind : s.find loop f = s.setBuckets loop u := by simp [HttpStart.find, hl, hu]
  exact hfind ▸ h.setBuckets (by simp [hl]) hn hkept

theorem Inv.act (h : Inv s) {a : Act} {t : HttpStart} (hready : s.Ready a)
    (hact : s.act a = some t) : Inv t := by
  cases a with
  | start inBase =>
    simp only [HttpStart.act, Option.ite_none_right_eq_some, Option.some.injEq] at hact
    exact hact.2 ▸ h.start hact.1 inBase
  | enableListen =>
    simp only [HttpStart.act, Option.ite_none_right_eq_some, Option.some.injEq] at hact
    exact hact.2 ▸ { h with }
  | insert =>
    simp only [HttpStart.act] at hact
    split at hact
    · rename_i inBase i hstage
      split at hact
      · rename_i hi
        rw [Option.some.injEq] at hact
        exact hact ▸ h.insert hstage hi
      · rename_i hi
        rw [Option.some.injEq] at hact
        exact hact ▸ h.returned hstage (Nat.le_of_not_lt hi)
    · cases hact
  | runEvery =>
    simp only [HttpStart.act] at hact
    split at hact
    · rename_i inBase i hstage
      rw [Option.some.injEq] at hact
      exact hact ▸ h.runEvery hstage
    · cases hact
  | accept loop =>
    simp only [HttpStart.act, Option.ite_none_right_eq_some, Option.some.injEq] at hact
    refine hact.2 ▸ h.setWaiting fun i hi => ?_
    by_cases heq : i = loop
    · exact heq ▸ hact.1.2.2
    · exact h.waiting i (by simpa [heq] using hi)
  | onConnection loop admitted =>
    simp only [HttpStart.act, Option.ite_none_right_eq_some, Option.some.injEq] at hact
    obtain ⟨hwaiting, rfl⟩ := hact
    have hless : Inv { s with
        waiting := Function.update s.waiting loop (s.waiting loop - 1) } := by
      refine h.setWaiting fun i hi => ?_
      by_cases heq : i = loop
      · exact heq ▸ h.waiting loop hwaiting
      · exact h.waiting i (by simpa [heq] using hi)
    cases admitted with
    | false => exact hless
    | true =>
      refine hless.find ((h.ready_iff (h.waiting loop hwaiting)).mp hready) fun n l hl => ?_
      obtain ⟨t, ht, hturns⟩ := hl.onConnection
      exact ⟨t, ht, hturns.good⟩
  | onMessage loop c connected =>
    simp only [HttpStart.act] at hact
    refine h.onAdmitted (fun n l hl _ _ => ?_) hact
    obtain ⟨t, ht, hturns⟩ := hl.onMessage c connected
    exact ⟨t, ht, hturns.good⟩
  | onTimer loop =>
    simp only [HttpStart.act, Option.ite_none_right_eq_some, Option.some.injEq] at hact
    obtain ⟨htimer, rfl⟩ := hact
    refine h.find (h.timers loop htimer) fun n l hl => ?_
    obtain ⟨t, ht, hturns⟩ := hl.onTimer
    exact ⟨t, ht, hturns.good⟩
  | onClose loop c =>
    simp only [HttpStart.act] at hact
    refine h.onAdmitted (fun n l hl hworking hcreated => ?_) hact
    have hclose : l.next (.onClose c) = some _ := if_pos ⟨hcreated, hworking⟩
    exact ⟨_, hclose, (hl.next hclose).good⟩
  | release loop c =>
    simp only [HttpStart.act] at hact
    obtain ⟨l, hl, hact⟩ := Option.bind_eq_some_iff.mp hact
    obtain ⟨l', hl', rfl⟩ := Option.map_eq_some_iff.mp hact
    obtain ⟨n, hn, hgood⟩ := h.good loop l hl
    exact h.setBuckets (by simp [hl]) hn (hgood.next hl').good

/-- A connection that is admitted too early does not find its buckets. -/
theorem Inv.act_fails (h : Inv s) {a : Act} {t : HttpStart} (hready : ¬s.Ready a)
    (hact : s.act a = some t) : t.failed = true := by
  cases a with
  | onConnection loop admitted =>
    cases admitted with
    | false => exact absurd trivial hready
    | true =>
      simp only [HttpStart.act, Option.ite_none_right_eq_some, Option.some.injEq] at hact
      obtain ⟨hwaiting, rfl⟩ := hact
      exact find_fails _ fun hsome => hready ((h.ready_iff (h.waiting loop hwaiting)).mpr hsome)
  | _ => exact absurd trivial hready

theorem Inv.act_of_next (h : Inv s) {a : Act} {t : HttpStart} (hnext : s.next a = some t) :
    s.act a = some t := by simpa [HttpStart.next, h.holds] using hnext

theorem Inv.next (h : Inv s) {a : Act} {t : HttpStart} (hready : s.Ready a)
    (hnext : s.next a = some t) : Inv t :=
  h.act hready (h.act_of_next hnext)

theorem Inv.next_holds_iff (h : Inv s) {a : Act} {t : HttpStart} (hnext : s.next a = some t) :
    t.failed = false ↔ s.Ready a := by
  have hact := h.act_of_next hnext
  constructor
  · intro hholds
    by_contra hready
    rw [h.act_fails hready hact] at hholds
    cases hholds
  · intro hready
    exact (h.act hready hact).holds

end

/-- The bucket lists are always found in runs where no connection is admitted too
early, and a connection that is breaks the next step. -/
theorem buckets_found (tickTime keepAliveTimeOut : Int) (htick : 0 < tickTime) (loops : ℕ)
    (s : HttpStart) (hs : (system tickTime keepAliveTimeOut loops).ReachableWhen Ready s) :
    s.failed = false ∧ ∀ a t, s.next a = some t → (t.failed = false ↔ s.Ready a) := by
  have h : Inv s := Machine.ReachableWhen.invariant (inv_init htick keepAliveTimeOut loops)
    (fun _ _ _ _ hready h hnext => h.next hready hnext) hs
  exact ⟨h.holds, fun a t hnext => h.next_holds_iff hnext⟩

/-- `Start` on a thread of its own gets to the second loop after the first connection. -/
theorem buckets_found_two :
    ∃ s, (system 2 10 2).ReachableWhen Ready s ∧ s.timers 1 = true ∧
      s.failed = false ∧ ∀ a t, s.next a = some t → (t.failed = false ↔ s.Ready a) := by
  obtain ⟨s, hs, htimer⟩ := Machine.exists_reachableWhen_of_run (M := system 2 10 2) Ready
    [.start false, .enableListen, .accept 0, .insert, .onConnection 0 true, .runEvery,
      .onMessage 0 0 true, .insert, .runEvery, .insert, .onTimer 1]
    (fun s => s.timers 1 = true) (by decide +kernel)
  exact ⟨s, hs, htimer, buckets_found 2 10 (by decide) 2 s hs⟩

/-- No timeout is set: the first connection finds no buckets. -/
theorem not_buckets_found_noTimeout : ∃ s, (system 2 0 1).Reachable s ∧ s.failed = true :=
  Machine.exists_reachable_of_run (M := system 2 0 1)
    [.start true, .accept 0, .onConnection 0 true] (fun s => s.failed = true) (by decide +kernel)

/-- In a run with a timeout where `Start` is called on the thread of the base loop. -/
structure InBase (s : HttpStart) : Prop where
  ticks : s.tickTime ≤ s.keepAliveTimeOut
  queued : s.listenQueued = false
  stage : s.stage.holdsBase = true ∨ s.stage = .returned ∨
    s.stage = .before ∧ s.listening = false
  waiting : ∀ loop, 0 < s.waiting loop → s.stage = .returned

theorem InBase.find {s : HttpStart} (h : InBase s) (loop : ℕ) (f : IdleLoop → Option IdleLoop) :
    InBase (s.find loop f) := by
  unfold HttpStart.find
  split
  · exact { h with }
  · exact { h with }

theorem InBase.onAdmitted {s t : HttpStart} (h : InBase s) {loop c : ℕ}
    {f : IdleLoop → Option IdleLoop} (hact : s.onAdmitted loop c f = some t) : InBase t := by
  obtain ⟨l, -, hact⟩ := Option.bind_eq_some_iff.mp hact
  rw [Option.ite_none_right_eq_some, Option.some.injEq] at hact
  exact hact.2 ▸ h.find loop f

theorem InBase.act {s t : HttpStart} (h : InBase s) {a : Act} (ha : a ≠ .start false)
    (hact : s.act a = some t) : InBase t := by
  cases a with
  | start inBase =>
    simp only [HttpStart.act, Option.ite_none_right_eq_some, Option.some.injEq] at hact
    obtain ⟨hbefore, rfl⟩ := hact
    cases inBase with
    | false => exact absurd rfl ha
    | true =>
      refine ⟨h.ticks, rfl, ?_, fun loop hloop => absurd (h.waiting loop hloop) (by simp [hbefore])⟩
      show StartStage.holdsBase (if 0 < s.idleTicks then .insert true 0 else .returned) = true ∨ _
      split
      · exact .inl rfl
      · exact .inr (.inl rfl)
  | enableListen =>
    simp only [HttpStart.act, h.queued] at hact
    cases hact
  | insert =>
    simp only [HttpStart.act] at hact
    split at hact
    · rename_i inBase i hstage
      have hbusy (loop : ℕ) : ¬0 < s.waiting loop := fun hloop => by
        have := h.waiting loop hloop
        simp [hstage] at this
      have hbase : inBase = true := by simpa [hstage, StartStage.holdsBase] using h.stage
      split at hact
      · rw [Option.some.injEq] at hact
        exact hact ▸ ⟨h.ticks, h.queued, .inl hbase, fun loop hloop => absurd hloop (hbusy loop)⟩
      · rw [Option.some.injEq] at hact
        exact hact ▸ ⟨h.ticks, h.queued, .inr (.inl rfl), fun _ _ => rfl⟩
    · cases hact
  | runEvery =>
    simp only [HttpStart.act] at hact
    split at hact
    · rename_i inBase i hstage
      have hbase : inBase = true := by simpa [hstage, StartStage.holdsBase] using h.stage
      rw [Option.some.injEq] at hact
      refine hact ▸ ⟨h.ticks, h.queued, .inl hbase, fun loop hloop => ?_⟩
      have := h.waiting loop hloop
      simp [hstage] at this
    · cases hact
  | accept loop =>
    simp only [HttpStart.act, Option.ite_none_right_eq_some, Option.some.injEq] at hact
    obtain ⟨⟨hlisten, hfree, -⟩, rfl⟩ := hact
    have hreturned : s.stage = .returned := by
      rcases h.stage with hbase | hreturned | ⟨-, hdeaf⟩
      · rw [hfree] at hbase
        cases hbase
      · exact hreturned
      · rw [hlisten] at hdeaf
        cases hdeaf
    exact ⟨h.ticks, h.queued, h.stage, fun _ _ => hreturned⟩
  | onConnection loop admitted =>
    simp only [HttpStart.act, Option.ite_none_right_eq_some, Option.some.injEq] at hact
    obtain ⟨hwaiting, rfl⟩ := hact
    have hless : InBase { s with
        waiting := Function.update s.waiting loop (s.waiting loop - 1) } :=
      ⟨h.ticks, h.queued, h.stage, fun _ _ => h.waiting loop hwaiting⟩
    split
    · exact hless.find loop _
    · exact hless
  | onMessage loop c connected => exact h.onAdmitted hact
  | onTimer loop =>
    simp only [HttpStart.act, Option.ite_none_right_eq_some, Option.some.injEq] at hact
    exact hact.2 ▸ h.find loop _
  | onClose loop c => exact h.onAdmitted hact
  | release loop c =>
    obtain ⟨l, -, hact⟩ := Option.bind_eq_some_iff.mp hact
    obtain ⟨l', -, rfl⟩ := Option.map_eq_some_iff.mp hact
    exact { h with }

theorem InBase.ready {s t : HttpStart} (h : InBase s) {a : Act} (hact : s.act a = some t) :
    s.Ready a := by
  cases a with
  | onConnection loop admitted =>
    cases admitted with
    | false => trivial
    | true =>
      simp only [HttpStart.act, Option.ite_none_right_eq_some] at hact
      refine ⟨h.ticks, ?_⟩
      rw [h.waiting loop hact.1]
      trivial
  | _ => trivial

/-- With a timeout of at least one tick, and `Start` called on the base loop's thread,
nothing more is needed. -/
theorem buckets_found_inBase (tickTime keepAliveTimeOut : Int) (htick : 0 < tickTime)
    (hticks : tickTime ≤ keepAliveTimeOut) (loops : ℕ) (s : HttpStart)
    (hs : (system tickTime keepAliveTimeOut loops).ReachableWhen (fun _ a => a ≠ .start false) s) :
    s.failed = false := by
  have hinit : Inv (system tickTime keepAliveTimeOut loops).init ∧
      InBase (system tickTime keepAliveTimeOut loops).init := by
    refine ⟨inv_init htick keepAliveTimeOut loops, hticks, rfl, .inr (.inr ⟨rfl, rfl⟩),
      fun _ hloop => ?_⟩
    cases hloop
  have h : Inv s ∧ InBase s := by
    refine Machine.ReachableWhen.invariant (P := fun s => Inv s ∧ InBase s) hinit
      (fun s a t _ ha h hnext => ?_) hs
    have hact := h.1.act_of_next hnext
    exact ⟨h.1.act (h.2.ready hact) hact, h.2.act ha hact⟩
  exact h.1.holds

end HttpStart

end Voyager
