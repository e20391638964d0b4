import Mathlib.Data.List.Induction

/-!
Labelled machines and their finite runs. A label carries every choice that the
machine does not make itself (a result of the environment, the caller's next
operation), so a step is a partial function of state and label. Properties of
all runs are proved through one induction rule, and a concrete run is checked
by evaluating it.
-/
namespace Voyager.Lib.Runs

structure Machine (σ ι : Type*) where
  init : σ
  next : σ → ι → Option σ

namespace Machine

variable {σ ι : Type*}

/-- States at the end of a run, every step of which meets `ok`. -/
inductive ReachableWhen (M : Machine σ ι) (ok : σ → ι → Prop) : σ → Prop
  | init : ReachableWhen M ok M.init
  | step {s t : σ} {a : ι} :
      ReachableWhen M ok s → ok s a → M.next s a = some t → ReachableWhen M ok t

/-- States at the end of any run. -/
def Reachable (M : Machine σ ι) (s : σ) : Prop :=
  M.ReachableWhen (fun _ _ => True) s

theorem Reachable.init (M : Machine σ ι) : M.Reachable M.init := ReachableWhen.init

theorem Reachable.step {M : Machine σ ι} {s t : σ} {a : ι}
    (hs : M.Reachable s) (ha : M.next s a = some t) : M.Reachable t :=
  ReachableWhen.step hs trivial ha

theorem ReachableWhen.mono {M : Machine σ ι} {ok ok' : σ → ι → Prop} {s : σ}
    (hs : M.ReachableWhen ok s) (himp : ∀ s a, ok s a → ok' s a) : M.ReachableWhen ok' s := by
  induction hs with
  | init => exact .init
  | step _ hok ha ih => exact ih.step (himp _ _ hok) ha

theorem ReachableWhen.reachable {M : Machine σ ι} {ok : σ → ι → Prop} {s : σ}
    (hs : M.ReachableWhen ok s) : M.Reachable s :=
  hs.mono fun _ _ _ => trivial

/-- The invariant rule. The step may use that its start is itself reached by
such a run, so an invariant can rest on one proved before. -/
theorem ReachableWhen.invariant {M : Machine σ ι} {ok : σ → ι → Prop} {P : σ → Prop}
    (hinit : P M.init)
    (hstep : ∀ s a t, M.ReachableWhen ok s → ok s a → P s → M.next s a = some t → P t)
    {s : σ} (hs : M.ReachableWhen ok s) : P s := by
  induction hs with
  | init => exact hinit
  | step hs hok ha ih => exact hstep _ _ _ hs hok ih ha

theorem Reachable.invariant {M : Machine σ ι} {P : σ → Prop} (hinit : P M.init)
    (hstep : ∀ s a t, M.Reachable s → P s → M.next s a = some t → P t)
    {s : σ} (hs : M.Reachable s) : P s :=
  ReachableWhen.invariant hinit (fun s a t hs _ => hstep s a t hs) hs

/-- Executes a list of labels; a label that is not enabled ends in `none`. -/
def run (M : Machine σ ι) : σ → List ι → Option σ
  | s, [] => some s
  | s, a :: rest => (M.next s a).bind fun t => M.run t rest

/-- Executes a list of labels, each of which has to meet `ok`. -/
def runWhen (M : Machine σ ι) (ok : σ → ι → Prop) [∀ s a, Decidable (ok s a)] :
    σ → List ι → Option σ
  | s, [] => some s
  | s, a :: rest => if ok s a then (M.next s a).bind fun t => M.runWhen ok t rest else none

theorem ReachableWhen.runWhen {M : Machine σ ι} {ok : σ → ι → Prop}
    [∀ s a, Decidable (ok s a)] {s t : σ} {labels : List ι}
    (hs : M.ReachableWhen ok s) (hrun : M.runWhen ok s labels = some t) :
    M.ReachableWhen ok t := by
  induction labels generalizing s with
  | nil =>
    simp only [Machine.runWhen, Option.some.injEq] at hrun
    exact hrun ▸ hs
  | cons a rest ih =>
    simp only [Machine.runWhen] at hrun
    split at hrun
    · rename_i hok
      obtain ⟨u, hu, hrest⟩ := Option.bind_eq_some_iff.mp hrun
      exact ih (hs.step hok hu) hrest
    · simp at hrun

theorem Reachable.run {M : Machine σ ι} {s t : σ} {labels : List ι}
    (hs : M.Reachable s) (hrun : M.run s labels = some t) : M.Reachable t := by
  induction labels generalizing s with
  | nil =>
    simp only [Machine.run, Option.some.injEq] at hrun
    exact hrun ▸ hs
  | cons a rest ih =>
    obtain ⟨u, hu, hrest⟩ := Option.bind_eq_some_iff.mp hrun
    exact ih (hs.step hu) hrest

theorem run_append (M : Machine σ ι) (s : σ) (labels labels' : List ι) :
    M.run s (labels ++ labels') = (M.run s labels).bind fun t => M.run t labels' := by
  induction labels generalizing s with
  | nil => rfl
  | cons a rest ih =>
    simp only [List.cons_append, Machine.run, Option.bind_assoc]
    exact congrArg _ (funext ih)

/-- The invariant rule for what holds between a state and the labels that led to it. -/
theorem run_invariant {M : Machine σ ι} {P : List ι → σ → Prop} (hinit : P [] M.init)
    (hstep : ∀ labels s a t, P labels s → M.next s a = some t → P (labels ++ [a]) t)
    {labels : List ι} {s : σ} (hrun : M.run M.init labels = some s) : P labels s := by
  induction labels using List.reverseRecOn generalizing s with
  | nil =>
    simp only [Machine.run, Option.some.injEq] at hrun
    exact hrun ▸ hinit
  | append_singleton labels a ih =>
    rw [run_append] at hrun
    obtain ⟨u, hu, hlast⟩ := Option.bind_eq_some_iff.mp hrun
    obtain ⟨t, ht, hs⟩ := Option.bind_eq_some_iff.mp hlast
    simp only [Machine.run, Option.some.injEq] at hs
    exact hs ▸ hstep labels u a t (ih hu) ht

/-- The simulation rule, for runs of labels that all meet `ok`: a step of `M` is
answered by the step of `N` with the same label. -/
theorem run_simulates {τ : Type*} {M : Machine σ ι} {N : Machine τ ι} {ok : ι → Prop}
    {R : σ → τ → Prop}
    (hstep : ∀ s t a s', ok a → R s t → M.next s a = some s' →
      ∃ t', N.next t a = some t' ∧ R s' t')
    {labels : List ι} (hok : ∀ a ∈ labels, ok a) {s s' : σ} {t : τ} (hst : R s t)
    (hrun : M.run s labels = some s') : ∃ t', N.run t labels = some t' ∧ R s' t' := by
  induction labels generalizing s t with
  | nil =>
    simp only [Machine.run, Option.some.injEq] at hrun
    exact ⟨t, rfl, hrun ▸ hst⟩
  | cons a rest ih =>
    obtain ⟨u, hu, hrest⟩ := Option.bind_eq_some_iff.mp hrun
    obtain ⟨v, hv, huv⟩ := hstep s t a u (hok a (by simp)) hst hu
    obtain ⟨t', ht', hst'⟩ := ih (fun b hb => hok b (by simp [hb])) huv hrest
    exact ⟨t', Option.bind_eq_some_iff.mpr ⟨v, hv, ht'⟩, hst'⟩

/-- A concrete run whose last state passes the test `p`. -/
theorem exists_reachable_of_run {M : Machine σ ι} (labels : List ι) (p : σ → Prop)
    [DecidablePred p] (h : (M.run M.init labels).any (fun s => decide (p s)) = true) :
    ∃ s, M.Reachable s ∧ p s := by
  cases hrun : M.run M.init labels with
  | none => simp [hrun] at h
  | some s =>
    rw [hrun, Option.any_some, decide_eq_true_eq] at h
    exact ⟨s, (Reachable.init M).run hrun, h⟩

theorem exists_reachableWhen_of_run {M : Machine σ ι} (ok : σ → ι → Prop)
    [∀ s a, Decidable (ok s a)] (labels : List ι) (p : σ → Prop) [DecidablePred p]
    (h : (M.runWhen ok M.init labels).any (fun s => decide (p s)) = true) :
    ∃ s, M.ReachableWhen ok s ∧ p s := by
  cases hrun : M.runWhen ok M.init labels with
  | none => simp [hrun] at h
  | some s =>
    rw [hrun, Option.any_some, decide_eq_true_eq] at h
    exact ⟨s, ReachableWhen.init.runWhen hrun, h⟩

end Machine

/-! The points of one sequence of calls. -/

section Calls

variable {ι : Type*} {done ops : List ι} {op : ι}

theorem front_of_concat (h : done ++ [op] <+: ops) : done <+: ops :=
  (List.prefix_append done [op]).trans h

theorem mem_of_concat (h : done ++ [op] <+: ops) : op ∈ ops := h.subset (by simp)

/-- What holds at the start and is kept by each call holds at every point. -/
theorem holds_throughout {P : List ι → Prop} (hnil : P [])
    (hcall : ∀ done op, done ++ [op] <+: ops → P done → P (done ++ [op])) (h : done <+: ops) :
    P done := by
  induction done using List.reverseRecOn with
  | nil => exact hnil
  | append_singleton done op ih => exact hcall done op h (ih (front_of_concat h))

end Calls

end Voyager.Lib.Runs
