import Voyager.EventLoop

/-!
The list of active dispatches that `Poll` hands to `Loop`. The entries are raw
pointers; timer callbacks and the handlers of earlier entries run before each
of them. An entry is handled in its registered state as long as no callback
removes or destroys a dispatch that still waits in the list. The loop itself does
not see to that: deleting a `TcpServer` in a timer breaks it.
-/
namespace Voyager.EventLoop

open Lib.Runs

variable {α δ : Type*}

/-- The step neither removes nor destroys a dispatch that still waits in the
active list of the current iteration. -/
def KeepsPending (s : State α δ) : Label α δ → Prop
  | .removeDispatch d => d ∉ s.pending
  | .destroy d => d ∉ s.pending
  | _ => True

instance [DecidableEq δ] (s : State α δ) (a : Label α δ) : Decidable (KeepsPending s a) :=
  match a with
  | .removeDispatch d => inferInstanceAs (Decidable (d ∉ s.pending))
  | .destroy d => inferInstanceAs (Decidable (d ∉ s.pending))
  | .enter | .leave | .iterate | .poll _ | .timersDone | .handleEvent _ | .runFuncs | .swap
  | .exec | .funcsDone | .released | .queueInLoop _ | .wakeUp | .exit | .updateDispatch _
  | .threadQueueInLoop _ _ | .threadExit _ | .threadWakeUp _ => .isTrue trivial

/-- `HandleEvent` was called on a dispatch still in the poller, which no callback
since `Poll` had removed or destroyed. -/
def Handled.Valid (e : Handled δ) : Prop := e.registered = true ∧ e.gone = false

instance (e : Handled δ) : Decidable e.Valid := by
  unfold Handled.Valid
  infer_instance

structure ActiveInv (s : State α δ) : Prop where
  pending : ∀ d ∈ s.pending, s.registered d = true ∧ d ∉ s.gone
  handled : ∀ e ∈ s.handled, e.Valid

/-- A step that leaves the poller and the active list alone. -/
theorem ActiveInv.frame {s t : State α δ} (h : ActiveInv s) (hpending : t.pending ⊆ s.pending)
    (hregistered : t.registered = s.registered) (hgone : t.gone = s.gone)
    (hhandled : t.handled = s.handled) : ActiveInv t where
  pending d hd := by
    rw [hregistered, hgone]
    exact h.pending d (hpending hd)
  handled e he := h.handled e (hhandled ▸ he)

variable [DecidableEq δ]

theorem activeInv_create : ActiveInv (State.create : State α δ) where
  pending d h := by cases h
  handled e h := by cases h

theorem ActiveInv.step {s t : State α δ} {a : Label α δ} (h : ActiveInv s)
    (hkeeps : KeepsPending s a) (hstep : Step s a t) : ActiveInv t := by
  cases hstep with
  | enter _ _ => exact h.frame (List.nil_subset _) rfl rfl rfl
  | leave _ _ => exact h.frame (List.nil_subset _) rfl rfl rfl
  | iterate _ _ => exact h.frame (List.nil_subset _) rfl rfl rfl
  | poll ds _ hds => exact ⟨fun d hd => ⟨hds d hd, List.not_mem_nil⟩, h.handled⟩
  | timersDone hphase _ =>
    refine h.frame ?_ rfl rfl rfl
    simp only [State.pending, hphase]
    exact List.Subset.refl _
  | handleEvent d rest reads hphase _ _ ht =>
    have hpending : s.pending = d :: rest := by simp only [State.pending, hphase]
    obtain ⟨hregistered, hgone⟩ := h.pending d (by rw [hpending]; exact List.mem_cons_self)
    rw [ht]
    refine ⟨fun d' hd' => ?_, fun e he => ?_⟩
    · exact h.pending d' (by rw [hpending]; exact List.mem_cons_of_mem d hd')
    · rcases List.mem_append.mp he with hold | hnew
      · exact h.handled e hold
      · rw [List.mem_singleton] at hnew
        subst e
        exact ⟨hregistered, decide_eq_false hgone⟩
  | runFuncs _ _ => exact h.frame (List.nil_subset _) rfl rfl rfl
  | swap _ => exact h.frame (List.nil_subset _) rfl rfl rfl
  | exec _ _ => exact h.frame (List.nil_subset _) rfl rfl rfl
  | funcsDone _ _ => exact h.frame (List.nil_subset _) rfl rfl rfl
  | released _ _ => exact h.frame (List.nil_subset _) rfl rfl rfl
  | queueInLoop f _ _ => exact h.frame (List.Subset.refl _) rfl rfl rfl
  | wakeUp _ => exact h.frame (List.Subset.refl _) rfl rfl rfl
  | exit _ _ => exact h.frame (List.Subset.refl _) rfl rfl rfl
  | updateDispatch d _ _ =>
    refine ⟨fun d' hd' => ?_, h.handled⟩
    obtain ⟨hregistered, hgone⟩ := h.pending d' hd'
    refine ⟨?_, hgone⟩
    by_cases heq : d' = d
    · simp [State.updateDispatch, heq]
    · simpa [State.updateDispatch, heq] using hregistered
  | removeDispatch d _ _ =>
    refine ⟨fun d' hd' => ?_, h.handled⟩
    obtain ⟨hregistered, hgone⟩ := h.pending d' hd'
    have hne : d' ≠ d := by
      rintro rfl
      exact hkeeps hd'
    refine ⟨?_, ?_⟩
    · simpa [State.removeDispatch, hne] using hregistered
    · simpa [State.removeDispatch, hne] using hgone
  | destroy d _ _ =>
    refine ⟨fun d' hd' => ?_, h.handled⟩
    obtain ⟨hregistered, hgone⟩ := h.pending d' hd'
    have hne : d' ≠ d := by
      rintro rfl
      exact hkeeps hd'
    refine ⟨hregistered, ?_⟩
    simpa [State.destroy, hne] using hgone
  | threadQueueInLoop i f _ => exact h.frame (List.Subset.refl _) rfl rfl rfl
  | threadExit i _ => exact h.frame (List.Subset.refl _) rfl rfl rfl
  | threadWakeUp i _ => exact h.frame (List.Subset.refl _) rfl rfl rfl

/-- In every run whose callbacks leave the rest of the active list alone, each
dispatch is handled while registered. -/
theorem handled_valid_of_keepsPending (s : State α δ)
    (hs : (machine α δ).ReachableWhen KeepsPending s) : ∀ e ∈ s.handled, e.Valid := by
  have hinv : ActiveInv s := Machine.ReachableWhen.invariant activeInv_create
    (fun _ _ _ _ hok h ha => h.step hok (step_of_next ha)) hs
  exact hinv.handled

/-- `TcpAcceptor::EnableListen` and `TcpAcceptor::~TcpAcceptor`, as far as the
event loop sees them. -/
def enableListen (a : δ) : List (Label α δ) := [.updateDispatch (.owned a)]

def destroyAcceptor (a : δ) : List (Label α δ) :=
  [.updateDispatch (.owned a), .removeDispatch (.owned a), .destroy (.owned a)]

/-- Two acceptors become readable at once, the handler of the first one leaves
the other alone. -/
theorem handled_valid_of_keepsPending_two :
    ∃ s, (machine ℕ ℕ).ReachableWhen KeepsPending s ∧ s.handled.length = 2 ∧
      ∀ e ∈ s.handled, e.Valid := by
  obtain ⟨s, hs, hlen⟩ := Machine.exists_reachableWhen_of_run (M := machine ℕ ℕ) KeepsPending
    (enableListen 0 ++ enableListen 1 ++ [Label.enter, .iterate, .poll [.owned 0, .owned 1],
      .timersDone, .handleEvent true] ++ destroyAcceptor 0 ++ [.handleEvent true])
    (fun s => s.handled.length = 2) (by decide)
  exact ⟨s, hs, hlen, handled_valid_of_keepsPending s hs⟩

/-- `Poll` reports the listening socket; a timer callback of the same iteration
deletes the server; the loop then handles the destroyed dispatch. -/
theorem not_handled_valid :
    ¬ ∀ s : State ℕ ℕ, (machine ℕ ℕ).Reachable s → ∀ e ∈ s.handled, e.Valid := by
  intro h
  obtain ⟨s, hs, e, he, hbad⟩ := Machine.exists_reachable_of_run (M := machine ℕ ℕ)
    (enableListen 0 ++ [Label.enter, .iterate, .poll [.owned 0]] ++ destroyAcceptor 0 ++
      [.timersDone, .handleEvent true])
    (fun s => ∃ e ∈ s.handled, ¬ e.Valid) (by decide)
  exact hbad (h s hs e he)

end Voyager.EventLoop
