import Mathlib.Data.List.Induction

/-!
A queue that is served at given times, one item each: what is left of it at the end of
a sequence of arrivals and services, in terms of the last stretches of the sequence.
-/
namespace Voyager.Lib.Backlog

variable {ι : Type*}

inductive Event
  | arrive
  | serve
deriving DecidableEq, Repr

/-- A service of an empty queue is lost. -/
def update (b : ℕ) : Option Event → ℕ
  | some .arrive => b + 1
  | some .serve => b - 1
  | none => b

variable (kind : ι → Option Event)

def backlog (l : List ι) : ℕ := l.foldl (fun b a => update b (kind a)) 0

def arrivals (l : List ι) : ℕ := l.countP fun a => kind a = some .arrive

def services (l : List ι) : ℕ := l.countP fun a => kind a = some .serve

@[simp]
theorem backlog_nil : backlog kind [] = 0 := rfl

theorem backlog_concat (l : List ι) (a : ι) :
    backlog kind (l ++ [a]) = update (backlog kind l) (kind a) := by
  simp [backlog]

@[simp]
theorem arrivals_concat (l : List ι) (a : ι) :
    arrivals kind (l ++ [a]) = arrivals kind l + if kind a = some .arrive then 1 else 0 := by
  simp [arrivals, List.countP_append, List.countP_cons]

@[simp]
theorem services_concat (l : List ι) (a : ι) :
    services kind (l ++ [a]) = services kind l + if kind a = some .serve then 1 else 0 := by
  simp [services, List.countP_append, List.countP_cons]

/-- The last stretches of a sequence with one more event are the empty one and those
that end in the event. -/
theorem exists_stretch_concat {l : List ι} {a : ι} {p : List ι → Prop} :
    (∃ pre suf, l ++ [a] = pre ++ suf ∧ p suf) ↔
      p [] ∨ ∃ pre suf, l = pre ++ suf ∧ p (suf ++ [a]) := by
  constructor
  · rintro ⟨pre, suf, heq, hp⟩
    rcases List.eq_nil_or_concat suf with rfl | ⟨suf', b, rfl⟩
    · exact .inl hp
    · rw [List.concat_eq_append, ← List.append_assoc] at heq
      obtain ⟨hl, hab⟩ := List.append_inj' heq rfl
      rw [List.cons.injEq] at hab
      rw [List.concat_eq_append, ← hab.1] at hp
      exact .inr ⟨pre, suf', hl, hp⟩
  · rintro (hp | ⟨pre, suf, rfl, hp⟩)
    · exact ⟨l ++ [a], [], (List.append_nil _).symm, hp⟩
    · exact ⟨pre, suf ++ [a], List.append_assoc _ _ _, hp⟩

/-- At least `k` items are left exactly if in some last stretch that many more arrived
than could be served. -/
theorem le_backlog_iff (l : List ι) (k : ℕ) :
    k ≤ backlog kind l ↔
      ∃ pre suf, l = pre ++ suf ∧ k + services kind suf ≤ arrivals kind suf := by
  induction l using List.reverseRecOn generalizing k with
  | nil =>
    rw [backlog_nil]
    constructor
    · intro hk
      exact ⟨[], [], rfl, by simpa [services, arrivals] using hk⟩
    · rintro ⟨pre, suf, heq, hle⟩
      obtain ⟨-, rfl⟩ := List.append_eq_nil_iff.mp heq.symm
      simpa [services, arrivals] using hle
  | append_singleton l a ih =>
    have hnil : k + services kind [] ≤ arrivals kind [] ↔ k = 0 := by
      simp [services, arrivals]
    rw [exists_stretch_concat, backlog_concat, hnil]
    simp only [arrivals_concat, services_concat]
    match kind a with
    | none =>
      simp only [update, reduceCtorEq, if_false, Nat.add_zero]
      rw [← ih k]
      omega
    | some .serve =>
      have hshift (suf : List ι) :
          k + (services kind suf + 1) = k + 1 + services kind suf := by omega
      simp only [update, Option.some.injEq, reduceCtorEq, if_false, if_true, Nat.add_zero, hshift]
      rw [← ih (k + 1)]
      omega
    | some .arrive =>
      simp only [update, Option.some.injEq, reduceCtorEq, if_false, if_true, Nat.add_zero]
      cases k with
      | zero => simp
      | succ k =>
        have hshift (suf : List ι) : k + 1 + services kind suf ≤ arrivals kind suf + 1 ↔
            k + services kind suf ≤ arrivals kind suf := by omega
        simp only [hshift]
        rw [← ih k]
        omega

end Voyager.Lib.Backlog
