import Mathlib.Data.List.Basic

/-!
Maps kept as association lists in ascending order of their keys, as
`std::map` iterates over them.
-/
namespace Voyager.Lib.OrderedMap

variable {α β : Type*} [BEq α] [LT α] [DecidableLT α]

/-- `m[k] = v` -/
def insert (k : α) (v : β) : List (α × β) → List (α × β)
  | [] => [(k, v)]
  | (k', v') :: rest =>
    if k == k' then (k, v) :: rest
    else if k < k' then (k, v) :: (k', v') :: rest
    else (k', v') :: insert k v rest

theorem mem_insert {k : α} {v : β} {m : List (α × β)} {e : α × β} (h : e ∈ insert k v m) :
    e = (k, v) ∨ e ∈ m := by
  induction m with
  | nil => exact .inl (by simpa [insert] using h)
  | cons e' rest ih =>
    unfold insert at h
    split_ifs at h with hk hlt
    · rcases List.mem_cons.mp h with rfl | hrest
      · exact .inl rfl
      · exact .inr (by simp [hrest])
    · exact List.mem_cons.mp h
    · rcases List.mem_cons.mp h with rfl | hrest
      · exact .inr (by simp)
      · rcases ih hrest with rfl | hmem
        · exact .inl rfl
        · exact .inr (by simp [hmem])

/-- `m.erase(k)` -/
def erase (k : α) (m : List (α × β)) : List (α × β) := m.filter (!k == ·.1)

/-- `m[k] = v` for one pair after another. -/
def insertAll (m es : List (α × β)) : List (α × β) := es.foldl (fun m e => insert e.1 e.2 m) m

theorem mem_insertAll {m es : List (α × β)} {e : α × β} (h : e ∈ insertAll m es) :
    e ∈ m ∨ e ∈ es := by
  induction es generalizing m with
  | nil => exact .inl h
  | cons e' es ih =>
    rcases ih h with hm | hes
    · rcases mem_insert hm with rfl | hm
      · exact .inr (by simp)
      · exact .inl hm
    · exact .inr (by simp [hes])

variable [LawfulBEq α]

@[simp] theorem lookup_insert_self (k : α) (v : β) (m : List (α × β)) :
    (insert k v m).lookup k = some v := by
  induction m with
  | nil => simp [insert]
  | cons e rest ih =>
    obtain ⟨k', v'⟩ := e
    unfold insert
    by_cases hk : k = k'
    · simp [hk]
    · have hne : (k == k') = false := by simpa using hk
      by_cases hlt : k < k'
      · simp [hne, hlt]
      · simp [hne, hlt, List.lookup_cons, ih]

theorem lookup_insert_of_ne {k k₀ : α} (hne : k₀ ≠ k) (v : β) (m : List (α × β)) :
    (insert k v m).lookup k₀ = m.lookup k₀ := by
  have hb : (k₀ == k) = false := by simpa using hne
  induction m with
  | nil => simp [insert, List.lookup_cons, hb]
  | cons e rest ih =>
    obtain ⟨k', v'⟩ := e
    unfold insert
    by_cases hk : k = k'
    · subst hk
      simp [List.lookup_cons, hb]
    · have hne' : (k == k') = false := by simpa using hk
      by_cases hlt : k < k'
      · simp [hne', hlt, List.lookup_cons, hb]
      · simp [hne', hlt, List.lookup_cons, ih]

omit [LT α] [DecidableLT α] in
@[simp] theorem lookup_erase_self (k : α) (m : List (α × β)) : (erase k m).lookup k = none := by
  simp [erase, List.lookup_eq_none_iff]

omit [LT α] [DecidableLT α] in
theorem lookup_erase_of_ne {k k₀ : α} (hne : k₀ ≠ k) (m : List (α × β)) :
    (erase k m).lookup k₀ = m.lookup k₀ := by
  induction m with
  | nil => rfl
  | cons e rest ih =>
    obtain ⟨k', v'⟩ := e
    rw [erase] at ih ⊢
    by_cases hk : k = k'
    · subst hk
      have hb : (k₀ == k) = false := by simpa using hne
      simpa [List.lookup_cons, hb] using ih
    · have hb : (k == k') = false := by simpa using hk
      simp [hb, List.lookup_cons, ih]

/-- A key behind all others. -/
theorem insert_of_forall_lt [Std.Asymm (fun a b : α => a < b)] {k : α} {m : List (α × β)}
    (h : ∀ e ∈ m, e.1 < k) (v : β) : insert k v m = m ++ [(k, v)] := by
  induction m with
  | nil => rfl
  | cons e rest ih =>
    obtain ⟨k', v'⟩ := e
    have hlt : k' < k := h (k', v') (by simp)
    have hnot : ¬ k < k' := Std.Asymm.asymm _ _ hlt
    have hne : (k == k') = false := by
      rw [beq_eq_false_iff_ne]
      rintro rfl
      exact hnot hlt
    rw [insert, if_neg (by simp [hne]), if_neg hnot, ih fun e he => h e (by simp [he])]
    rfl

/-- Pairs in the order of their keys are appended. -/
theorem insertAll_sorted [Std.Asymm (fun a b : α => a < b)] {m es : List (α × β)}
    (hes : (es.map Prod.fst).Pairwise (· < ·)) (h : ∀ e ∈ m, ∀ e' ∈ es, e.1 < e'.1) :
    insertAll m es = m ++ es := by
  induction es generalizing m with
  | nil => exact (List.append_nil m).symm
  | cons e es ih =>
    rw [List.map_cons, List.pairwise_cons] at hes
    have hlast : insert e.1 e.2 m = m ++ [e] :=
      insert_of_forall_lt (fun e' he' => h e' he' e (by simp)) e.2
    have hnext : ∀ e' ∈ m ++ [e], ∀ e'' ∈ es, e'.1 < e''.1 := by
      intro e' he' e'' he''
      rcases List.mem_append.mp he' with hmem | hmem
      · exact h e' hmem e'' (by simp [he''])
      · rw [List.mem_singleton.mp hmem]
        exact hes.1 e''.1 (List.mem_map.mpr ⟨e'', he'', rfl⟩)
    have hrest : insertAll (m ++ [e]) es = m ++ [e] ++ es := ih hes.2 hnext
    rw [insertAll, List.foldl_cons, hlast]
    rw [insertAll] at hrest
    rw [hrest, List.append_assoc]
    rfl

/-- The order of the keys is kept. -/
theorem pairwise_insert [Std.Trichotomous (fun a b : α => a < b)]
    [Trans (fun a b : α => a < b) (fun a b : α => a < b) (fun a b : α => a < b)] (k : α) (v : β)
    {m : List (α × β)} (h : (m.map Prod.fst).Pairwise (· < ·)) :
    ((insert k v m).map Prod.fst).Pairwise (· < ·) := by
  induction m with
  | nil => simp [insert]
  | cons e rest ih =>
    obtain ⟨k', v'⟩ := e
    rw [List.map_cons, List.pairwise_cons] at h
    obtain ⟨hhead, hrest⟩ := h
    unfold insert
    split_ifs with hk hlt
    · rw [LawfulBEq.eq_of_beq hk, List.map_cons, List.pairwise_cons]
      exact ⟨hhead, hrest⟩
    · rw [List.map_cons, List.map_cons, List.pairwise_cons, List.pairwise_cons]
      refine ⟨?_, hhead, hrest⟩
      intro x hx
      rcases List.mem_cons.mp hx with rfl | hx
      · exact hlt
      · exact Trans.trans hlt (hhead x hx)
    · have hbehind : k' < k := by
        by_contra hnot
        exact hk (beq_iff_eq.mpr (Std.Trichotomous.trichotomous k k' hlt hnot))
      rw [List.map_cons, List.pairwise_cons]
      refine ⟨?_, ih hrest⟩
      intro x hx
      obtain ⟨e, he, rfl⟩ := List.mem_map.mp hx
      rcases mem_insert he with rfl | hmem
      · exact hbehind
      · exact hhead e.1 (List.mem_map.mpr ⟨e, hmem, rfl⟩)

end Voyager.Lib.OrderedMap
