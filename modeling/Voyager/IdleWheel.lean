import Voyager.Lib.Runs
import Mathlib.Data.Nat.ModEq
import Mathlib.Logic.Function.Basic

/-!
The idle wheel of http/http_server.cc on one loop. Every admitted connection has an
`Entry`, which lives as long as a bucket refers to it, and whose destructor shuts the
connection down. A message adds a reference in the current bucket; each tick moves on
to the next bucket and clears it.
-/
namespace Voyager

open Lib.Runs

/-- The value of `buckets_` for one loop: a `BucketList` and the current slot. A bucket
holds shared pointers to entries, given by the numbers of their connections. -/
structure Wheel where
  buckets : List (List ℕ)
  slot : ℕ
deriving DecidableEq, Repr

namespace Wheel

def create (idleTicks : ℕ) : Wheel := ⟨List.replicate idleTicks [], 0⟩

/-- `UpdateBuckets` for an entry with this index, and the index it has then. `none` is
a throwing `at`. -/
def updateBuckets (w : Wheel) (index : Int) (c : ℕ) : Option (Wheel × Int) :=
  if index ≠ w.slot then
    w.buckets[w.slot]?.map fun b =>
      ({ w with buckets := w.buckets.set w.slot (b ++ [c]) }, (w.slot : Int))
  else some (w, index)

/-- `OnTimer` up to `clear`, and the references that it drops. `none` is a throwing
`at`. -/
def onTimer (w : Wheel) (idleTicks : Int) : Option (Wheel × List ℕ) :=
  let slot := if (w.slot : Int) + 1 = idleTicks then 0 else w.slot + 1
  w.buckets[slot]?.map fun b => (⟨w.buckets.set slot [], slot⟩, b)

def bucket (w : Wheel) (j : ℕ) : List ℕ := w.buckets[j]?.getD []

/-- Some bucket refers to the entry. -/
def Holds (w : Wheel) (c : ℕ) : Prop := ∃ b ∈ w.buckets, c ∈ b

instance (w : Wheel) (c : ℕ) : Decidable (w.Holds c) := by
  unfold Holds
  infer_instance

theorem eq_of_mod_eq {a b n : ℕ} (h : a % n = b % n) (hle : a ≤ b) (hlt : b < a + n) : a = b := by
  have hdvd : n ∣ b - a := (Nat.modEq_iff_dvd' hle).mp h
  have hzero : b - a = 0 := Nat.eq_zero_of_dvd_of_lt hdvd (by omega)
  omega

theorem succ_slot {ticks n : ℕ} (hn : 1 ≤ n) :
    (if ((ticks % n : ℕ) : Int) + 1 = n then 0 else ticks % n + 1) = (ticks + 1) % n := by
  have hlt : ticks % n < n := Nat.mod_lt _ hn
  rw [← Nat.mod_add_mod ticks n 1]
  split
  · rename_i heq
    rw [show ticks % n + 1 = n by omega, Nat.mod_self]
  · rename_i hne
    exact (Nat.mod_eq_of_lt (by omega)).symm

theorem holds_iff (w : Wheel) (c : ℕ) : w.Holds c ↔ ∃ j, c ∈ w.bucket j := by
  constructor
  · rintro ⟨b, hb, hc⟩
    obtain ⟨j, hj⟩ := List.mem_iff_getElem?.mp hb
    exact ⟨j, by simpa [bucket, hj] using hc⟩
  · rintro ⟨j, hc⟩
    cases hb : w.buckets[j]? with
    | none => simp [bucket, hb] at hc
    | some b => exact ⟨b, List.mem_of_getElem? hb, by simpa [bucket, hb] using hc⟩

theorem bucket_set {w : Wheel} {i : ℕ} (hi : i < w.buckets.length) (b : List ℕ) (slot j : ℕ) :
    (⟨w.buckets.set i b, slot⟩ : Wheel).bucket j = if j = i then b else w.bucket j := by
  unfold bucket
  by_cases hj : j = i
  · subst hj
    simp [hi]
  · rw [if_neg hj, List.getElem?_set_ne (Ne.symm hj)]

end Wheel

/-- Of an admitted connection: it has a `Context`, `OnClose` has deleted it, or the
connection itself is gone. -/
inductive ConnLife
  | working
  | closed
  | gone
deriving DecidableEq, Repr

/-- The connections that one loop has admitted, numbered in their order. `entry` is the
index of an `Entry` while it exists and `shutDowns` are the connections that `~Entry`
has shut down. `ticks` counts the calls of `OnTimer`, `refreshed` what it was at the
last `UpdateBuckets` for a connection. -/
structure IdleLoop where
  idleTicks : ℕ
  wheel : Wheel
  created : ℕ
  conn : ℕ → ConnLife
  entry : ℕ → Option Int
  shutDowns : List ℕ
  ticks : ℕ
  refreshed : ℕ → ℕ

namespace IdleLoop

/-- What can happen on the loop. Whether a connection is still connected at the end of
its `OnMessage` is a choice of the label. -/
inductive Act
  | onConnection
  | onMessage (c : ℕ) (connected : Bool)
  | onTimer
  | onClose (c : ℕ)
  | release (c : ℕ)
deriving DecidableEq, Repr

/-- The loop after `UpdateBuckets`, with the new wheel and index. -/
def refresh (s : IdleLoop) (c : ℕ) (w : Wheel) (index : Int) : IdleLoop :=
  { s with
    wheel := w
    entry := Function.update s.entry c (some index)
    refreshed := Function.update s.refreshed c s.ticks }

def updateBuckets (s : IdleLoop) (c : ℕ) : Option IdleLoop :=
  (s.entry c).bind fun index => (s.wheel.updateBuckets index c).map fun (w, index) =>
    s.refresh c w index

/-- `OnConnection` makes an `Entry` for a connection that the monitor admits. -/
def makeEntry (s : IdleLoop) : IdleLoop :=
  { s with
    created := s.created + 1
    conn := Function.update s.conn s.created .working
    entry := Function.update s.entry s.created (some (-1)) }

def onConnection (s : IdleLoop) : Option IdleLoop := s.makeEntry.updateBuckets s.created

/-- The end of `OnMessage`. -/
def onMessage (s : IdleLoop) (c : ℕ) (connected : Bool) : Option IdleLoop :=
  if connected && (s.entry c).isSome then s.updateBuckets c else some s

/-- `~Entry` -/
def destroyEntry (s : IdleLoop) (c : ℕ) : IdleLoop :=
  { s with
    entry := Function.update s.entry c none
    shutDowns := if s.conn c = .gone then s.shutDowns else s.shutDowns ++ [c] }

/-- `clear` drops its references one after the other; the last one destroys the entry. -/
def clear (s : IdleLoop) : List ℕ → IdleLoop
  | [] => s
  | c :: rest => (if c ∈ rest ∨ s.wheel.Holds c then s else s.destroyEntry c).clear rest

def onTimer (s : IdleLoop) : Option IdleLoop :=
  (s.wheel.onTimer s.idleTicks).map fun (w, dropped) =>
    { s with wheel := w, ticks := s.ticks + 1 }.clear dropped

def next (s : IdleLoop) : Act → Option IdleLoop
  | .onConnection => s.onConnection
  | .onMessage c connected =>
    if c < s.created ∧ s.conn c = .working then s.onMessage c connected else none
  | .onTimer => s.onTimer
  | .onClose c =>
    if c < s.created ∧ s.conn c = .working then
      some { s with conn := Function.update s.conn c .closed }
    else none
  | .release c =>
    if c < s.created then some { s with conn := Function.update s.conn c .gone } else none

def create (idleTicks : ℕ) : IdleLoop where
  idleTicks := idleTicks
  wheel := .create idleTicks
  created := 0
  conn _ := .gone
  entry _ := none
  shutDowns := []
  ticks := 0
  refreshed _ := 0

def system (idleTicks : ℕ) : Machine IdleLoop Act := ⟨create idleTicks, next⟩

/-- The entry was put into the bucket of its index at its last refresh. -/
structure Placed (s : IdleLoop) (c : ℕ) (i : Int) : Prop where
  index : i = (s.refreshed c % s.idleTicks : ℕ)
  refreshed_le : s.refreshed c ≤ s.ticks
  lt : s.ticks < s.refreshed c + s.idleTicks
  mem : c ∈ s.wheel.bucket (s.refreshed c % s.idleTicks)

/-- An entry before its first `UpdateBuckets`. -/
def Fresh (s : IdleLoop) (c : ℕ) (i : Int) : Prop := i = -1 ∧ ¬s.wheel.Holds c

/-- A reference in bucket `j` was put there at a tick not after the last refresh, and
less than a whole turn ago. -/
def Recent (s : IdleLoop) (c j : ℕ) : Prop :=
  (s.entry c).isSome ∧
    ∃ t ≤ s.refreshed c, t % s.idleTicks = j ∧ s.ticks < t + s.idleTicks

structure Inv (s : IdleLoop) : Prop where
  pos : 1 ≤ s.idleTicks
  length : s.wheel.buckets.length = s.idleTicks
  slot : s.wheel.slot = s.ticks % s.idleTicks
  nodup : ∀ j, (s.wheel.bucket j).Nodup
  recent : ∀ j, ∀ c ∈ s.wheel.bucket j, s.Recent c j
  placed : ∀ c i, s.entry c = some i → s.Placed c i ∨ s.Fresh c i
  created : ∀ c, (s.entry c).isSome → c < s.created
  expired : ∀ c < s.created, s.entry c = none → s.refreshed c + s.idleTicks ≤ s.ticks
  shutDowns : s.shutDowns.Nodup
  dead : ∀ c ∈ s.shutDowns, c < s.created ∧ s.entry c = none

section

variable {s : IdleLoop}

theorem clear_frame (s : IdleLoop) (refs : List ℕ) :
    ∃ e d, s.clear refs = { s with entry := e, shutDowns := d } := by
  induction refs generalizing s with
  | nil => exact ⟨s.entry, s.shutDowns, rfl⟩
  | cons c rest ih =>
    rw [clear]
    split
    · exact ih s
    · exact ih (s.destroyEntry c)

theorem entry_clear (s : IdleLoop) (refs : List ℕ) (c : ℕ) :
    (s.clear refs).entry c = if c ∈ refs ∧ ¬s.wheel.Holds c then none else s.entry c := by
  induction refs generalizing s with
  | nil => simp [clear]
  | cons c' rest ih =>
    rw [clear, ih]
    by_cases hkeep : c' ∈ rest ∨ s.wheel.Holds c'
    · rw [if_pos hkeep]
      by_cases hc : c = c'
      · subst hc
        simp only [List.mem_cons, true_or, true_and]
        by_cases hholds : s.wheel.Holds c
        · simp [hholds]
        · simp [hkeep.resolve_right hholds]
      · simp [hc]
    · rw [if_neg hkeep]
      rw [not_or] at hkeep
      by_cases hc : c = c'
      · subst hc
        simp [destroyEntry, hkeep.1, hkeep.2]
      · simp [destroyEntry, hc]

theorem shutDowns_clear (s : IdleLoop) {refs : List ℕ} (hnodup : refs.Nodup) :
    (s.clear refs).shutDowns =
      s.shutDowns ++ refs.filter fun c => ¬s.wheel.Holds c ∧ s.conn c ≠ .gone := by
  induction refs generalizing s with
  | nil => simp [clear]
  | cons c rest ih =>
    obtain ⟨hc, hrest⟩ := List.nodup_cons.mp hnodup
    rw [clear, ih _ hrest]
    by_cases hholds : s.wheel.Holds c
    · simp [hholds]
    · simp only [hc, hholds, or_self, if_false, destroyEntry]
      by_cases hgone : s.conn c = .gone
      · simp [hgone]
      · simp [hgone, hholds]

theorem Inv.slot_lt (h : Inv s) : s.wheel.slot < s.wheel.buckets.length := by
  rw [h.slot, h.length]
  exact Nat.mod_lt _ h.pos

theorem Inv.wheel_updateBuckets (h : Inv s) {c : ℕ} {i : Int} (hentry : s.entry c = some i) :
    ∃ w, s.wheel.updateBuckets i c = some (w, (s.wheel.slot : Int)) ∧
      w.slot = s.wheel.slot ∧ w.buckets.length = s.wheel.buckets.length ∧
      (∀ j, (w.bucket j).Nodup) ∧
      ∀ j c', c' ∈ w.bucket j ↔ c' ∈ s.wheel.bucket j ∨ j = s.wheel.slot ∧ c' = c := by
  by_cases hindex : i = s.wheel.slot
  · have hmem : c ∈ s.wheel.bucket s.wheel.slot := by
      rcases h.placed c i hentry with hplaced | ⟨hneg, -⟩
      · have hslot : s.wheel.slot = s.refreshed c % s.idleTicks := by
          have := hplaced.index
          omega
        rw [hslot]
        exact hplaced.mem
      · omega
    refine ⟨s.wheel, by simp [Wheel.updateBuckets, hindex], rfl, rfl, h.nodup, fun j c' => ?_⟩
    refine ⟨.inl, fun hor => hor.elim id ?_⟩
    rintro ⟨rfl, rfl⟩
    exact hmem
  · have hfree : c ∉ s.wheel.bucket s.wheel.slot := by
      intro hmem
      obtain ⟨-, t, hle, hmod, hlt⟩ := h.recent _ c hmem
      rcases h.placed c i hentry with hplaced | ⟨-, hfresh⟩
      · have hnow : t = s.ticks := by
          have hle' := hplaced.refreshed_le
          exact Wheel.eq_of_mod_eq (hmod.trans h.slot) (by omega) hlt
        have hplace := hplaced.refreshed_le
        have heq : s.refreshed c = s.ticks := by omega
        apply hindex
        rw [hplaced.index, heq, h.slot]
      · exact hfresh ((Wheel.holds_iff _ _).mpr ⟨_, hmem⟩)
    have hbucket := Wheel.bucket_set h.slot_lt (s.wheel.bucket s.wheel.slot ++ [c]) s.wheel.slot
    refine ⟨⟨s.wheel.buckets.set s.wheel.slot (s.wheel.bucket s.wheel.slot ++ [c]), s.wheel.slot⟩,
      ?_, rfl, List.length_set, fun j => ?_, fun j c' => ?_⟩
    · simp [Wheel.updateBuckets, hindex, Wheel.bucket, List.getElem?_eq_getElem h.slot_lt]
    · rw [hbucket]
      split
      · exact List.nodup_append.mpr ⟨h.nodup _, List.pairwise_singleton _ c, by
          intro a ha b hb hab
          rw [List.mem_singleton] at hb
          exact hfree (hb ▸ hab ▸ ha)⟩
      · exact h.nodup j
    · rw [hbucket]
      by_cases hj : j = s.wheel.slot
      · simp [hj]
      · simp [hj]

section

variable {w : Wheel} {c c' : ℕ} {i : Int}

@[simp]
theorem entry_refresh_self : (s.refresh c w i).entry c = some i := Function.update_self ..

@[simp]
theorem refreshed_refresh_self : (s.refresh c w i).refreshed c = s.ticks := Function.update_self ..

theorem entry_refresh (hne : c' ≠ c) : (s.refresh c w i).entry c' = s.entry c' :=
  Function.update_of_ne hne ..

theorem refreshed_refresh (hne : c' ≠ c) : (s.refresh c w i).refreshed c' = s.refreshed c' :=
  Function.update_of_ne hne ..

theorem Recent.refresh {j : ℕ} (h : s.Recent c' j) (hle : s.refreshed c' ≤ s.ticks) :
    (s.refresh c w i).Recent c' j := by
  obtain ⟨hsome, t, ht, hmod, hlt⟩ := h
  by_cases heq : c' = c
  · subst heq
    exact ⟨by simp, t, by simpa using Nat.le_trans ht hle, hmod, hlt⟩
  · exact ⟨by rwa [entry_refresh heq], t, by rwa [refreshed_refresh heq], hmod, hlt⟩

theorem Placed.refresh (h : s.Placed c' i) (hne : c' ≠ c) {i' : Int}
    (hmem : ∀ j, c' ∈ s.wheel.bucket j → c' ∈ w.bucket j) : (s.refresh c w i').Placed c' i := by
  have hrefreshed : (s.refresh c w i').refreshed c' = s.refreshed c' := refreshed_refresh hne
  refine ⟨?_, ?_, ?_, ?_⟩ <;> rw [hrefreshed]
  · exact h.index
  · exact h.refreshed_le
  · exact h.lt
  · exact hmem _ h.mem

end

/-- An entry to which a bucket refers has been refreshed. -/
theorem Inv.refreshed_le (h : Inv s) {c j : ℕ} (hc : c ∈ s.wheel.bucket j) :
    s.refreshed c ≤ s.ticks := by
  obtain ⟨hsome, -⟩ := h.recent j c hc
  obtain ⟨i, hentry⟩ := Option.isSome_iff_exists.mp hsome
  rcases h.placed c i hentry with hplaced | ⟨-, hfresh⟩
  · exact hplaced.refreshed_le
  · exact absurd ((Wheel.holds_iff _ _).mpr ⟨j, hc⟩) hfresh

/-- `UpdateBuckets` succeeds and refreshes the entry. -/
theorem Inv.updateBuckets (h : Inv s) {c : ℕ} {i : Int} (hentry : s.entry c = some i) :
    ∃ w : Wheel, s.updateBuckets c = some (s.refresh c w s.wheel.slot) ∧
      Inv (s.refresh c w s.wheel.slot) := by
  obtain ⟨w, hupdate, hslot, hlength, hnodup, hmem⟩ := h.wheel_updateBuckets hentry
  refine ⟨w, by simp [IdleLoop.updateBuckets, hentry, hupdate], ?_⟩
  refine
    { pos := h.pos
      length := hlength.trans h.length
      slot := hslot.trans h.slot
      nodup := hnodup
      recent := fun j c' hc' => ?recent
      placed := fun c' i' hi' => ?placed
      created := fun c' hc' => ?created
      expired := fun c' hc' hnone => ?expired
      shutDowns := h.shutDowns
      dead := fun c' hc' => ?dead }
  case recent =>
    rcases (hmem j c').mp hc' with hbefore | ⟨hj, rfl⟩
    · exact (h.recent j c' hbefore).refresh (h.refreshed_le hbefore)
    · exact ⟨by simp, s.ticks, by simp, by rw [hj, h.slot]; rfl, Nat.lt_add_of_pos_right h.pos⟩
  case placed =>
    by_cases heq : c' = c
    · subst heq
      rw [entry_refresh_self, Option.some.injEq] at hi'
      left
      refine ⟨?_, ?_, ?_, ?_⟩ <;> rw [refreshed_refresh_self]
      · rw [← hi', h.slot]
        rfl
      · exact Nat.le_refl _
      · exact Nat.lt_add_of_pos_right h.pos
      · exact (hmem _ c').mpr (.inr ⟨h.slot.symm, rfl⟩)
    · rw [entry_refresh heq] at hi'
      rcases h.placed c' i' hi' with hplaced | ⟨hneg, hfresh⟩
      · exact .inl (hplaced.refresh heq fun j hj => (hmem j c').mpr (.inl hj))
      · refine .inr ⟨hneg, fun hholds => hfresh ?_⟩
        obtain ⟨j, hj⟩ := (Wheel.holds_iff _ _).mp hholds
        exact (Wheel.holds_iff _ _).mpr ⟨j, by simpa [heq] using (hmem j c').mp hj⟩
  case created =>
    by_cases heq : c' = c
    · exact h.created c' (by rw [heq, hentry, Option.isSome_some])
    · exact h.created c' (by rwa [entry_refresh heq] at hc')
  case expired =>
    have heq : c' ≠ c := by
      intro heq
      rw [heq, entry_refresh_self] at hnone
      cases hnone
    rw [refreshed_refresh heq]
    exact h.expired c' hc' (by rwa [entry_refresh heq] at hnone)
  case dead =>
    obtain ⟨hlt, hnone⟩ := h.dead c' hc'
    have heq : c' ≠ c := by
      intro heq
      rw [heq, hentry] at hnone
      cases hnone
    exact ⟨hlt, by rwa [entry_refresh heq]⟩

/-- The loop when `OnTimer` has moved on, before the references are dropped. -/
def turn (s : IdleLoop) : IdleLoop :=
  { s with
    wheel := ⟨s.wheel.buckets.set ((s.ticks + 1) % s.idleTicks) [], (s.ticks + 1) % s.idleTicks⟩
    ticks := s.ticks + 1 }

theorem Inv.onTimer_eq (h : Inv s) :
    s.onTimer = some (s.turn.clear (s.wheel.bucket ((s.ticks + 1) % s.idleTicks))) := by
  have hlt : (s.ticks + 1) % s.idleTicks < s.wheel.buckets.length := by
    rw [h.length]
    exact Nat.mod_lt _ h.pos
  have hnext : s.wheel.onTimer s.idleTicks =
      some (s.turn.wheel, s.wheel.bucket ((s.ticks + 1) % s.idleTicks)) := by
    unfold Wheel.onTimer
    rw [h.slot, Wheel.succ_slot h.pos]
    dsimp only
    rw [List.getElem?_eq_getElem hlt]
    simp [turn, Wheel.bucket, List.getElem?_eq_getElem hlt]
  rw [IdleLoop.onTimer, hnext]
  rfl

theorem Inv.bucket_turn (h : Inv s) (j : ℕ) :
    s.turn.wheel.bucket j = if j = (s.ticks + 1) % s.idleTicks then [] else s.wheel.bucket j := by
  have hlt : (s.ticks + 1) % s.idleTicks < s.wheel.buckets.length := by
    rw [h.length]
    exact Nat.mod_lt _ h.pos
  exact Wheel.bucket_set hlt _ _ j

/-- A reference that is not in the cleared bucket is younger than a turn. -/
theorem Inv.recent_turn (h : Inv s) {c j : ℕ} (hc : c ∈ s.turn.wheel.bucket j) :
    c ∈ s.wheel.bucket j ∧
      ∃ t ≤ s.refreshed c, t % s.idleTicks = j ∧ s.ticks + 1 < t + s.idleTicks := by
  rw [h.bucket_turn] at hc
  split at hc
  · cases hc
  · rename_i hne
    obtain ⟨-, t, hle, hmod, hlt⟩ := h.recent j c hc
    refine ⟨hc, t, hle, hmod, ?_⟩
    by_contra hold
    have hend : s.ticks + 1 = t + s.idleTicks := by omega
    exact hne (by rw [hend, Nat.add_mod_right, hmod])

/-- The last reference to an entry goes with the tick that ends its turn. -/
theorem Placed.holds_turn (h : Inv s) {c : ℕ} {i : Int} (hplaced : s.Placed c i) :
    s.turn.wheel.Holds c ↔ s.ticks + 1 < s.refreshed c + s.idleTicks := by
  rw [Wheel.holds_iff]
  constructor
  · rintro ⟨j, hj⟩
    obtain ⟨-, t, hle, -, hlt⟩ := h.recent_turn hj
    omega
  · intro hlt
    refine ⟨s.refreshed c % s.idleTicks, ?_⟩
    rw [h.bucket_turn, if_neg]
    · exact hplaced.mem
    · intro hmod
      have hle := hplaced.refreshed_le
      have heq := Wheel.eq_of_mod_eq hmod (by omega) hlt
      omega

/-- `OnTimer` destroys the entries that were refreshed a whole turn ago. -/
theorem Placed.entry_turn (h : Inv s) {c : ℕ} {i : Int} (hplaced : s.Placed c i) :
    (s.turn.clear (s.wheel.bucket ((s.ticks + 1) % s.idleTicks))).entry c =
      if s.ticks + 1 < s.refreshed c + s.idleTicks then s.entry c else none := by
  have hholds := hplaced.holds_turn h
  rw [entry_clear]
  by_cases hlt : s.ticks + 1 < s.refreshed c + s.idleTicks
  · rw [if_pos hlt, if_neg fun hgone => hgone.2 (hholds.mpr hlt)]
    rfl
  · have hend : s.refreshed c + s.idleTicks = s.ticks + 1 := by
      have := hplaced.lt
      omega
    have hmem : c ∈ s.wheel.bucket ((s.ticks + 1) % s.idleTicks) := by
      rw [← hend, Nat.add_mod_right]
      exact hplaced.mem
    rw [if_neg hlt, if_pos ⟨hmem, fun hheld => hlt (hholds.mp hheld)⟩]

theorem Placed.turn (h : Inv s) {c : ℕ} {i : Int} (hplaced : s.Placed c i)
    (hlt : s.ticks + 1 < s.refreshed c + s.idleTicks) : s.turn.Placed c i where
  index := hplaced.index
  refreshed_le := Nat.le_succ_of_le hplaced.refreshed_le
  lt := hlt
  mem := by
    show c ∈ s.turn.wheel.bucket (s.refreshed c % s.idleTicks)
    rw [h.bucket_turn, if_neg]
    · exact hplaced.mem
    · intro hmod
      have hle := hplaced.refreshed_le
      have heq := Wheel.eq_of_mod_eq hmod (by omega) hlt
      omega

theorem Inv.onTimer (h : Inv s) (hplaced : ∀ c i, s.entry c = some i → s.Placed c i) :
    Inv (s.turn.clear (s.wheel.bucket ((s.ticks + 1) % s.idleTicks))) := by
  have hentry (c : ℕ) (i : Int) (hc : s.entry c = some i) := (hplaced c i hc).entry_turn h
  have hshut := shutDowns_clear s.turn (h.nodup ((s.ticks + 1) % s.idleTicks))
  have hsame := entry_clear s.turn (s.wheel.bucket ((s.ticks + 1) % s.idleTicks))
  obtain ⟨e, d, hclear⟩ := clear_frame s.turn (s.wheel.bucket ((s.ticks + 1) % s.idleTicks))
  rw [hclear] at hentry hshut hsame ⊢
  have hnone (c : ℕ) (hc : s.entry c = none) : e c = none := by
    rw [show e c = _ from hsame c]
    split
    · rfl
    · exact hc
  have halive (c : ℕ) (i : Int) (hc : e c = some i) :
      s.entry c = some i ∧ s.ticks + 1 < s.refreshed c + s.idleTicks := by
    cases hbefore : s.entry c with
    | none => rw [hnone c hbefore] at hc; cases hc
    | some i' =>
      rw [show e c = _ from hentry c i' hbefore] at hc
      split at hc
      · rename_i hlt
        exact ⟨hbefore ▸ hc, hlt⟩
      · cases hc
  refine
    { pos := h.pos
      length := ?length
      slot := rfl
      nodup := fun j => ?nodup
      recent := fun j c hc => ?recent
      placed := fun c i hc => ?placed
      created := fun c hc => ?created
      expired := fun c hc hnone => ?expired
      shutDowns := ?shutDowns
      dead := fun c hc => ?dead }
  case length =>
    exact List.length_set.trans h.length
  case nodup =>
    show (s.turn.wheel.bucket j).Nodup
    rw [h.bucket_turn]
    split
    · exact List.nodup_nil
    · exact h.nodup j
  case recent =>
    obtain ⟨hbefore, t, hle, hmod, hlt⟩ := h.recent_turn hc
    obtain ⟨i, hi⟩ := Option.isSome_iff_exists.mp (h.recent j c hbefore).1
    refine ⟨?_, t, hle, hmod, hlt⟩
    have hold : e c = _ := hentry c i hi
    rw [if_pos (by omega), hi] at hold
    simp [hold]
  case placed =>
    obtain ⟨hbefore, hlt⟩ := halive c i hc
    exact .inl { (hplaced c i hbefore).turn h hlt with }
  case created =>
    obtain ⟨i, hi⟩ := Option.isSome_iff_exists.mp hc
    exact h.created c (by rw [(halive c i hi).1, Option.isSome_some])
  case expired =>
    show s.refreshed c + s.idleTicks ≤ s.ticks + 1
    cases hbefore : s.entry c with
    | none => exact Nat.le_succ_of_le (h.expired c hc hbefore)
    | some i =>
      have hold : e c = _ := hentry c i hbefore
      rw [show e c = none from hnone] at hold
      by_contra hlt
      rw [if_pos (by omega), hbefore] at hold
      cases hold
  case shutDowns =>
    rw [show d = _ from hshut]
    refine List.nodup_append.mpr ⟨h.shutDowns, List.Pairwise.filter _ (h.nodup _), ?_⟩
    intro c hc c' hc' heq
    subst heq
    have hsome := (h.recent _ c (List.mem_filter.mp hc').1).1
    rw [(h.dead c hc).2] at hsome
    cases hsome
  case dead =>
    rw [show d = _ from hshut, List.mem_append, List.mem_filter] at hc
    rcases hc with hc | ⟨hmem, hlast⟩
    · exact ⟨(h.dead c hc).1, hnone c (h.dead c hc).2⟩
    · simp only [decide_eq_true_eq] at hlast
      exact ⟨h.created c (h.recent _ c hmem).1, (hsame c).trans (if_pos ⟨hmem, hlast.1⟩)⟩

/-- Between two calls every entry has been refreshed. -/
structure Good (n : ℕ) (s : IdleLoop) : Prop where
  inv : s.Inv
  idleTicks : s.idleTicks = n
  used : ∀ c, s.entry c ≠ some (-1)

variable {n : ℕ}

theorem Good.placed (h : Good n s) (c : ℕ) (i : Int) (hc : s.entry c = some i) : s.Placed c i := by
  refine (h.inv.placed c i hc).resolve_right fun hfresh => h.used c ?_
  rw [hc, hfresh.1]

theorem good_create (hn : 1 ≤ n) : Good n (create n) where
  inv := by
    have hbucket (j : ℕ) : (create n).wheel.bucket j = [] := by
      show (List.replicate n ([] : List ℕ))[j]?.getD [] = []
      cases hb : (List.replicate n ([] : List ℕ))[j]? with
      | none => rfl
      | some b => exact List.eq_of_mem_replicate (List.mem_of_getElem? hb)
    refine
      { pos := hn
        length := List.length_replicate
        slot := (Nat.zero_mod n).symm
        nodup := fun j => ?nodup
        recent := fun j c hc => ?recent
        placed := fun c i hc => ?placed
        created := fun c hc => ?created
        expired := fun c hc => ?expired
        shutDowns := List.nodup_nil
        dead := fun c hc => ?dead }
    case nodup =>
      rw [hbucket j]
      exact List.nodup_nil
    case recent =>
      rw [hbucket j] at hc
      cases hc
    case placed =>
      cases hc
    case created =>
      cases hc
    case expired =>
      cases hc
    case dead =>
      cases hc
  idleTicks := rfl
  used c hc := by cases hc

theorem Good.refresh {w : Wheel} {c : ℕ} (hused : ∀ c' ≠ c, s.entry c' ≠ some (-1))
    (hticks : s.idleTicks = n) (h : Inv (s.refresh c w s.wheel.slot)) :
    Good n (s.refresh c w s.wheel.slot) where
  inv := h
  idleTicks := hticks
  used c' hc' := by
    by_cases heq : c' = c
    · rw [heq, entry_refresh_self, Option.some.injEq] at hc'
      omega
    · rw [entry_refresh heq] at hc'
      exact hused c' heq hc'

@[simp]
theorem entry_makeEntry_self : s.makeEntry.entry s.created = some (-1) := Function.update_self ..

theorem entry_makeEntry {c : ℕ} (hne : c ≠ s.created) : s.makeEntry.entry c = s.entry c :=
  Function.update_of_ne hne ..

/-- The new `Entry` is not in a bucket yet. -/
theorem Good.makeEntry (h : Good n s) : Inv s.makeEntry := by
  have hnew (c : ℕ) (hc : (s.entry c).isSome) : c ≠ s.created :=
    Nat.ne_of_lt (h.inv.created c hc)
  refine
    { pos := h.inv.pos
      length := h.inv.length
      slot := h.inv.slot
      nodup := h.inv.nodup
      recent := fun j c hc => ?recent
      placed := fun c i hc => ?placed
      created := fun c hc => ?created
      expired := fun c hc hnone => ?expired
      shutDowns := h.inv.shutDowns
      dead := fun c hc => ?dead }
  case recent =>
    obtain ⟨hsome, hrecent⟩ := h.inv.recent j c hc
    exact ⟨by rwa [entry_makeEntry (hnew c hsome)], hrecent⟩
  case placed =>
    by_cases heq : c = s.created
    · right
      rw [heq, entry_makeEntry_self, Option.some.injEq] at hc
      refine ⟨hc.symm, fun hholds => ?_⟩
      obtain ⟨j, hj⟩ := (Wheel.holds_iff _ _).mp hholds
      exact hnew _ (h.inv.recent j _ hj).1 heq
    · rw [entry_makeEntry heq] at hc
      exact .inl { h.placed c i hc with }
  case created =>
    by_cases heq : c = s.created
    · exact heq ▸ Nat.lt_succ_self _
    · rw [entry_makeEntry heq] at hc
      exact Nat.lt_succ_of_lt (h.inv.created c hc)
  case expired =>
    have heq : c ≠ s.created := by
      intro heq
      rw [heq, entry_makeEntry_self] at hnone
      cases hnone
    rw [entry_makeEntry heq] at hnone
    exact h.inv.expired c (Nat.lt_of_le_of_ne (Nat.le_of_lt_succ hc) heq) hnone
  case dead =>
    obtain ⟨hlt, hnone⟩ := h.inv.dead c hc
    exact ⟨Nat.lt_succ_of_lt hlt, by rwa [entry_makeEntry (Nat.ne_of_lt hlt)]⟩

/-- What a step does to the entries that exist. -/
structure Turns (n : ℕ) (s : IdleLoop) (a : Act) (t : IdleLoop) : Prop where
  good : Good n t
  destroyed : ∀ c, (s.entry c).isSome →
    (t.entry c = none ↔ a = .onTimer ∧ s.ticks + 1 = s.refreshed c + n)
  shutDown : ∀ c, (s.entry c).isSome → t.entry c = none →
    (c ∈ t.shutDowns ↔ s.conn c ≠ .gone)

theorem turns_of_keeps {t : IdleLoop} {a : Act} (h : Good n t) (ha : a ≠ .onTimer)
    (hkeeps : ∀ c, (s.entry c).isSome → (t.entry c).isSome) : Turns n s a t where
  good := h
  destroyed c hc := by
    refine ⟨fun hnone => ?_, fun htimer => absurd htimer.1 ha⟩
    rw [← Option.isNone_iff_eq_none, ← Option.not_isSome] at hnone
    simp [hkeeps c hc] at hnone
  shutDown c hc hnone := by
    have hsome := hkeeps c hc
    rw [hnone] at hsome
    cases hsome

theorem Good.onConnection (h : Good n s) :
    ∃ t, s.onConnection = some t ∧ Turns n s .onConnection t := by
  obtain ⟨w, heq, hinv⟩ := h.makeEntry.updateBuckets entry_makeEntry_self
  refine ⟨_, heq, turns_of_keeps ?_ (by intro heq; cases heq) fun c hc => ?_⟩
  · refine Good.refresh (fun c hne hc => ?_) h.idleTicks hinv
    exact h.used c ((entry_makeEntry hne).symm.trans hc)
  · have hne := Nat.ne_of_lt (h.inv.created c hc)
    rwa [entry_refresh hne, entry_makeEntry hne]

theorem Good.onMessage (h : Good n s) (c : ℕ) (connected : Bool) :
    ∃ t, s.onMessage c connected = some t ∧ Turns n s (.onMessage c connected) t := by
  unfold IdleLoop.onMessage
  split
  · rename_i hlock
    obtain ⟨i, hi⟩ := Option.isSome_iff_exists.mp (Bool.and_eq_true_iff.mp hlock).2
    obtain ⟨w, heq, hinv⟩ := h.inv.updateBuckets hi
    refine ⟨_, heq, turns_of_keeps ?_ (by intro heq; cases heq) fun c' hc' => ?_⟩
    · exact Good.refresh (fun c' _ => h.used c') h.idleTicks hinv
    · by_cases hne : c' = c
      · rw [hne, entry_refresh_self, Option.isSome_some]
      · rwa [entry_refresh hne]
  · exact ⟨s, rfl, turns_of_keeps h (by intro heq; cases heq) fun c' hc' => hc'⟩

theorem Good.onTimer (h : Good n s) : ∃ t, s.onTimer = some t ∧ Turns n s .onTimer t := by
  have hinv := h.inv.onTimer h.placed
  have hentry (c : ℕ) (i : Int) (hc : s.entry c = some i) :=
    (h.placed c i hc).entry_turn h.inv
  have hsame := entry_clear s.turn (s.wheel.bucket ((s.ticks + 1) % s.idleTicks))
  have hshut := shutDowns_clear s.turn (h.inv.nodup ((s.ticks + 1) % s.idleTicks))
  have hframe := clear_frame s.turn (s.wheel.bucket ((s.ticks + 1) % s.idleTicks))
  refine ⟨_, h.inv.onTimer_eq, ⟨hinv, ?_, fun c hc => ?_⟩, fun c hc => ?_, fun c hc hnone => ?_⟩
  · obtain ⟨e, d, hclear⟩ := hframe
    rw [hclear]
    exact h.idleTicks
  · rw [hsame] at hc
    split at hc
    · cases hc
    · exact h.used c hc
  · obtain ⟨i, hi⟩ := Option.isSome_iff_exists.mp hc
    have hlt := (h.placed c i hi).lt
    rw [hentry c i hi]
    rw [h.idleTicks] at hlt ⊢
    constructor
    · intro hnone
      refine ⟨rfl, ?_⟩
      by_contra hne
      rw [if_pos (by omega), hi] at hnone
      cases hnone
    · rintro ⟨-, heq⟩
      rw [if_neg (by omega)]
  · rw [hsame] at hnone
    have hlast : c ∈ s.wheel.bucket ((s.ticks + 1) % s.idleTicks) ∧ ¬s.turn.wheel.Holds c := by
      by_contra hkeep
      rw [if_neg hkeep, show s.turn.entry c = s.entry c from rfl] at hnone
      rw [hnone] at hc
      cases hc
    have hbefore : c ∉ s.shutDowns := by
      intro hmem
      rw [(h.inv.dead c hmem).2] at hc
      cases hc
    rw [hshut, List.mem_append, List.mem_filter]
    simp only [hlast.1, hlast.2, not_false_eq_true, true_and, decide_eq_true_eq]
    exact ⟨fun hor => hor.resolve_left hbefore, .inr⟩

theorem Inv.setConn (h : Inv s) (conn : ℕ → ConnLife) : Inv { s with conn := conn } where
  pos := h.pos
  length := h.length
  slot := h.slot
  nodup := h.nodup
  recent := h.recent
  placed c i hc := (h.placed c i hc).imp (fun hplaced => { hplaced with }) id
  created := h.created
  expired := h.expired
  shutDowns := h.shutDowns
  dead := h.dead

theorem Good.next (h : Good n s) {a : Act} {t : IdleLoop} (hnext : s.next a = some t) :
    Turns n s a t := by
  cases a with
  | onConnection =>
    obtain ⟨u, hu, hturns⟩ := h.onConnection
    rw [show s.next .onConnection = some u from hu, Option.some.injEq] at hnext
    exact hnext ▸ hturns
  | onMessage c connected =>
    simp only [IdleLoop.next, Option.ite_none_right_eq_some] at hnext
    obtain ⟨u, hu, hturns⟩ := h.onMessage c connected
    rw [hu, Option.some.injEq] at hnext
    exact hnext.2 ▸ hturns
  | onTimer =>
    obtain ⟨u, hu, hturns⟩ := h.onTimer
    rw [show s.next .onTimer = some u from hu, Option.some.injEq] at hnext
    exact hnext ▸ hturns
  | onClose c =>
    simp only [IdleLoop.next, Option.ite_none_right_eq_some, Option.some.injEq] at hnext
    obtain ⟨-, rfl⟩ := hnext
    exact turns_of_keeps ⟨h.inv.setConn _, h.idleTicks, h.used⟩ (by intro heq; cases heq)
      fun c hc => hc
  | release c =>
    simp only [IdleLoop.next, Option.ite_none_right_eq_some, Option.some.injEq] at hnext
    obtain ⟨-, rfl⟩ := hnext
    exact turns_of_keeps ⟨h.inv.setConn _, h.idleTicks, h.used⟩ (by intro heq; cases heq)
      fun c hc => hc

/-- Of a state: no `at` throws, an entry lives until a whole turn after its last
refresh, and it is in the bucket of its index, in none of them twice. -/
structure Exact (s : IdleLoop) : Prop where
  finds : s.onTimer ≠ none ∧ ∀ c, (s.entry c).isSome → s.updateBuckets c ≠ none
  alive : ∀ c < s.created, (s.entry c).isSome ↔ s.ticks < s.refreshed c + s.idleTicks
  own : ∀ c i, s.entry c = some i → ∃ j : ℕ, i = j ∧ c ∈ s.wheel.bucket j
  once : ∀ b ∈ s.wheel.buckets, b.Nodup

theorem Good.exact (h : Good n s) : Exact s where
  finds := by
    refine ⟨by rw [h.inv.onTimer_eq]; simp, fun c hc => ?_⟩
    obtain ⟨i, hi⟩ := Option.isSome_iff_exists.mp hc
    obtain ⟨w, heq, -⟩ := h.inv.updateBuckets hi
    rw [heq]
    simp
  alive c hc := by
    cases hentry : s.entry c with
    | none => simpa using h.inv.expired c hc hentry
    | some i => simpa using (h.placed c i hentry).lt
  own c i hc := ⟨_, (h.placed c i hc).index, (h.placed c i hc).mem⟩
  once b hb := by
    obtain ⟨j, hj⟩ := List.mem_iff_getElem?.mp hb
    have hnodup := h.inv.nodup j
    rwa [Wheel.bucket, hj, Option.getD_some] at hnodup

end

/-- The idle wheel is exact: an entry is destroyed by the `n`-th `OnTimer` after its last
refresh and by nothing else, and its connection is shut down then if it still exists. -/
theorem idle_wheel_exact (n : ℕ) (hn : 1 ≤ n) (s : IdleLoop) (hs : (system n).Reachable s) :
    Exact s ∧ ∀ a t, s.next a = some t → ∀ c, (s.entry c).isSome →
      (t.entry c = none ↔ a = .onTimer ∧ s.ticks + 1 = s.refreshed c + n) ∧
      (t.entry c = none → (c ∈ t.shutDowns ↔ s.conn c ≠ .gone)) := by
  have h : Good n s := Machine.Reachable.invariant (good_create hn)
    (fun _ _ _ _ h hnext => (h.next hnext).good) hs
  refine ⟨h.exact, fun a t hnext c hc => ?_⟩
  have hturns := h.next hnext
  exact ⟨hturns.destroyed c hc, hturns.shutDown c hc⟩

/-- Two buckets: the message at the first tick keeps the first connection for one tick
more than the second one, which is gone by then. -/
theorem idle_wheel_exact_two :
    ∃ s, (system 2).Reachable s ∧ s.ticks = 2 ∧ s.refreshed 0 = 1 ∧ s.shutDowns = [1] ∧
      Exact s ∧ ∀ a t, s.next a = some t → ∀ c, (s.entry c).isSome →
        (t.entry c = none ↔ a = .onTimer ∧ s.ticks + 1 = s.refreshed c + 2) ∧
        (t.entry c = none → (c ∈ t.shutDowns ↔ s.conn c ≠ .gone)) := by
  obtain ⟨s, hs, hticks, hrefreshed, hshut⟩ := Machine.exists_reachable_of_run (M := system 2)
    [.onConnection, .onConnection, .onTimer, .onMessage 0 true, .onTimer]
    (fun s => s.ticks = 2 ∧ s.refreshed 0 = 1 ∧ s.shutDowns = [1]) (by decide +kernel)
  exact ⟨s, hs, hticks, hrefreshed, hshut, idle_wheel_exact 2 (by decide) s hs⟩

end IdleLoop

end Voyager
