import Mathlib.Data.List.Basic
import Mathlib.Data.List.TakeWhile
import Mathlib.Algebra.Group.Nat.Defs
import Mathlib.Algebra.Group.Int.Defs

/-!
Functions of the C library on byte strings, in the "C" locale. A string is the
list of its bytes; behind its end the functions see NUL bytes, as they do on
the contents of a `std::string`.
-/
namespace Voyager.Lib.CString

/-- `tolower` -/
def toLower (c : UInt8) : UInt8 := if 65 ≤ c ∧ c ≤ 90 then c + 32 else c

/-- `isspace`: blank, tab, LF, VT, FF and CR. -/
def isSpace (c : UInt8) : Bool := c = 32 ∨ 9 ≤ c ∧ c ≤ 13

/-- `isdigit` -/
def isDigit (c : UInt8) : Bool := 48 ≤ c ∧ c ≤ 57

/-- `strlen` -/
def strlen (s : List UInt8) : ℕ := (s.takeWhile (· ≠ 0)).length

/-- The characters of a string, those in front of its first NUL. -/
def chars (s : List UInt8) : List UInt8 := s.take (strlen s)

/-- Compares at most `n` bytes and stops behind a NUL. -/
def strncasecmp : List UInt8 → List UInt8 → ℕ → Int
  | _, _, 0 => 0
  | a, b, n + 1 =>
    let x := toLower (a.headD 0)
    let y := toLower (b.headD 0)
    if x ≠ y then (x.toNat : Int) - y.toNat
    else if x = 0 then 0
    else strncasecmp a.tail b.tail n

/-- The byte behind the end of `a` is a NUL, so no further one is compared. -/
def strcasecmp (a b : List UInt8) : Int := strncasecmp a b (a.length + 1)

/-- The number that a string of decimal digits stands for. -/
def decimal (digits : List UInt8) : ℕ := digits.foldl (fun n c => 10 * n + (c.toNat - 48)) 0

/-- `strtol` to the base 10: white space, a sign, then digits up to the first other byte.
Of a value outside of `long` it makes the nearest one inside. -/
def strtol (s : List UInt8) : Int :=
  match s.dropWhile isSpace with
  | 45 :: t => max (-(decimal (t.takeWhile isDigit) : Int)) (-2 ^ 63)
  | 43 :: t => min (decimal (t.takeWhile isDigit) : Int) (2 ^ 63 - 1)
  | t => min (decimal (t.takeWhile isDigit) : Int) (2 ^ 63 - 1)

/-- The result of `strtol` as an `int`. The standard leaves a value outside of `int`
undefined; here its low 32 bits are taken, as by an implementation that casts it. -/
def atoi (s : List UInt8) : Int := (strtol s).bmod (2 ^ 32)

theorem length_chars (s : List UInt8) : (chars s).length = strlen s :=
  List.length_take_of_le (List.takeWhile_sublist _).length_le

/-- The value is one of `int`. -/
theorem atoi_bmod (s : List UInt8) : (atoi s).bmod (2 ^ 32) = atoi s := Int.bmod_bmod

/-- A size of any kind that is cast to `int` can grow to the value of `atoi`. -/
theorem exists_size_eq_atoi (s : List UInt8) (n : ℕ) :
    ∃ k, 0 < k ∧ ((n + k : ℕ) : Int).bmod (2 ^ 32) = atoi s := by
  refine ⟨((atoi s - n) % 2 ^ 32).toNat + 2 ^ 32, by omega, ?_⟩
  have hmod : ((n + (((atoi s - n) % 2 ^ 32).toNat + 2 ^ 32) : ℕ) : Int) % ((2 ^ 32 : ℕ) : Int) =
      atoi s % ((2 ^ 32 : ℕ) : Int) := by
    omega
  rw [← Int.emod_bmod, hmod, Int.emod_bmod, atoi_bmod]

theorem toLower_of_isDigit {c : UInt8} (h : isDigit c = true) : toLower c = c := by
  simp only [isDigit, decide_eq_true_eq] at h
  rw [toLower, if_neg]
  rintro ⟨hupper, -⟩
  exact absurd (UInt8.le_trans hupper h.2) (by decide)

theorem toLower_eq {c d : UInt8} (h : toLower c = d) : c = d ∨ c = d - 32 := by
  unfold toLower at h
  split_ifs at h
  · exact .inr (by rw [← h, UInt8.add_sub_cancel])
  · exact .inl h

theorem toLower_eq_zero {c : UInt8} (h : toLower c = 0) : c = 0 := by
  unfold toLower at h
  split at h
  · rename_i hc
    simp only [UInt8.le_iff_toNat_le, ← UInt8.toNat_inj, UInt8.toNat_add, UInt8.toNat_ofNat]
      at hc h
    omega
  · exact h

theorem strncasecmp_cons {d : UInt8} (hd : d ≠ 0) (a b : List UInt8) (n : ℕ) :
    strncasecmp a (d :: b) (n + 1) = 0 ↔
      toLower (a.headD 0) = toLower d ∧ strncasecmp a.tail b n = 0 := by
  have hne : toLower d ≠ 0 := fun h => hd (toLower_eq_zero h)
  have hhead : (d :: b).headD 0 = d := rfl
  rw [strncasecmp, hhead]
  split_ifs with hdiff hzero
  · have hsub : ((toLower (a.headD 0)).toNat : Int) - (toLower d).toNat ≠ 0 := by
      intro hzero
      apply hdiff
      rw [← UInt8.toNat_inj]
      omega
    exact ⟨fun h => absurd h hsub, fun h => absurd h.1 hdiff⟩
  · rw [not_not] at hdiff
    exact absurd (hdiff.symm.trans hzero) hne
  · rw [not_not] at hdiff
    exact ⟨fun h => ⟨hdiff, h⟩, fun h => h.2⟩

/-- A text without a NUL is found at the front of `a`, whatever the case. -/
theorem strncasecmp_eq_zero_iff {b : List UInt8} (hb : ∀ c ∈ b, c ≠ 0) (a : List UInt8) :
    strncasecmp a b b.length = 0 ↔ ∃ x y, a = x ++ y ∧ x.map toLower = b.map toLower := by
  induction b generalizing a with
  | nil => simp [strncasecmp]
  | cons d b ih =>
    have hd : d ≠ 0 := hb d (by simp)
    rw [List.length_cons, strncasecmp_cons hd, ih fun c hc => hb c (by simp [hc])]
    constructor
    · rintro ⟨hhead, x, y, htail, hx⟩
      cases a with
      | nil => exact absurd (toLower_eq_zero hhead.symm) hd
      | cons c a => exact ⟨c :: x, y, congrArg (c :: ·) htail, by simpa [hx] using hhead⟩
    · rintro ⟨x, y, rfl, hx⟩
      obtain ⟨c, x, rfl⟩ : ∃ c x', x = c :: x' := by
        cases x with
        | nil => cases hx
        | cons c x => exact ⟨c, x, rfl⟩
      obtain ⟨hhead, hmap⟩ := List.cons.inj hx
      exact ⟨hhead, x, y, rfl, hmap⟩

/-- Equal but for letter case. -/
def SameLetters (text name : List UInt8) : Prop := text.map toLower = name.map toLower

/-- What a comparison over the length of `text` takes for `name`: a front part of it, the
empty one too, or all of it before a NUL. -/
def PassesFor (text name : List UInt8) : Prop :=
  text.map toLower <+: name.map toLower ∨ name.map toLower ++ [0] <+: text.map toLower

instance (text name : List UInt8) : Decidable (SameLetters text name) :=
  inferInstanceAs (Decidable (_ = _))

instance (text name : List UInt8) : Decidable (PassesFor text name) :=
  inferInstanceAs (Decidable (_ ∨ _))

theorem SameLetters.of_eq {text name : List UInt8} (h : text = name) : SameLetters text name :=
  congrArg (List.map toLower) h

theorem SameLetters.passesFor {text name : List UInt8} (h : SameLetters text name) :
    PassesFor text name := .inl (h ▸ List.prefix_refl _)

theorem strncasecmp_length_eq_zero_iff {b : List UInt8} (hb : ∀ c ∈ b, c ≠ 0) (a : List UInt8) :
    strncasecmp a b a.length = 0 ↔ PassesFor a b := by
  rw [PassesFor]
  induction a generalizing b with
  | nil => simp [strncasecmp]
  | cons c a ih =>
    cases b with
    | nil =>
      have hzero : toLower 0 = 0 := rfl
      simp only [List.length_cons, strncasecmp, List.headD_cons, List.headD_nil, hzero,
        List.map_cons, List.map_nil, List.nil_append, List.cons_prefix_cons, List.nil_prefix,
        and_true, List.prefix_nil, List.cons_ne_nil, false_or]
      by_cases hc : toLower c = 0
      · simp [hc]
      · have hpos : (toLower c).toNat ≠ 0 := by
          intro heq
          exact hc (UInt8.toNat_inj.mp heq)
        simpa [hc, Ne.symm hc] using hpos
    | cons d b =>
      have hd : d ≠ 0 := hb d (by simp)
      rw [List.length_cons, strncasecmp_cons hd, List.headD_cons, List.tail_cons,
        ih fun c hc => hb c (by simp [hc]), List.map_cons, List.map_cons, List.cons_append,
        List.cons_prefix_cons, List.cons_prefix_cons]
      constructor
      · rintro ⟨hhead, htail | htail⟩
        · exact .inl ⟨hhead, htail⟩
        · exact .inr ⟨hhead.symm, htail⟩
      · rintro (⟨hhead, htail⟩ | ⟨hhead, htail⟩)
        · exact ⟨hhead, .inl htail⟩
        · exact ⟨hhead.symm, .inr htail⟩

/-- Letter case in the first text plays no part. -/
theorem strncasecmp_congr {a a' : List UInt8} (h : SameLetters a a') (b : List UInt8) (n : ℕ) :
    strncasecmp a b n = strncasecmp a' b n := by
  rw [SameLetters] at h
  induction n generalizing a a' b with
  | zero => simp [strncasecmp]
  | succ n ih =>
    have hhead : toLower (a.headD 0) = toLower (a'.headD 0) := by
      cases a <;> cases a' <;> simp_all
    have htail : a.tail.map toLower = a'.tail.map toLower := by
      rw [List.map_tail, List.map_tail, h]
    rw [strncasecmp, strncasecmp, hhead, ih htail]

/-- A NUL that ends the first text is seen without being there. -/
theorem strncasecmp_append_nul (a b : List UInt8) (n : ℕ) :
    strncasecmp (a ++ [0]) b n = strncasecmp a b n := by
  induction n generalizing a b with
  | zero => simp [strncasecmp]
  | succ n ih =>
    cases a with
    | nil => rfl
    | cons c a =>
      rw [List.cons_append, strncasecmp, strncasecmp, List.tail_cons, List.tail_cons, ih]
      rfl

/-- Texts are the same to `strcasecmp` up to the NUL that ends the second; the first may
go on behind it. -/
theorem strcasecmp_eq_zero_iff {b : List UInt8} (hb : ∀ c ∈ b, c ≠ 0) (a : List UInt8) :
    strcasecmp a b = 0 ↔ b.map toLower ++ [0] <+: a.map toLower ++ [0] := by
  have hzero : toLower 0 = 0 := rfl
  have hlength : (a ++ [0]).length = a.length + 1 := by simp
  have hends := strncasecmp_length_eq_zero_iff hb (a ++ [0])
  rw [strncasecmp_append_nul, hlength, PassesFor, List.map_append, List.map_singleton, hzero]
    at hends
  rw [strcasecmp, hends, or_iff_right]
  rintro ⟨rest, hrest⟩
  have hmem : (0 : UInt8) ∈ b.map toLower := by
    rw [← hrest]
    simp
  obtain ⟨c, hc, hnul⟩ := List.mem_map.mp hmem
  exact hb c hc (toLower_eq_zero hnul)

theorem takeWhile_append_stop {α : Type*} {p : α → Bool} {xs ys : List α}
    (hxs : ∀ x ∈ xs, p x = true) (hys : ∀ y ∈ ys.head?, p y = false) :
    (xs ++ ys).takeWhile p = xs := by
  rw [List.takeWhile_append_of_pos hxs]
  cases ys with
  | nil => simp
  | cons y ys =>
    have hy : p y = false := hys y (by simp)
    simp [hy]

theorem dropWhile_append_stop {α : Type*} {p : α → Bool} {xs ys : List α}
    (hxs : ∀ x ∈ xs, p x = true) (hys : ∀ y ∈ ys.head?, p y = false) :
    (xs ++ ys).dropWhile p = ys := by
  rw [List.dropWhile_append_of_pos hxs]
  cases ys with
  | nil => simp
  | cons y ys =>
    have hy : p y = false := hys y (by simp)
    simp [hy]

/-- The first `x` divides a list in one way only. -/
theorem append_stop_inj {α : Type*} [DecidableEq α] {x : α} {xs ys xs' ys' : List α}
    (hxs : x ∉ xs) (hxs' : x ∉ xs') (h : xs ++ x :: ys = xs' ++ x :: ys') :
    xs = xs' ∧ ys = ys' := by
  have hpass {l : List α} (hl : x ∉ l) : ∀ y ∈ l, (fun y => decide (y ≠ x)) y = true := by
    intro y hy
    simpa using fun heq : y = x => hl (heq ▸ hy)
  have hstop (l : List α) : ∀ y ∈ (x :: l).head?, (fun y => decide (y ≠ x)) y = false := by simp
  have hfront := congrArg (List.takeWhile fun y => decide (y ≠ x)) h
  rw [takeWhile_append_stop (hpass hxs) (hstop ys),
    takeWhile_append_stop (hpass hxs') (hstop ys')] at hfront
  have hback := congrArg (List.dropWhile fun y => decide (y ≠ x)) h
  rw [dropWhile_append_stop (hpass hxs) (hstop ys),
    dropWhile_append_stop (hpass hxs') (hstop ys')] at hback
  exact ⟨hfront, (List.cons.inj hback).2⟩

theorem not_isSpace_of_isDigit {c : UInt8} (h : isDigit c = true) : isSpace c = false := by
  simp only [isDigit, isSpace, decide_eq_true_eq, decide_eq_false_iff_not, UInt8.le_iff_toNat_le,
    ← UInt8.toNat_inj] at h ⊢
  simp only [UInt8.toNat_ofNat] at h ⊢
  omega

theorem not_isDigit_of_isSpace {c : UInt8} (h : isSpace c = true) : isDigit c = false := by
  cases hd : isDigit c with
  | false => rfl
  | true =>
    rw [not_isSpace_of_isDigit hd] at h
    cases h

/-- White space around a string of digits does not change the number read. -/
theorem atoi_digits {pre digits post : List UInt8} (hpre : ∀ c ∈ pre, isSpace c = true)
    (hne : digits ≠ []) (hdigits : ∀ c ∈ digits, isDigit c = true)
    (hpost : ∀ c ∈ post, isSpace c = true) :
    atoi (pre ++ (digits ++ post)) =
      ((min (decimal digits) (2 ^ 63 - 1) : ℕ) : Int).bmod (2 ^ 32) := by
  obtain ⟨d, ds, rfl⟩ := List.exists_cons_of_ne_nil hne
  have hd : isDigit d = true := hdigits d (by simp)
  have hskip : (pre ++ (d :: ds ++ post)).dropWhile isSpace = d :: ds ++ post := by
    apply dropWhile_append_stop hpre
    intro y hy
    simp only [List.cons_append, List.head?_cons, Option.mem_def, Option.some.injEq] at hy
    rw [← hy]
    exact not_isSpace_of_isDigit hd
  have htake : (d :: ds ++ post).takeWhile isDigit = d :: ds := by
    apply takeWhile_append_stop hdigits
    intro y hy
    exact not_isDigit_of_isSpace (hpost y (List.mem_of_mem_head? hy))
  have hminus : d ≠ 45 := by
    rintro rfl
    exact absurd hd (by decide)
  have hplus : d ≠ 43 := by
    rintro rfl
    exact absurd hd (by decide)
  have hmin (n : ℕ) : ((min n (2 ^ 63 - 1) : ℕ) : Int) = min (n : Int) (2 ^ 63 - 1) := by omega
  unfold atoi strtol
  rw [hskip, hmin]
  simp only [List.cons_append] at htake ⊢
  split
  · simp_all
  · simp_all
  · rw [htake]

end Voyager.Lib.CString
