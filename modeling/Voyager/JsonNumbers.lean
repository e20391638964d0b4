import Voyager.JsonReader
import Mathlib.Algebra.Group.Int.Defs

/-!
The integers of `GetNum` in util/json/json.cc: `int_value` and
`exponential_value` are int64 and take one digit after the other without a look
at how many there are. An operation whose result does not fit is noted and goes on
with the value modulo `2 ^ 64`; the fraction is a double and is left out.
-/
namespace Voyager.Json

open Lib.CString

/-- The value of a signed 64-bit variable. -/
def int64 (z : Int) : Int := z.bmod (2 ^ 64)

def inRange (z : Int) : Bool := decide (-2 ^ 63 ≤ z ∧ z < 2 ^ 63)

/-- An `int64_t`, and whether every operation on it so far was in range. -/
structure Accumulator where
  value : Int
  fits : Bool
deriving DecidableEq, Repr

/-- `value * 10 + c - 0x30`, from left to right. -/
def Accumulator.digit (a : Accumulator) (c : Byte) : Accumulator :=
  let product := a.value * 10
  let sum := int64 product + c.toNat
  let result := int64 sum - 0x30
  ⟨int64 result, a.fits && inRange product && inRange sum && inRange result⟩

/-- `0 - value` -/
def Accumulator.negate (a : Accumulator) : Accumulator :=
  ⟨int64 (0 - a.value), a.fits && inRange (0 - a.value)⟩

/-- The flags of `GetNum` and its integers. -/
structure NumValues where
  flags : NumState
  intValue : Accumulator
  exponentialValue : Accumulator
  isExponentialNegative : Bool

/-- One more digit goes where the flags say. -/
def NumValues.digit (s : NumValues) (c : Byte) : NumValues :=
  let s := { s with flags := { s.flags with isOk := true } }
  if s.flags.isExponential then { s with exponentialValue := s.exponentialValue.digit c }
  else if s.flags.isFloat then s
  else { s with intValue := s.intValue.digit c }

def NumValues.point (s : NumValues) : NumValues :=
  { s with flags := { s.flags with isOk := false, isFloat := true } }

def NumValues.startExponent (s : NumValues) : NumValues :=
  { s with
    flags := { s.flags with isOk := false, isExponential := true }
    exponentialValue := ⟨0, s.exponentialValue.fits⟩ }

def NumValues.exponentSign (s : NumValues) (negative : Bool) : NumValues :=
  { s with isExponentialNegative := negative }

def NumValues.firstExponentDigit (s : NumValues) (c : Byte) : NumValues :=
  { s with
    flags := { s.flags with isOk := true }
    exponentialValue := ⟨c.toNat - 0x30, s.exponentialValue.fits⟩ }

def NumValues.needback (s : NumValues) : NumValues :=
  { s with flags := { s.flags with isNeedback := true } }

/-- The loop of `GetNum`. -/
def getNumValuesFrom : ℕ → JsonReader → NumValues → Outcome NumValues
  | 0, r, s => .ok s r
  | n + 1, r, s =>
    if r.hasEnd then .ok s r
    else
      r.read.bind fun c r =>
        if isDigit c then getNumValuesFrom n r (s.digit c)
        else if c = byte '.' ∧ s.flags.isFloat = false ∧ s.flags.isExponential = false ∧
            s.flags.isOk = true then
          getNumValuesFrom n r s.point
        else if (c = byte 'e' ∨ c = byte 'E') ∧ s.flags.isExponential = false ∧
            s.flags.isOk = true then
          let s := s.startExponent
          if r.hasEnd then .ok s r
          else
            r.read.bind fun c r =>
              if c = byte '-' then getNumValuesFrom n r (s.exponentSign true)
              else if c = byte '+' then getNumValuesFrom n r (s.exponentSign false)
              else if isDigit c then getNumValuesFrom n r (s.firstExponentDigit c)
              else .ok s.needback r
        else .ok s.needback r

/-- The sign of the exponent is applied at the end. -/
def NumValues.finish (s : NumValues) : NumValues :=
  if s.isExponentialNegative then { s with exponentialValue := s.exponentialValue.negate } else s

/-- The variables before the loop. -/
def startValues (head : Byte) : NumValues where
  flags := ⟨head ≠ byte '-', false, false, false⟩
  intValue := ⟨if head = byte '-' then 0 else head.toNat - 0x30, true⟩
  exponentialValue := ⟨0, true⟩
  isExponentialNegative := false

/-- `GetNum` up to the conversion to double. -/
def getNumValues (r : JsonReader) (head : Byte) : Outcome NumValues :=
  (getNumValuesFrom r.left r (startValues head)).bind fun s r =>
    if s.flags.isOk = false then .error (info "get num error" r)
    else if s.flags.isNeedback then r.back.bind fun _ r => .ok s.finish r
    else .ok s.finish r

/-! The flags do not depend on the values. -/

@[simp] theorem flags_digit (s : NumValues) (c : Byte) :
    (s.digit c).flags = { s.flags with isOk := true } := by
  unfold NumValues.digit
  dsimp only
  split
  · rfl
  · split <;> rfl

theorem exponentialValue_digit {s : NumValues} {c : Byte} (h : s.flags.isExponential = false) :
    (s.digit c).exponentialValue = s.exponentialValue := by
  unfold NumValues.digit
  simp only [h, Bool.false_eq_true, if_false]
  split <;> rfl

theorem getNumValuesFrom_flags (n : ℕ) (r : JsonReader) (s : NumValues) :
    ((getNumValuesFrom n r s).bind fun s r => .ok s.flags r) = getNumFrom n r s.flags := by
  induction n generalizing r s with
  | zero => rfl
  | succ n ih =>
    rw [getNumValuesFrom, getNumFrom]
    by_cases hend : r.hasEnd = true
    · rw [if_pos hend, if_pos hend]
      rfl
    rw [if_neg hend, if_neg hend]
    cases r.read with
    | ok c r =>
      simp only [bind_ok]
      by_cases hdigit : isDigit c = true
      · rw [if_pos hdigit, if_pos hdigit, ih, flags_digit]
      rw [if_neg hdigit, if_neg hdigit]
      by_cases hpoint : c = byte '.' ∧ s.flags.isFloat = false ∧ s.flags.isExponential = false ∧
          s.flags.isOk = true
      · rw [if_pos hpoint, if_pos hpoint, ih]
        rfl
      rw [if_neg hpoint, if_neg hpoint]
      by_cases he : (c = byte 'e' ∨ c = byte 'E') ∧ s.flags.isExponential = false ∧
          s.flags.isOk = true
      · rw [if_pos he, if_pos he]
        by_cases hend' : r.hasEnd = true
        · rw [if_pos hend', if_pos hend']
          rfl
        rw [if_neg hend', if_neg hend']
        cases r.read with
        | ok d r =>
          simp only [bind_ok]
          by_cases hminus : d = byte '-'
          · rw [if_pos hminus, if_pos (.inl hminus), ih]
            rfl
          rw [if_neg hminus]
          by_cases hplus : d = byte '+'
          · rw [if_pos hplus, if_pos (.inr hplus), ih]
            rfl
          rw [if_neg hplus, if_neg (not_or.mpr ⟨hminus, hplus⟩)]
          by_cases hd : isDigit d = true
          · rw [if_pos hd, if_pos hd, ih]
            rfl
          · rw [if_neg hd, if_neg hd]
            rfl
        | error text => rfl
        | assertion => rfl
        | unfinished => rfl
      · rw [if_neg he, if_neg he]
        rfl
    | error text => rfl
    | assertion => rfl
    | unfinished => rfl

/-! One accumulator. -/

/-- The value of decimal digits behind `v`. -/
def decimalFrom (v : ℕ) (ds : List Byte) : ℕ := ds.foldl (fun n c => 10 * n + (c.toNat - 48)) v

theorem le_decimalFrom (v : ℕ) (ds : List Byte) : v ≤ decimalFrom v ds := by
  induction ds generalizing v with
  | nil => exact Nat.le_refl v
  | cons c ds ih =>
    have h := ih (10 * v + (c.toNat - 48))
    rw [decimalFrom, List.foldl_cons, ← decimalFrom]
    omega

theorem isDigit_bounds {c : Byte} (h : isDigit c = true) : 48 ≤ c.toNat ∧ c.toNat ≤ 57 := by
  simpa [isDigit, UInt8.le_iff_toNat_le] using h

theorem int64_of_inRange {z : Int} (h : inRange z = true) : int64 z = z := by
  simp only [inRange, decide_eq_true_eq] at h
  exact Int.bmod_eq_of_le (by omega) (by omega)

/-- A digit is taken exactly when there is room for its character. -/
theorem digit_spec (v : ℕ) {c : Byte} (hc : isDigit c = true) :
    if v * 10 + c.toNat < 2 ^ 63 then
      Accumulator.digit ⟨v, true⟩ c = ⟨(10 * v + (c.toNat - 48) : ℕ), true⟩
    else (Accumulator.digit ⟨v, true⟩ c).fits = false := by
  obtain ⟨hlow, hhigh⟩ := isDigit_bounds hc
  split
  · rename_i hroom
    have hproduct : inRange ((v : Int) * 10) = true := decide_eq_true (by omega)
    have hsum : inRange ((v : Int) * 10 + c.toNat) = true := decide_eq_true (by omega)
    have hresult : inRange ((v : Int) * 10 + c.toNat - 0x30) = true := decide_eq_true (by omega)
    simp only [Accumulator.digit, int64_of_inRange hproduct, int64_of_inRange hsum,
      int64_of_inRange hresult, hproduct, hsum, hresult, Bool.and_self, Accumulator.mk.injEq,
      and_true]
    omega
  · rename_i hroom
    by_cases hproduct : inRange ((v : Int) * 10) = true
    · have hsum : inRange ((v : Int) * 10 + c.toNat) = false := decide_eq_false (by omega)
      simp only [Accumulator.digit, int64_of_inRange hproduct, hsum, Bool.and_false, Bool.false_and]
    · simp only [Accumulator.digit, Bool.not_eq_true _ ▸ hproduct, Bool.and_false, Bool.false_and]

theorem foldl_digit_of_not_fits {a : Accumulator} (ha : a.fits = false) (ds : List Byte) :
    (ds.foldl Accumulator.digit a).fits = false := by
  induction ds generalizing a with
  | nil => exact ha
  | cons c ds ih =>
    apply ih
    simp [Accumulator.digit, ha]

theorem foldl_digit_spec (v : ℕ) {ds : List Byte} (hds : Digits ds) :
    if ds = [] ∨ decimalFrom v ds + 48 < 2 ^ 63 then
      ds.foldl Accumulator.digit ⟨v, true⟩ = ⟨decimalFrom v ds, true⟩
    else (ds.foldl Accumulator.digit ⟨v, true⟩).fits = false := by
  induction ds generalizing v with
  | nil => simp [decimalFrom]
  | cons c ds ih =>
    have hc : isDigit c = true := hds c List.mem_cons_self
    have hrest : Digits ds := fun d hd => hds d (List.mem_cons_of_mem c hd)
    obtain ⟨hlow, hhigh⟩ := isDigit_bounds hc
    have hcons : decimalFrom v (c :: ds) = decimalFrom (10 * v + (c.toNat - 48)) ds := rfl
    have hle := le_decimalFrom (10 * v + (c.toNat - 48)) ds
    have hdigit := digit_spec v hc
    have htail := ih (10 * v + (c.toNat - 48)) hrest
    rw [hcons, List.foldl_cons]
    by_cases hroom : v * 10 + c.toNat < 2 ^ 63
    · rw [if_pos hroom] at hdigit
      rw [hdigit]
      cases ds with
      | nil =>
        have hvalue : decimalFrom (10 * v + (c.toNat - 48)) [] = 10 * v + (c.toNat - 48) := rfl
        rw [hvalue, if_pos (.inr (by omega))]
        rfl
      | cons d ds => simpa using htail
    · rw [if_neg hroom] at hdigit
      rw [if_neg (by simp; omega)]
      exact foldl_digit_of_not_fits hdigit ds

/-! The digits of a literal. -/

/-- The digits before the point and the exponent. -/
def integerDigits : List Byte → List Byte
  | [] => []
  | c :: t => if c = byte '-' then t.takeWhile isDigit else (c :: t).takeWhile isDigit

/-- No exponent begins here. -/
def notExponent (c : Byte) : Bool := c ≠ byte 'e' && c ≠ byte 'E'

/-- The digits of the exponent, none without an exponent. -/
def exponentDigits (t : List Byte) : List Byte := (t.dropWhile notExponent).filter isDigit

/-- The integer digits of what is read after the flags `s`. -/
def intPart (s : NumState) (t : List Byte) : List Byte :=
  if s.isFloat = true ∨ s.isExponential = true then [] else t.takeWhile isDigit

def exponentPart (s : NumState) (t : List Byte) : List Byte :=
  if s.isExponential = true then t.filter isDigit else exponentDigits t

/-- What the loop of `GetNum` has done to the accumulators when it has read `t`. -/
structure Accumulates (s : NumValues) (t : List Byte) (s' : NumValues) : Prop where
  int : s'.intValue = (intPart s.flags t).foldl Accumulator.digit s.intValue
  exponent : s'.exponentialValue =
    (exponentPart s.flags t).foldl Accumulator.digit s.exponentialValue

section

variable {s s' : NumValues} {c : Byte} {t : List Byte}

theorem Accumulates.nil (hint : s'.intValue = s.intValue)
    (hexponent : s'.exponentialValue = s.exponentialValue) : Accumulates s [] s' := by
  refine ⟨?_, ?_⟩
  · rw [intPart, List.takeWhile_nil, ite_self]
    exact hint
  · rw [exponentPart, exponentDigits, List.dropWhile_nil, ite_self]
    exact hexponent

theorem notExponent_of_isDigit (hc : isDigit c = true) : notExponent c = true := by
  have hne : ∀ d : Byte, isDigit d = false → c ≠ d := by
    intro d hd heq
    rw [heq, hd] at hc
    cases hc
  have he := hne (byte 'e') (by decide)
  have hE := hne (byte 'E') (by decide)
  simp [notExponent, he, hE]

theorem Accumulates.digit (hc : isDigit c = true) (h : Accumulates (s.digit c) t s') :
    Accumulates s (c :: t) s' := by
  have hint := h.int
  have hexponent := h.exponent
  have hskip : exponentDigits (c :: t) = exponentDigits t := by
    rw [exponentDigits, List.dropWhile_cons_of_pos (notExponent_of_isDigit hc), ← exponentDigits]
  rw [flags_digit] at hint hexponent
  refine ⟨?_, ?_⟩
  · rw [hint]
    unfold intPart NumValues.digit
    cases hexp : s.flags.isExponential <;> cases hfloat : s.flags.isFloat <;>
      simp [hc, hexp, hfloat]
  · rw [hexponent]
    unfold exponentPart NumValues.digit
    rw [hskip]
    cases hexp : s.flags.isExponential <;> cases hfloat : s.flags.isFloat <;>
      simp [hc, hexp, hfloat]

theorem Accumulates.point (hexp : s.flags.isExponential = false)
    (h : Accumulates s.point t s') : Accumulates s (byte '.' :: t) s' := by
  have hpoint : isDigit (byte '.') = false := by decide
  have hskip : exponentDigits (byte '.' :: t) = exponentDigits t := by
    rw [exponentDigits, List.dropWhile_cons_of_pos (by decide), ← exponentDigits]
  refine ⟨?_, ?_⟩
  · rw [h.int]
    simp [intPart, hpoint, NumValues.point]
  · rw [h.exponent]
    simp [exponentPart, hexp, hskip, NumValues.point]

/-- Behind the letter of the exponent, `front` has been read besides. -/
theorem Accumulates.exponentLetter {s₁ : NumValues} (h : Accumulates s₁ t s')
    (front : List Byte) (he : c = byte 'e' ∨ c = byte 'E')
    (hexp : s.flags.isExponential = false) (hexp₁ : s₁.flags.isExponential = true)
    (hint₁ : s₁.intValue = s.intValue)
    (hvalue₁ : s₁.exponentialValue =
      (front.filter isDigit).foldl Accumulator.digit s.exponentialValue) :
    Accumulates s (c :: (front ++ t)) s' := by
  have hletter : isDigit c = false ∧ notExponent c = false := by
    rcases he with rfl | rfl
    · decide
    · decide
  have hfound : exponentDigits (c :: (front ++ t)) = front.filter isDigit ++ t.filter isDigit := by
    rw [exponentDigits, List.dropWhile_cons_of_neg (by simp [hletter.2]), List.filter_cons_of_neg
      (by simp [hletter.1]), List.filter_append]
  refine ⟨?_, ?_⟩
  · rw [h.int, hint₁]
    simp [intPart, hexp₁, hletter.1]
  · rw [h.exponent, hvalue₁, ← List.foldl_append]
    simp [exponentPart, hexp, hexp₁, hfound]

end

/-- The first digit of an exponent is taken without a multiplication. -/
theorem firstExponentDigit_eq {c : Byte} (hc : isDigit c = true) :
    (⟨c.toNat - 0x30, true⟩ : Accumulator) = Accumulator.digit ⟨0, true⟩ c := by
  obtain ⟨hlow, hhigh⟩ := isDigit_bounds hc
  have hdigit := digit_spec 0 hc
  have hvalue : (c.toNat : Int) - 0x30 = ((10 * 0 + (c.toNat - 48) : ℕ) : Int) := by omega
  rw [if_pos (by omega), show ((0 : ℕ) : Int) = 0 from rfl] at hdigit
  rw [hdigit, hvalue]

/-- From `s` on the loop reads a front part of `rest`, and the values are those of this part. -/
def LoopReads (text rest : List Byte) (s : NumValues) (o : Outcome NumValues) : Prop :=
  ∃ s' r t rest', o = .ok s' r ∧ rest = t ++ rest' ∧ NumEnds text t rest' s'.flags r ∧
    Accumulates s t s'

section

variable {text rest : List Byte} {s : NumValues}

theorem loopReads_end (hback : s.flags.isNeedback = false) :
    LoopReads text [] s (.ok s (readerAt text [])) :=
  ⟨s, _, [], [], rfl, rfl, .inl ⟨hback, rfl, by simp⟩, .nil rfl rfl⟩

theorem LoopReads.front {front : List Byte} {s₁ : NumValues} {o : Outcome NumValues}
    (h : LoopReads (text ++ front) rest s₁ o)
    (hfront : ∀ t s', Accumulates s₁ t s' → Accumulates s (front ++ t) s') :
    LoopReads text (front ++ rest) s o := by
  obtain ⟨s', r, t, rest', heq, rfl, hends, hacc⟩ := h
  refine ⟨s', r, front ++ t, rest', heq, by simp, ?_, hfront t s' hacc⟩
  obtain ⟨hback, hrest, hr⟩ | ⟨hback, d, u, hrest, hr⟩ := hends
  · exact .inl ⟨hback, hrest, by simpa using hr⟩
  · exact .inr ⟨hback, d, u, hrest, by simpa using hr⟩

/-- The letter of the exponent is the last byte. -/
theorem loopReads_letter {c : Byte} (he : c = byte 'e' ∨ c = byte 'E')
    (hexp : s.flags.isExponential = false) (hback : s.flags.isNeedback = false)
    (hstart : s.startExponent.exponentialValue = s.exponentialValue) :
    LoopReads text [c] s (.ok s.startExponent (readerAt (text ++ [c]) [])) := by
  have hacc : Accumulates s.startExponent [] s.startExponent := .nil rfl rfl
  exact ⟨s.startExponent, readerAt (text ++ [c]) [], [c], [], rfl, rfl, .inl ⟨hback, rfl, rfl⟩,
    hacc.exponentLetter [] he hexp rfl rfl hstart⟩

/-- A byte behind the letter of the exponent that is no part of it. -/
theorem loopReads_needback {c d : Byte} (he : c = byte 'e' ∨ c = byte 'E')
    (hexp : s.flags.isExponential = false)
    (hstart : s.startExponent.exponentialValue = s.exponentialValue) :
    LoopReads text (c :: d :: rest) s
      (.ok s.startExponent.needback (readerAt (text ++ [c] ++ [d]) rest)) := by
  have hacc : Accumulates s.startExponent [] s.startExponent.needback := .nil rfl rfl
  exact ⟨_, _, [c], d :: rest, rfl, rfl, .inr ⟨rfl, d, rest, rfl, by simp⟩,
    hacc.exponentLetter [] he hexp rfl rfl hstart⟩

/-- The letter of the exponent and a sign or a digit behind it. -/
theorem LoopReads.exponent {c d : Byte} {s₁ : NumValues} {o : Outcome NumValues}
    (h : LoopReads (text ++ [c] ++ [d]) rest s₁ o) (he : c = byte 'e' ∨ c = byte 'E')
    (hexp : s.flags.isExponential = false) (hexp₁ : s₁.flags.isExponential = true)
    (hint₁ : s₁.intValue = s.intValue)
    (hvalue₁ : s₁.exponentialValue =
      ([d].filter isDigit).foldl Accumulator.digit s.exponentialValue) :
    LoopReads text (c :: d :: rest) s o := by
  rw [List.append_assoc] at h
  change LoopReads text ([c] ++ [d] ++ rest) s o
  exact h.front fun t s' hacc => hacc.exponentLetter [d] he hexp hexp₁ hint₁ hvalue₁

end

/-- The loop of `GetNum` on any input, with its accumulators. -/
theorem getNumValuesFrom_spec (n : ℕ) (text rest : List Byte) (s : NumValues)
    (hn : rest.length ≤ n) (hback : s.flags.isNeedback = false)
    (hzero : s.flags.isExponential = false → s.exponentialValue = ⟨0, true⟩) :
    LoopReads text rest s (getNumValuesFrom n (readerAt text rest) s) := by
  induction n generalizing text rest s with
  | zero =>
    obtain rfl : rest = [] := List.length_eq_zero_iff.mp (by omega)
    exact loopReads_end hback
  | succ n ih =>
    cases rest with
    | nil =>
      rw [getNumValuesFrom, hasEnd_nil, if_pos rfl]
      exact loopReads_end hback
    | cons c rest =>
      simp only [List.length_cons] at hn
      simp only [getNumValuesFrom, hasEnd_cons, read_cons, bind_ok, Bool.false_eq_true, if_false]
      by_cases hdigit : isDigit c = true
      · have hzero' : (s.digit c).flags.isExponential = false →
            (s.digit c).exponentialValue = ⟨0, true⟩ := by
          rw [flags_digit]
          intro hexp
          rw [exponentialValue_digit hexp, hzero hexp]
        rw [if_pos hdigit]
        exact (ih (text ++ [c]) rest (s.digit c) (by omega) (by rw [flags_digit]; exact hback)
          hzero').front fun t s' hacc => hacc.digit hdigit
      rw [if_neg hdigit]
      by_cases hpoint : c = byte '.' ∧ s.flags.isFloat = false ∧ s.flags.isExponential = false ∧
          s.flags.isOk = true
      · rw [if_pos hpoint]
        obtain ⟨rfl, -, hexp, -⟩ := hpoint
        exact (ih (text ++ [byte '.']) rest s.point (by omega) hback fun _ => hzero hexp).front
          fun t s' hacc => hacc.point hexp
      rw [if_neg hpoint]
      by_cases he : (c = byte 'e' ∨ c = byte 'E') ∧ s.flags.isExponential = false ∧
          s.flags.isOk = true
      · rw [if_pos he]
        obtain ⟨he, hexp, -⟩ := he
        have hstart : s.startExponent.exponentialValue = s.exponentialValue := by
          rw [NumValues.startExponent, hzero hexp]
        cases rest with
        | nil =>
          rw [hasEnd_nil, if_pos rfl]
          exact loopReads_letter he hexp hback hstart
        | cons d rest =>
          simp only [List.length_cons] at hn
          simp only [hasEnd_cons, read_cons, bind_ok, Bool.false_eq_true, if_false]
          have hnext (s₁ : NumValues) (hexp₁ : s₁.flags.isExponential = true)
              (hback₁ : s₁.flags.isNeedback = false) :=
            ih (text ++ [c] ++ [d]) rest s₁ (by omega) hback₁ (by simp [hexp₁])
          have hsign (negative : Bool) (hd : isDigit d = false) :=
            (hnext (s.startExponent.exponentSign negative) rfl hback).exponent he hexp rfl rfl
              (by rw [List.filter_cons_of_neg (by simp [hd])]; exact hstart)
          by_cases hminus : d = byte '-'
          · rw [if_pos hminus]
            exact hsign true (by rw [hminus]; decide)
          rw [if_neg hminus]
          by_cases hplus : d = byte '+'
          · rw [if_pos hplus]
            exact hsign false (by rw [hplus]; decide)
          rw [if_neg hplus]
          by_cases hd : isDigit d = true
          · rw [if_pos hd]
            refine (hnext (s.startExponent.firstExponentDigit d) rfl hback).exponent he hexp rfl rfl
              ?_
            have hfits : s.exponentialValue.fits = true := by rw [hzero hexp]
            rw [List.filter_cons_of_pos hd, hzero hexp]
            simp only [NumValues.firstExponentDigit, NumValues.startExponent, hfits]
            exact firstExponentDigit_eq hd
          · rw [if_neg hd]
            exact loopReads_needback he hexp hstart
      · rw [if_neg he]
        exact ⟨_, _, [], c :: rest, rfl, rfl, .inr ⟨rfl, c, rest, rfl, by simp⟩, .nil rfl rfl⟩

/-- Both readings end in the same place, so they have read the same. -/
theorem NumEnds.unique {text t t' rest rest' : List Byte} {s : NumState} {r : JsonReader}
    (h : NumEnds text t rest s r) (h' : NumEnds text t' rest' s r)
    (heq : t ++ rest = t' ++ rest') : t = t' ∧ rest = rest' := by
  have hlen : t.length = t'.length := by
    obtain ⟨hback, rfl, hr⟩ | ⟨hback, c, u, rfl, hr⟩ := h
    · obtain ⟨-, rfl, -⟩ | ⟨hback', -⟩ := h'
      · simpa using congrArg List.length heq
      · rw [hback] at hback'
        cases hback'
    · obtain ⟨hback', -⟩ | ⟨-, c', u', rfl, hr'⟩ := h'
      · rw [hback] at hback'
        cases hback'
      · have hcur := congrArg JsonReader.cur (hr.symm.trans hr')
        simp only [readerAt, List.length_append, List.length_singleton] at hcur
        omega
  exact List.append_inj heq hlen

/-- What a literal leaves in the accumulators when it has been accepted. -/
theorem getNumValues_spec (text rest : List Byte) {head : Byte}
    (hhead : isDigit head = true ∨ head = byte '-') {s : NumValues} {r : JsonReader}
    (h : getNumValues (readerAt text rest) head = .ok s r) :
    ∃ t rest', rest = t ++ rest' ∧ r = readerAt (text ++ t) rest' ∧ Number (head :: t) ∧
      ∃ s₁, Accumulates (startValues head) t s₁ ∧ s = s₁.finish := by
  obtain ⟨s₁, r₁, t, rest', heq, rfl, hends, hacc⟩ :=
    getNumValuesFrom_spec rest.length text rest (startValues head) le_rfl rfl (fun _ => rfl)
  obtain ⟨s₂, r₂, t₂, rest₂, hflags, hsplit, hends₂, htail⟩ :=
    getNumFrom_spec (t ++ rest').length text (t ++ rest') (startValues head).flags le_rfl rfl
  rw [← getNumValuesFrom_flags, heq, bind_ok] at hflags
  injection hflags with hs hr
  subst hs hr
  obtain ⟨rfl, rfl⟩ := hends.unique hends₂ hsplit
  rw [getNumValues, left_readerAt, heq, bind_ok] at h
  cases hok : s₁.flags.isOk with
  | false =>
    rw [hok, if_pos rfl] at h
    cases h
  | true =>
    have hnumber := (htail hok).number hhead
    rw [hok, if_neg (by simp)] at h
    obtain ⟨hback, rfl, rfl⟩ | ⟨hback, c, rest'', rfl, rfl⟩ := hends
    · rw [hback, if_neg (by simp)] at h
      injection h with hs hr
      exact ⟨t, [], rfl, hr.symm, hnumber, s₁, hacc, hs.symm⟩
    · rw [if_pos hback, ← List.append_assoc, back_append, bind_ok] at h
      injection h with hs hr
      exact ⟨t, c :: rest'', rfl, hr.symm, hnumber, s₁, hacc, hs.symm⟩

/-- The same literals are accepted, and the reader ends in the same place. -/
theorem getNumValues_getNum (r : JsonReader) (head : Byte) (p : JsonValuePtr) :
    ((getNumValues r head).bind fun _ r => .ok p r) = getNum r head p := by
  have hflags := getNumValuesFrom_flags r.left r (startValues head)
  have hstart : (startValues head).flags = ⟨head ≠ byte '-', false, false, false⟩ := rfl
  rw [hstart] at hflags
  rw [getNumValues, getNum, ← hflags]
  cases getNumValuesFrom r.left r (startValues head) with
  | ok s r =>
    simp only [bind_ok]
    by_cases hok : s.flags.isOk = false
    · rw [if_pos hok, if_pos hok]
      rfl
    rw [if_neg hok, if_neg hok]
    by_cases hback : s.flags.isNeedback = true
    · rw [if_pos hback, if_pos hback]
      cases r.back <;> rfl
    · rw [if_neg hback, if_neg hback]
      rfl
  | error text => rfl
  | assertion => rfl
  | unfinished => rfl

/-- From at most nine, digits fit exactly when there is room for the character of
another digit. -/
theorem foldl_digit_fits {v : ℕ} (hv : v ≤ 9) {ds : List Byte} (hds : Digits ds) :
    ((ds.foldl Accumulator.digit ⟨v, true⟩).fits = true ↔ decimalFrom v ds + 48 < 2 ^ 63) ∧
      ((ds.foldl Accumulator.digit ⟨v, true⟩).fits = true →
        (ds.foldl Accumulator.digit ⟨v, true⟩).value = decimalFrom v ds) := by
  have hspec := foldl_digit_spec v hds
  by_cases hroom : ds = [] ∨ decimalFrom v ds + 48 < 2 ^ 63
  · rw [if_pos hroom] at hspec
    rw [hspec]
    refine ⟨⟨fun _ => ?_, fun _ => rfl⟩, fun _ => rfl⟩
    rcases hroom with rfl | hroom
    · have hnil : decimalFrom v [] = v := rfl
      rw [hnil]
      omega
    · exact hroom
  · rw [if_neg hroom] at hspec
    rw [hspec]
    refine ⟨⟨nofun, fun h => absurd (Or.inr h) hroom⟩, nofun⟩

theorem digits_takeWhile (t : List Byte) : Digits (t.takeWhile isDigit) := by
  intro c hc
  exact List.mem_takeWhile_imp hc

theorem digits_filter (t : List Byte) : Digits (t.filter isDigit) := by
  intro c hc
  exact (List.mem_filter.mp hc).2

/-- The sign of an exponent that fits changes nothing about that. -/
theorem fits_finish {s : NumValues}
    (h : s.exponentialValue.fits = true → ∃ n : ℕ, n < 2 ^ 63 ∧ s.exponentialValue.value = n) :
    s.finish.exponentialValue.fits = s.exponentialValue.fits := by
  unfold NumValues.finish
  split
  · cases hfits : s.exponentialValue.fits with
    | false => simp only [Accumulator.negate, hfits, Bool.false_and]
    | true =>
      obtain ⟨n, hn, hvalue⟩ := h hfits
      have hrange : inRange (0 - s.exponentialValue.value) = true := by
        rw [hvalue]
        exact decide_eq_true (by omega)
      simp only [Accumulator.negate, hfits, hrange, Bool.and_self]
  · rfl

theorem intValue_finish (s : NumValues) : s.finish.intValue = s.intValue := by
  unfold NumValues.finish
  split <;> rfl

/-- The integer digits are taken one by one, behind the head or behind a sign. -/
theorem intValue_spec {head : Byte} (hhead : isDigit head = true ∨ head = byte '-')
    {t : List Byte} {s : NumValues} (h : Accumulates (startValues head) t s) :
    (s.intValue.fits = true ↔ decimal (integerDigits (head :: t)) + 48 < 2 ^ 63) ∧
      (s.intValue.fits = true → s.intValue.value = decimal (integerDigits (head :: t))) := by
  have hint := h.int
  have hpart : intPart (startValues head).flags t = t.takeWhile isDigit := rfl
  rw [hpart] at hint
  rw [hint]
  by_cases hminus : head = byte '-'
  · have hdigits : decimal (integerDigits (head :: t)) = decimalFrom 0 (t.takeWhile isDigit) := by
      rw [integerDigits, if_pos hminus]
      rfl
    have hstart : (startValues head).intValue = ⟨(0 : ℕ), true⟩ := by
      rw [startValues, if_pos hminus]
      rfl
    rw [hdigits, hstart]
    exact foldl_digit_fits (by decide) (digits_takeWhile t)
  · have hdigit := hhead.resolve_right hminus
    obtain ⟨hlow, hhigh⟩ := isDigit_bounds hdigit
    have hdigits : decimal (integerDigits (head :: t)) =
        decimalFrom (head.toNat - 48) (t.takeWhile isDigit) := by
      rw [integerDigits, if_neg hminus, List.takeWhile_cons_of_pos hdigit, decimal,
        List.foldl_cons, Nat.mul_zero, Nat.zero_add, decimalFrom]
    have hchar : (head.toNat : Int) - 0x30 = ((head.toNat - 48 : ℕ) : Int) := by omega
    have hstart : (startValues head).intValue = ⟨(head.toNat - 48 : ℕ), true⟩ := by
      rw [startValues, if_neg hminus, hchar]
    rw [hdigits, hstart]
    exact foldl_digit_fits (by omega) (digits_takeWhile t)

theorem exponentialValue_spec {head : Byte} (hhead : isDigit head = true ∨ head = byte '-')
    {t : List Byte} {s : NumValues} (h : Accumulates (startValues head) t s) :
    (s.exponentialValue.fits = true ↔ decimal (exponentDigits (head :: t)) + 48 < 2 ^ 63) ∧
      (s.exponentialValue.fits = true →
        s.exponentialValue.value = decimal (exponentDigits (head :: t))) := by
  have hexponent := h.exponent
  have hletter : notExponent head = true := by
    rcases hhead with hdigit | rfl
    · exact notExponent_of_isDigit hdigit
    · decide
  have hpart : exponentPart (startValues head).flags t = exponentDigits (head :: t) := by
    rw [exponentDigits, List.dropWhile_cons_of_pos hletter]
    rfl
  have hstart : (startValues head).exponentialValue = ⟨(0 : ℕ), true⟩ := rfl
  rw [hexponent, hpart, hstart]
  exact foldl_digit_fits (by decide) (digits_filter _)

/-- The integers of an accepted literal never leave their range, and `int_value` is
the number that the digits say, exactly when the integer and the exponent of the
literal are at least 48 below the end of the range. -/
theorem getNum_in_range (text rest : List Byte) {head : Byte}
    (hhead : isDigit head = true ∨ head = byte '-') {s : NumValues} {r : JsonReader}
    (h : getNumValues (readerAt text rest) head = .ok s r) :
    ∃ t rest', rest = t ++ rest' ∧ r = readerAt (text ++ t) rest' ∧ Number (head :: t) ∧
      ((s.intValue.fits = true ∧ s.exponentialValue.fits = true ∧
          s.intValue.value = decimal (integerDigits (head :: t))) ↔
        decimal (integerDigits (head :: t)) + 48 < 2 ^ 63 ∧
          decimal (exponentDigits (head :: t)) + 48 < 2 ^ 63) := by
  obtain ⟨t, rest', hrest, hr, hnumber, s₁, hacc, hs⟩ := getNumValues_spec text rest hhead h
  obtain ⟨hint, hvalue⟩ := intValue_spec hhead hacc
  obtain ⟨hexponent, hexpvalue⟩ := exponentialValue_spec hhead hacc
  have hfinish : s.exponentialValue.fits = s₁.exponentialValue.fits := by
    rw [hs]
    apply fits_finish
    intro hfits
    have hroom := hexponent.mp hfits
    exact ⟨_, by omega, hexpvalue hfits⟩
  refine ⟨t, rest', hrest, hr, hnumber, ?_⟩
  rw [hfinish, hs, intValue_finish, hint, hexponent]
  constructor
  · rintro ⟨hintRoom, hexpRoom, -⟩
    exact ⟨hintRoom, hexpRoom⟩
  · rintro ⟨hintRoom, hexpRoom⟩
    exact ⟨hintRoom, hexpRoom, hvalue (hint.mpr hintRoom)⟩

theorem getNum_in_range_short :
    ∃ s r, getNumValues (readerAt [] (ascii "2.5e-30]")) (byte '1') = .ok s r ∧
      ∃ t rest', ascii "2.5e-30]" = t ++ rest' ∧ r = readerAt ([] ++ t) rest' ∧
        Number (byte '1' :: t) ∧
        ((s.intValue.fits = true ∧ s.exponentialValue.fits = true ∧
            s.intValue.value = decimal (integerDigits (byte '1' :: t))) ↔
          decimal (integerDigits (byte '1' :: t)) + 48 < 2 ^ 63 ∧
            decimal (exponentDigits (byte '1' :: t)) + 48 < 2 ^ 63) :=
  ⟨_, _, rfl, getNum_in_range [] (ascii "2.5e-30]") (.inl (by decide)) rfl⟩

set_option maxRecDepth 4000 in
/-- `2 ^ 63` is accepted: its last digit overflows, and the value is negative. -/
theorem getNum_nineteen_digits :
    getNumValues (readerAt [] (ascii "223372036854775808")) (byte '9') =
        .ok ⟨⟨true, false, false, false⟩, ⟨-9223372036854775808, false⟩, ⟨0, true⟩, false⟩
          (readerAt (ascii "223372036854775808") []) ∧
      decimal (integerDigits (ascii "9223372036854775808")) = 9223372036854775808 :=
  ⟨rfl, rfl⟩

end Voyager.Json
