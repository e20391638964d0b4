import Voyager.Json

/-!
What the smaller functions of the reader do to the text behind the cursor: white
space, numbers and the three literals. Each has one lemma for every input, and one
for the inputs it is made for.
-/
namespace Voyager.Json

open Lib.CString

/-- `text` is read, `rest` is not. -/
def readerAt (text rest : List Byte) : JsonReader := ⟨text ++ rest, text.length⟩

@[simp] theorem bind_ok {α β : Type} (a : α) (r : JsonReader) (f : α → JsonReader → Outcome β) :
    (Outcome.ok a r).bind f = f a r := rfl

@[simp] theorem bind_error {α β : Type} (text : String) (f : α → JsonReader → Outcome β) :
    (Outcome.error text : Outcome α).bind f = .error text := rfl

@[simp] theorem bind_assertion {α β : Type} (f : α → JsonReader → Outcome β) :
    (Outcome.assertion : Outcome α).bind f = .assertion := rfl

@[simp] theorem bind_unfinished {α β : Type} (f : α → JsonReader → Outcome β) :
    (Outcome.unfinished : Outcome α).bind f = .unfinished := rfl

section

variable (text rest : List Byte) (c : Byte)

@[simp] theorem read_cons :
    (readerAt text (c :: rest)).read = .ok c (readerAt (text ++ [c]) rest) := by
  simp [JsonReader.read, readerAt]

@[simp] theorem read_nil : (readerAt text []).read = .assertion := by
  simp [JsonReader.read, readerAt]

@[simp] theorem hasEnd_cons : (readerAt text (c :: rest)).hasEnd = false := by
  simp [JsonReader.hasEnd, JsonReader.size, readerAt]

@[simp] theorem hasEnd_nil : (readerAt text []).hasEnd = true := by
  simp [JsonReader.hasEnd, JsonReader.size, readerAt]

@[simp] theorem peek_readerAt : (readerAt text rest).peek = rest := by
  simp [JsonReader.peek, readerAt]

@[simp] theorem left_readerAt : (readerAt text rest).left = rest.length := by
  simp [JsonReader.left, JsonReader.size, readerAt]

@[simp] theorem back_append :
    (readerAt (text ++ [c]) rest).back = .ok () (readerAt text (c :: rest)) := by
  simp [JsonReader.back, readerAt]

end

theorem skip_append (text xs rest : List Byte) :
    (readerAt text (xs ++ rest)).skip xs.length = .ok () (readerAt (text ++ xs) rest) := by
  induction xs generalizing text with
  | nil => simp [JsonReader.skip]
  | cons x xs ih => simp [JsonReader.skip, ih]

/-! White space. -/

theorem isWhite_cases {c : Byte} (h : isWhite c = true) : c = 32 ∨ c = 9 ∨ c = 13 ∨ c = 10 := by
  simp only [isWhite, Bool.or_eq_true, decide_eq_true_eq] at h
  tauto

def White (w : List Byte) : Prop := ∀ c ∈ w, isWhite c = true

theorem white_nil : White [] := by simp [White]

theorem white_blank : White [32] := by simp [White, isWhite]

/-- Every text has a first byte that is no white space, or has none. -/
theorem exists_white (s : List Byte) :
    White s ∨ ∃ w c rest, White w ∧ isWhite c = false ∧ s = w ++ c :: rest := by
  induction s with
  | nil => exact .inl white_nil
  | cons c s ih =>
    cases hc : isWhite c with
    | false => exact .inr ⟨[], c, s, white_nil, hc, rfl⟩
    | true =>
      have hcons {w : List Byte} (hw : White w) : White (c :: w) := by
        simpa [White, hc] using hw
      rcases ih with hs | ⟨w, d, rest, hw, hd, rfl⟩
      · exact .inl (hcons hs)
      · exact .inr ⟨c :: w, d, rest, hcons hw, hd, rfl⟩

theorem skipWhiteSpaceFrom_append {w : List Byte} (hw : White w) (n : ℕ) (text s : List Byte)
    {c : Byte} (hc : isWhite c = true) :
    ∃ d, isWhite d = true ∧
      skipWhiteSpaceFrom (w.length + n) (readerAt text (w ++ s)) c =
        skipWhiteSpaceFrom n (readerAt (text ++ w) s) d := by
  induction w generalizing text c with
  | nil => exact ⟨c, hc, by simp⟩
  | cons x w ih =>
    have hx : isWhite x = true := hw x (by simp)
    obtain ⟨d, hd, heq⟩ := ih (fun y hy => hw y (by simp [hy])) (text ++ [x]) hx
    refine ⟨d, hd, ?_⟩
    rw [List.length_cons, Nat.add_right_comm, List.append_cons text x w, ← heq]
    simp [skipWhiteSpaceFrom, hc]

theorem skipWhiteSpace_cons {w : List Byte} (hw : White w) {c : Byte} (hc : isWhite c = false)
    (text rest : List Byte) :
    skipWhiteSpace (readerAt text (w ++ c :: rest)) =
      .ok c (readerAt (text ++ (w ++ [c])) rest) := by
  have hblank : isWhite 32 = true := by decide
  obtain ⟨d, hd, heq⟩ :=
    skipWhiteSpaceFrom_append hw (c :: rest).length text (c :: rest) hblank
  rw [skipWhiteSpace, left_readerAt, List.length_append, heq]
  cases rest <;> simp [skipWhiteSpaceFrom, hd, hc]

theorem skipWhiteSpace_white {w : List Byte} (hw : White w) (text : List Byte) :
    ∃ c, isWhite c = true ∧ skipWhiteSpace (readerAt text w) = .ok c (readerAt (text ++ w) []) := by
  have hblank : isWhite 32 = true := by decide
  obtain ⟨d, hd, heq⟩ := skipWhiteSpaceFrom_append hw 0 text [] hblank
  rw [List.append_nil] at heq
  exact ⟨d, hd, by rw [skipWhiteSpace, left_readerAt]; exact heq⟩

/-- `SkipWhiteSpace` on any input. -/
theorem skipWhiteSpace_cases (text s : List Byte) :
    (∃ c, White s ∧ isWhite c = true ∧
      skipWhiteSpace (readerAt text s) = .ok c (readerAt (text ++ s) [])) ∨
    (∃ w c rest, White w ∧ isWhite c = false ∧ s = w ++ c :: rest ∧
      skipWhiteSpace (readerAt text s) = .ok c (readerAt (text ++ (w ++ [c])) rest)) := by
  rcases exists_white s with hs | ⟨w, c, rest, hw, hc, rfl⟩
  · obtain ⟨c, hc, heq⟩ := skipWhiteSpace_white hs text
    exact .inl ⟨c, hs, hc, heq⟩
  · exact .inr ⟨w, c, rest, hw, hc, rfl, skipWhiteSpace_cons hw hc text rest⟩

/-! Numbers. -/

def Digits (ds : List Byte) : Prop := ∀ c ∈ ds, isDigit c = true

inductive Fraction : List Byte → Prop
  | none : Fraction []
  | point {ds} : ds ≠ [] → Digits ds → Fraction (byte '.' :: ds)

inductive Exponent : List Byte → Prop
  | none : Exponent []
  | plain {e ds} : e = byte 'e' ∨ e = byte 'E' → ds ≠ [] → Digits ds → Exponent (e :: ds)
  | signed {e sign ds} : e = byte 'e' ∨ e = byte 'E' → sign = byte '-' ∨ sign = byte '+' →
      ds ≠ [] → Digits ds → Exponent (e :: sign :: ds)

/-- A number without its sign; zeros may lead it. -/
def Unsigned (t : List Byte) : Prop :=
  ∃ ds fraction exponent, t = ds ++ (fraction ++ exponent) ∧ ds ≠ [] ∧ Digits ds ∧
    Fraction fraction ∧ Exponent exponent

inductive Number : List Byte → Prop
  | unsigned {t} : Unsigned t → Number t
  | negative {t} : Unsigned t → Number (byte '-' :: t)

theorem Number.head {t : List Byte} (h : Number t) :
    ∃ c t', t = c :: t' ∧ (Lib.CString.isDigit c = true ∨ c = byte '-') := by
  cases h with
  | unsigned h =>
    obtain ⟨ds, fraction, exponent, rfl, hne, hds, -, -⟩ := h
    obtain ⟨d, ds, rfl⟩ := List.exists_cons_of_ne_nil hne
    exact ⟨d, _, rfl, .inl (hds d (by simp))⟩
  | negative => exact ⟨_, _, rfl, .inr rfl⟩

/-- What may follow a part of a number that was read with the flags `s`. -/
structure NumTail (s : NumState) (t : List Byte) : Prop where
  parts : ∃ ds fraction exponent, t = ds ++ (fraction ++ exponent) ∧ Digits ds ∧
    (s.isOk = true ∨ ds ≠ []) ∧ Fraction fraction ∧ Exponent exponent ∧
    (s.isFloat = true ∨ s.isExponential = true → fraction = []) ∧
    (s.isExponential = true → exponent = [])

/-- Where the loop of `GetNum` has left the reader when `t` belongs to the number. -/
def NumEnds (text t rest : List Byte) (s : NumState) (r : JsonReader) : Prop :=
  (s.isNeedback = false ∧ rest = [] ∧ r = readerAt (text ++ t) []) ∨
  (s.isNeedback = true ∧ ∃ c rest', rest = c :: rest' ∧ r = readerAt (text ++ (t ++ [c])) rest')

theorem NumEnds.cons {text t rest : List Byte} {c : Byte} {s : NumState} {r : JsonReader}
    (h : NumEnds (text ++ [c]) t rest s r) : NumEnds text (c :: t) rest s r := by
  obtain ⟨hback, hrest, hr⟩ | ⟨hback, d, rest', hrest, hr⟩ := h
  · exact .inl ⟨hback, hrest, by simpa using hr⟩
  · exact .inr ⟨hback, d, rest', hrest, by simpa using hr⟩

theorem digits_nil : Digits [] := by simp [Digits]

theorem Digits.cons {c : Byte} {ds : List Byte} (hc : isDigit c = true) (h : Digits ds) :
    Digits (c :: ds) := by
  simpa [Digits, hc] using h

theorem NumTail.nil {s : NumState} (hok : s.isOk = true) : NumTail s [] :=
  ⟨[], [], [], rfl, digits_nil, .inl hok, .none, .none, fun _ => rfl, fun _ => rfl⟩

theorem NumTail.digit {s : NumState} {c : Byte} {t : List Byte} (hc : isDigit c = true)
    (h : NumTail { s with isOk := true } t) : NumTail s (c :: t) := by
  obtain ⟨ds, fraction, exponent, rfl, hds, -, hfraction, hexponent, hfloat, hexp⟩ := h.parts
  exact ⟨c :: ds, fraction, exponent, rfl, hds.cons hc, .inr (by simp), hfraction, hexponent,
    hfloat, hexp⟩

theorem NumTail.point {s : NumState} {t : List Byte} (hok : s.isOk = true)
    (hfloat : s.isFloat = false) (hexp : s.isExponential = false)
    (h : NumTail { s with isOk := false, isFloat := true } t) : NumTail s (byte '.' :: t) := by
  obtain ⟨ds, fraction, exponent, rfl, hds, hne, -, hexponent, hnone, -⟩ := h.parts
  obtain rfl := hnone (.inl rfl)
  have hdigits : ds ≠ [] := hne.resolve_left (by simp)
  exact ⟨[], byte '.' :: ds, exponent, rfl, digits_nil, .inl hok, .point hdigits hds, hexponent,
    by simp [hfloat, hexp], by simp [hexp]⟩

/-- The digits of an exponent. -/
theorem NumTail.exponent {s : NumState} {t : List Byte} (hexp : s.isExponential = true)
    (h : NumTail s t) : Digits t ∧ (s.isOk = true ∨ t ≠ []) := by
  obtain ⟨ds, fraction, exponent, rfl, hds, hne, -, -, hfloat, hnone⟩ := h.parts
  rw [hfloat (.inr hexp), hnone hexp]
  simpa using ⟨hds, hne⟩

theorem NumTail.ofExponent {s : NumState} {t : List Byte} (hok : s.isOk = true)
    (hexp : s.isExponential = false) (h : Exponent t) : NumTail s t :=
  ⟨[], [], t, rfl, digits_nil, .inl hok, .none, h, fun _ => rfl, by simp [hexp]⟩

theorem getNumFrom_cons (n : ℕ) (text rest : List Byte) (c : Byte) (s : NumState) :
    getNumFrom (n + 1) (readerAt text (c :: rest)) s =
      if isDigit c then getNumFrom n (readerAt (text ++ [c]) rest) { s with isOk := true }
      else if c = byte '.' ∧ s.isFloat = false ∧ s.isExponential = false ∧ s.isOk = true then
        getNumFrom n (readerAt (text ++ [c]) rest) { s with isOk := false, isFloat := true }
      else if (c = byte 'e' ∨ c = byte 'E') ∧ s.isExponential = false ∧ s.isOk = true then
        if rest = [] then
          .ok { s with isOk := false, isExponential := true } (readerAt (text ++ [c]) [])
        else
          (readerAt (text ++ [c]) rest).read.bind fun d r =>
            if d = byte '-' ∨ d = byte '+' then
              getNumFrom n r { s with isOk := false, isExponential := true }
            else if isDigit d then getNumFrom n r { s with isOk := true, isExponential := true }
            else .ok { s with isOk := false, isExponential := true, isNeedback := true } r
      else .ok { s with isNeedback := true } (readerAt (text ++ [c]) rest) := by
  simp only [getNumFrom, hasEnd_cons, read_cons, bind_ok, Bool.false_eq_true, if_false]
  cases rest <;> simp

/-- The loop of `GetNum` on any input. -/
theorem getNumFrom_spec (n : ℕ) (text rest : List Byte) (s : NumState) (hn : rest.length ≤ n)
    (hback : s.isNeedback = false) :
    ∃ s' r t rest', getNumFrom n (readerAt text rest) s = .ok s' r ∧ rest = t ++ rest' ∧
      NumEnds text t rest' s' r ∧ (s'.isOk = true → NumTail s t) := by
  induction n generalizing text rest s with
  | zero =>
    obtain rfl : rest = [] := List.length_eq_zero_iff.mp (by omega)
    exact ⟨s, _, [], [], rfl, rfl, .inl ⟨hback, rfl, by simp⟩, NumTail.nil⟩
  | succ n ih =>
    cases rest with
    | nil =>
      refine ⟨s, readerAt text [], [], [], by simp [getNumFrom], rfl, .inl ⟨hback, rfl, by simp⟩,
        NumTail.nil⟩
    | cons c rest =>
      simp only [List.length_cons] at hn
      rw [getNumFrom_cons]
      by_cases hdigit : isDigit c = true
      · obtain ⟨s', r, t, rest', heq, rfl, hends, htail⟩ :=
          ih (text ++ [c]) rest { s with isOk := true } (by omega) hback
        rw [if_pos hdigit]
        exact ⟨s', r, c :: t, rest', heq, rfl, hends.cons, fun hok => (htail hok).digit hdigit⟩
      rw [if_neg hdigit]
      by_cases hpoint : c = byte '.' ∧ s.isFloat = false ∧ s.isExponential = false ∧ s.isOk = true
      · obtain ⟨s', r, t, rest', heq, rfl, hends, htail⟩ :=
          ih (text ++ [c]) rest { s with isOk := false, isFloat := true } (by omega) hback
        rw [if_pos hpoint]
        obtain ⟨rfl, hfloat, hexp, hok⟩ := hpoint
        exact ⟨s', r, _ :: t, rest', heq, rfl, hends.cons,
          fun hok' => (htail hok').point hok hfloat hexp⟩
      rw [if_neg hpoint]
      by_cases he : (c = byte 'e' ∨ c = byte 'E') ∧ s.isExponential = false ∧ s.isOk = true
      · rw [if_pos he]
        obtain ⟨he, hexp, hok⟩ := he
        cases rest with
        | nil =>
          exact ⟨_, _, [c], [], if_pos rfl, rfl, .inl ⟨hback, rfl, rfl⟩, nofun⟩
        | cons d rest =>
          simp only [List.length_cons] at hn
          rw [if_neg (by simp), read_cons, bind_ok]
          by_cases hsign : d = byte '-' ∨ d = byte '+'
          · obtain ⟨s', r, t, rest', heq, rfl, hends, htail⟩ :=
              ih (text ++ [c] ++ [d]) rest { s with isOk := false, isExponential := true }
                (by omega) hback
            rw [if_pos hsign]
            refine ⟨s', r, c :: d :: t, rest', heq, rfl, hends.cons.cons, fun hok' => ?_⟩
            obtain ⟨hdigits, hne⟩ := (htail hok').exponent rfl
            exact .ofExponent hok hexp (.signed he hsign (hne.resolve_left (by simp)) hdigits)
          rw [if_neg hsign]
          by_cases hd : isDigit d = true
          · obtain ⟨s', r, t, rest', heq, rfl, hends, htail⟩ :=
              ih (text ++ [c] ++ [d]) rest { s with isOk := true, isExponential := true }
                (by omega) hback
            rw [if_pos hd]
            refine ⟨s', r, c :: d :: t, rest', heq, rfl, hends.cons.cons, fun hok' => ?_⟩
            obtain ⟨hdigits, -⟩ := (htail hok').exponent rfl
            exact .ofExponent hok hexp (.plain he (by simp) (hdigits.cons hd))
          · rw [if_neg hd]
            exact ⟨_, _, [c], d :: rest, rfl, rfl, .inr ⟨rfl, d, rest, rfl, by simp⟩, nofun⟩
      · rw [if_neg he]
        exact ⟨_, _, [], c :: rest, rfl, rfl, .inr ⟨rfl, c, rest, rfl, by simp⟩,
          fun hok => NumTail.nil hok⟩

theorem NumTail.number {head : Byte} {t : List Byte} (hhead : isDigit head = true ∨ head = byte '-')
    (h : NumTail ⟨head ≠ byte '-', false, false, false⟩ t) : Number (head :: t) := by
  obtain ⟨ds, fraction, exponent, rfl, hds, hne, hfraction, hexponent, -, -⟩ := h.parts
  by_cases hminus : head = byte '-'
  · subst hminus
    exact .negative ⟨ds, fraction, exponent, rfl, hne.resolve_left (by simp), hds, hfraction,
      hexponent⟩
  · have hdigit : isDigit head = true := hhead.resolve_right hminus
    exact .unsigned ⟨head :: ds, fraction, exponent, rfl, by simp, hds.cons hdigit, hfraction,
      hexponent⟩

/-- `GetNum` on any input. -/
theorem getNum_cases (text rest : List Byte) {head : Byte} (p : JsonValuePtr)
    (hhead : isDigit head = true ∨ head = byte '-') :
    (∃ text', getNum (readerAt text rest) head p = .error text') ∨
    (∃ t rest', rest = t ++ rest' ∧ Number (head :: t) ∧
      getNum (readerAt text rest) head p = .ok p (readerAt (text ++ t) rest')) := by
  obtain ⟨s, r, t, rest', heq, rfl, hends, htail⟩ :=
    getNumFrom_spec rest.length text rest ⟨head ≠ byte '-', false, false, false⟩ le_rfl rfl
  rw [getNum, left_readerAt, heq, bind_ok]
  cases hok : s.isOk with
  | false => exact .inl ⟨_, if_pos rfl⟩
  | true =>
    refine .inr ⟨t, rest', rfl, (htail hok).number hhead, ?_⟩
    rw [if_neg (by simp)]
    obtain ⟨hback, rfl, rfl⟩ | ⟨hback, c, rest', rfl, rfl⟩ := hends
    · simp [hback]
    · rw [if_pos hback, ← List.append_assoc, back_append, bind_ok]

/-- No part of a number begins here. -/
def Stops (rest : List Byte) : Prop :=
  ∀ c ∈ rest.head?, isDigit c = false ∧ c ≠ byte '.' ∧ c ≠ byte 'e' ∧ c ≠ byte 'E'

/-- From the state `s` the loop of `GetNum` reads `t` and ends well. -/
def NumReads (n : ℕ) (text t rest : List Byte) (s : NumState) : Prop :=
  ∃ s' r, getNumFrom n (readerAt text (t ++ rest)) s = .ok s' r ∧ s'.isOk = true ∧
    NumEnds text t rest s' r

section

variable {n : ℕ} {text t rest : List Byte} {s : NumState}

theorem NumReads.stop (hstop : Stops rest) (hn : rest.length ≤ n) (hok : s.isOk = true)
    (hback : s.isNeedback = false) : NumReads n text [] rest s := by
  cases rest with
  | nil =>
    refine ⟨s, readerAt text [], ?_, hok, .inl ⟨hback, rfl, by simp⟩⟩
    cases n <;> simp [getNumFrom]
  | cons c rest =>
    obtain ⟨hdigit, hpoint, he, hE⟩ := hstop c (by simp)
    obtain ⟨n, rfl⟩ : ∃ m, n = m + 1 := Nat.exists_eq_add_one.mpr (by simp at hn; omega)
    refine ⟨{ s with isNeedback := true }, readerAt (text ++ [c]) rest, ?_, hok,
      .inr ⟨rfl, c, rest, rfl, by simp⟩⟩
    simp [getNumFrom_cons, hdigit, hpoint, he, hE]

theorem NumReads.digit {c : Byte} (hc : isDigit c = true)
    (h : NumReads n (text ++ [c]) t rest { s with isOk := true }) :
    NumReads (n + 1) text (c :: t) rest s := by
  obtain ⟨s', r, heq, hok, hends⟩ := h
  exact ⟨s', r, by rw [List.cons_append, getNumFrom_cons, if_pos hc, heq], hok, hends.cons⟩

theorem NumReads.digits {ds : List Byte} (hds : Digits ds) (hne : s.isOk = true ∨ ds ≠ [])
    (h : NumReads n (text ++ ds) t rest { s with isOk := true }) :
    NumReads (ds.length + n) text (ds ++ t) rest s := by
  induction ds generalizing text s with
  | nil =>
    have hok : s.isOk = true := hne.resolve_right (by simp)
    have hsame : { s with isOk := true } = s := by
      rw [← hok]
    rw [hsame] at h
    simpa using h
  | cons d ds ih =>
    rw [List.length_cons, Nat.add_right_comm]
    apply NumReads.digit (hds d (by simp))
    apply ih (fun c hc => hds c (by simp [hc])) (.inl rfl)
    simpa using h

/-- The step on the letter of an exponent. -/
theorem getNumFrom_exponent {e : Byte} (he : e = byte 'e' ∨ e = byte 'E') (hok : s.isOk = true)
    (hexp : s.isExponential = false) (d : Byte) :
    getNumFrom (n + 1) (readerAt text (e :: d :: rest)) s =
      if d = byte '-' ∨ d = byte '+' then
        getNumFrom n (readerAt (text ++ [e] ++ [d]) rest)
          { s with isOk := false, isExponential := true }
      else if isDigit d then
        getNumFrom n (readerAt (text ++ [e] ++ [d]) rest)
          { s with isOk := true, isExponential := true }
      else
        .ok { s with isOk := false, isExponential := true, isNeedback := true }
          (readerAt (text ++ [e] ++ [d]) rest) := by
  have hletter : isDigit e = false ∧ e ≠ byte '.' := by
    rcases he with rfl | rfl <;> decide
  rw [getNumFrom_cons, if_neg (by simp [hletter]), if_neg (by simp [hletter]),
    if_pos ⟨he, hexp, hok⟩, if_neg (by simp), read_cons, bind_ok]

theorem NumReads.exponent (ht : Exponent t) (hstop : Stops rest) (hok : s.isOk = true)
    (hexp : s.isExponential = false) (hback : s.isNeedback = false) :
    NumReads (t.length + rest.length) text t rest s := by
  cases ht with
  | none => exact .stop hstop (by simp) hok hback
  | @plain e ds he hne hds =>
    obtain ⟨d, ds, rfl⟩ := List.exists_cons_of_ne_nil hne
    have hd : isDigit d = true := hds d (by simp)
    have hsign : ¬ (d = byte '-' ∨ d = byte '+') := by
      rintro (rfl | rfl) <;> exact absurd hd (by decide)
    have hrest : NumReads (ds.length + (rest.length + 1)) (text ++ [e] ++ [d]) (ds ++ []) rest
        { s with isOk := true, isExponential := true } :=
      .digits (fun c hc => hds c (by simp [hc])) (.inl rfl) (.stop hstop (by omega) rfl hback)
    rw [List.append_nil] at hrest
    obtain ⟨s', r, heq, hok', hends⟩ := hrest
    refine ⟨s', r, ?_, hok', hends.cons.cons⟩
    have hfuel : (e :: d :: ds).length + rest.length = ds.length + (rest.length + 1) + 1 := by
      simp only [List.length_cons]
      omega
    rw [hfuel, List.cons_append, List.cons_append, getNumFrom_exponent he hok hexp, if_neg hsign,
      if_pos hd, heq]
  | @signed e sign ds he hsign hne hds =>
    have hrest : NumReads (ds.length + (rest.length + 1)) (text ++ [e] ++ [sign]) (ds ++ []) rest
        { s with isOk := false, isExponential := true } :=
      .digits hds (.inr hne) (.stop hstop (by omega) rfl hback)
    rw [List.append_nil] at hrest
    obtain ⟨s', r, heq, hok', hends⟩ := hrest
    refine ⟨s', r, ?_, hok', hends.cons.cons⟩
    have hfuel : (e :: sign :: ds).length + rest.length = ds.length + (rest.length + 1) + 1 := by
      simp only [List.length_cons]
      omega
    rw [hfuel, List.cons_append, List.cons_append, getNumFrom_exponent he hok hexp, if_pos hsign,
      heq]

theorem NumReads.fraction {fraction exponent : List Byte} (hfraction : Fraction fraction)
    (hexponent : Exponent exponent) (hstop : Stops rest) (hok : s.isOk = true)
    (hfloat : s.isFloat = false) (hexp : s.isExponential = false) (hback : s.isNeedback = false) :
    NumReads ((fraction ++ exponent).length + rest.length) text (fraction ++ exponent) rest s := by
  cases hfraction with
  | none => exact .exponent hexponent hstop hok hexp hback
  | @point ds hne hds =>
    have hrest : NumReads (ds.length + (exponent.length + rest.length)) (text ++ [byte '.'])
        (ds ++ exponent) rest { s with isOk := false, isFloat := true } :=
      .digits hds (.inr hne) (.exponent hexponent hstop rfl hexp hback)
    obtain ⟨s', r, heq, hok', hends⟩ := hrest
    refine ⟨s', r, ?_, hok', hends.cons⟩
    have hfuel : (byte '.' :: ds ++ exponent).length + rest.length =
        ds.length + (exponent.length + rest.length) + 1 := by
      simp only [List.cons_append, List.length_cons, List.length_append]
      omega
    rw [hfuel, List.cons_append, List.cons_append, getNumFrom_cons,
      if_neg (by decide : ¬ isDigit (byte '.') = true), if_pos ⟨rfl, hfloat, hexp, hok⟩, heq]

end

/-- `GetNum` on a number. -/
theorem getNum_number {head : Byte} {t rest : List Byte} (h : Number (head :: t))
    (hstop : Stops rest) (text : List Byte) (p : JsonValuePtr) :
    getNum (readerAt text (t ++ rest)) head p = .ok p (readerAt (text ++ t) rest) := by
  have hreads : NumReads (t.length + rest.length) text t rest
      ⟨head ≠ byte '-', false, false, false⟩ := by
    have hparts {ds fraction exponent : List Byte} {s : NumState} (hds : Digits ds)
        (hne : s.isOk = true ∨ ds ≠ []) (hfraction : Fraction fraction)
        (hexponent : Exponent exponent)
        (hs : s.isFloat = false ∧ s.isExponential = false ∧ s.isNeedback = false) :
        NumReads ((ds ++ (fraction ++ exponent)).length + rest.length) text
          (ds ++ (fraction ++ exponent)) rest s := by
      rw [List.length_append, Nat.add_assoc]
      exact .digits hds hne (.fraction hfraction hexponent hstop rfl hs.1 hs.2.1 hs.2.2)
    cases h with
    | unsigned hunsigned =>
      obtain ⟨ds, fraction, exponent, heq, hne, hds, hfraction, hexponent⟩ := hunsigned
      obtain ⟨d, ds, rfl⟩ := List.exists_cons_of_ne_nil hne
      obtain ⟨rfl, rfl⟩ := List.cons.inj heq
      have hminus : head ≠ byte '-' := by
        rintro rfl
        exact absurd (hds (byte '-') (by simp)) (by decide)
      exact hparts (fun c hc => hds c (by simp [hc])) (.inl (by simpa using hminus)) hfraction
        hexponent ⟨rfl, rfl, rfl⟩
    | negative hunsigned =>
      obtain ⟨ds, fraction, exponent, rfl, hne, hds, hfraction, hexponent⟩ := hunsigned
      exact hparts hds (.inr hne) hfraction hexponent ⟨rfl, rfl, rfl⟩
  obtain ⟨s, r, heq, hok, hends⟩ := hreads
  rw [getNum, left_readerAt, List.length_append, heq, bind_ok, if_neg (by simp [hok])]
  obtain ⟨hback, rfl, rfl⟩ | ⟨hback, c, rest', rfl, rfl⟩ := hends
  · simp [hback]
  · rw [if_pos hback, ← List.append_assoc, back_append, bind_ok]

/-! Literals. -/

def literals : List (List Byte) := [ascii "true", ascii "false", ascii "null"]

/-- The readers of literals have seen the first letter and look for the whole word
behind it. `t` is what they take, and the last letter of the word is still to come. -/
def Doubled (t rest : List Byte) : Prop :=
  ∃ word ∈ literals, ∃ c x e rest', t = c :: x ∧ rest = e :: rest' ∧
    word.head? = some (toLower c) ∧ (x ++ [e]).map toLower = word

theorem literals_spec : ∀ word ∈ literals, 0 ∉ word ∧ word ≠ [] ∧ word.map toLower = word := by
  decide

theorem literals_ne_zero {word : List Byte} (h : word ∈ literals) : ∀ c ∈ word, c ≠ 0 := by
  rintro c hc rfl
  exact (literals_spec word h).1 hc

/-- Whether the word is found behind the first letter, and what is read then. -/
theorem literal_cases {word : List Byte} (hword : word ∈ literals) (rest : List Byte) :
    strncasecmp rest word word.length ≠ 0 ∨
    strncasecmp rest word word.length = 0 ∧
      ∃ x e rest', rest = x ++ e :: rest' ∧ (x ++ [e]).map toLower = word ∧
        ∀ text, (readerAt text rest).skip (word.length - 1) =
          .ok () (readerAt (text ++ x) (e :: rest')) := by
  obtain ⟨-, hne, hlower⟩ := literals_spec word hword
  by_cases hfound : strncasecmp rest word word.length = 0
  · obtain ⟨xs, rest', rfl, hmap⟩ :=
      (strncasecmp_eq_zero_iff (literals_ne_zero hword) rest).mp hfound
    rw [hlower] at hmap
    have hxs : xs ≠ [] := by
      rintro rfl
      exact hne hmap.symm
    obtain ⟨x, e, rfl⟩ : ∃ x e, xs = x ++ [e] :=
      ⟨xs.dropLast, xs.getLast hxs, (List.dropLast_append_getLast hxs).symm⟩
    have hlen : x.length = word.length - 1 := by
      rw [← hmap, List.length_map, List.length_append, List.length_singleton]
      rfl
    refine .inr ⟨hfound, x, e, rest', by simp, hmap, fun text => ?_⟩
    rw [← hlen, List.append_assoc]
    exact skip_append text x (e :: rest')
  · exact .inl hfound

/-- `GetBoolean` on any input. -/
theorem getBoolean_cases (text rest : List Byte) {c : Byte} :
    (∃ text', getBoolean (readerAt text rest) c = .error text') ∨
    (∃ b t rest', rest = t ++ rest' ∧ Doubled (c :: t) rest' ∧
      getBoolean (readerAt text rest) c = .ok (.boolean b) (readerAt (text ++ t) rest')) := by
  have htrue : ascii "true" ∈ literals := by decide
  have hfalse : ascii "false" ∈ literals := by decide
  rw [getBoolean, peek_readerAt]
  by_cases ht : (c = byte 't' ∨ c = byte 'T') ∧ strncasecmp rest (ascii "true") 4 = 0
  · rw [if_pos ht]
    obtain ⟨hc, hfound⟩ := ht
    rcases literal_cases htrue rest with hnot | ⟨-, x, e, rest', rfl, hmap, hskip⟩
    · exact absurd hfound hnot
    · refine .inr ⟨true, x, e :: rest', rfl, ⟨_, htrue, c, x, e, rest', rfl, rfl, ?_, hmap⟩, ?_⟩
      · rcases hc with rfl | rfl <;> decide
      · exact congrArg (fun o => Outcome.bind o _) (hskip text)
  rw [if_neg ht]
  by_cases hf : (c = byte 'f' ∨ c = byte 'F') ∧ strncasecmp rest (ascii "false") 5 = 0
  · rw [if_pos hf]
    obtain ⟨hc, hfound⟩ := hf
    rcases literal_cases hfalse rest with hnot | ⟨-, x, e, rest', rfl, hmap, hskip⟩
    · exact absurd hfound hnot
    · refine .inr ⟨false, x, e :: rest', rfl, ⟨_, hfalse, c, x, e, rest', rfl, rfl, ?_, hmap⟩, ?_⟩
      · rcases hc with rfl | rfl <;> decide
      · exact congrArg (fun o => Outcome.bind o _) (hskip text)
  rw [if_neg hf]
  exact .inl ⟨_, rfl⟩

/-- `GetNull` on any input. -/
theorem getNull_cases (text rest : List Byte) {c : Byte} (hc : c = byte 'n' ∨ c = byte 'N')
    (p : JsonValuePtr) :
    (∃ text', getNull (readerAt text rest) p = .error text') ∨
    (∃ t rest', rest = t ++ rest' ∧ Doubled (c :: t) rest' ∧
      getNull (readerAt text rest) p = .ok p (readerAt (text ++ t) rest')) := by
  have hnull : ascii "null" ∈ literals := by decide
  rw [getNull, peek_readerAt]
  by_cases hfound : strncasecmp rest (ascii "null") 4 = 0
  · rw [if_pos hfound]
    rcases literal_cases hnull rest with hnot | ⟨-, x, e, rest', rfl, hmap, hskip⟩
    · exact absurd hfound hnot
    · refine .inr ⟨x, e :: rest', rfl, ⟨_, hnull, c, x, e, rest', rfl, rfl, ?_, hmap⟩, ?_⟩
      · rcases hc with rfl | rfl <;> decide
      · exact congrArg (fun o => Outcome.bind o _) (hskip text)
  · rw [if_neg hfound]
    exact .inl ⟨_, rfl⟩

end Voyager.Json
