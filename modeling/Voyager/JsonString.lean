import Voyager.JsonReader

/-!
Strings. The writer copies the runs of bytes that need no escape, which is shown to
be one replacement for each byte. The reader is followed piece by piece: a byte as
it is, an escape, or `\u` with the four bytes behind it, whatever they are.
-/
namespace Voyager.Json

open Lib.CString

/-! The text between the quotes. -/

/-- Pieces of a string with the escapes `E`, each given without its backslash. -/
inductive Body (E : List Byte → Prop) : List Byte → Prop
  | nil : Body E []
  | raw {c b} : c ≠ quote → c ≠ backslash → Body E b → Body E (c :: b)
  | escape {e b} : E e → Body E b → Body E (backslash :: (e ++ b))

/-- What `GetHex` makes of the bytes `h`. -/
def hexCode (h : List Byte) : ℕ := h.foldl hexStep 0

/-- The escapes that the reader takes. -/
inductive LooseEscape : List Byte → Prop
  | char {c} : c ≠ byte 'u' → LooseEscape [c]
  | unicode {h} : h.length = 4 → hexCode h ≤ 255 → LooseEscape (byte 'u' :: h)

theorem getHexFrom_append (h : List Byte) (text rest : List Byte) (code : ℕ) :
    getHexFrom h.length (readerAt text (h ++ rest)) code =
      .ok (h.foldl hexStep code) (readerAt (text ++ h) rest) := by
  induction h generalizing text code with
  | nil => simp [getHexFrom]
  | cons c h ih => simp [getHexFrom, ih]

theorem getHex_append {h : List Byte} (hlen : h.length = 4) (text rest : List Byte) :
    getHex (readerAt text (h ++ rest)) = .ok (hexCode h) (readerAt (text ++ h) rest) := by
  rw [getHex, ← hlen]
  exact getHexFrom_append h text rest 0

theorem getHexFrom_short {n : ℕ} (text rest : List Byte) (code : ℕ) (hn : rest.length < n) :
    getHexFrom n (readerAt text rest) code = .assertion := by
  induction n generalizing text rest code with
  | zero => omega
  | succ n ih =>
    cases rest with
    | nil => simp [getHexFrom]
    | cons c rest =>
      rw [List.length_cons] at hn
      simp [getHexFrom, ih (text ++ [c]) rest (hexStep code c) (by omega)]

/-! One turn of the loop of `GetString`. -/

/-- The value with the run that is still to be copied. -/
def StringState.copied (s : StringState) (data : List Byte) : List Byte :=
  s.value ++ (data.drop s.peek).take s.i

theorem append_readerAt (s : StringState) (text rest : List Byte) :
    s.append (readerAt text rest) = s.copied (text ++ rest) := rfl

section

variable (n : ℕ) (text rest : List Byte) (s : StringState)

@[simp] theorem getStringFrom_nil : getStringFrom quote n (readerAt text []) s =
    .ok s (readerAt text []) := by
  cases n <;> simp [getStringFrom]

theorem getStringFrom_quote : getStringFrom quote (n + 1) (readerAt text (quote :: rest)) s =
    .ok { s with c := quote } (readerAt (text ++ [quote]) rest) := by
  have hne : quote ≠ backslash := by decide
  simp [getStringFrom, hne]

theorem getStringFrom_raw {c : Byte} (hquote : c ≠ quote) (hbackslash : c ≠ backslash) :
    getStringFrom quote (n + 1) (readerAt text (c :: rest)) s =
      getStringFrom quote n (readerAt (text ++ [c]) rest)
        { s with i := (s.i + 1) % 2 ^ 32, c := c } := by
  simp [getStringFrom, hquote, hbackslash]

theorem getStringFrom_backslash_nil :
    getStringFrom quote (n + 1) (readerAt text [backslash]) s =
      .ok ⟨s.copied (text ++ [backslash]), s.peek + s.i + 2, 0, backslash⟩
        (readerAt (text ++ [backslash]) []) := by
  simp [getStringFrom, append_readerAt]

theorem getStringFrom_backslash (c : Byte) :
    getStringFrom quote (n + 1) (readerAt text (backslash :: c :: rest)) s =
      if c = byte 'u' then
        (getHex (readerAt (text ++ [backslash, c]) rest)).bind fun icode r =>
          if 255 < icode then .error (info "get string error(\\u)" r)
          else
            getStringFrom quote n r
              ⟨s.copied (text ++ backslash :: c :: rest) ++ [UInt8.ofNat icode],
                s.peek + s.i + 2 + 4, 0, c⟩
      else
        getStringFrom quote n (readerAt (text ++ [backslash, c]) rest)
          ⟨s.copied (text ++ backslash :: c :: rest) ++ unescape c, s.peek + s.i + 2, 0, c⟩ := by
  simp [getStringFrom, append_readerAt]

theorem getStringFrom_char {c : Byte} (hc : c ≠ byte 'u') :
    getStringFrom quote (n + 1) (readerAt text (backslash :: c :: rest)) s =
      getStringFrom quote n (readerAt (text ++ [backslash, c]) rest)
        ⟨s.copied (text ++ backslash :: c :: rest) ++ unescape c, s.peek + s.i + 2, 0, c⟩ :=
  (getStringFrom_backslash n text rest s c).trans (if_neg hc)

theorem getStringFrom_unicode {h : List Byte} (hlen : h.length = 4) (hcode : hexCode h ≤ 255) :
    getStringFrom quote (n + 1) (readerAt text (backslash :: byte 'u' :: (h ++ rest))) s =
      getStringFrom quote n (readerAt (text ++ backslash :: byte 'u' :: h) rest)
        ⟨s.copied (text ++ backslash :: byte 'u' :: (h ++ rest)) ++ [UInt8.ofNat (hexCode h)],
          s.peek + s.i + 2 + 4, 0, byte 'u'⟩ := by
  rw [getStringFrom_backslash, if_pos rfl, getHex_append hlen, bind_ok, if_neg (by omega),
    List.append_assoc]
  rfl

end

/-- What `GetString` finds: a quote that ends the string, or the end of the input.
There the last byte read may be a quote only if it was escaped. -/
def StringSpec (text rest : List Byte) (c₀ : Byte) : Outcome StringState → Prop
  | .ok s r =>
    (∃ b rest', Body LooseEscape b ∧ rest = b ++ quote :: rest' ∧ s.c = quote ∧
      r = readerAt (text ++ (b ++ [quote])) rest') ∨
    (r = readerAt (text ++ rest) [] ∧
      (s.c = quote → (rest = [] ∧ c₀ = quote) ∨
        ∃ b, Body LooseEscape b ∧ rest = b ++ [backslash, quote]))
  | .error _ => True
  | .assertion => ∃ b x, Body LooseEscape b ∧ x.length < 4 ∧
      rest = b ++ backslash :: byte 'u' :: x
  | .unfinished => False

/-- A piece in front. -/
theorem StringSpec.piece (piece : List Byte) {text rest : List Byte} {c₀ c : Byte}
    {o : Outcome StringState} (h : StringSpec (text ++ piece) rest c o)
    (hpiece : ∀ b, Body LooseEscape b → Body LooseEscape (piece ++ b))
    (hquote : c = quote → piece = [backslash, quote]) :
    StringSpec text (piece ++ rest) c₀ o := by
  cases o with
  | ok s r =>
    rcases h with ⟨b, rest', hb, rfl, hc, hr⟩ | ⟨hr, hlast⟩
    · exact .inl ⟨piece ++ b, rest', hpiece b hb, by simp, hc, by simpa using hr⟩
    · refine .inr ⟨by simpa using hr, fun hs => .inr ?_⟩
      rcases hlast hs with ⟨rfl, hc⟩ | ⟨b, hb, rfl⟩
      · exact ⟨[], .nil, by simp [hquote hc]⟩
      · exact ⟨piece ++ b, hpiece b hb, by simp⟩
  | error => trivial
  | assertion =>
    obtain ⟨b, x, hb, hx, rfl⟩ := h
    exact ⟨piece ++ b, x, hpiece b hb, hx, by simp⟩
  | unfinished => exact h

/-- The loop of `GetString` on any input. -/
theorem getStringFrom_spec (n : ℕ) (text rest : List Byte) (s : StringState)
    (hn : rest.length ≤ n) :
    StringSpec text rest s.c (getStringFrom quote n (readerAt text rest) s) := by
  induction n generalizing text rest s with
  | zero =>
    obtain rfl : rest = [] := List.length_eq_zero_iff.mp (by omega)
    rw [getStringFrom_nil]
    exact .inr ⟨by simp, fun hc => .inl ⟨rfl, hc⟩⟩
  | succ n ih =>
    cases rest with
    | nil =>
      rw [getStringFrom_nil]
      exact .inr ⟨by simp, fun hc => .inl ⟨rfl, hc⟩⟩
    | cons c rest =>
      simp only [List.length_cons] at hn
      by_cases hquote : c = quote
      · rw [hquote, getStringFrom_quote]
        exact .inl ⟨[], rest, .nil, rfl, rfl, rfl⟩
      by_cases hbackslash : c = backslash
      · rw [hbackslash]
        cases rest with
        | nil =>
          rw [getStringFrom_backslash_nil]
          have hne : backslash ≠ quote := by decide
          exact .inr ⟨rfl, fun hc => absurd hc hne⟩
        | cons c rest =>
          simp only [List.length_cons] at hn
          rw [getStringFrom_backslash]
          by_cases hu : c = byte 'u'
          · rw [if_pos hu, hu]
            by_cases hlen : rest.length < 4
            · rw [getHex, getHexFrom_short _ _ _ hlen]
              exact ⟨[], rest, .nil, hlen, rfl⟩
            · obtain ⟨h, rest, rfl, hh⟩ : ∃ h rest', rest = h ++ rest' ∧ h.length = 4 :=
                ⟨rest.take 4, rest.drop 4, by simp, by simp; omega⟩
              rw [getHex_append hh, bind_ok]
              by_cases hcode : 255 < hexCode h
              · rw [if_pos hcode]
                trivial
              · rw [if_neg hcode]
                have hne : byte 'u' ≠ quote := by decide
                rw [List.append_assoc]
                refine StringSpec.piece (backslash :: byte 'u' :: h) (ih _ _ _ ?_)
                  (fun b hb => ?_) (fun hc => absurd hc hne)
                · simp only [List.length_append] at hn
                  omega
                · exact .escape (.unicode hh (by omega)) hb
          · rw [if_neg hu]
            refine StringSpec.piece [backslash, c] (ih _ _ _ (by omega))
              (fun b hb => .escape (.char hu) hb) (fun hc => ?_)
            rw [show c = quote from hc]
      · rw [getStringFrom_raw _ _ _ _ hquote hbackslash]
        exact StringSpec.piece [c] (ih _ _ _ (by omega))
          (fun b hb => .raw hquote hbackslash hb) (fun hc => absurd hc hquote)

/-- `GetString` on any input. -/
theorem getString_cases (text rest : List Byte) :
    (∃ text', getString (readerAt text rest) quote = .error text') ∨
    (∃ value b rest', Body LooseEscape b ∧ rest = b ++ quote :: rest' ∧
      getString (readerAt text rest) quote = .ok value (readerAt (text ++ (b ++ [quote])) rest')) ∨
    (∃ value b, Body LooseEscape b ∧ rest = b ++ [backslash, quote] ∧
      getString (readerAt text rest) quote = .ok value (readerAt (text ++ rest) [])) ∨
    (∃ b x, Body LooseEscape b ∧ x.length < 4 ∧ rest = b ++ backslash :: byte 'u' :: x ∧
      getString (readerAt text rest) quote = .assertion) := by
  have hspec := getStringFrom_spec rest.length text rest ⟨[], text.length, 0, 0⟩ le_rfl
  have hrun : getString (readerAt text rest) quote =
      (getStringFrom quote rest.length (readerAt text rest) ⟨[], text.length, 0, 0⟩).bind
        fun s r =>
          if s.c ≠ quote then .error (info "get string error(\\u)" r)
          else .ok (s.append r) r := by
    rw [getString, left_readerAt]
    rfl
  rw [hrun]
  cases heq : getStringFrom quote rest.length (readerAt text rest) ⟨[], text.length, 0, 0⟩ with
  | ok s r =>
    rw [heq] at hspec
    rw [bind_ok]
    rcases hspec with ⟨b, rest', hb, hrest, hc, hr⟩ | ⟨hr, hlast⟩
    · exact .inr (.inl ⟨_, b, rest', hb, hrest, by rw [if_neg (by simp [hc]), hr]⟩)
    · by_cases hc : s.c = quote
      · rcases hlast hc with ⟨-, hzero⟩ | ⟨b, hb, hrest⟩
        · have hne : (0 : Byte) ≠ quote := by decide
          exact absurd hzero hne
        · exact .inr (.inr (.inl ⟨_, b, hb, hrest, by rw [if_neg (by simp [hc]), hr]⟩))
      · exact .inl ⟨_, if_pos hc⟩
  | error text' => exact .inl ⟨text', rfl⟩
  | assertion =>
    rw [heq] at hspec
    obtain ⟨b, x, hb, hx, hrest⟩ := hspec
    exact .inr (.inr (.inr ⟨b, x, hb, hx, hrest, rfl⟩))
  | unfinished =>
    rw [heq] at hspec
    exact hspec.elim

/-- The loop of `GetString` over the pieces of a string. -/
theorem getStringFrom_body {b : List Byte} (hb : Body LooseEscape b) {n : ℕ} (hn : b.length ≤ n)
    (text rest : List Byte) (s : StringState) :
    ∃ n' s', n ≤ n' + b.length ∧
      getStringFrom quote n (readerAt text (b ++ rest)) s =
        getStringFrom quote n' (readerAt (text ++ b) rest) s' := by
  induction hb generalizing n text s with
  | nil => exact ⟨n, s, by simp, by simp⟩
  | @raw c b hquote hbackslash _ ih =>
    rw [List.length_cons] at hn
    obtain ⟨n, rfl⟩ : ∃ m, n = m + 1 := Nat.exists_eq_add_one.mpr (by omega)
    obtain ⟨n', s', hn', heq⟩ := ih (n := n) (by omega) (text ++ [c]) _
    refine ⟨n', s', by rw [List.length_cons]; omega, ?_⟩
    rw [List.cons_append, getStringFrom_raw _ _ _ _ hquote hbackslash, heq, List.append_assoc]
    rfl
  | @escape e b he _ ih =>
    rw [List.length_cons, List.length_append] at hn
    obtain ⟨n, rfl⟩ : ∃ m, n = m + 1 := Nat.exists_eq_add_one.mpr (by omega)
    obtain ⟨s', heq⟩ : ∃ s', getStringFrom quote (n + 1)
        (readerAt text (backslash :: (e ++ b) ++ rest)) s =
          getStringFrom quote n (readerAt (text ++ (backslash :: e)) (b ++ rest)) s' := by
      cases he with
      | @char c hc => exact ⟨_, getStringFrom_char n text (b ++ rest) s hc⟩
      | @unicode h hlen hcode =>
        have heq := getStringFrom_unicode n text (b ++ rest) s hlen hcode
        rw [← List.append_assoc] at heq
        exact ⟨_, heq⟩
    obtain ⟨n', s'', hn', heq'⟩ := ih (n := n) (by omega) (text ++ (backslash :: e)) s'
    refine ⟨n', s'', ?_, ?_⟩
    · rw [List.length_cons, List.length_append]
      omega
    · rw [heq, heq', List.append_assoc]
      rfl

theorem getString_of_getStringFrom {text rest : List Byte} {s : StringState} {r : JsonReader}
    (h : getStringFrom quote rest.length (readerAt text rest) ⟨[], text.length, 0, 0⟩ = .ok s r)
    (hc : s.c = quote) : getString (readerAt text rest) quote = .ok (s.append r) r := by
  rw [getString, left_readerAt]
  show (getStringFrom _ _ _ ⟨[], text.length, 0, 0⟩).bind _ = _
  rw [h, bind_ok, if_neg (by simp [hc])]

/-- A string that is closed. -/
theorem getString_closed {b : List Byte} (hb : Body LooseEscape b) (text rest : List Byte) :
    ∃ value, getString (readerAt text (b ++ quote :: rest)) quote =
      .ok value (readerAt (text ++ (b ++ [quote])) rest) := by
  obtain ⟨n, s, hn, heq⟩ := getStringFrom_body hb (n := (b ++ quote :: rest).length) (by simp)
    text (quote :: rest) ⟨[], text.length, 0, 0⟩
  simp only [List.length_append, List.length_cons] at hn
  obtain ⟨n, rfl⟩ : ∃ m, n = m + 1 := Nat.exists_eq_add_one.mpr (by omega)
  rw [getStringFrom_quote, List.append_assoc] at heq
  exact ⟨_, getString_of_getStringFrom heq rfl⟩

/-- The input ends with an escaped quote. -/
theorem getString_unclosed {b : List Byte} (hb : Body LooseEscape b) (text : List Byte) :
    ∃ value, getString (readerAt text (b ++ [backslash, quote])) quote =
      .ok value (readerAt (text ++ (b ++ [backslash, quote])) []) := by
  obtain ⟨n, s, hn, heq⟩ := getStringFrom_body hb (n := (b ++ [backslash, quote]).length) (by simp)
    text [backslash, quote] ⟨[], text.length, 0, 0⟩
  simp only [List.length_append, List.length_cons] at hn
  obtain ⟨n, rfl⟩ : ∃ m, n = m + 1 := Nat.exists_eq_add_one.mpr (by omega)
  have hne : quote ≠ byte 'u' := by decide
  rw [getStringFrom_backslash, if_neg hne, getStringFrom_nil, List.append_assoc] at heq
  exact ⟨_, getString_of_getStringFrom heq rfl⟩

/-- The input ends within the four bytes behind `\u`. -/
theorem getString_cut {b x : List Byte} (hb : Body LooseEscape b) (hx : x.length < 4)
    (text : List Byte) :
    getString (readerAt text (b ++ backslash :: byte 'u' :: x)) quote = .assertion := by
  obtain ⟨n, s, hn, heq⟩ := getStringFrom_body hb
    (n := (b ++ backslash :: byte 'u' :: x).length) (by simp) text (backslash :: byte 'u' :: x)
    ⟨[], text.length, 0, 0⟩
  simp only [List.length_append, List.length_cons] at hn
  obtain ⟨n, rfl⟩ : ∃ m, n = m + 1 := Nat.exists_eq_add_one.mpr (by omega)
  rw [getString, left_readerAt]
  show (getStringFrom _ _ _ ⟨[], text.length, 0, 0⟩).bind _ = _
  rw [heq, getStringFrom_backslash, if_pos rfl, getHex, getHexFrom_short _ _ _ hx]
  rfl

/-! Writing. -/

/-- What one byte of a string is written as. -/
def escapeByte (c : Byte) : List Byte := (replacement c).getD [c]

def escaped (s : List Byte) : List Byte := s.flatMap escapeByte

theorem escaped_cons (c : Byte) (s : List Byte) :
    escaped (c :: s) = escapeByte c ++ escaped s := rfl

theorem writeStringFrom_eq (done run rest result : List Byte) :
    writeStringFrom (done ++ run ++ rest) done.length (done ++ run).length result rest =
      result ++ run ++ escaped rest := by
  induction rest generalizing done run result with
  | nil => simp [writeStringFrom, escaped]
  | cons c rest ih =>
    have hrun : ((done ++ run ++ c :: rest).drop done.length).take
        ((done ++ run).length - done.length) = run := by
      rw [List.length_append, Nat.add_sub_cancel_left, List.append_assoc, List.drop_left,
        List.take_left]
    rw [writeStringFrom, escaped_cons, escapeByte]
    cases replacement c with
    | some replace =>
      have hmove : done ++ run ++ c :: rest = done ++ run ++ [c] ++ [] ++ rest := by simp
      have hlen : (done ++ run).length + 1 = (done ++ run ++ [c]).length := by
        simp only [List.length_append, List.length_singleton]
      dsimp only
      rw [hrun, hlen, hmove]
      simpa using ih (done ++ run ++ [c]) [] (result ++ run ++ replace)
    | none =>
      have hmove : done ++ run ++ c :: rest = done ++ (run ++ [c]) ++ rest := by simp
      have hlen : (done ++ run).length + 1 = (done ++ (run ++ [c])).length := by
        simp only [List.length_append, List.length_singleton, Nat.add_assoc]
      dsimp only
      rw [hlen, hmove, ih]
      simp

theorem writeString_eq (s : List Byte) : writeString s = quote :: (escaped s ++ [quote]) := by
  have heq := writeStringFrom_eq [] [] s [quote]
  simp only [List.nil_append, List.length_nil, List.append_nil] at heq
  rw [writeString, heq]
  rfl

/-- The replacements, and how they are read. -/
theorem replacement_cases {c : Byte} {replace : List Byte} (h : replacement c = some replace) :
    (∃ x, x ≠ byte 'u' ∧ unescape x = [c] ∧ replace = [backslash, x]) ∨
    (c.toNat < 32 ∧ replace = backslash :: byte 'u' :: hexDigits c.toNat) := by
  -- One test of the source: the byte is `d`, or the tests behind it decide.
  have htest (x d : Byte) (other : Option (List Byte)) (hx : x ≠ byte 'u' ∧ unescape x = [d])
      (h : (if c = d then some [backslash, x] else other) = some replace) :
      (∃ x, x ≠ byte 'u' ∧ unescape x = [c] ∧ replace = [backslash, x]) ∨
        other = some replace := by
    by_cases hc : c = d
    · rw [if_pos hc] at h
      exact .inl ⟨x, hx.1, by rw [hx.2, hc], (Option.some.inj h).symm⟩
    · rw [if_neg hc] at h
      exact .inr h
  unfold replacement at h
  refine (htest quote quote _ (by decide) h).elim .inl fun h => ?_
  refine (htest backslash backslash _ (by decide) h).elim .inl fun h => ?_
  refine (htest (byte '/') (byte '/') _ (by decide) h).elim .inl fun h => ?_
  refine (htest (byte 'b') 8 _ (by decide) h).elim .inl fun h => ?_
  refine (htest (byte 'f') 12 _ (by decide) h).elim .inl fun h => ?_
  refine (htest (byte 'n') 10 _ (by decide) h).elim .inl fun h => ?_
  refine (htest (byte 'r') 13 _ (by decide) h).elim .inl fun h => ?_
  refine (htest (byte 't') 9 _ (by decide) h).elim .inl fun h => ?_
  by_cases hcontrol : c < 32
  · rw [if_pos hcontrol] at h
    exact .inr ⟨UInt8.lt_iff_toNat_lt.mp hcontrol, (Option.some.inj h).symm⟩
  · rw [if_neg hcontrol] at h
    cases h

/-- A byte without a replacement is neither a quote nor a backslash. -/
theorem replacement_none {c : Byte} (h : replacement c = none) : c ≠ quote ∧ c ≠ backslash := by
  constructor
  · rintro rfl
    cases h
  · rintro rfl
    cases h

theorem hexCode_hexDigits : ∀ n < 32, (hexDigits n).length = 4 ∧ hexCode (hexDigits n) = n := by
  decide

/-- No run of bytes that are copied as they are reaches `2 ^ 32`, given the length of
the run so far. -/
def ShortRuns : ℕ → List Byte → Prop
  | _, [] => True
  | i, c :: rest =>
    if replacement c = none then i + 1 < 2 ^ 32 ∧ ShortRuns (i + 1) rest else ShortRuns 0 rest

/-- `text` was read and stands for `value`; a last part of both is still to be copied. -/
def Running (s : StringState) (text value : List Byte) : Prop :=
  ∃ done run, text = done ++ run ∧ s.peek = done.length ∧ s.i = run.length ∧
    value = s.value ++ run

theorem Running.copied {s : StringState} {text value : List Byte} (h : Running s text value)
    (rest : List Byte) : s.copied (text ++ rest) = value := by
  obtain ⟨done, run, rfl, hpeek, hi, rfl⟩ := h
  rw [StringState.copied, hpeek, hi, List.append_assoc, List.drop_left, List.take_left]

theorem Running.raw {s : StringState} {text value : List Byte} (h : Running s text value) (c : Byte)
    (hi : s.i + 1 < 2 ^ 32) :
    Running { s with i := (s.i + 1) % 2 ^ 32, c := c } (text ++ [c]) (value ++ [c]) := by
  obtain ⟨done, run, rfl, hpeek, hlen, rfl⟩ := h
  refine ⟨done, run ++ [c], by simp, hpeek, ?_, by simp⟩
  rw [List.length_append, List.length_singleton, ← hlen]
  exact Nat.mod_eq_of_lt hi

theorem Running.escape {s : StringState} {text value e : List Byte} (h : Running s text value)
    (rest new : List Byte) (c : Byte) :
    Running ⟨s.copied (text ++ rest) ++ new, s.peek + s.i + e.length, 0, c⟩ (text ++ e)
      (value ++ new) := by
  refine ⟨text ++ e, [], by simp, ?_, rfl, by simp [h.copied rest]⟩
  obtain ⟨done, run, rfl, hpeek, hlen, -⟩ := h
  simp [hpeek, hlen, Nat.add_assoc]

/-- The bytes that the loop holds, copied or not. -/
def StringState.held (s : StringState) : ℕ := s.value.length + s.i

theorem StringState.length_copied_le (s : StringState) (data : List Byte) :
    (s.copied data).length ≤ s.held := by
  rw [copied, held, List.length_append, List.length_take]
  omega

/-- The loop over a replacement. -/
theorem getStringFrom_replaced {c : Byte} {replace : List Byte}
    (h : replacement c = some replace) (n : ℕ) (text rest : List Byte) (s : StringState) :
    ∃ s', getStringFrom quote (n + 1) (readerAt text (replace ++ rest)) s =
        getStringFrom quote n (readerAt (text ++ replace) rest) s' ∧
      s'.i = 0 ∧ s'.held ≤ s.held + 1 ∧
      ∀ value, Running s text value → Running s' (text ++ replace) (value ++ [c]) := by
  have hheld (data : List Byte) (peek : ℕ) (d : Byte) :
      StringState.held ⟨s.copied data ++ [c], peek, 0, d⟩ ≤ s.held + 1 := by
    have hle := s.length_copied_le data
    simp only [StringState.held, List.length_append, List.length_singleton] at hle ⊢
    omega
  rcases replacement_cases h with ⟨x, hx, hunescape, rfl⟩ | ⟨hlt, rfl⟩
  · refine ⟨_, getStringFrom_char n text rest s hx, rfl, ?_, fun value hrunning => ?_⟩
    · rw [hunescape]
      exact hheld _ _ _
    · rw [hunescape]
      exact hrunning.escape _ [c] x
  · obtain ⟨hlen, hcode⟩ := hexCode_hexDigits c.toNat hlt
    have hbyte : UInt8.ofNat (hexCode (hexDigits c.toNat)) = c := by
      rw [hcode, UInt8.ofNat_toNat]
    refine ⟨_, getStringFrom_unicode n text rest s hlen (by omega), rfl, ?_,
      fun value hrunning => ?_⟩
    · rw [hbyte]
      exact hheld _ _ _
    · rw [hbyte]
      have hescape := hrunning.escape (e := backslash :: byte 'u' :: hexDigits c.toNat)
        (backslash :: byte 'u' :: (hexDigits c.toNat ++ rest)) [c] (byte 'u')
      simpa [hlen, Nat.add_assoc] using hescape

/-- The loop over a written string. What it holds grows by a byte for each byte of
the string, unless the count of a run starts again from zero. -/
theorem getStringFrom_escaped (x : List Byte) {n : ℕ} (hn : (escaped x).length ≤ n)
    (text rest : List Byte) (s : StringState) (hi : s.i < 2 ^ 32) :
    ∃ n' s', n ≤ n' + (escaped x).length ∧
      getStringFrom quote n (readerAt text (escaped x ++ rest)) s =
        getStringFrom quote n' (readerAt (text ++ escaped x) rest) s' ∧
      s'.held ≤ s.held + x.length ∧
      (¬ ShortRuns s.i x → s'.held < s.held + x.length) ∧
      (ShortRuns s.i x → ∀ value, Running s text value →
        Running s' (text ++ escaped x) (value ++ x)) := by
  induction x generalizing n text s with
  | nil =>
    refine ⟨n, s, by simp [escaped], by simp [escaped], by simp, fun h => ?_, fun _ value h => ?_⟩
    · exact absurd trivial h
    · simpa [escaped] using h
  | cons c x ih =>
    rw [escaped_cons] at hn ⊢
    simp only [List.length_append, List.length_cons, List.append_assoc] at hn ⊢
    cases hreplace : replacement c with
    | none =>
      obtain ⟨hquote, hbackslash⟩ := replacement_none hreplace
      have hbyte : escapeByte c = [c] := by rw [escapeByte, hreplace]; rfl
      rw [hbyte] at hn ⊢
      simp only [List.length_singleton] at hn ⊢
      obtain ⟨n, rfl⟩ : ∃ m, n = m + 1 := Nat.exists_eq_add_one.mpr (by omega)
      obtain ⟨n', s', hn', heq, hheld, hlong, hrunning⟩ :=
        ih (n := n) (by omega) (text ++ [c]) { s with i := (s.i + 1) % 2 ^ 32, c := c }
          (Nat.mod_lt _ (by decide))
      simp only [StringState.held] at hheld hlong ⊢
      refine ⟨n', s', by omega, ?_, ?_, fun h => ?_, fun h value hvalue => ?_⟩
      · rw [List.singleton_append, getStringFrom_raw _ _ _ _ hquote hbackslash, heq,
          List.append_assoc]
      · have hmod : (s.i + 1) % 2 ^ 32 ≤ s.i + 1 := Nat.mod_le _ _
        omega
      · rw [ShortRuns, if_pos hreplace, not_and] at h
        by_cases hwrap : s.i + 1 < 2 ^ 32
        · rw [Nat.mod_eq_of_lt hwrap] at hlong
          have hlt := hlong (h hwrap)
          omega
        · have hzero : (s.i + 1) % 2 ^ 32 = 0 := by
            have hfull : s.i + 1 = 2 ^ 32 := by omega
            rw [hfull, Nat.mod_self]
          omega
      · rw [ShortRuns, if_pos hreplace] at h
        rw [Nat.mod_eq_of_lt h.1] at hrunning
        have hstep := hvalue.raw c h.1
        rw [Nat.mod_eq_of_lt h.1] at hstep
        have hend := hrunning h.2 _ hstep
        simpa using hend
    | some replace =>
      have hbyte : escapeByte c = replace := by rw [escapeByte, hreplace]; rfl
      have hpos : 0 < replace.length := by
        rcases replacement_cases hreplace with ⟨x, -, -, rfl⟩ | ⟨-, rfl⟩ <;> simp
      rw [hbyte] at hn ⊢
      obtain ⟨n, rfl⟩ : ∃ m, n = m + 1 := Nat.exists_eq_add_one.mpr (by omega)
      obtain ⟨s₁, heq₁, hi₁, hheld₁, hrunning₁⟩ :=
        getStringFrom_replaced hreplace n text (escaped x ++ rest) s
      obtain ⟨n', s', hn', heq, hheld, hlong, hrunning⟩ :=
        ih (n := n) (by omega) (text ++ replace) s₁ (by rw [hi₁]; decide)
      have hshort : ShortRuns s.i (c :: x) ↔ ShortRuns s₁.i x := by
        rw [ShortRuns, hreplace, if_neg (by simp), hi₁]
      rw [hshort]
      refine ⟨n', s', by omega, ?_, by omega, fun h => ?_, fun h value hvalue => ?_⟩
      · rw [heq₁, heq, List.append_assoc]
      · have hlt := hlong h
        omega
      · have hend := hrunning h _ (hrunning₁ value hvalue)
        simpa using hend

/-- Reading back a written string. -/
theorem getString_escaped (x text rest : List Byte) :
    ∃ value, getString (readerAt text (escaped x ++ quote :: rest)) quote =
        .ok value (readerAt (text ++ (escaped x ++ [quote])) rest) ∧
      value.length ≤ x.length ∧ (¬ ShortRuns 0 x → value.length < x.length) ∧
      (ShortRuns 0 x → value = x) := by
  obtain ⟨n, s, hn, heq, hheld, hlong, hrunning⟩ :=
    getStringFrom_escaped x (n := (escaped x ++ quote :: rest).length) (by simp) text
      (quote :: rest) ⟨[], text.length, 0, 0⟩ (by simp)
  simp only [List.length_append, List.length_cons] at hn
  obtain ⟨n, rfl⟩ : ∃ m, n = m + 1 := Nat.exists_eq_add_one.mpr (by omega)
  rw [getStringFrom_quote, List.append_assoc] at heq
  have hstart : StringState.held ⟨[], text.length, 0, 0⟩ = 0 := rfl
  rw [hstart, Nat.zero_add] at hheld hlong
  have hle : (s.copied (text ++ (escaped x ++ [quote]) ++ rest)).length ≤ s.held :=
    s.length_copied_le _
  refine ⟨_, getString_of_getStringFrom heq rfl, ?_, fun h => ?_, fun h => ?_⟩
  · exact hle.trans hheld
  · exact lt_of_le_of_lt hle (hlong h)
  · have hend := hrunning h [] ⟨text, [], by simp, rfl, rfl, rfl⟩
    have hcopied := hend.copied (quote :: rest)
    simpa [append_readerAt, StringState.copied] using hcopied

end Voyager.Json
