import Voyager.JsonContainers

/-!
The texts of JSON, and what `GetValue` does on any input: what it takes is such a text,
with looser escapes and without literals, or a literal with its first letter doubled,
or a string that the input ends in; and it runs into an assertion only where the input
ends within the four bytes behind `\u`.
-/
namespace Voyager.Json

open Lib.CString

/-- The elements of an array and the members of an object include the bracket that
closes them. -/
inductive Kind
  | value
  | elements
  | members

/-- The texts with the escapes `E` and the literals `L`. -/
inductive Text (E L : List Byte → Prop) : Kind → List Byte → Prop
  | string {b} : Body E b → Text E L .value (quote :: (b ++ [quote]))
  | number {t} : Number t → Text E L .value t
  | literal {t} : L t → Text E L .value t
  | emptyArray {w} : White w → Text E L .value (byte '[' :: (w ++ [byte ']']))
  | array {w t} : White w → Text E L .elements t → Text E L .value (byte '[' :: (w ++ t))
  | emptyObj {w} : White w → Text E L .value (byte '{' :: (w ++ [byte '}']))
  | obj {w t} : White w → Text E L .members t → Text E L .value (byte '{' :: (w ++ t))
  | lastElement {t w} : Text E L .value t → White w → Text E L .elements (t ++ (w ++ [byte ']']))
  | element {t w w' u} : Text E L .value t → White w → White w' → Text E L .elements u →
      Text E L .elements (t ++ (w ++ byte ',' :: (w' ++ u)))
  | lastMember {k w w' t w''} : Body E k → White w → White w' → Text E L .value t → White w'' →
      Text E L .members
        (quote :: (k ++ quote :: (w ++ byte ':' :: (w' ++ (t ++ (w'' ++ [byte '}']))))))
  | member {k w w' t w'' w₃ u} : Body E k → White w → White w' → Text E L .value t → White w'' →
      White w₃ → Text E L .members u →
      Text E L .members (quote :: (k ++ quote :: (w ++ byte ':' :: (w' ++ (t ++ (w'' ++
        byte ',' :: (w₃ ++ u)))))))

/-- What the reader takes in containers. -/
abbrev LooseText : Kind → List Byte → Prop := Text LooseEscape fun _ => False

/-- A string that the input ends in: its last quote is escaped. -/
def Unclosed (t rest : List Byte) : Prop :=
  ∃ b, Body LooseEscape b ∧ t = quote :: (b ++ [backslash, quote]) ∧ rest = []

/-- Inputs that end within the four bytes behind the `\u` of a string that is reached. -/
inductive Cut : Kind → List Byte → Prop
  | string {b x} : Body LooseEscape b → x.length < 4 →
      Cut .value (quote :: (b ++ backslash :: byte 'u' :: x))
  | array {w s} : White w → Cut .elements s → Cut .value (byte '[' :: (w ++ s))
  | obj {w s} : White w → Cut .members s → Cut .value (byte '{' :: (w ++ s))
  | element {s} : Cut .value s → Cut .elements s
  | nextElement {t w w' s} : LooseText .value t → White w → White w' → Cut .elements s →
      Cut .elements (t ++ (w ++ byte ',' :: (w' ++ s)))
  | key {b x} : Body LooseEscape b → x.length < 4 →
      Cut .members (quote :: (b ++ backslash :: byte 'u' :: x))
  | member {k w w' s} : Body LooseEscape k → White w → White w' → Cut .value s →
      Cut .members (quote :: (k ++ quote :: (w ++ byte ':' :: (w' ++ s))))
  | nextMember {k w w' t w'' w₃ s} : Body LooseEscape k → White w → White w' →
      LooseText .value t → White w'' → White w₃ → Cut .members s →
      Cut .members (quote :: (k ++ quote :: (w ++ byte ':' :: (w' ++ (t ++ (w'' ++
        byte ',' :: (w₃ ++ s)))))))

/-- How reading `s` ends: with a text of `accept` taken behind white space, with an
error, or cut off. -/
def Spec (accept : List Byte → List Byte → Prop) (k : Kind) (text s : List Byte) :
    Outcome JsonValuePtr → Prop
  | .ok _ r => ∃ w t rest, White w ∧ s = w ++ (t ++ rest) ∧ r = readerAt (text ++ (w ++ t)) rest ∧
      accept t rest
  | .error _ => True
  | .assertion => ∃ w u, White w ∧ s = w ++ u ∧ Cut k u
  | .unfinished => False

def AcceptValue (t rest : List Byte) : Prop :=
  LooseText .value t ∨ Doubled t rest ∨ Unclosed t rest

/-- What stands behind white space and before a value changes what is accepted. -/
theorem Spec.behind (pre : List Byte) {accept accept' : List Byte → List Byte → Prop} {k k' : Kind}
    {text s : List Byte} {o : Outcome JsonValuePtr} (h : Spec accept k (text ++ pre) s o)
    (haccept : ∀ w t rest, White w → s = w ++ (t ++ rest) → accept t rest →
      ∃ w' t', White w' ∧ pre ++ (w ++ t) = w' ++ t' ∧ accept' t' rest)
    (hcut : ∀ w u, White w → Cut k u → ∃ w' u', White w' ∧ pre ++ (w ++ u) = w' ++ u' ∧ Cut k' u') :
    Spec accept' k' text (pre ++ s) o := by
  cases o with
  | ok v r =>
    obtain ⟨w, t, rest, hw, hs, hr, ht⟩ := h
    obtain ⟨w', t', hw', heq, ht'⟩ := haccept w t rest hw hs ht
    refine ⟨w', t', rest, hw', ?_, ?_, ht'⟩
    · rw [hs, ← List.append_assoc w t rest, ← List.append_assoc, heq, List.append_assoc]
    · rw [hr, List.append_assoc, heq]
  | error => trivial
  | assertion =>
    obtain ⟨w, u, hw, hs, hu⟩ := h
    obtain ⟨w', u', hw', heq, hu'⟩ := hcut w u hw hu
    exact ⟨w', u', hw', by rw [hs, heq], hu'⟩
  | unfinished => exact h

theorem White.append {w w' : List Byte} (h : White w) (h' : White w') : White (w ++ w') := by
  intro c hc
  rcases List.mem_append.mp hc with hc | hc
  · exact h c hc
  · exact h' c hc

/-- White space in front of everything. -/
theorem Spec.white {w : List Byte} (hw : White w) {accept : List Byte → List Byte → Prop} {k : Kind}
    {text s : List Byte} {o : Outcome JsonValuePtr} (h : Spec accept k (text ++ w) s o) :
    Spec accept k text (w ++ s) o := by
  refine h.behind w (fun w' t rest hw' _ ht => ?_) (fun w' u hw' hu => ?_)
  · exact ⟨w ++ w', t, hw.append hw', by simp, ht⟩
  · exact ⟨w ++ w', u, hw.append hw', by simp, hu⟩

/-- A doubled literal and an unclosed string are not followed by a comma or a closing
bracket. -/
theorem AcceptValue.loose {t w rest : List Byte} {c : Byte} (h : AcceptValue t (w ++ c :: rest))
    (hw : White w) (hc : c = byte ',' ∨ c = byte ']' ∨ c = byte '}') : LooseText .value t := by
  rcases h with ht | ⟨word, hword, _, x, e, _, -, hrest, -, hmap⟩ | ⟨_, -, -, hrest⟩
  · exact ht
  · have hletter : toLower e = byte 'e' ∨ toLower e = byte 'l' := by
      have hlast : some (toLower e) = word.getLast? := by
        rw [← hmap]
        simp
      have hwords : ∀ word ∈ literals, word.getLast? = some (byte 'e') ∨
          word.getLast? = some (byte 'l') := by decide
      simpa [← hlast] using hwords word hword
    cases w with
    | nil =>
      obtain ⟨rfl, -⟩ := List.cons.inj hrest
      rcases hc with rfl | rfl | rfl <;> exact absurd hletter (by decide)
    | cons a w =>
      obtain ⟨rfl, -⟩ := List.cons.inj hrest
      have hwhite := hw a (by simp)
      rcases isWhite_cases hwhite with rfl | rfl | rfl | rfl <;> exact absurd hletter (by decide)
  · simp at hrest

/-! Arrays. -/

def ValueSpec (n : ℕ) : Prop :=
  ∀ (text s : List Byte) (p : JsonValuePtr), 2 * s.length + 1 ≤ n →
    Spec AcceptValue .value text s (getValue n (readerAt text s) p)

/-- From the second element on. -/
def ElementsSpec (n : ℕ) : Prop :=
  ∀ (text s : List Byte) (value : List JsonValuePtr), 2 * s.length + 2 ≤ n →
    Spec (fun t _ => LooseText .elements t) .elements text s
      (getArrayFrom n (readerAt text s) (byte ',') false value)

def MembersSpec (n : ℕ) : Prop :=
  ∀ (text s : List Byte) (value : List (List Byte × JsonValuePtr)), 2 * s.length + 2 ≤ n →
    Spec (fun t _ => LooseText .members t) .members text s
      (getObjFrom n (readerAt text s) false value)

theorem afterElement_spec {n : ℕ} (helements : ElementsSpec n) (text : List Byte)
    {t rest : List Byte} (ht : AcceptValue t rest) (hn : 2 * rest.length ≤ n)
    (value : List JsonValuePtr) :
    Spec (fun t _ => LooseText .elements t) .elements text (t ++ rest)
      (afterElement n value (readerAt (text ++ t) rest)) := by
  rcases skipWhiteSpace_cases (text ++ t) rest with
    ⟨c, -, hc, hskip⟩ | ⟨w, c, rest, hw, -, rfl, hskip⟩
  · have hcomma : c ≠ byte ',' := by rintro rfl; cases hc
    have hclose : c ≠ byte ']' := by rintro rfl; cases hc
    rw [afterElement, hskip, bind_ok, if_neg hcomma, if_neg hclose]
    trivial
  rw [afterElement, hskip, bind_ok]
  simp only [List.length_append, List.length_cons] at hn
  by_cases hcomma : c = byte ','
  · have hloose := ht.loose hw (.inl hcomma)
    have hbehind : t ++ (w ++ c :: rest) = t ++ (w ++ [byte ',']) ++ rest := by simp [hcomma]
    rw [if_pos hcomma, hbehind, List.append_assoc text, hcomma]
    refine (helements _ rest value (by omega)).behind _ (fun w' u _ hw' _ hu => ?_)
      (fun w' u hw' hu => ?_)
    · exact ⟨[], _, white_nil, by simp, .element hloose hw hw' hu⟩
    · exact ⟨[], _, white_nil, by simp, .nextElement hloose hw hw' hu⟩
  rw [if_neg hcomma]
  by_cases hclose : c = byte ']'
  · rw [if_pos hclose, hclose]
    have hloose := ht.loose hw (.inr (.inl hclose))
    exact ⟨[], _, rest, white_nil, by simp, by simp, .lastElement hloose hw⟩
  · rw [if_neg hclose]
    trivial

/-- An element and what follows it. -/
theorem element_spec {n : ℕ} (hvalue : ValueSpec n) (helements : ElementsSpec n)
    (text : List Byte) {s : List Byte} (hn : 2 * s.length + 1 ≤ n) (value : List JsonValuePtr) :
    Spec (fun t _ => LooseText .elements t) .elements text s
      ((getValue n (readerAt text s) .null).bind fun v r => afterElement n (value ++ [v]) r) := by
  have hspec := hvalue text s .null hn
  cases heq : getValue n (readerAt text s) .null with
  | ok v r =>
    rw [heq] at hspec
    obtain ⟨w, t, rest, hw, rfl, rfl, ht⟩ := hspec
    simp only [List.length_append] at hn
    rw [bind_ok, ← List.append_assoc text w t]
    exact (afterElement_spec helements (text ++ w) ht (by omega) _).white hw
  | error => trivial
  | assertion =>
    rw [heq] at hspec
    obtain ⟨w, u, hw, hs, hu⟩ := hspec
    exact ⟨w, u, hw, hs, .element hu⟩
  | unfinished =>
    rw [heq] at hspec
    exact hspec

theorem getArrayFrom_spec {n : ℕ} (hvalue : ValueSpec n) (helements : ElementsSpec n) :
    ElementsSpec (n + 1) := by
  intro text s value hn
  cases s with
  | nil =>
    obtain ⟨text', heq⟩ := getArrayFrom_end n text (byte ',') false value
    rw [heq]
    trivial
  | cons d s =>
    rw [getArrayFrom_next]
    exact element_spec hvalue helements text (by omega) value

/-! Objects. -/

theorem afterMember_spec {n : ℕ} (hmembers : MembersSpec n) (text : List Byte)
    {k w w' t rest : List Byte} (hk : Body LooseEscape k) (hw : White w) (hw' : White w')
    (ht : AcceptValue t rest) (hn : 2 * rest.length ≤ n)
    (value : List (List Byte × JsonValuePtr)) :
    Spec (fun t _ => LooseText .members t) .members text
      (quote :: (k ++ quote :: (w ++ byte ':' :: w')) ++ (t ++ rest))
      (afterMember n value
        (readerAt (text ++ (quote :: (k ++ quote :: (w ++ byte ':' :: w')) ++ t)) rest)) := by
  rcases skipWhiteSpace_cases
    (text ++ (quote :: (k ++ quote :: (w ++ byte ':' :: w')) ++ t)) rest with
    ⟨c, -, hc, hskip⟩ | ⟨w'', c, rest, hw'', -, rfl, hskip⟩
  · have hcomma : c ≠ byte ',' := by rintro rfl; cases hc
    have hclose : c ≠ byte '}' := by rintro rfl; cases hc
    rw [afterMember, hskip, bind_ok, if_neg hcomma, if_neg hclose]
    trivial
  rw [afterMember, hskip, bind_ok]
  simp only [List.length_append, List.length_cons] at hn
  by_cases hcomma : c = byte ','
  · have hloose := ht.loose hw'' (.inl hcomma)
    have hbehind : quote :: (k ++ quote :: (w ++ byte ':' :: w')) ++ (t ++ (w'' ++ c :: rest)) =
        quote :: (k ++ quote :: (w ++ byte ':' :: w')) ++ t ++ (w'' ++ [byte ',']) ++ rest := by
      simp [hcomma]
    rw [if_pos hcomma, hbehind, List.append_assoc text, hcomma]
    refine (hmembers _ rest value (by omega)).behind _ (fun w₃ u _ hw₃ _ hu => ?_)
      (fun w₃ u hw₃ hu => ?_)
    · exact ⟨[], _, white_nil, by simp, .member hk hw hw' hloose hw'' hw₃ hu⟩
    · exact ⟨[], _, white_nil, by simp, .nextMember hk hw hw' hloose hw'' hw₃ hu⟩
  rw [if_neg hcomma]
  by_cases hclose : c = byte '}'
  · rw [if_pos hclose, hclose]
    have hloose := ht.loose hw'' (.inr (.inr hclose))
    exact ⟨[], _, rest, white_nil, by simp, by simp, .lastMember hk hw hw' hloose hw''⟩
  · rw [if_neg hclose]
    trivial

theorem afterKey_spec {n : ℕ} (hvalue : ValueSpec n) (hmembers : MembersSpec n)
    (text rest : List Byte) {k : List Byte} (hk : Body LooseEscape k) (hn : 2 * rest.length ≤ n)
    (str : List Byte) (value : List (List Byte × JsonValuePtr)) :
    Spec (fun t _ => LooseText .members t) .members text (quote :: (k ++ [quote]) ++ rest)
      (afterKey n str value (readerAt (text ++ quote :: (k ++ [quote])) rest)) := by
  rcases skipWhiteSpace_cases (text ++ quote :: (k ++ [quote])) rest with
    ⟨c, -, hc, hskip⟩ | ⟨w, c, rest, hw, -, rfl, hskip⟩
  · have hcolon : c ≠ byte ':' := by rintro rfl; cases hc
    rw [afterKey, hskip, bind_ok, if_pos hcolon]
    trivial
  rw [afterKey, hskip, bind_ok]
  simp only [List.length_append, List.length_cons] at hn
  by_cases hcolon : c = byte ':'
  · subst hcolon
    rw [if_neg (not_not.mpr rfl)]
    have hspec :=
      hvalue (text ++ quote :: (k ++ [quote]) ++ (w ++ [byte ':'])) rest .null (by omega)
    cases heq : getValue n
        (readerAt (text ++ quote :: (k ++ [quote]) ++ (w ++ [byte ':'])) rest) .null with
    | ok v r =>
      rw [heq] at hspec
      obtain ⟨w', t, rest, hw', rfl, rfl, ht⟩ := hspec
      simp only [List.length_append] at hn
      have hafter := afterMember_spec hmembers text hk hw hw' ht (by omega)
        (Lib.OrderedMap.insert str v value)
      simpa using hafter
    | error => trivial
    | assertion =>
      rw [heq] at hspec
      obtain ⟨w', u, hw', rfl, hu⟩ := hspec
      exact ⟨[], _, white_nil, by simp, .member hk hw hw' hu⟩
    | unfinished =>
      rw [heq] at hspec
      exact hspec
  · rw [if_pos hcolon]
    trivial

theorem getObjFrom_spec {n : ℕ} (hvalue : ValueSpec n) (hmembers : MembersSpec n) :
    MembersSpec (n + 1) := by
  intro text s value hn
  rcases skipWhiteSpace_cases text s with ⟨c, -, hc, hskip⟩ | ⟨w, c, rest, hw, -, rfl, hskip⟩
  · have hquote : c ≠ quote := by rintro rfl; cases hc
    rw [getObjFrom, hskip, bind_ok, if_neg (by simp), if_pos hquote]
    trivial
  by_cases hquote : c = quote
  · subst hquote
    rw [getObjFrom_key n text rest hw]
    simp only [List.length_append, List.length_cons] at hn
    rcases getString_cases (text ++ (w ++ [quote])) rest with ⟨text', heq⟩ |
      ⟨str, k, rest, hk, rfl, heq⟩ | ⟨str, k, hk, rfl, heq⟩ | ⟨b, x, hb, hx, rfl, heq⟩
    · rw [heq]
      trivial
    · simp only [List.length_append, List.length_cons] at hn
      rw [heq, bind_ok]
      have hafter :=
        (afterKey_spec hvalue hmembers (text ++ w) rest hk (by omega) str value).white hw
      simpa using hafter
    · obtain ⟨c, hc, hskip⟩ := skipWhiteSpace_white white_nil
        (text ++ (w ++ [quote]) ++ (k ++ [backslash, quote]))
      have hcolon : c ≠ byte ':' := by rintro rfl; cases hc
      rw [heq, bind_ok, afterKey, hskip, bind_ok, if_pos hcolon]
      trivial
    · rw [heq]
      exact ⟨w, _, hw, rfl, .key hb hx⟩
  · rw [getObjFrom, hskip, bind_ok, if_neg (by simp), if_pos hquote]
    trivial

/-- The first key may be missing. -/
theorem getObjFrom_true (n : ℕ) (text s : List Byte) (value : List (List Byte × JsonValuePtr)) :
    (∃ w rest, White w ∧ s = w ++ byte '}' :: rest) ∨
    getObjFrom (n + 1) (readerAt text s) true value =
      getObjFrom (n + 1) (readerAt text s) false value := by
  have hsame {c : Byte} {r : JsonReader} (hskip : skipWhiteSpace (readerAt text s) = .ok c r)
      (hclose : c ≠ byte '}') : getObjFrom (n + 1) (readerAt text s) true value =
        getObjFrom (n + 1) (readerAt text s) false value := by
    have hfirst : ¬ (c = byte '}' ∧ true = true) := fun h => hclose h.1
    have hnext : ¬ (c = byte '}' ∧ false = true) := fun h => hclose h.1
    rw [getObjFrom, getObjFrom, hskip, bind_ok, bind_ok, if_neg hfirst, if_neg hnext]
  rcases skipWhiteSpace_cases text s with ⟨c, -, hc, hskip⟩ | ⟨w, c, rest, hw, -, hs, hskip⟩
  · exact .inr (hsame hskip (by rintro rfl; cases hc))
  · by_cases hclose : c = byte '}'
    · exact .inl ⟨w, rest, hw, by rw [hs, hclose]⟩
    · exact .inr (hsame hskip hclose)

/-! Values. -/

/-- The first bytes that `GetValue` knows. -/
def Starts (c : Byte) : Prop :=
  c = byte '{' ∨ c = byte '[' ∨ c = quote ∨
  (c = byte 'T' ∨ c = byte 't' ∨ c = byte 'F' ∨ c = byte 'f') ∨
  (isDigit c = true ∨ c = byte '-') ∨ (c = byte 'n' ∨ c = byte 'N')

theorem getValue_other (n : ℕ) (p : JsonValuePtr) {r r' : JsonReader} {c : Byte}
    (hskip : skipWhiteSpace r = .ok c r') (hc : ¬ Starts c) :
    ∃ text', getValue (n + 1) r p = .error text' := by
  simp only [Starts, not_or] at hc
  obtain ⟨hobj, harray, hstring, hboolean, hnum, hnull⟩ := hc
  have heq := getValue_skip n p hskip
  rw [if_neg hobj, if_neg harray, if_neg hstring, if_neg (by simp [hboolean]),
    if_neg (by simp [hnum]), if_neg (by simp [hnull])] at heq
  exact ⟨_, heq⟩

theorem not_starts_white {c : Byte} (hc : isWhite c = true) : ¬ Starts c := by
  rcases isWhite_cases hc with rfl | rfl | rfl | rfl <;>
    exact fun h => absurd h (by unfold Starts; decide)

/-- An array, from its bracket on. -/
theorem getValue_array_spec {n : ℕ} (hvalue : ValueSpec n) (helements : ElementsSpec n)
    (text : List Byte) {w rest : List Byte} (hw : White w) (hn : 2 * rest.length + 1 ≤ n)
    (p : JsonValuePtr) :
    Spec AcceptValue .value text (w ++ byte '[' :: rest)
      (getValue (n + 2) (readerAt text (w ++ byte '[' :: rest)) p) := by
  rcases exists_white rest with hrest | ⟨w', c, rest, hw', hc, rfl⟩
  · obtain ⟨c, hc, hskip⟩ := skipWhiteSpace_white hrest (text ++ (w ++ [byte '[']))
    obtain ⟨text', heq⟩ := getArrayFrom_end n (text ++ (w ++ [byte '[']) ++ rest) c true []
    rw [getValue_array (n + 1) text rest p hw, hskip, bind_ok, heq]
    trivial
  cases rest with
  | nil =>
    obtain ⟨text', heq⟩ := getArrayFrom_end n (text ++ (w ++ [byte '[']) ++ (w' ++ [c])) c true []
    rw [getValue_array (n + 1) text _ p hw, skipWhiteSpace_cons hw' hc, bind_ok, heq]
    trivial
  | cons d rest =>
    by_cases hclose : c = byte ']'
    · rw [hclose, getValue_array (n + 1) text _ p hw, skipWhiteSpace_cons hw' (by decide), bind_ok,
        getArrayFrom_close]
      exact ⟨w, _, d :: rest, hw, by simp, by simp, .inl (.emptyArray hw')⟩
    · rw [getValue_element n text rest hw hw' hc hclose d p, List.append_assoc text]
      have hbehind : w ++ byte '[' :: (w' ++ c :: d :: rest) =
          w ++ [byte '['] ++ w' ++ c :: d :: rest := by simp
      rw [hbehind]
      simp only [List.length_append, List.length_cons] at hn
      have hspec := element_spec hvalue helements (text ++ (w ++ [byte '['] ++ w'))
        (s := c :: d :: rest) (by simp only [List.length_cons]; omega) []
      refine hspec.behind _ (fun w₁ t rest' hw₁ _ ht => ?_) (fun w₁ u hw₁ hu => ?_)
      · exact ⟨w, _, hw, by simp, .inl (.array (hw'.append hw₁) ht)⟩
      · exact ⟨w, _, hw, by simp, .array (hw'.append hw₁) hu⟩

/-- An object, from its brace on. -/
theorem getValue_obj_spec {n : ℕ} (hmembers : MembersSpec (n + 1)) (text : List Byte)
    {w rest : List Byte} (hw : White w) (hn : 2 * rest.length + 2 ≤ n + 1) (p : JsonValuePtr) :
    Spec AcceptValue .value text (w ++ byte '{' :: rest)
      (getValue (n + 2) (readerAt text (w ++ byte '{' :: rest)) p) := by
  rw [getValue_obj (n + 1) text rest p hw]
  rcases getObjFrom_true n (text ++ (w ++ [byte '{'])) rest [] with ⟨w', rest, hw', rfl⟩ | heq
  · rw [getObjFrom_close n _ rest hw']
    exact ⟨w, _, rest, hw, by simp, by simp, .inl (.emptyObj hw')⟩
  · have hbehind : w ++ byte '{' :: rest = w ++ [byte '{'] ++ rest := by simp
    rw [heq, hbehind]
    refine (hmembers _ rest [] hn).behind _ (fun w' t rest' hw' _ ht => ?_) (fun w' u hw' hu => ?_)
    · exact ⟨w, _, hw, by simp, .inl (.obj hw' ht)⟩
    · exact ⟨w, _, hw, by simp, .obj hw' hu⟩

theorem getValue_string_spec (n : ℕ) (text : List Byte) {w : List Byte} (rest : List Byte)
    (hw : White w) (p : JsonValuePtr) :
    Spec AcceptValue .value text (w ++ quote :: rest)
      (getValue (n + 1) (readerAt text (w ++ quote :: rest)) p) := by
  rw [getValue_string n text rest p hw]
  rcases getString_cases (text ++ (w ++ [quote])) rest with ⟨text', heq⟩ |
    ⟨str, b, rest, hb, rfl, heq⟩ | ⟨str, b, hb, rfl, heq⟩ | ⟨b, x, hb, hx, rfl, heq⟩
  · rw [heq]
    trivial
  · rw [heq]
    exact ⟨w, _, rest, hw, by simp, by simp, .inl (.string hb)⟩
  · rw [heq]
    exact ⟨w, _, [], hw, by simp, by simp, .inr (.inr ⟨b, hb, rfl, rfl⟩)⟩
  · rw [heq]
    exact ⟨w, _, hw, rfl, .string hb hx⟩

/-- Numbers and literals. -/
theorem getValue_word_spec (n : ℕ) (text : List Byte) {w : List Byte} (rest : List Byte)
    (hw : White w) {c : Byte} (hc : (c = byte 'T' ∨ c = byte 't' ∨ c = byte 'F' ∨ c = byte 'f') ∨
      (isDigit c = true ∨ c = byte '-') ∨ (c = byte 'n' ∨ c = byte 'N')) (p : JsonValuePtr) :
    Spec AcceptValue .value text (w ++ c :: rest)
      (getValue (n + 1) (readerAt text (w ++ c :: rest)) p) := by
  rcases hc with hboolean | hnum | hnull
  · rw [getValue_boolean n text rest p hw hboolean]
    rcases getBoolean_cases (text ++ (w ++ [c])) rest (c := c) with
      ⟨text', heq⟩ | ⟨b, t, rest, rfl, ht, heq⟩
    · rw [heq]
      trivial
    · rw [heq]
      exact ⟨w, _, rest, hw, by simp, by simp, .inr (.inl ht)⟩
  · rw [getValue_num n text rest p hw hnum]
    rcases getNum_cases (text ++ (w ++ [c])) rest p hnum with
      ⟨text', heq⟩ | ⟨t, rest, rfl, ht, heq⟩
    · rw [heq]
      trivial
    · rw [heq]
      exact ⟨w, _, rest, hw, by simp, by simp, .inl (.number ht)⟩
  · rw [getValue_null n text rest p hw hnull]
    rcases getNull_cases (text ++ (w ++ [c])) rest hnull p with
      ⟨text', heq⟩ | ⟨t, rest, rfl, ht, heq⟩
    · rw [heq]
      trivial
    · rw [heq]
      exact ⟨w, _, rest, hw, by simp, by simp, .inr (.inl ht)⟩

theorem getValue_spec_succ {n : ℕ} (h : ∀ m ≤ n, ValueSpec m ∧ ElementsSpec m ∧ MembersSpec m) :
    ValueSpec (n + 1) := by
  intro text s p hn
  rcases skipWhiteSpace_cases text s with ⟨c, -, hc, hskip⟩ | ⟨w, c, rest, hw, -, rfl, hskip⟩
  · obtain ⟨text', heq⟩ := getValue_other n p hskip (not_starts_white hc)
    rw [heq]
    trivial
  by_cases hstarts : Starts c
  · simp only [List.length_append, List.length_cons] at hn
    obtain ⟨n, rfl⟩ : ∃ m, n = m + 1 := Nat.exists_eq_add_one.mpr (by omega)
    rcases hstarts with rfl | rfl | rfl | hword
    · exact getValue_obj_spec (h (n + 1) le_rfl).2.2 text hw (by omega) p
    · obtain ⟨hvalue, helements, -⟩ := h n (by omega)
      exact getValue_array_spec hvalue helements text hw (by omega) p
    · exact getValue_string_spec (n + 1) text rest hw p
    · exact getValue_word_spec (n + 1) text rest hw hword p
  · obtain ⟨text', heq⟩ := getValue_other n p hskip hstarts
    rw [heq]
    trivial

/-- `GetValue` and both loops on any input, by induction on the fuel. -/
theorem getValue_spec (n : ℕ) : ∀ m ≤ n, ValueSpec m ∧ ElementsSpec m ∧ MembersSpec m := by
  induction n with
  | zero =>
    intro m hm
    obtain rfl : m = 0 := by omega
    exact ⟨fun _ _ _ h => by omega, fun _ _ _ h => by omega, fun _ _ _ h => by omega⟩
  | succ n ih =>
    intro m hm
    by_cases hle : m ≤ n
    · exact ih m hle
    · obtain rfl : m = n + 1 := by omega
      obtain ⟨hvalue, helements, hmembers⟩ := ih n le_rfl
      exact ⟨getValue_spec_succ ih, getArrayFrom_spec hvalue helements,
        getObjFrom_spec hvalue hmembers⟩

/-- `Parse` on any input. -/
theorem parse_spec (s : List Byte) (p : JsonValuePtr) :
    Spec AcceptValue .value [] s (parse s p) :=
  (getValue_spec _ _ le_rfl).1 [] s p (by omega)

end Voyager.Json
