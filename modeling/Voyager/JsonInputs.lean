import Voyager.JsonGrammar

/-!
The inputs that `Parse` takes without a text of the grammar in front, and those that it
reads beyond the end of: each kind is described on the input alone.
-/
namespace Voyager.Json

open Lib.CString

/-! Texts in the reader. -/

/-- An array without elements. -/
def Bare (t : List Byte) : Prop := ∃ w, White w ∧ t = byte '[' :: (w ++ [byte ']'])

/-- A number ends where no part of a number follows, an empty array needs one more byte. -/
def Delimited (t rest : List Byte) : Prop := (Number t → Stops rest) ∧ (Bare t → rest ≠ [])

/-- Inside of an array or an object every value is delimited. -/
theorem delimited_inner (t : List Byte) {w : List Byte} (hw : White w) {c : Byte}
    (hc : c = byte ',' ∨ c = byte ']' ∨ c = byte '}') (rest : List Byte) :
    Delimited t (w ++ c :: rest) := by
  refine ⟨fun _ => ?_, fun _ => by simp⟩
  cases w with
  | nil =>
    intro d hd
    obtain rfl : c = d := by simpa using hd
    rcases hc with rfl | rfl | rfl <;> decide
  | cons a w =>
    intro d hd
    obtain rfl : a = d := by simpa using hd
    have hwhite := hw a (by simp)
    rcases isWhite_cases hwhite with rfl | rfl | rfl | rfl <;> decide

/-- The first byte of what may stand where a value is expected, and that it is not the
last one. -/
def Opens (t : List Byte) : Prop :=
  ∃ c d t', t = c :: d :: t' ∧ isWhite c = false ∧ c ≠ byte ']'

theorem Opens.append {t : List Byte} (h : Opens t) (rest : List Byte) : Opens (t ++ rest) := by
  obtain ⟨c, d, t', rfl, hwhite, hc⟩ := h
  exact ⟨c, d, t' ++ rest, rfl, hwhite, hc⟩

/-- One more byte at least. -/
theorem opens_cons {c : Byte} {t : List Byte} (ht : t ≠ []) (hwhite : isWhite c = false)
    (hc : c ≠ byte ']') : Opens (c :: t) := by
  obtain ⟨d, t', rfl⟩ := List.exists_cons_of_ne_nil ht
  exact ⟨c, d, t', rfl, hwhite, hc⟩

theorem looseText_head {t : List Byte} (h : LooseText .value t) :
    ∃ c t', t = c :: t' ∧ isWhite c = false ∧ c ≠ byte ']' := by
  cases h with
  | string => exact ⟨quote, _, rfl, by decide, by decide⟩
  | number hnumber =>
    have hhead : ∃ c t', t = c :: t' ∧ (isDigit c = true ∨ c = byte '-') := hnumber.head
    obtain ⟨c, t', rfl, hc⟩ := hhead
    refine ⟨c, t', rfl, isWhite_of_number hc, ?_⟩
    rintro rfl
    exact absurd hc (by decide)
  | literal h => exact h.elim
  | emptyArray => exact ⟨byte '[', _, rfl, by decide, by decide⟩
  | array => exact ⟨byte '[', _, rfl, by decide, by decide⟩
  | emptyObj => exact ⟨byte '{', _, rfl, by decide, by decide⟩
  | obj => exact ⟨byte '{', _, rfl, by decide, by decide⟩

theorem opens_value {t : List Byte} (h : LooseText .value t) {rest : List Byte} (hne : rest ≠ []) :
    Opens (t ++ rest) := by
  obtain ⟨c, t', rfl, hwhite, hc⟩ := looseText_head h
  exact opens_cons (by simp [hne]) hwhite hc

theorem opens_elements {t : List Byte} (h : LooseText .elements t) : Opens t := by
  cases h with
  | lastElement ht => exact opens_value ht (by simp)
  | element ht => exact opens_value ht (by simp)

/-- What the functions do on a text of their kind. -/
def Accepts : Kind → List Byte → Prop
  | .value, t => ∀ (n : ℕ) (w text rest : List Byte) (p : JsonValuePtr), White w →
      2 * (w ++ (t ++ rest)).length + 1 ≤ n → Delimited t rest →
      ∃ v, getValue n (readerAt text (w ++ (t ++ rest))) p =
        .ok v (readerAt (text ++ (w ++ t)) rest)
  | .elements, t => ∀ (n : ℕ) (w text rest : List Byte) (value : List JsonValuePtr), White w →
      2 * (w ++ (t ++ rest)).length + 1 ≤ n →
      ∃ v, ((getValue n (readerAt text (w ++ (t ++ rest))) .null).bind fun v r =>
        afterElement n (value ++ [v]) r) = .ok v (readerAt (text ++ (w ++ t)) rest)
  | .members, t => ∀ (n : ℕ) (w text rest : List Byte) (isFirst : Bool)
      (value : List (List Byte × JsonValuePtr)), White w →
      2 * (w ++ (t ++ rest)).length ≤ n →
      ∃ v, getObjFrom n (readerAt text (w ++ (t ++ rest))) isFirst value =
        .ok v (readerAt (text ++ (w ++ t)) rest)

section

variable {t w : List Byte}

theorem accepts_string {b : List Byte} (hb : Body LooseEscape b) :
    Accepts .value (quote :: (b ++ [quote])) := by
  intro n w text rest p hw hn _
  obtain ⟨n, rfl⟩ : ∃ m, n = m + 1 := Nat.exists_eq_add_one.mpr (by omega)
  obtain ⟨value, heq⟩ := getString_closed hb (text ++ (w ++ [quote])) rest
  have htext : w ++ (quote :: (b ++ [quote]) ++ rest) = w ++ quote :: (b ++ quote :: rest) := by
    simp
  refine ⟨.string value, ?_⟩
  rw [htext, getValue_string n text _ p hw, heq, bind_ok]
  simp

theorem accepts_number (ht : Number t) : Accepts .value t := by
  intro n w text rest p hw hn hdelimited
  obtain ⟨n, rfl⟩ : ∃ m, n = m + 1 := Nat.exists_eq_add_one.mpr (by omega)
  have hstops := hdelimited.1 ht
  obtain ⟨c, t, rfl, hc⟩ := ht.head
  refine ⟨p, ?_⟩
  rw [List.cons_append, getValue_num n text _ p hw hc, getNum_number ht hstops]
  simp

theorem accepts_emptyArray (hw : White w) : Accepts .value (byte '[' :: (w ++ [byte ']'])) := by
  intro n w' text rest p hw' hn hdelimited
  have hne : rest ≠ [] := hdelimited.2 ⟨w, hw, rfl⟩
  obtain ⟨d, rest, rfl⟩ := List.exists_cons_of_ne_nil hne
  simp only [List.length_append, List.length_cons] at hn
  obtain ⟨n, rfl⟩ : ∃ m, n = m + 2 := Nat.exists_eq_add_of_le' (by omega)
  have htext : w' ++ (byte '[' :: (w ++ [byte ']']) ++ d :: rest) =
      w' ++ byte '[' :: (w ++ byte ']' :: d :: rest) := by simp
  refine ⟨.array [], ?_⟩
  rw [htext, getValue_array (n + 1) text _ p hw', skipWhiteSpace_cons hw (by decide), bind_ok,
    getArrayFrom_close]
  simp

theorem accepts_array (hw : White w) (ht : Opens t) (ih : Accepts .elements t) :
    Accepts .value (byte '[' :: (w ++ t)) := by
  intro n w' text rest p hw' hn _
  simp only [List.length_append, List.length_cons] at hn
  obtain ⟨n, rfl⟩ : ∃ m, n = m + 2 := Nat.exists_eq_add_of_le' (by omega)
  obtain ⟨v, heq⟩ := ih n [] (text ++ (w' ++ [byte '[']) ++ w) rest [] white_nil
    (by simp only [List.length_append, List.length_nil]; omega)
  obtain ⟨c, d, t, rfl, hwhite, hc⟩ := ht
  have htext : w' ++ (byte '[' :: (w ++ c :: d :: t) ++ rest) =
      w' ++ byte '[' :: (w ++ c :: d :: (t ++ rest)) := by simp
  refine ⟨v, ?_⟩
  rw [htext, getValue_element n text _ hw' hw hwhite hc d p]
  refine heq.trans ?_
  simp

theorem accepts_emptyObj (hw : White w) : Accepts .value (byte '{' :: (w ++ [byte '}'])) := by
  intro n w' text rest p hw' hn _
  simp only [List.length_append, List.length_cons] at hn
  obtain ⟨n, rfl⟩ : ∃ m, n = m + 2 := Nat.exists_eq_add_of_le' (by omega)
  have htext : w' ++ (byte '{' :: (w ++ [byte '}']) ++ rest) =
      w' ++ byte '{' :: (w ++ byte '}' :: rest) := by simp
  refine ⟨.obj [], ?_⟩
  rw [htext, getValue_obj (n + 1) text _ p hw', getObjFrom_close n _ rest hw]
  simp

theorem accepts_obj (hw : White w) (ih : Accepts .members t) :
    Accepts .value (byte '{' :: (w ++ t)) := by
  intro n w' text rest p hw' hn _
  simp only [List.length_append, List.length_cons] at hn
  obtain ⟨n, rfl⟩ : ∃ m, n = m + 1 := Nat.exists_eq_add_one.mpr (by omega)
  obtain ⟨v, heq⟩ := ih n w (text ++ (w' ++ [byte '{'])) rest true [] hw
    (by simp only [List.length_append]; omega)
  have htext : w' ++ (byte '{' :: (w ++ t) ++ rest) = w' ++ byte '{' :: (w ++ (t ++ rest)) := by
    simp
  refine ⟨v, ?_⟩
  rw [htext, getValue_obj n text _ p hw', heq]
  simp

end

section

variable {t w w' u : List Byte}

theorem accepts_lastElement (ih : Accepts .value t) (hw : White w) :
    Accepts .elements (t ++ (w ++ [byte ']'])) := by
  intro n w' text rest value hw' hn
  have htext : w' ++ (t ++ (w ++ [byte ']']) ++ rest) = w' ++ (t ++ (w ++ byte ']' :: rest)) := by
    simp
  rw [htext] at hn ⊢
  obtain ⟨v, heq⟩ := ih n w' text (w ++ byte ']' :: rest) .null hw' hn
    (delimited_inner t hw (.inr (.inl rfl)) rest)
  refine ⟨.array (value ++ [v]), ?_⟩
  rw [heq, bind_ok, afterElement_close n _ rest hw]
  simp

/-- From a comma on to the next element. -/
theorem afterElement_next (n : ℕ) (text : List Byte) (hw : White w) {rest : List Byte}
    (hne : rest ≠ []) (value : List JsonValuePtr) :
    afterElement (n + 1) value (readerAt text (w ++ byte ',' :: rest)) =
      (getValue n (readerAt (text ++ (w ++ [byte ','])) rest) .null).bind fun v r =>
        afterElement n (value ++ [v]) r := by
  obtain ⟨d, rest, rfl⟩ := List.exists_cons_of_ne_nil hne
  rw [afterElement_comma (n + 1) text _ hw, getArrayFrom_next]

theorem accepts_element (ih : Accepts .value t) (hw : White w) (hw' : White w') (hu : Opens u)
    (ih' : Accepts .elements u) : Accepts .elements (t ++ (w ++ byte ',' :: (w' ++ u))) := by
  intro n w₀ text rest value hw₀ hn
  have htext : w₀ ++ (t ++ (w ++ byte ',' :: (w' ++ u)) ++ rest) =
      w₀ ++ (t ++ (w ++ byte ',' :: (w' ++ (u ++ rest)))) := by simp
  rw [htext] at hn ⊢
  obtain ⟨v, heq⟩ := ih n w₀ text (w ++ byte ',' :: (w' ++ (u ++ rest))) .null hw₀ hn
    (delimited_inner t hw (.inl rfl) _)
  simp only [List.length_append, List.length_cons] at hn
  obtain ⟨n, rfl⟩ : ∃ m, n = m + 1 := Nat.exists_eq_add_one.mpr (by omega)
  obtain ⟨c, d, u', hcons, -, -⟩ := hu
  obtain ⟨v', heq'⟩ := ih' n w' (text ++ (w₀ ++ t) ++ (w ++ [byte ','])) rest (value ++ [v]) hw'
    (by simp only [List.length_append]; omega)
  refine ⟨v', ?_⟩
  rw [heq, bind_ok, afterElement_next n _ hw (by simp [hcons]), heq']
  simp

end

section

variable {k w w' t w'' : List Byte}

/-- A key and its colon. -/
theorem getObjFrom_colon (hk : Body LooseEscape k) (hw : White w) {w₀ : List Byte} (hw₀ : White w₀)
    (n : ℕ) (text rest : List Byte) (isFirst : Bool) (value : List (List Byte × JsonValuePtr)) :
    ∃ str, getObjFrom (n + 1) (readerAt text
      (w₀ ++ quote :: (k ++ quote :: (w ++ byte ':' :: rest)))) isFirst value =
        (getValue n (readerAt (text ++ (w₀ ++ quote :: (k ++ quote :: (w ++ [byte ':'])))) rest)
          .null).bind fun temp r => afterMember n (Lib.OrderedMap.insert str temp value) r := by
  obtain ⟨str, heq⟩ := getString_closed hk (text ++ (w₀ ++ [quote])) (w ++ byte ':' :: rest)
  refine ⟨str, ?_⟩
  rw [getObjFrom_key n text _ hw₀, heq, bind_ok, afterKey_colon n _ rest hw]
  simp

theorem accepts_lastMember (hk : Body LooseEscape k) (hw : White w) (hw' : White w')
    (ih : Accepts .value t) (hw'' : White w'') : Accepts .members
      (quote :: (k ++ quote :: (w ++ byte ':' :: (w' ++ (t ++ (w'' ++ [byte '}'])))))) := by
  intro n w₀ text rest isFirst value hw₀ hn
  have htext : w₀ ++
      (quote :: (k ++ quote :: (w ++ byte ':' :: (w' ++ (t ++ (w'' ++ [byte '}']))))) ++ rest) =
        w₀ ++ quote :: (k ++ quote :: (w ++ byte ':' ::
          (w' ++ (t ++ (w'' ++ byte '}' :: rest))))) := by simp
  rw [htext] at hn ⊢
  simp only [List.length_append, List.length_cons] at hn
  obtain ⟨n, rfl⟩ : ∃ m, n = m + 1 := Nat.exists_eq_add_one.mpr (by omega)
  obtain ⟨str, hcolon⟩ := getObjFrom_colon hk hw hw₀ n text
    (w' ++ (t ++ (w'' ++ byte '}' :: rest))) isFirst value
  obtain ⟨v, heq⟩ := ih n w' (text ++ (w₀ ++ quote :: (k ++ quote :: (w ++ [byte ':']))))
    (w'' ++ byte '}' :: rest) .null hw' (by simp only [List.length_append, List.length_cons]; omega)
    (delimited_inner t hw'' (.inr (.inr rfl)) rest)
  refine ⟨.obj (Lib.OrderedMap.insert str v value), ?_⟩
  rw [hcolon, heq, bind_ok, afterMember_close n _ rest hw'']
  simp

theorem accepts_member {w₃ u : List Byte} (hk : Body LooseEscape k) (hw : White w) (hw' : White w')
    (ih : Accepts .value t) (hw'' : White w'') (hw₃ : White w₃) (ih' : Accepts .members u) :
    Accepts .members (quote :: (k ++ quote :: (w ++ byte ':' :: (w' ++ (t ++ (w'' ++
      byte ',' :: (w₃ ++ u))))))) := by
  intro n w₀ text rest isFirst value hw₀ hn
  have htext : w₀ ++ (quote :: (k ++ quote :: (w ++ byte ':' :: (w' ++ (t ++ (w'' ++
      byte ',' :: (w₃ ++ u)))))) ++ rest) = w₀ ++ quote :: (k ++ quote :: (w ++ byte ':' ::
        (w' ++ (t ++ (w'' ++ byte ',' :: (w₃ ++ (u ++ rest))))))) := by simp
  rw [htext] at hn ⊢
  simp only [List.length_append, List.length_cons] at hn
  obtain ⟨n, rfl⟩ : ∃ m, n = m + 1 := Nat.exists_eq_add_one.mpr (by omega)
  obtain ⟨str, hcolon⟩ := getObjFrom_colon hk hw hw₀ n text
    (w' ++ (t ++ (w'' ++ byte ',' :: (w₃ ++ (u ++ rest))))) isFirst value
  obtain ⟨v, heq⟩ := ih n w' (text ++ (w₀ ++ quote :: (k ++ quote :: (w ++ [byte ':']))))
    (w'' ++ byte ',' :: (w₃ ++ (u ++ rest))) .null hw'
    (by simp only [List.length_append, List.length_cons]; omega)
    (delimited_inner t hw'' (.inl rfl) _)
  obtain ⟨v', heq'⟩ := ih' n w₃ (text ++ (w₀ ++ quote :: (k ++ quote :: (w ++ [byte ':']))) ++
    (w' ++ t) ++ (w'' ++ [byte ','])) rest false (Lib.OrderedMap.insert str v value) hw₃
    (by simp only [List.length_append]; omega)
  refine ⟨v', ?_⟩
  rw [hcolon, heq, bind_ok, afterMember_comma n _ _ hw'', heq']
  simp

end

/-- Every text of the looser grammar is taken. -/
theorem accepts {k : Kind} {t : List Byte} (h : LooseText k t) : Accepts k t := by
  induction h with
  | string hb => exact accepts_string hb
  | number ht => exact accepts_number ht
  | literal h => exact h.elim
  | emptyArray hw => exact accepts_emptyArray hw
  | array hw ht ih => exact accepts_array hw (opens_elements ht) ih
  | emptyObj hw => exact accepts_emptyObj hw
  | obj hw _ ih => exact accepts_obj hw ih
  | lastElement _ hw ih => exact accepts_lastElement ih hw
  | element _ hw hw' hu ih ih' => exact accepts_element ih hw hw' (opens_elements hu) ih'
  | lastMember hk hw hw' _ hw'' ih => exact accepts_lastMember hk hw hw' ih hw''
  | member hk hw hw' _ hw'' hw₃ _ ih ih' => exact accepts_member hk hw hw' ih hw'' hw₃ ih'

/-! Inputs that are cut off. -/

theorem opens_cut {k : Kind} {u : List Byte} (h : Cut k u) : Opens u := by
  induction h with
  | string => exact opens_cons (by simp) (by decide) (by decide)
  | array _ _ ih =>
    obtain ⟨c, d, s, rfl, -, -⟩ := ih
    exact opens_cons (by simp) (by decide) (by decide)
  | obj _ _ ih =>
    obtain ⟨c, d, s, rfl, -, -⟩ := ih
    exact opens_cons (by simp) (by decide) (by decide)
  | element _ ih => exact ih
  | nextElement ht => exact opens_value ht (by simp)
  | key => exact opens_cons (by simp) (by decide) (by decide)
  | member => exact opens_cons (by simp) (by decide) (by decide)
  | nextMember => exact opens_cons (by simp) (by decide) (by decide)

/-- What the functions do on an input that is cut off. -/
def Asserts : Kind → List Byte → Prop
  | .value, u => ∀ (n : ℕ) (w text : List Byte) (p : JsonValuePtr), White w →
      2 * (w ++ u).length + 1 ≤ n → getValue n (readerAt text (w ++ u)) p = .assertion
  | .elements, u => ∀ (n : ℕ) (w text : List Byte) (value : List JsonValuePtr), White w →
      2 * (w ++ u).length + 1 ≤ n →
      ((getValue n (readerAt text (w ++ u)) .null).bind fun v r =>
        afterElement n (value ++ [v]) r) = .assertion
  | .members, u => ∀ (n : ℕ) (w text : List Byte) (isFirst : Bool)
      (value : List (List Byte × JsonValuePtr)), White w → 2 * (w ++ u).length ≤ n →
      getObjFrom n (readerAt text (w ++ u)) isFirst value = .assertion

theorem asserts_array {w s : List Byte} (hw : White w) (hs : Opens s) (ih : Asserts .elements s) :
    Asserts .value (byte '[' :: (w ++ s)) := by
  intro n w' text p hw' hn
  simp only [List.length_append, List.length_cons] at hn
  obtain ⟨n, rfl⟩ : ∃ m, n = m + 2 := Nat.exists_eq_add_of_le' (by omega)
  have heq := ih n [] (text ++ (w' ++ [byte '[']) ++ w) [] white_nil
    (by simp only [List.length_append, List.length_nil]; omega)
  obtain ⟨c, d, s, rfl, hwhite, hc⟩ := hs
  rw [getValue_element n text _ hw' hw hwhite hc d p]
  exact heq

theorem asserts_nextElement {t w w' s : List Byte} (ht : LooseText .value t) (hw : White w)
    (hw' : White w') (hs : Opens s) (ih : Asserts .elements s) :
    Asserts .elements (t ++ (w ++ byte ',' :: (w' ++ s))) := by
  intro n w₀ text value hw₀ hn
  obtain ⟨v, heq⟩ := accepts ht n w₀ text (w ++ byte ',' :: (w' ++ s)) .null hw₀ hn
    (delimited_inner t hw (.inl rfl) _)
  simp only [List.length_append, List.length_cons] at hn
  obtain ⟨n, rfl⟩ : ∃ m, n = m + 1 := Nat.exists_eq_add_one.mpr (by omega)
  obtain ⟨c, d, s', hcons, -, -⟩ := hs
  rw [heq, bind_ok, afterElement_next n _ hw (by simp [hcons])]
  exact ih n w' _ (value ++ [v]) hw' (by simp only [List.length_append]; omega)

section

variable {k w w' : List Byte}

theorem asserts_member {s : List Byte} (hk : Body LooseEscape k) (hw : White w) (hw' : White w')
    (ih : Asserts .value s) :
    Asserts .members (quote :: (k ++ quote :: (w ++ byte ':' :: (w' ++ s)))) := by
  intro n w₀ text isFirst value hw₀ hn
  simp only [List.length_append, List.length_cons] at hn
  obtain ⟨n, rfl⟩ : ∃ m, n = m + 1 := Nat.exists_eq_add_one.mpr (by omega)
  obtain ⟨str, hcolon⟩ := getObjFrom_colon hk hw hw₀ n text (w' ++ s) isFirst value
  rw [hcolon, ih n w' _ .null hw' (by simp only [List.length_append]; omega)]
  rfl

theorem asserts_nextMember {t w'' w₃ s : List Byte} (hk : Body LooseEscape k) (hw : White w)
    (hw' : White w') (ht : LooseText .value t) (hw'' : White w'') (hw₃ : White w₃)
    (ih : Asserts .members s) : Asserts .members (quote :: (k ++ quote :: (w ++ byte ':' ::
      (w' ++ (t ++ (w'' ++ byte ',' :: (w₃ ++ s))))))) := by
  intro n w₀ text isFirst value hw₀ hn
  simp only [List.length_append, List.length_cons] at hn
  obtain ⟨n, rfl⟩ : ∃ m, n = m + 1 := Nat.exists_eq_add_one.mpr (by omega)
  obtain ⟨str, hcolon⟩ := getObjFrom_colon hk hw hw₀ n text
    (w' ++ (t ++ (w'' ++ byte ',' :: (w₃ ++ s)))) isFirst value
  obtain ⟨v, heq⟩ := accepts ht n w' (text ++ (w₀ ++ quote :: (k ++ quote :: (w ++ [byte ':']))))
    (w'' ++ byte ',' :: (w₃ ++ s)) .null hw'
    (by simp only [List.length_append, List.length_cons]; omega)
    (delimited_inner t hw'' (.inl rfl) _)
  rw [hcolon, heq, bind_ok, afterMember_comma n _ _ hw'']
  exact ih n w₃ _ false _ hw₃ (by simp only [List.length_append]; omega)

end

/-- On an input that is cut off a byte behind the end is read. -/
theorem asserts {k : Kind} {u : List Byte} (h : Cut k u) : Asserts k u := by
  induction h with
  | string hb hx =>
    intro n w text p hw hn
    obtain ⟨n, rfl⟩ : ∃ m, n = m + 1 := Nat.exists_eq_add_one.mpr (by omega)
    rw [getValue_string n text _ p hw, getString_cut hb hx]
    rfl
  | array hw hs ih => exact asserts_array hw (opens_cut hs) ih
  | obj hw _ ih =>
    intro n w' text p hw' hn
    simp only [List.length_append, List.length_cons] at hn
    obtain ⟨n, rfl⟩ : ∃ m, n = m + 1 := Nat.exists_eq_add_one.mpr (by omega)
    rw [getValue_obj n text _ p hw']
    exact ih n _ _ true [] hw (by simp only [List.length_append]; omega)
  | element _ ih =>
    intro n w text value hw hn
    rw [ih n w text .null hw hn]
    rfl
  | nextElement ht hw hw' hs ih => exact asserts_nextElement ht hw hw' (opens_cut hs) ih
  | key hb hx =>
    intro n w text isFirst value hw hn
    simp only [List.length_append, List.length_cons] at hn
    obtain ⟨n, rfl⟩ : ∃ m, n = m + 1 := Nat.exists_eq_add_one.mpr (by omega)
    rw [getObjFrom_key n text _ hw, getString_cut hb hx]
    rfl
  | member hk hw hw' _ ih => exact asserts_member hk hw hw' ih
  | nextMember hk hw hw' ht hw'' hw₃ _ ih => exact asserts_nextMember hk hw hw' ht hw'' hw₃ ih

/-- The reader stays inside of its input unless a string that it reaches is cut off
within the four bytes behind `\u`. -/
theorem parse_inside_iff (s : List Byte) (p : JsonValuePtr) :
    parse s p ≠ .assertion ↔ ¬ ∃ w u, White w ∧ Cut .value u ∧ s = w ++ u := by
  rw [not_iff_not]
  constructor
  · intro h
    have hspec := parse_spec s p
    rw [h] at hspec
    obtain ⟨w, u, hw, hs, hu⟩ := hspec
    exact ⟨w, u, hw, hu, hs⟩
  · rintro ⟨w, u, hw, hu, rfl⟩
    exact asserts hu _ w [] p hw (by omega)

/-- `"\u12` -/
theorem parse_outside : parse [quote, backslash, 117, 49, 50] .null = .assertion := by
  rfl

/-! The grammar that is meant. -/

def hexValue (c : Byte) : Option ℕ :=
  if 48 ≤ c ∧ c ≤ 57 then some (c.toNat - 48)
  else if 65 ≤ c ∧ c ≤ 70 then some (c.toNat - 55)
  else if 97 ≤ c ∧ c ≤ 102 then some (c.toNat - 87)
  else none

/-- One of the eight characters, or four hexadecimal digits that stand for a byte. -/
inductive StrictEscape : List Byte → Prop
  | char {c} : c ∈ [quote, backslash, byte '/', byte 'b', byte 'f', byte 'n', byte 'r', byte 't'] →
      StrictEscape [c]
  | unicode {h} {digits : List ℕ} : h.length = 4 → h.map hexValue = digits.map some →
      digits.foldl (fun code d => code * 16 + d) 0 ≤ 255 → StrictEscape (byte 'u' :: h)

/-- `true`, `false` and `null` in any case. -/
def Word (t : List Byte) : Prop := t.map toLower ∈ literals

abbrev StrictText : Kind → List Byte → Prop := Text StrictEscape Word

/-- Any escape, as long as it is. -/
inductive AnyEscape : List Byte → Prop
  | char {c} : c ≠ byte 'u' → AnyEscape [c]
  | unicode {h} : h.length = 4 → AnyEscape (byte 'u' :: h)

theorem LooseEscape.any {e : List Byte} (h : LooseEscape e) : AnyEscape e := by
  cases h with
  | char hc => exact .char hc
  | unicode hlen => exact .unicode hlen

theorem StrictEscape.any {e : List Byte} (h : StrictEscape e) : AnyEscape e := by
  cases h with
  | @char c hc =>
    refine .char ?_
    rintro rfl
    exact absurd hc (by decide)
  | unicode hlen => exact .unicode hlen

theorem Body.mono {E E' : List Byte → Prop} (hE : ∀ e, E e → E' e) {b : List Byte} (h : Body E b) :
    Body E' b := by
  induction h with
  | nil => exact .nil
  | raw hquote hbackslash _ ih => exact .raw hquote hbackslash ih
  | escape he _ ih => exact .escape (hE _ he) ih

/-- Escapes are as long as their first byte says. -/
theorem AnyEscape.unique {e e' x x' : List Byte} (h : AnyEscape e) (h' : AnyEscape e')
    (heq : e ++ x = e' ++ x') : e = e' ∧ x = x' := by
  have hlen : e.length = e'.length := by
    cases h with
    | char hc =>
      cases h' with
      | char => rfl
      | unicode =>
        obtain ⟨hu, -⟩ := List.cons.inj heq
        exact absurd hu hc
    | unicode hlen =>
      cases h' with
      | char hc =>
        obtain ⟨hu, -⟩ := List.cons.inj heq
        exact absurd hu.symm hc
      | unicode hlen' => simp [hlen, hlen']
  exact List.append_inj heq hlen

/-- A backslash alone ends no string. -/
theorem not_body_backslash {b : List Byte} (h : Body AnyEscape b) :
    ¬ Body AnyEscape (b ++ [backslash]) := by
  have hlone : ∀ {x : List Byte}, Body AnyEscape x → x = [backslash] → False := by
    intro x hx heq
    cases hx with
    | nil => cases heq
    | raw _ hbackslash =>
      obtain ⟨hc, -⟩ := List.cons.inj heq
      exact hbackslash hc
    | escape he =>
      obtain ⟨-, hnil⟩ := List.cons.inj heq
      cases he <;> simp at hnil
  induction h with
  | nil => exact fun h => hlone h rfl
  | @raw c b hquote hbackslash _ ih =>
    generalize hx : c :: b ++ [backslash] = x
    intro hbody
    cases hbody with
    | nil => cases hx
    | raw _ _ hrest =>
      obtain ⟨-, rfl⟩ := List.cons.inj hx
      exact ih hrest
    | escape =>
      obtain ⟨hc, -⟩ := List.cons.inj hx
      exact hbackslash hc
  | @escape e b he _ ih =>
    generalize hx : backslash :: (e ++ b) ++ [backslash] = x
    intro hbody
    cases hbody with
    | nil => cases hx
    | raw _ hne =>
      obtain ⟨hc, -⟩ := List.cons.inj hx
      exact hne hc.symm
    | escape he' hrest =>
      obtain ⟨-, htail⟩ := List.cons.inj hx
      obtain ⟨-, rfl⟩ := he.unique he' ((List.append_assoc e b [backslash]).symm.trans htail)
      exact ih hrest

/-- How a text of a value begins. -/
theorem Text.cases_head {E L : List Byte → Prop} {t : List Byte} (h : Text E L .value t) :
    (∃ b, Body E b ∧ t = quote :: (b ++ [quote])) ∨ Number t ∨ L t ∨
    (∃ x, t = byte '[' :: x) ∨ ∃ x, t = byte '{' :: x := by
  cases h with
  | string hb => exact .inl ⟨_, hb, rfl⟩
  | number ht => exact .inr (.inl ht)
  | literal ht => exact .inr (.inr (.inl ht))
  | emptyArray => exact .inr (.inr (.inr (.inl ⟨_, rfl⟩)))
  | array => exact .inr (.inr (.inr (.inl ⟨_, rfl⟩)))
  | emptyObj => exact .inr (.inr (.inr (.inr ⟨_, rfl⟩)))
  | obj => exact .inr (.inr (.inr (.inr ⟨_, rfl⟩)))

theorem literals_head : ∀ word ∈ literals, word.head? = some (byte 't') ∨
    word.head? = some (byte 'f') ∨ word.head? = some (byte 'n') := by
  decide

theorem Word.head {t : List Byte} (h : Word t) :
    ∃ c t', t = c :: t' ∧ (toLower c = byte 't' ∨ toLower c = byte 'f' ∨ toLower c = byte 'n') := by
  have hhead := literals_head _ h
  cases t with
  | nil => simp at hhead
  | cons c t => exact ⟨c, t, rfl, by simpa using hhead⟩

/-- The first bytes of values are no white space. -/
theorem strictText_head {t : List Byte} (h : StrictText .value t) :
    ∃ c t', t = c :: t' ∧ isWhite c = false := by
  rcases h.cases_head with ⟨b, -, rfl⟩ | hnumber | hword | ⟨x, rfl⟩ | ⟨x, rfl⟩
  · exact ⟨quote, _, rfl, by decide⟩
  · obtain ⟨c, t', rfl, hc⟩ := hnumber.head
    exact ⟨c, t', rfl, isWhite_of_number hc⟩
  · obtain ⟨c, t', rfl, hc⟩ := hword.head
    refine ⟨c, t', rfl, ?_⟩
    rw [← Bool.not_eq_true]
    intro hwhite
    rcases isWhite_cases hwhite with rfl | rfl | rfl | rfl <;> exact absurd hc (by decide)
  · exact ⟨byte '[', x, rfl, by decide⟩
  · exact ⟨byte '{', x, rfl, by decide⟩

/-- The white space in front of a text is determined. -/
theorem white_unique {w w' t t' : List Byte} {c c' : Byte} (hw : White w) (hw' : White w')
    (hc : isWhite c = false) (hc' : isWhite c' = false) (h : w ++ c :: t = w' ++ c' :: t') :
    c :: t = c' :: t' := by
  induction w generalizing w' with
  | nil =>
    cases w' with
    | nil => exact h
    | cons a w' =>
      obtain ⟨rfl, -⟩ := List.cons.inj h
      rw [hw' c (by simp)] at hc
      cases hc
  | cons a w ih =>
    cases w' with
    | nil =>
      obtain ⟨rfl, -⟩ := List.cons.inj h
      rw [hw a (by simp)] at hc'
      cases hc'
    | cons a' w' =>
      obtain ⟨-, htail⟩ := List.cons.inj h
      exact ih (fun x hx => hw x (by simp [hx])) (fun x hx => hw' x (by simp [hx])) htail

/-! Texts that are taken without being texts of the grammar. -/

theorem doubled_not_strict {t rest : List Byte} (h : Doubled t rest) : ¬ StrictText .value t := by
  obtain ⟨word, hword, c, x, e, rest, rfl, rfl, hhead, hmap⟩ := h
  have hletter : toLower c = byte 't' ∨ toLower c = byte 'f' ∨ toLower c = byte 'n' := by
    simpa [hhead] using literals_head word hword
  intro htext
  rcases htext.cases_head with ⟨b, -, heq⟩ | hnumber | hliteral | ⟨y, heq⟩ | ⟨y, heq⟩
  · obtain ⟨rfl, -⟩ := List.cons.inj heq
    exact absurd hletter (by decide)
  · have hdigits : ∀ d, isDigit d = true ∨ d = byte '-' → toLower d = d := by
      intro d hd
      rcases hd with hd | rfl
      · exact toLower_of_isDigit hd
      · decide
    obtain ⟨d, y, heq, hd⟩ := hnumber.head
    obtain ⟨rfl, -⟩ := List.cons.inj heq
    rw [hdigits c hd] at hletter
    rcases hletter with rfl | rfl | rfl <;> exact absurd hd (by decide)
  · -- both words begin with the same letter, so they are one word
    have hsame : ∀ u ∈ literals, ∀ v ∈ literals, u.head? = v.head? → u = v := by decide
    have hlower : toLower c :: x.map toLower = word := by
      refine hsame _ hliteral _ hword ?_
      rw [hhead]
      rfl
    have hrotate : ∀ u ∈ literals, u.tail ≠ u.dropLast := by decide
    have htail : word.tail = x.map toLower := by
      rw [← hlower]
      rfl
    have hlast : word.dropLast = x.map toLower := by
      rw [← hmap, List.map_append, List.map_singleton, List.dropLast_concat]
    exact hrotate word hword (htail.trans hlast.symm)
  · obtain ⟨rfl, -⟩ := List.cons.inj heq
    exact absurd hletter (by decide)
  · obtain ⟨rfl, -⟩ := List.cons.inj heq
    exact absurd hletter (by decide)

theorem unclosed_not_strict {t rest : List Byte} (h : Unclosed t rest) : ¬ StrictText .value t := by
  obtain ⟨b, hb, rfl, -⟩ := h
  intro htext
  rcases htext.cases_head with ⟨b', hb', heq⟩ | hnumber | hliteral | ⟨y, heq⟩ | ⟨y, heq⟩
  · have hshift : b ++ [backslash] ++ [quote] = b' ++ [quote] := by
      simpa using (List.cons.inj heq).2
    have hbody := hb'.mono fun _ he => he.any
    rw [← List.append_cancel_right hshift] at hbody
    exact not_body_backslash (hb.mono fun _ he => he.any) hbody
  · obtain ⟨d, y, heq, hd⟩ := hnumber.head
    obtain ⟨rfl, -⟩ := List.cons.inj heq
    exact absurd hd (by decide)
  · obtain ⟨d, y, heq, hd⟩ := hliteral.head
    obtain ⟨rfl, -⟩ := List.cons.inj heq
    exact absurd hd (by decide)
  · exact absurd (List.cons.inj heq).1 (by decide)
  · exact absurd (List.cons.inj heq).1 (by decide)

/-- What `Parse` takes without being a text of the grammar: a literal behind its own first
letter, a string that ends with an escaped quote at the end of the input, a text with an
escape that is not one of JSON's. -/
def Misread (s : List Byte) : Prop :=
  ∃ w t rest, White w ∧ s = w ++ (t ++ rest) ∧
    (Doubled t rest ∨ Unclosed t rest ∨ (LooseText .value t ∧ ¬ StrictText .value t))

theorem misread_not_strict {t rest : List Byte}
    (h : Doubled t rest ∨ Unclosed t rest ∨ (LooseText .value t ∧ ¬ StrictText .value t)) :
    ¬ StrictText .value t := by
  rcases h with h | h | h
  · exact doubled_not_strict h
  · exact unclosed_not_strict h
  · exact h.2

/-- The word is found behind the first letter. -/
theorem doubled_found {word x : List Byte} {e : Byte} (rest : List Byte) (hword : word ∈ literals)
    (hmap : (x ++ [e]).map toLower = word) :
    strncasecmp (x ++ e :: rest) word word.length = 0 ∧
    ∀ text, (readerAt text (x ++ e :: rest)).skip (word.length - 1) =
      .ok () (readerAt (text ++ x) (e :: rest)) := by
  obtain ⟨-, -, hlower⟩ := literals_spec word hword
  have hlen : x.length = word.length - 1 := by
    rw [← hmap, List.length_map, List.length_append, List.length_singleton]
    rfl
  refine ⟨(strncasecmp_eq_zero_iff (literals_ne_zero hword) _).mpr
    ⟨x ++ [e], rest, by simp, by rw [hmap, hlower]⟩, fun text => ?_⟩
  rw [← hlen]
  exact skip_append text x (e :: rest)

theorem getValue_doubled {t rest : List Byte} (h : Doubled t rest) (n : ℕ) (text : List Byte)
    {w : List Byte} (hw : White w) (p : JsonValuePtr) :
    ∃ v, getValue (n + 1) (readerAt text (w ++ (t ++ rest))) p =
      .ok v (readerAt (text ++ (w ++ t)) rest) := by
  obtain ⟨word, hword, c, x, e, rest, rfl, rfl, hhead, hmap⟩ := h
  obtain ⟨hfound, hskip⟩ := doubled_found rest hword hmap
  have hletter {d : Byte} (hd : word.head? = some d) : c = d ∨ c = d - 32 := by
    rw [hhead] at hd
    exact toLower_eq (Option.some.inj hd)
  have htext : w ++ (c :: x ++ e :: rest) = w ++ c :: (x ++ e :: rest) := rfl
  rw [htext]
  simp only [literals, List.mem_cons, List.not_mem_nil, or_false] at hword
  rcases hword with rfl | rfl | rfl
  · have hc : c = byte 't' ∨ c = byte 'T' := hletter rfl
    have hskip' : (readerAt (text ++ (w ++ [c])) (x ++ e :: rest)).skip 3 = _ := hskip _
    refine ⟨.boolean true, ?_⟩
    rw [getValue_boolean n text _ p hw (by rcases hc with h | h <;> simp [h]), getBoolean,
      peek_readerAt, if_pos ⟨hc, hfound⟩, hskip']
    simp
  · have hc : c = byte 'f' ∨ c = byte 'F' := hletter rfl
    have hne : ¬ (c = byte 't' ∨ c = byte 'T') := by rcases hc with rfl | rfl <;> decide
    have hskip' : (readerAt (text ++ (w ++ [c])) (x ++ e :: rest)).skip 4 = _ := hskip _
    refine ⟨.boolean false, ?_⟩
    rw [getValue_boolean n text _ p hw (by rcases hc with h | h <;> simp [h]), getBoolean,
      peek_readerAt, if_neg fun h => hne h.1, if_pos ⟨hc, hfound⟩, hskip']
    simp
  · have hc : c = byte 'n' ∨ c = byte 'N' := hletter rfl
    have hskip' : (readerAt (text ++ (w ++ [c])) (x ++ e :: rest)).skip 3 = _ := hskip _
    have hfound' : strncasecmp (x ++ e :: rest) (ascii "null") 4 = 0 := hfound
    refine ⟨p, ?_⟩
    rw [getValue_null n text _ p hw hc, getNull, peek_readerAt, if_pos hfound', hskip']
    simp

theorem getValue_unclosed {t rest : List Byte} (h : Unclosed t rest) (n : ℕ) (text : List Byte)
    {w : List Byte} (hw : White w) (p : JsonValuePtr) :
    ∃ v, getValue (n + 1) (readerAt text (w ++ (t ++ rest))) p =
      .ok v (readerAt (text ++ (w ++ t)) rest) := by
  obtain ⟨b, hb, rfl, rfl⟩ := h
  obtain ⟨value, heq⟩ := getString_unclosed hb (text ++ (w ++ [quote]))
  refine ⟨.string value, ?_⟩
  rw [List.append_nil, getValue_string n text _ p hw, heq, bind_ok]
  simp

theorem parse_misread {w t rest : List Byte} (hw : White w)
    (h : Doubled t rest ∨ Unclosed t rest ∨ (LooseText .value t ∧ ¬ StrictText .value t))
    (p : JsonValuePtr) :
    ∃ v, parse (w ++ (t ++ rest)) p = .ok v (readerAt (w ++ t) rest) := by
  rcases h with h | h | ⟨hloose, hstrict⟩
  · exact getValue_doubled h _ [] hw p
  · exact getValue_unclosed h _ [] hw p
  · refine accepts hloose _ w [] rest p hw (by omega) ⟨fun hnumber => ?_, ?_⟩
    · exact absurd (.number hnumber) hstrict
    · rintro ⟨w', hw', rfl⟩
      exact absurd (.emptyArray hw') hstrict

/-- None of these begins with white space. -/
theorem misread_head {t rest : List Byte}
    (h : Doubled t rest ∨ Unclosed t rest ∨ (LooseText .value t ∧ ¬ StrictText .value t)) :
    ∃ c t', t = c :: t' ∧ isWhite c = false := by
  rcases h with ⟨word, hword, c, x, -, -, rfl, -, hhead, -⟩ | ⟨b, -, rfl, -⟩ | ⟨hloose, -⟩
  · refine ⟨c, x, rfl, ?_⟩
    have hletter := literals_head word hword
    rw [← Bool.not_eq_true]
    intro hwhite
    rw [hhead] at hletter
    rcases isWhite_cases hwhite with rfl | rfl | rfl | rfl <;> exact absurd hletter (by decide)
  · exact ⟨quote, _, rfl, by decide⟩
  · obtain ⟨c, t', rfl, hc, -⟩ := looseText_head hloose
    exact ⟨c, t', rfl, hc⟩

theorem take_readerAt (text rest : List Byte) :
    (text ++ rest).take (readerAt text rest).cur = text := by
  rw [readerAt, List.take_left]

/-- If `Parse` takes `s`, then what it consumes is white space and a text of the grammar. -/
def Sound (s : List Byte) (p : JsonValuePtr) : Prop :=
  ∀ v r, parse s p = .ok v r → ∃ w t, White w ∧ StrictText .value t ∧ s.take r.cur = w ++ t

/-- What was consumed is no text of the grammar. -/
theorem misread_not_sound {s : List Byte} (h : Misread s) (p : JsonValuePtr) : ¬ Sound s p := by
  obtain ⟨w, t, rest, hw, rfl, hbad⟩ := h
  obtain ⟨v, heq⟩ := parse_misread hw hbad p
  intro hsound
  obtain ⟨w', t', hw', ht', htake⟩ := hsound v _ heq
  rw [← List.append_assoc, take_readerAt] at htake
  apply misread_not_strict hbad
  obtain ⟨c, x, rfl, hc⟩ := misread_head hbad
  obtain ⟨c', x', rfl, hc'⟩ := strictText_head ht'
  rw [white_unique hw hw' hc hc' htake]
  exact ht'

/-- What `Parse` takes is white space and a text of the grammar, unless the input is one
of those that it misreads. -/
theorem parse_derivable_iff (s : List Byte) (p : JsonValuePtr) : Sound s p ↔ ¬ Misread s := by
  constructor
  · exact fun hsound hbad => misread_not_sound hbad p hsound
  · intro hgood v r heq
    have hspec := parse_spec s p
    rw [heq] at hspec
    obtain ⟨w, t, rest, hw, rfl, rfl, haccept⟩ := hspec
    refine ⟨w, t, hw, ?_, ?_⟩
    · by_contra hstrict
      rcases haccept with hloose | hdoubled | hunclosed
      · exact hgood ⟨w, t, rest, hw, rfl, .inr (.inr ⟨hloose, hstrict⟩)⟩
      · exact hgood ⟨w, t, rest, hw, rfl, .inl hdoubled⟩
      · exact hgood ⟨w, t, rest, hw, rfl, .inr (.inl hunclosed)⟩
    · rw [List.nil_append, ← List.append_assoc]
      exact take_readerAt (w ++ t) rest

theorem unknown_escape : ¬ StrictText .value [quote, backslash, byte 'q', quote] := by
  intro htext
  rcases htext.cases_head with ⟨b, hb, heq⟩ | hnumber | hliteral | ⟨y, heq⟩ | ⟨y, heq⟩
  · have hinner : [backslash, byte 'q'] = b :=
      List.append_cancel_right (List.cons.inj heq).2
    cases hb with
    | nil => cases hinner
    | raw _ hne =>
      obtain ⟨hc, -⟩ := List.cons.inj hinner
      exact hne hc.symm
    | escape he =>
      obtain ⟨-, htail⟩ := List.cons.inj hinner
      cases he with
      | char hc =>
        obtain ⟨rfl, -⟩ := List.cons.inj htail
        exact absurd hc (by decide)
      | unicode => exact absurd (List.cons.inj htail).1 (by decide)
  · obtain ⟨d, y, heq, hd⟩ := hnumber.head
    obtain ⟨rfl, -⟩ := List.cons.inj heq
    exact absurd hd (by decide)
  · exact absurd hliteral (by unfold Word; decide)
  · exact absurd (List.cons.inj heq).1 (by decide)
  · exact absurd (List.cons.inj heq).1 (by decide)

/-- `ttrue`, `"ab\"` and `"\q"` -/
theorem parse_not_derivable :
    ¬ Sound (ascii "ttrue") .null ∧ ¬ Sound (quote :: (ascii "ab" ++ [backslash, quote])) .null ∧
    ¬ Sound [quote, backslash, byte 'q', quote] .null := by
  refine ⟨misread_not_sound ?_ .null, misread_not_sound ?_ .null, misread_not_sound ?_ .null⟩
  · refine ⟨[], ascii "ttru", ascii "e", white_nil, rfl, .inl ?_⟩
    exact ⟨ascii "true", by decide, byte 't', ascii "tru", byte 'e', [], rfl, rfl, by decide,
      by decide⟩
  · refine ⟨[], quote :: (ascii "ab" ++ [backslash, quote]), [], white_nil, rfl, .inr (.inl ?_)⟩
    refine ⟨ascii "ab", ?_, rfl, rfl⟩
    exact .raw (by decide) (by decide) (.raw (by decide) (by decide) .nil)
  · have hq : LooseEscape [byte 'q'] := .char (by decide)
    have hloose : LooseText .value (quote :: (backslash :: ([byte 'q'] ++ []) ++ [quote])) :=
      .string (.escape hq .nil)
    exact ⟨[], _, [], white_nil, rfl, .inr (.inr ⟨hloose, unknown_escape⟩)⟩

end Voyager.Json
