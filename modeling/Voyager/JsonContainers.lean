import Voyager.JsonString

/-!
`GetValue` on each first byte, and the loops of `GetObj` and `GetArray` one turn at a
time.
-/
namespace Voyager.Json

open Lib.OrderedMap

theorem isWhite_of_number {c : Byte} (hc : Lib.CString.isDigit c = true ∨ c = byte '-') :
    isWhite c = false := by
  rw [← Bool.not_eq_true]
  intro h
  rcases isWhite_cases h with rfl | rfl | rfl | rfl <;> exact absurd hc (by decide)

/-- `GetValue` looks at the first byte behind white space. -/
theorem getValue_skip (n : ℕ) (p : JsonValuePtr) {r r' : JsonReader} {c : Byte}
    (hskip : skipWhiteSpace r = .ok c r') :
    getValue (n + 1) r p =
      if c = byte '{' then getObjFrom n r' true []
      else if c = byte '[' then
        (skipWhiteSpace r').bind fun c r => getArrayFrom n r c true []
      else if c = quote then (getString r' c).bind fun value r => .ok (.string value) r
      else if c = byte 'T' ∨ c = byte 't' ∨ c = byte 'F' ∨ c = byte 'f' then getBoolean r' c
      else if Lib.CString.isDigit c ∨ c = byte '-' then getNum r' c p
      else if c = byte 'n' ∨ c = byte 'N' then getNull r' p
      else
        .error ("buffer overflow when peekBuf, over " ++ toString (r'.cur % 2 ^ 32) ++ ".") := by
  rw [getValue, hskip, bind_ok]

section

variable (n : ℕ) (text : List Byte) {w : List Byte} (rest : List Byte) (p : JsonValuePtr)

theorem getValue_obj (hw : White w) :
    getValue (n + 1) (readerAt text (w ++ byte '{' :: rest)) p =
      getObjFrom n (readerAt (text ++ (w ++ [byte '{'])) rest) true [] := by
  rw [getValue_skip n p (skipWhiteSpace_cons hw (by decide) text rest), if_pos rfl]

theorem getValue_array (hw : White w) :
    getValue (n + 1) (readerAt text (w ++ byte '[' :: rest)) p =
      (skipWhiteSpace (readerAt (text ++ (w ++ [byte '['])) rest)).bind fun c r =>
        getArrayFrom n r c true [] := by
  have hobj : byte '[' ≠ byte '{' := by decide
  rw [getValue_skip n p (skipWhiteSpace_cons hw (by decide) text rest), if_neg hobj, if_pos rfl]

theorem getValue_string (hw : White w) :
    getValue (n + 1) (readerAt text (w ++ quote :: rest)) p =
      (getString (readerAt (text ++ (w ++ [quote])) rest) quote).bind fun value r =>
        .ok (.string value) r := by
  have hobj : quote ≠ byte '{' := by decide
  have harray : quote ≠ byte '[' := by decide
  rw [getValue_skip n p (skipWhiteSpace_cons hw (by decide) text rest), if_neg hobj, if_neg harray,
    if_pos rfl]

theorem getValue_boolean (hw : White w) {c : Byte}
    (hc : c = byte 'T' ∨ c = byte 't' ∨ c = byte 'F' ∨ c = byte 'f') :
    getValue (n + 1) (readerAt text (w ++ c :: rest)) p =
      getBoolean (readerAt (text ++ (w ++ [c])) rest) c := by
  have hother : isWhite c = false ∧ c ≠ byte '{' ∧ c ≠ byte '[' ∧ c ≠ quote := by
    rcases hc with rfl | rfl | rfl | rfl <;> decide
  obtain ⟨hwhite, hobj, harray, hstring⟩ := hother
  rw [getValue_skip n p (skipWhiteSpace_cons hw hwhite text rest), if_neg hobj, if_neg harray,
    if_neg hstring, if_pos hc]

theorem getValue_num (hw : White w) {c : Byte} (hc : Lib.CString.isDigit c = true ∨ c = byte '-') :
    getValue (n + 1) (readerAt text (w ++ c :: rest)) p =
      getNum (readerAt (text ++ (w ++ [c])) rest) c p := by
  have hother (c : Byte) (h : c = byte '{' ∨ c = byte '[' ∨ c = quote ∨ c = byte 'T' ∨
      c = byte 't' ∨ c = byte 'F' ∨ c = byte 'f') :
      ¬ (Lib.CString.isDigit c = true ∨ c = byte '-') := by
    rcases h with rfl | rfl | rfl | rfl | rfl | rfl | rfl <;> decide
  have hne {d : Byte} (hd : ¬ (Lib.CString.isDigit d = true ∨ d = byte '-')) : c ≠ d := by
    rintro rfl
    exact hd hc
  have hwhite : isWhite c = false := isWhite_of_number hc
  rw [getValue_skip n p (skipWhiteSpace_cons hw hwhite text rest),
    if_neg (hne (hother _ (by simp))), if_neg (hne (hother _ (by simp))),
    if_neg (hne (hother _ (by simp))), if_neg, if_pos hc]
  rintro (rfl | rfl | rfl | rfl) <;> exact hother _ (by simp) hc

theorem getValue_null (hw : White w) {c : Byte} (hc : c = byte 'n' ∨ c = byte 'N') :
    getValue (n + 1) (readerAt text (w ++ c :: rest)) p =
      getNull (readerAt (text ++ (w ++ [c])) rest) p := by
  rcases hc with rfl | rfl
  · exact getValue_skip n p (skipWhiteSpace_cons hw (by decide) text rest)
  · exact getValue_skip n p (skipWhiteSpace_cons hw (by decide) text rest)

end

/-! One turn of the loops. -/

/-- What `GetArray` does behind an element. -/
def afterElement (n : ℕ) (value : List JsonValuePtr) (r : JsonReader) : Outcome JsonValuePtr :=
  (skipWhiteSpace r).bind fun c r =>
    if c = byte ',' then getArrayFrom n r c false value
    else if c = byte ']' then .ok (.array value) r
    else .error (info "get vector error(, not find )" r)

/-- What `GetObj` does behind a member. -/
def afterMember (n : ℕ) (value : List (List Byte × JsonValuePtr)) (r : JsonReader) :
    Outcome JsonValuePtr :=
  (skipWhiteSpace r).bind fun c r =>
    if c = byte ',' then getObjFrom n r false value
    else if c = byte '}' then .ok (.obj value) r
    else .error (info "get obj error(, not find)" r)

section

variable (n : ℕ) (text : List Byte) {w : List Byte} (rest : List Byte)

theorem getArrayFrom_end (c : Byte) (isFirst : Bool) (value : List JsonValuePtr) :
    ∃ text', getArrayFrom (n + 1) (readerAt text []) c isFirst value = .error text' := by
  exact ⟨_, by rw [getArrayFrom, hasEnd_nil, if_pos rfl]⟩

theorem getArrayFrom_close (d : Byte) :
    getArrayFrom (n + 1) (readerAt text (d :: rest)) (byte ']') true [] =
      .ok (.array []) (readerAt text (d :: rest)) := by
  simp [getArrayFrom]

/-- The first byte of the first element goes back. -/
theorem getArrayFrom_first {c : Byte} (hc : c ≠ byte ']') (d : Byte) :
    getArrayFrom (n + 1) (readerAt (text ++ [c]) (d :: rest)) c true [] =
      (getValue n (readerAt text (c :: d :: rest)) .null).bind fun v r =>
        afterElement n [v] r := by
  simp [getArrayFrom, hc, afterElement]

/-- An array with an element: its first byte is read ahead. -/
theorem getValue_element (hw : White w) {w' : List Byte} (hw' : White w') {c : Byte}
    (hwhite : isWhite c = false) (hc : c ≠ byte ']') (d : Byte) (p : JsonValuePtr) :
    getValue (n + 2) (readerAt text (w ++ byte '[' :: (w' ++ c :: d :: rest))) p =
      (getValue n (readerAt (text ++ (w ++ [byte '[']) ++ w') (c :: d :: rest)) .null).bind
        fun v r => afterElement n [v] r := by
  rw [getValue_array (n + 1) text _ p hw, skipWhiteSpace_cons hw' hwhite, bind_ok,
    ← List.append_assoc _ w' [c], getArrayFrom_first n _ rest hc d]

theorem getArrayFrom_next (d c : Byte) (value : List JsonValuePtr) :
    getArrayFrom (n + 1) (readerAt text (d :: rest)) c false value =
      (getValue n (readerAt text (d :: rest)) .null).bind fun v r =>
        afterElement n (value ++ [v]) r := by
  simp [getArrayFrom, afterElement]

theorem afterElement_comma (hw : White w) (value : List JsonValuePtr) :
    afterElement n value (readerAt text (w ++ byte ',' :: rest)) =
      getArrayFrom n (readerAt (text ++ (w ++ [byte ','])) rest) (byte ',') false value := by
  rw [afterElement, skipWhiteSpace_cons hw (by decide), bind_ok, if_pos rfl]

theorem afterElement_close (hw : White w) (value : List JsonValuePtr) :
    afterElement n value (readerAt text (w ++ byte ']' :: rest)) =
      .ok (.array value) (readerAt (text ++ (w ++ [byte ']'])) rest) := by
  have hne : byte ']' ≠ byte ',' := by decide
  rw [afterElement, skipWhiteSpace_cons hw (by decide), bind_ok, if_neg hne, if_pos rfl]

theorem getObjFrom_close (hw : White w) (value : List (List Byte × JsonValuePtr)) :
    getObjFrom (n + 1) (readerAt text (w ++ byte '}' :: rest)) true value =
      .ok (.obj value) (readerAt (text ++ (w ++ [byte '}'])) rest) := by
  rw [getObjFrom, skipWhiteSpace_cons hw (by decide), bind_ok, if_pos ⟨rfl, rfl⟩]

/-- What `GetObj` does behind a key. -/
def afterKey (n : ℕ) (str : List Byte) (value : List (List Byte × JsonValuePtr)) (r : JsonReader) :
    Outcome JsonValuePtr :=
  (skipWhiteSpace r).bind fun c r =>
    if c ≠ byte ':' then .error (info "get obj error(: not find)" r)
    else (getValue n r .null).bind fun temp r => afterMember n (insert str temp value) r

theorem getObjFrom_key (hw : White w) (isFirst : Bool) (value : List (List Byte × JsonValuePtr)) :
    getObjFrom (n + 1) (readerAt text (w ++ quote :: rest)) isFirst value =
      (getString (readerAt (text ++ (w ++ [quote])) rest) quote).bind fun str r =>
        afterKey n str value r := by
  have hne : quote ≠ byte '}' := by decide
  rw [getObjFrom, skipWhiteSpace_cons hw (by decide), bind_ok, if_neg (by simp [hne]),
    if_neg (by simp)]
  rfl

theorem afterKey_colon (hw : White w) (str : List Byte)
    (value : List (List Byte × JsonValuePtr)) :
    afterKey n str value (readerAt text (w ++ byte ':' :: rest)) =
      (getValue n (readerAt (text ++ (w ++ [byte ':'])) rest) .null).bind fun temp r =>
        afterMember n (insert str temp value) r := by
  rw [afterKey, skipWhiteSpace_cons hw (by decide), bind_ok, if_neg (by simp)]

theorem afterMember_comma (hw : White w) (value : List (List Byte × JsonValuePtr)) :
    afterMember n value (readerAt text (w ++ byte ',' :: rest)) =
      getObjFrom n (readerAt (text ++ (w ++ [byte ','])) rest) false value := by
  rw [afterMember, skipWhiteSpace_cons hw (by decide), bind_ok, if_pos rfl]

theorem afterMember_close (hw : White w) (value : List (List Byte × JsonValuePtr)) :
    afterMember n value (readerAt text (w ++ byte '}' :: rest)) =
      .ok (.obj value) (readerAt (text ++ (w ++ [byte '}'])) rest) := by
  have hne : byte '}' ≠ byte ',' := by decide
  rw [afterMember, skipWhiteSpace_cons hw (by decide), bind_ok, if_neg hne, if_pos rfl]

end

end Voyager.Json
