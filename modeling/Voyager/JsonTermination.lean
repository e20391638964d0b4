import Voyager.JsonGrammar

/-!
`Parse` ends on every input. A function that succeeds has read on, so every call that
`GetValue`, `GetObj` and `GetArray` make, and every further turn of their loops, has less
left to read; and the fuel of the model is never what ends a run.
-/
namespace Voyager.Json

open Lib.OrderedMap

/-- `GetObj`, called behind the brace. -/
def getObj (n : ℕ) (r : JsonReader) : Outcome JsonValuePtr := getObjFrom n r true []

/-- `GetArray`, called behind the bracket. -/
def getArray (n : ℕ) (r : JsonReader) : Outcome JsonValuePtr :=
  (skipWhiteSpace r).bind fun c r => getArrayFrom n r c true []

/-- What `GetValue` does with the first byte. -/
def dispatch (n : ℕ) (p : JsonValuePtr) (c : Byte) (r : JsonReader) : Outcome JsonValuePtr :=
  if c = byte '{' then getObj n r
  else if c = byte '[' then getArray n r
  else if c = quote then (getString r c).bind fun value r => .ok (.string value) r
  else if c = byte 'T' ∨ c = byte 't' ∨ c = byte 'F' ∨ c = byte 'f' then getBoolean r c
  else if Lib.CString.isDigit c ∨ c = byte '-' then getNum r c p
  else if c = byte 'n' ∨ c = byte 'N' then getNull r p
  else .error ("buffer overflow when peekBuf, over " ++ toString (r.cur % 2 ^ 32) ++ ".")

theorem getValue_dispatch (n : ℕ) (r : JsonReader) (p : JsonValuePtr) :
    getValue (n + 1) r p = (skipWhiteSpace r).bind (dispatch n p) := by
  rw [getValue]
  rfl

/-! What is taken by a call that succeeds. -/

/-- At least `k` bytes of `s`, which is what the reader has left. -/
def Takes {α : Type} (k : ℕ) (text s : List Byte) : Outcome α → Prop
  | .ok _ r => ∃ t rest, s = t ++ rest ∧ r = readerAt (text ++ t) rest ∧ k ≤ t.length
  | _ => True

section

variable {α β : Type} {j k : ℕ} {text s : List Byte}

theorem takes_error (info : String) : Takes k text s (.error info : Outcome α) := trivial

theorem takes_ok (a : α) : Takes 0 text s (.ok a (readerAt text s)) :=
  ⟨[], s, rfl, by simp, by simp⟩

theorem Takes.mono {o : Outcome α} (h : Takes k text s o) (hjk : j ≤ k) : Takes j text s o := by
  cases o with
  | ok a r =>
    obtain ⟨t, rest, hs, hr, hk⟩ := h
    exact ⟨t, rest, hs, hr, hjk.trans hk⟩
  | error | assertion | unfinished => trivial

theorem Takes.zero {o : Outcome α} (h : Takes k text s o) : Takes 0 text s o :=
  h.mono (Nat.zero_le k)

theorem Takes.behind {w : List Byte} {o : Outcome α} (h : Takes k (text ++ w) s o) :
    Takes (w.length + k) text (w ++ s) o := by
  cases o with
  | ok a r =>
    obtain ⟨t, rest, rfl, rfl, hk⟩ := h
    refine ⟨w ++ t, rest, by simp, by simp, ?_⟩
    rw [List.length_append]
    omega
  | error | assertion | unfinished => trivial

theorem Takes.bind {o : Outcome α} {f : α → JsonReader → Outcome β} (h : Takes k text s o)
    (hf : ∀ a text' rest, Takes 0 text' rest (f a (readerAt text' rest))) :
    Takes k text s (o.bind f) := by
  cases o with
  | ok a r =>
    obtain ⟨t, rest, rfl, rfl, hk⟩ := h
    exact (hf a (text ++ t) rest).behind.mono (by omega)
  | error | assertion | unfinished => trivial

end

/-- The bytes of white space in front. -/
def white (s : List Byte) : ℕ := (s.takeWhile isWhite).length

theorem white_append {w : List Byte} (hw : White w) {c : Byte} (hc : isWhite c = false)
    (rest : List Byte) : white (w ++ c :: rest) = w.length := by
  rw [white, Lib.CString.takeWhile_append_stop hw (by simpa using hc)]

/-- Behind `SkipWhiteSpace`: at the end of the input nothing comes of the white space that it
returns, and elsewhere it takes the byte that it returns. -/
theorem Takes.skip {α : Type} {text s : List Byte} {f : Byte → JsonReader → Outcome α}
    (hend : ∀ c, isWhite c = true → ∃ text', f c (readerAt (text ++ s) []) = .error text')
    (hf : ∀ c text' rest, Takes 0 text' rest (f c (readerAt text' rest))) :
    Takes (white s + 1) text s ((skipWhiteSpace (readerAt text s)).bind f) := by
  rcases skipWhiteSpace_cases text s with ⟨c, -, hc, heq⟩ | ⟨w, c, rest, hw, hc, rfl, heq⟩
  · obtain ⟨text', herror⟩ := hend c hc
    rw [heq, bind_ok, herror]
    exact takes_error text'
  · rw [heq, bind_ok, white_append hw hc, List.append_cons w c rest]
    exact (hf c (text ++ (w ++ [c])) rest).behind.mono (by simp)

theorem getString_takes (text s : List Byte) :
    Takes 1 text s (getString (readerAt text s) quote) := by
  rcases getString_cases text s with ⟨text', heq⟩ | ⟨value, b, rest, -, rfl, heq⟩ |
    ⟨value, b, -, rfl, heq⟩ | ⟨b, x, -, -, -, heq⟩
  · rw [heq]
    exact takes_error text'
  · rw [heq]
    exact ⟨b ++ [quote], rest, by simp, by simp, by simp⟩
  · rw [heq]
    exact ⟨b ++ [backslash, quote], [], by simp, rfl, by simp⟩
  · rw [heq]
    trivial

/-- The byte that ends a number goes back. -/
theorem getNum_takes (text s : List Byte) (head : Byte) (p : JsonValuePtr) :
    Takes 0 text s (getNum (readerAt text s) head p) := by
  obtain ⟨s', r, t, rest, heq, rfl, hends, -⟩ :=
    getNumFrom_spec s.length text s ⟨head ≠ byte '-', false, false, false⟩ le_rfl rfl
  rw [getNum, left_readerAt, heq, bind_ok]
  split
  · exact takes_error _
  · obtain ⟨hback, rfl, rfl⟩ | ⟨hback, c, rest, rfl, rfl⟩ := hends
    · rw [if_neg (by simp [hback])]
      exact ⟨t, [], rfl, rfl, Nat.zero_le _⟩
    · rw [if_pos hback, ← List.append_assoc, back_append, bind_ok]
      exact ⟨t, c :: rest, rfl, rfl, Nat.zero_le _⟩

theorem getBoolean_takes (text s : List Byte) (c : Byte) :
    Takes 0 text s (getBoolean (readerAt text s) c) := by
  rcases getBoolean_cases text s with ⟨text', heq⟩ | ⟨b, t, rest, rfl, -, heq⟩
  · rw [heq]
    exact takes_error text'
  · rw [heq]
    exact ⟨t, rest, rfl, rfl, Nat.zero_le _⟩

theorem getNull_takes (text s : List Byte) {c : Byte} (hc : c = byte 'n' ∨ c = byte 'N')
    (p : JsonValuePtr) : Takes 0 text s (getNull (readerAt text s) p) := by
  rcases getNull_cases text s hc p with ⟨text', heq⟩ | ⟨t, rest, rfl, -, heq⟩
  · rw [heq]
    exact takes_error text'
  · rw [heq]
    exact ⟨t, rest, rfl, rfl, Nat.zero_le _⟩

/-- What the functions take, whatever the fuel: a byte behind the white space at least. -/
structure TakesAll (n : ℕ) : Prop where
  value : ∀ text s p, Takes (white s + 1) text s (getValue n (readerAt text s) p)
  member : ∀ text s isFirst value,
    Takes (white s + 1) text s (getObjFrom n (readerAt text s) isFirst value)
  element : ∀ text s c value,
    Takes (white s + 1) text s (getArrayFrom n (readerAt text s) c false value)
  array : ∀ text s, Takes (white s + 1) text s (getArray n (readerAt text s))

/-- White space, which is what the end of the input looks like, starts no value. -/
theorem dispatch_white (n : ℕ) (p : JsonValuePtr) {c : Byte} (hc : isWhite c = true)
    (r : JsonReader) : ∃ text', dispatch n p c r = .error text' := by
  rcases isWhite_cases hc with rfl | rfl | rfl | rfl <;> exact ⟨_, rfl⟩

theorem ne_of_white {c d : Byte} (hc : isWhite c = true) (hd : isWhite d = false) : c ≠ d := by
  rintro rfl
  rw [hc] at hd
  cases hd

/-- What both loops do behind a value: a comma leads to the next turn. -/
theorem separator_takes (text s : List Byte) {close : Byte} (hclose : isWhite close = false)
    {next : Byte → JsonReader → Outcome JsonValuePtr} {v : JsonValuePtr} {message : String}
    (hnext : ∀ c text' rest, Takes 0 text' rest (next c (readerAt text' rest))) :
    Takes (white s + 1) text s ((skipWhiteSpace (readerAt text s)).bind fun c r =>
      if c = byte ',' then next c r
      else if c = close then .ok v r
      else .error (info message r)) := by
  refine Takes.skip (fun c hc => ?_) fun c text' rest => ?_
  · rw [if_neg (ne_of_white hc (by decide)), if_neg (ne_of_white hc hclose)]
    exact ⟨_, rfl⟩
  · split_ifs
    · exact hnext c text' rest
    · exact takes_ok v
    · exact takes_error _

section

variable {n : ℕ} (h : TakesAll n) (text s : List Byte)
include h

theorem afterElement_takes (value : List JsonValuePtr) :
    Takes (white s + 1) text s (afterElement n value (readerAt text s)) :=
  separator_takes text s (by decide) fun c text' rest => (h.element text' rest c value).zero

theorem element_takes (value : List JsonValuePtr) :
    Takes (white s + 1) text s
      ((getValue n (readerAt text s) .null).bind fun v r => afterElement n (value ++ [v]) r) :=
  (h.value text s .null).bind fun v text' rest =>
    (afterElement_takes h text' rest (value ++ [v])).zero

theorem afterMember_takes (value : List (List Byte × JsonValuePtr)) :
    Takes (white s + 1) text s (afterMember n value (readerAt text s)) :=
  separator_takes text s (by decide) fun _ text' rest => (h.member text' rest false value).zero

theorem afterKey_takes (str : List Byte) (value : List (List Byte × JsonValuePtr)) :
    Takes (white s + 1) text s (afterKey n str value (readerAt text s)) := by
  refine Takes.skip (fun c hc => ?_) fun c text' rest => ?_
  · rw [if_pos (ne_of_white hc (by decide))]
    exact ⟨_, rfl⟩
  · split
    · exact takes_error _
    · exact ((h.value text' rest .null).bind fun temp text' rest =>
        (afterMember_takes h text' rest _).zero).zero

/-- `GetObj` from any turn of its loop on. -/
theorem getObjFrom_takes (isFirst : Bool) (value : List (List Byte × JsonValuePtr)) :
    Takes (white s + 1) text s (getObjFrom (n + 1) (readerAt text s) isFirst value) := by
  rw [getObjFrom]
  refine Takes.skip (fun c hc => ?_) fun c text' rest => ?_
  · have hclose : c ≠ byte '}' := ne_of_white hc (by decide)
    rw [if_neg (fun h => hclose h.1), if_pos (ne_of_white hc (by decide))]
    exact ⟨_, rfl⟩
  · split
    · exact takes_ok _
    · split
      · exact takes_error _
      · exact ((getString_takes text' rest).bind fun str text' rest =>
          (afterKey_takes h text' rest str value).zero).zero

/-- `GetArray` from its second element on. -/
theorem getArrayFrom_takes (c : Byte) (value : List JsonValuePtr) :
    Takes (white s + 1) text s (getArrayFrom (n + 1) (readerAt text s) c false value) := by
  cases s with
  | nil =>
    obtain ⟨text', heq⟩ := getArrayFrom_end n text c false value
    rw [heq]
    exact takes_error text'
  | cons d s =>
    rw [getArrayFrom_next]
    exact element_takes h text (d :: s) value

/-- The first byte of the first element is taken again. -/
theorem getArray_takes : Takes (white s + 1) text s (getArray (n + 1) (readerAt text s)) := by
  rcases skipWhiteSpace_cases text s with ⟨c, -, -, heq⟩ | ⟨w, c, rest, hw, hc, rfl, heq⟩
  · obtain ⟨text', herror⟩ := getArrayFrom_end n (text ++ s) c true []
    rw [getArray, heq, bind_ok, herror]
    exact takes_error text'
  rw [getArray, heq, bind_ok, white_append hw hc]
  cases rest with
  | nil =>
    obtain ⟨text', herror⟩ := getArrayFrom_end n (text ++ (w ++ [c])) c true []
    rw [herror]
    exact takes_error text'
  | cons d rest =>
    by_cases hclose : c = byte ']'
    · rw [hclose, getArrayFrom_close]
      exact ⟨w ++ [byte ']'], d :: rest, by simp, rfl, by simp⟩
    · rw [← List.append_assoc, getArrayFrom_first n (text ++ w) rest hclose d]
      exact (element_takes h (text ++ w) (c :: d :: rest) []).behind.mono (by omega)

/-- `GetValue` on each first byte. -/
theorem dispatch_takes (p : JsonValuePtr) (c : Byte) :
    Takes 0 text s (dispatch n p c (readerAt text s)) := by
  rw [dispatch]
  split_ifs with hobj harray hstring hboolean hnum hnull
  · exact (h.member text s true []).zero
  · exact (h.array text s).zero
  · rw [hstring]
    exact ((getString_takes text s).bind fun value text' rest => takes_ok _).zero
  · exact getBoolean_takes text s c
  · exact getNum_takes text s c p
  · exact getNull_takes text s hnull p
  · exact takes_error _

theorem getValue_takes (p : JsonValuePtr) :
    Takes (white s + 1) text s (getValue (n + 1) (readerAt text s) p) := by
  rw [getValue_dispatch]
  exact Takes.skip (fun c hc => dispatch_white n p hc _) fun c text' rest =>
    dispatch_takes h text' rest p c

end

theorem takesAll (n : ℕ) : TakesAll n := by
  induction n with
  | zero =>
    refine ⟨fun _ _ _ => trivial, fun _ _ _ _ => trivial, fun _ _ _ _ => trivial, fun text s => ?_⟩
    rcases skipWhiteSpace_cases text s with ⟨c, -, -, heq⟩ | ⟨w, c, rest, -, -, -, heq⟩
    · rw [getArray, heq]
      trivial
    · rw [getArray, heq]
      trivial
  | succ n ih =>
    exact ⟨getValue_takes ih, getObjFrom_takes ih, getArrayFrom_takes ih, getArray_takes ih⟩

/-! The calls that are made, and the turns of the loops. -/

inductive Call
  | value (r : JsonReader) (p : JsonValuePtr)
  /-- A turn of the loop of `GetObj`. -/
  | member (r : JsonReader) (isFirst : Bool) (value : List (List Byte × JsonValuePtr))
  /-- A turn of the loop of `GetArray`. -/
  | element (r : JsonReader) (c : Byte) (isFirst : Bool) (value : List JsonValuePtr)

def Call.run (n : ℕ) : Call → Outcome JsonValuePtr
  | .value r p => getValue n r p
  | .member r isFirst read => getObjFrom n r isFirst read
  | .element r c isFirst read => getArrayFrom n r c isFirst read

/-- `GetObj` has read a key and the colon behind it. -/
def KeyRead (r : JsonReader) (str : List Byte) (r' : JsonReader) : Prop :=
  ∃ r₁ r₂, skipWhiteSpace r = .ok quote r₁ ∧ getString r₁ quote = .ok str r₂ ∧
    skipWhiteSpace r₂ = .ok (byte ':') r'

/-- `GetArray` calls `GetValue`, from one byte before if it is for the first time. -/
def ElementStarts (r : JsonReader) (c : Byte) (isFirst : Bool) (r' : JsonReader) : Prop :=
  r.hasEnd = false ∧ ¬ (isFirst = true ∧ c = byte ']') ∧
    (if isFirst = true then r.back else .ok () r) = .ok () r'

/-- The first call makes the second, or goes on with it as its next turn. -/
inductive Makes : Call → Call → Prop
  | obj {r r' p} : skipWhiteSpace r = .ok (byte '{') r' → Makes (.value r p) (.member r' true [])
  | array {r r' c r'' p} : skipWhiteSpace r = .ok (byte '[') r' → skipWhiteSpace r' = .ok c r'' →
      Makes (.value r p) (.element r'' c true [])
  | memberValue {r isFirst value str r'} : KeyRead r str r' →
      Makes (.member r isFirst value) (.value r' .null)
  | nextMember {r isFirst value str r₁ n temp r₂ r'} : KeyRead r str r₁ →
      getValue n r₁ .null = .ok temp r₂ → skipWhiteSpace r₂ = .ok (byte ',') r' →
      Makes (.member r isFirst value) (.member r' false (insert str temp value))
  | elementValue {r c isFirst value r'} : ElementStarts r c isFirst r' →
      Makes (.element r c isFirst value) (.value r' .null)
  | nextElement {r c isFirst value r₁ n v r₂ r'} : ElementStarts r c isFirst r₁ →
      getValue n r₁ .null = .ok v r₂ → skipWhiteSpace r₂ = .ok (byte ',') r' →
      Makes (.element r c isFirst value) (.element r' (byte ',') false (value ++ [v]))

theorem bind_congr {α β : Type} {o : Outcome α} {f g : α → JsonReader → Outcome β}
    (h : ∀ a r, o = .ok a r → f a r = g a r) : o.bind f = o.bind g := by
  cases o with
  | ok a r => exact h a r rfl
  | error | assertion | unfinished => rfl

/-! The outcome depends on the fuel through the calls that are made only. -/

section

variable {n m : ℕ}

theorem getValue_congr {r : JsonReader} {p : JsonValuePtr}
    (h : ∀ b, Makes (.value r p) b → b.run n = b.run m) :
    getValue (n + 1) r p = getValue (m + 1) r p := by
  rw [getValue_dispatch, getValue_dispatch]
  refine bind_congr fun c r' hskip => ?_
  by_cases hobj : c = byte '{'
  · subst hobj
    exact h _ (.obj hskip)
  by_cases harray : c = byte '['
  · subst harray
    exact bind_congr fun c r'' hskip' => h _ (.array hskip hskip')
  · rw [dispatch, dispatch, if_neg hobj, if_neg hobj, if_neg harray, if_neg harray]

theorem getObjFrom_congr {r : JsonReader} {isFirst : Bool}
    {value : List (List Byte × JsonValuePtr)}
    (h : ∀ b, Makes (.member r isFirst value) b → b.run n = b.run m) :
    getObjFrom (n + 1) r isFirst value = getObjFrom (m + 1) r isFirst value := by
  rw [getObjFrom, getObjFrom]
  refine bind_congr fun c r₁ hskip => ?_
  by_cases hclose : c = byte '}' ∧ isFirst = true
  · rw [if_pos hclose, if_pos hclose]
  rw [if_neg hclose, if_neg hclose]
  by_cases hquote : c = quote
  · subst hquote
    rw [if_neg (not_not.mpr rfl), if_neg (not_not.mpr rfl)]
    refine bind_congr fun str r₂ hstr => bind_congr fun c r₃ hskip' => ?_
    by_cases hcolon : c = byte ':'
    · subst hcolon
      have hkey : KeyRead r str r₃ := ⟨r₁, r₂, hskip, hstr, hskip'⟩
      have hvalue : getValue n r₃ .null = getValue m r₃ .null := h _ (.memberValue hkey)
      rw [if_neg (not_not.mpr rfl), if_neg (not_not.mpr rfl), ← hvalue]
      refine bind_congr fun temp r₄ htemp => bind_congr fun c r₅ hcomma => ?_
      by_cases hc : c = byte ','
      · subst hc
        exact h _ (.nextMember hkey htemp hcomma)
      · rw [if_neg hc, if_neg hc]
    · rw [if_pos hcolon, if_pos hcolon]
  · rw [if_pos hquote, if_pos hquote]

theorem getArrayFrom_congr {r : JsonReader} {c : Byte} {isFirst : Bool}
    {value : List JsonValuePtr}
    (h : ∀ b, Makes (.element r c isFirst value) b → b.run n = b.run m) :
    getArrayFrom (n + 1) r c isFirst value = getArrayFrom (m + 1) r c isFirst value := by
  rw [getArrayFrom, getArrayFrom]
  by_cases hend : r.hasEnd = true
  · rw [if_pos hend, if_pos hend]
  rw [if_neg hend, if_neg hend]
  by_cases hclose : isFirst = true ∧ c = byte ']'
  · rw [if_pos hclose, if_pos hclose]
  rw [if_neg hclose, if_neg hclose]
  refine bind_congr fun _ r₁ hback => ?_
  have hstart : ElementStarts r c isFirst r₁ := ⟨by simpa using hend, hclose, hback⟩
  have hvalue : getValue n r₁ .null = getValue m r₁ .null := h _ (.elementValue hstart)
  rw [← hvalue]
  refine bind_congr fun v r₂ hv => bind_congr fun c r₃ hcomma => ?_
  by_cases hc : c = byte ','
  · subst hc
    exact h _ (.nextElement hstart hv hcomma)
  · rw [if_neg hc, if_neg hc]

theorem run_congr {a : Call} (h : ∀ b, Makes a b → b.run n = b.run m) :
    a.run (n + 1) = a.run (m + 1) := by
  cases a with
  | value r p => exact getValue_congr h
  | member r isFirst value => exact getObjFrom_congr h
  | element r c isFirst value => exact getArrayFrom_congr h

end

/-! Every call that is made has less left to read. -/

/-- The reader has read on in the same text, beyond `start`. -/
structure ReadsBeyond (r : JsonReader) (start : ℕ) (r' : JsonReader) : Prop where
  same : r'.data = r.data
  further : start < r'.cur
  inside : r'.cur ≤ r.size

theorem exists_readerAt {r : JsonReader} (hr : r.cur ≤ r.size) :
    ∃ text s, r = readerAt text s := by
  have hr' : r.cur ≤ r.data.length := hr
  refine ⟨r.data.take r.cur, r.data.drop r.cur, ?_⟩
  rw [readerAt, List.take_append_drop, List.length_take_of_le hr']

theorem Takes.readsBeyond {α : Type} {k : ℕ} {text s : List Byte} {a : α} {r : JsonReader}
    (h : Takes (k + 1) text s (.ok a r)) : ReadsBeyond (readerAt text s) (text.length + k) r := by
  obtain ⟨t, rest, rfl, rfl, hk⟩ := h
  refine ⟨by simp [readerAt], ?_, ?_⟩
  · simp only [readerAt, List.length_append]
    omega
  · simp only [readerAt, JsonReader.size, List.length_append]
    omega

section

variable {r r' r'' : JsonReader} {start : ℕ}

theorem ReadsBeyond.le_size (h : ReadsBeyond r start r') : r'.cur ≤ r'.size := by
  rw [JsonReader.size, h.same]
  exact h.inside

theorem ReadsBeyond.trans (h : ReadsBeyond r start r') (h' : ReadsBeyond r' r'.cur r'') :
    ReadsBeyond r start r'' where
  same := h'.same.trans h.same
  further := h.further.trans h'.further
  inside := by
    have hsize : r'.size = r.size := congrArg List.length h.same
    exact h'.inside.trans_eq hsize

theorem ReadsBeyond.left_lt (h : ReadsBeyond r r.cur r') : r'.left < r.left := by
  have hsize : r'.size = r.size := congrArg List.length h.same
  have hfurther := h.further
  have hinside := h.inside
  rw [JsonReader.left, JsonReader.left, hsize]
  omega

/-- `SkipWhiteSpace` returns white space at the end of the input only. -/
theorem skipWhiteSpace_reads {c : Byte} (h : skipWhiteSpace r = .ok c r') :
    isWhite c = true ∧ r'.hasEnd = true ∨ ReadsBeyond r r.cur r' := by
  by_cases hr : r.cur ≤ r.size
  · obtain ⟨text, s, rfl⟩ := exists_readerAt hr
    rcases skipWhiteSpace_cases text s with ⟨d, -, hd, heq⟩ | ⟨w, d, rest, -, -, rfl, heq⟩
    · obtain ⟨rfl, rfl⟩ := Outcome.ok.inj (heq.symm.trans h)
      exact .inl ⟨hd, hasEnd_nil _⟩
    · obtain ⟨rfl, rfl⟩ := Outcome.ok.inj (heq.symm.trans h)
      exact .inr (Takes.readsBeyond (k := 0) (a := d) ⟨w ++ [d], rest, by simp, rfl, by simp⟩)
  · have hleft : r.left = 0 := by
      rw [JsonReader.left]
      omega
    rw [skipWhiteSpace, hleft, skipWhiteSpaceFrom] at h
    obtain ⟨rfl, rfl⟩ := Outcome.ok.inj h
    exact .inl ⟨by decide, decide_eq_true (by omega)⟩

theorem skipWhiteSpace_found {c : Byte} (h : skipWhiteSpace r = .ok c r')
    (hc : isWhite c = false) : ReadsBeyond r r.cur r' := by
  rcases skipWhiteSpace_reads h with ⟨hwhite, -⟩ | hreads
  · exact absurd rfl (ne_of_white hwhite hc)
  · exact hreads

theorem getString_reads {str : List Byte} (hr : r.cur ≤ r.size)
    (h : getString r quote = .ok str r') : ReadsBeyond r r.cur r' := by
  obtain ⟨text, s, rfl⟩ := exists_readerAt hr
  have htakes := getString_takes text s
  rw [h] at htakes
  exact htakes.readsBeyond

theorem getValue_reads {n : ℕ} {p v : JsonValuePtr} (hr : r.cur ≤ r.size)
    (h : getValue n r p = .ok v r') : ReadsBeyond r r.cur r' := by
  obtain ⟨text, s, rfl⟩ := exists_readerAt hr
  have htakes := (takesAll n).value text s p
  rw [h] at htakes
  exact (htakes.mono (Nat.le_add_left 1 _)).readsBeyond

theorem KeyRead.reads {str : List Byte} (h : KeyRead r str r') : ReadsBeyond r r.cur r' := by
  obtain ⟨r₁, r₂, hskip, hstr, hcolon⟩ := h
  have hquote := skipWhiteSpace_found hskip (by decide)
  have hstring := getString_reads hquote.le_size hstr
  exact (hquote.trans hstring).trans (skipWhiteSpace_found hcolon (by decide))

/-- The reader has not reached the end, and goes back by one byte at most. -/
theorem ElementStarts.back {c : Byte} {isFirst : Bool} (h : ElementStarts r c isFirst r') :
    r'.data = r.data ∧ r.cur < r.size ∧ r'.cur ≤ r.cur ∧ r.cur ≤ r'.cur + isFirst.toNat := by
  obtain ⟨hend, -, hback⟩ := h
  have hlt : r.cur < r.size := by simpa [JsonReader.hasEnd] using hend
  cases isFirst with
  | false =>
    rw [if_neg Bool.false_ne_true] at hback
    obtain ⟨-, rfl⟩ := Outcome.ok.inj hback
    exact ⟨rfl, hlt, le_rfl, le_rfl⟩
  | true =>
    rw [if_pos rfl, JsonReader.back] at hback
    split at hback
    · obtain ⟨-, rfl⟩ := Outcome.ok.inj hback
      exact ⟨rfl, hlt, Nat.sub_le _ _, Nat.le_add_of_sub_le le_rfl⟩
    · cases hback

theorem ElementStarts.le_size {c : Byte} {isFirst : Bool} (h : ElementStarts r c isFirst r') :
    r'.cur ≤ r'.size := by
  obtain ⟨hsame, hlt, hle, -⟩ := h.back
  rw [JsonReader.size, hsame]
  exact hle.trans hlt.le

theorem ElementStarts.left_le {c : Byte} {isFirst : Bool} (h : ElementStarts r c isFirst r') :
    r'.left ≤ r.left + isFirst.toNat := by
  obtain ⟨hsame, hlt, -, hback⟩ := h.back
  have hsize : r'.size = r.size := congrArg List.length hsame
  rw [JsonReader.left, JsonReader.left, hsize]
  omega

/-- Behind an element and a comma. -/
theorem ElementStarts.next {c : Byte} {isFirst : Bool} {r₁ r₂ : JsonReader} {n : ℕ}
    {v : JsonValuePtr} (h : ElementStarts r c isFirst r₁) (hv : getValue n r₁ .null = .ok v r₂)
    (hcomma : skipWhiteSpace r₂ = .ok (byte ',') r') : ReadsBeyond r₁ r₁.cur r' :=
  (getValue_reads h.le_size hv).trans (skipWhiteSpace_found hcomma (by decide))

/-- Behind a member and a comma. -/
theorem KeyRead.next {str : List Byte} {r₁ r₂ : JsonReader} {n : ℕ} {temp : JsonValuePtr}
    (h : KeyRead r str r₁) (htemp : getValue n r₁ .null = .ok temp r₂)
    (hcomma : skipWhiteSpace r₂ = .ok (byte ',') r') : ReadsBeyond r r.cur r' :=
  (h.reads.trans (getValue_reads h.reads.le_size htemp)).trans
    (skipWhiteSpace_found hcomma (by decide))

end

/-- A bound on the calls within calls and the turns of loops. What `GetArray` puts back is
counted while it is the first element that is read. -/
def Call.todo : Call → ℕ
  | .value r _ => 2 * r.left + 1
  | .member r _ _ => 2 * r.left + 2
  | .element r _ isFirst _ => if r.hasEnd then 0 else 2 * (r.left + isFirst.toNat) + 2

theorem todo_element_le (r : JsonReader) (c : Byte) (isFirst : Bool) (value : List JsonValuePtr) :
    (Call.element r c isFirst value).todo ≤ 2 * (r.left + isFirst.toNat) + 2 := by
  rw [Call.todo]
  split <;> omega

theorem Makes.todo_lt {a b : Call} (h : Makes a b) : b.todo < a.todo := by
  cases h with
  | obj hskip =>
    have hleft := (skipWhiteSpace_found hskip (by decide)).left_lt
    simp only [Call.todo]
    omega
  | @array r r' c r'' p hskip hskip' =>
    have hleft := (skipWhiteSpace_found hskip (by decide)).left_lt
    rcases skipWhiteSpace_reads hskip' with ⟨-, hend⟩ | hreads
    · simp [Call.todo, hend]
    · have hleft' := hreads.left_lt
      have hle := todo_element_le r'' c true []
      simp only [Bool.toNat_true] at hle
      rw [Call.todo.eq_1]
      omega
  | memberValue hkey =>
    have hleft := hkey.reads.left_lt
    simp only [Call.todo]
    omega
  | nextMember hkey htemp hcomma =>
    have hleft := (hkey.next htemp hcomma).left_lt
    simp only [Call.todo]
    omega
  | elementValue hstart =>
    have hleft := hstart.left_le
    simp only [Call.todo, hstart.1, Bool.false_eq_true, if_false]
    omega
  | @nextElement r c isFirst value r₁ n v r₂ r' hstart hv hcomma =>
    have hleft := (hstart.next hv hcomma).left_lt
    have hback := hstart.left_le
    have hle := todo_element_le r' (byte ',') false (value ++ [v])
    simp only [Bool.toNat_false, Nat.add_zero] at hle
    have htodo : (Call.element r c isFirst value).todo = 2 * (r.left + isFirst.toNat) + 2 := by
      simp only [Call.todo, hstart.1, Bool.false_eq_true, if_false]
    omega

/-- The outcome of a call is settled when the fuel exceeds the calls that can be made. -/
theorem run_eq {a : Call} {n m : ℕ} (hn : a.todo < n) (hm : a.todo < m) : a.run n = a.run m := by
  induction n generalizing a m with
  | zero => omega
  | succ n ih =>
    obtain ⟨m, rfl⟩ : ∃ k, m = k + 1 := Nat.exists_eq_add_one.mpr (by omega)
    refine run_congr fun b hb => ih ?_ ?_
    · have hlt := hb.todo_lt
      omega
    · have hlt := hb.todo_lt
      omega

/-! The loops of the smaller functions stop by themselves. -/

theorem getHex_ok {text s : List Byte} {icode : ℕ} {r : JsonReader}
    (h : getHex (readerAt text s) = .ok icode r) :
    ∃ text' s', r = readerAt text' s' ∧ s'.length ≤ s.length := by
  by_cases hlen : s.length < 4
  · rw [getHex, getHexFrom_short _ _ _ hlen] at h
    cases h
  · obtain ⟨x, rest, rfl, hx⟩ : ∃ x rest, s = x ++ rest ∧ x.length = 4 :=
      ⟨s.take 4, s.drop 4, by simp, by simp; omega⟩
    rw [getHex_append hx] at h
    obtain ⟨-, rfl⟩ := Outcome.ok.inj h
    exact ⟨text ++ x, rest, rfl, by simp⟩

section

variable {n m : ℕ} (text s : List Byte) (hn : s.length ≤ n) (hm : s.length ≤ m)
include hn hm

theorem skipWhiteSpaceFrom_eq (c : Byte) :
    skipWhiteSpaceFrom n (readerAt text s) c = skipWhiteSpaceFrom m (readerAt text s) c := by
  induction s generalizing n m text c with
  | nil => cases n <;> cases m <;> simp [skipWhiteSpaceFrom]
  | cons d s ih =>
    simp only [List.length_cons] at hn hm
    obtain ⟨n, rfl⟩ : ∃ k, n = k + 1 := Nat.exists_eq_add_one.mpr (by omega)
    obtain ⟨m, rfl⟩ : ∃ k, m = k + 1 := Nat.exists_eq_add_one.mpr (by omega)
    simp only [skipWhiteSpaceFrom, hasEnd_cons, read_cons, bind_ok]
    rw [ih (m := m) (text ++ [d]) (by omega) (by omega) d]

theorem getNumFrom_eq (state : NumState) :
    getNumFrom n (readerAt text s) state = getNumFrom m (readerAt text s) state := by
  induction n generalizing m text s state with
  | zero =>
    obtain rfl : s = [] := List.length_eq_zero_iff.mp (by omega)
    cases m <;> simp [getNumFrom]
  | succ n ih =>
    cases s with
    | nil => cases m <;> simp [getNumFrom]
    | cons c s =>
      simp only [List.length_cons] at hn hm
      obtain ⟨m, rfl⟩ : ∃ k, m = k + 1 := Nat.exists_eq_add_one.mpr (by omega)
      have hnext (state : NumState) := ih (m := m) (text ++ [c]) s (by omega) (by omega) state
      rw [getNumFrom_cons, getNumFrom_cons, hnext, hnext]
      cases s with
      | nil => rfl
      | cons d s =>
        simp only [List.length_cons] at hn hm
        have hbehind (state : NumState) :=
          ih (m := m) (text ++ [c] ++ [d]) s (by omega) (by omega) state
        rw [read_cons, bind_ok, bind_ok, hbehind, hbehind]

theorem getStringFrom_eq (state : StringState) :
    getStringFrom quote n (readerAt text s) state =
      getStringFrom quote m (readerAt text s) state := by
  induction n generalizing m text s state with
  | zero =>
    obtain rfl : s = [] := List.length_eq_zero_iff.mp (by omega)
    rw [getStringFrom_nil, getStringFrom_nil]
  | succ n ih =>
    cases s with
    | nil => rw [getStringFrom_nil, getStringFrom_nil]
    | cons c s =>
      simp only [List.length_cons] at hn hm
      obtain ⟨m, rfl⟩ : ∃ k, m = k + 1 := Nat.exists_eq_add_one.mpr (by omega)
      by_cases hquote : c = quote
      · rw [hquote, getStringFrom_quote, getStringFrom_quote]
      by_cases hbackslash : c = backslash
      · subst hbackslash
        cases s with
        | nil => rw [getStringFrom_backslash_nil, getStringFrom_backslash_nil]
        | cons d s =>
          simp only [List.length_cons] at hn hm
          rw [getStringFrom_backslash, getStringFrom_backslash]
          by_cases hu : d = byte 'u'
          · rw [if_pos hu, if_pos hu]
            refine bind_congr fun icode r hhex => ?_
            obtain ⟨text', s', rfl, hlen⟩ := getHex_ok hhex
            rw [ih (m := m) text' s' (by omega) (by omega)]
          · rw [if_neg hu, if_neg hu]
            exact ih _ s (by omega) (by omega) _
      · rw [getStringFrom_raw _ _ _ _ hquote hbackslash,
          getStringFrom_raw _ _ _ _ hquote hbackslash]
        exact ih (text ++ [c]) s (by omega) (by omega) _

end

/-- A call that succeeds has read on beyond `start`. -/
def Further {α : Type} (r : JsonReader) (start : ℕ) : Outcome α → Prop
  | .ok _ r' => ReadsBeyond r start r'
  | _ => True

theorem Takes.further {α : Type} {k : ℕ} {text s : List Byte} {o : Outcome α}
    (h : Takes (k + 1) text s o) : Further (readerAt text s) (text.length + k) o := by
  cases o with
  | ok a r => exact h.readsBeyond
  | error | assertion | unfinished => trivial

/-- The functions read beyond where their first byte was: behind white space, except that
`GetString` and `GetNum` are called behind their quote or first byte. -/
structure Progress (n : ℕ) (text s : List Byte) : Prop where
  value : ∀ p, Further (readerAt text s) (text.length + white s) (getValue n (readerAt text s) p)
  string : Further (readerAt text s) text.length (getString (readerAt text s) quote)
  num : ∀ head p, Further (readerAt text (head :: s)) text.length
    (getNum (readerAt (text ++ [head]) s) head p)
  obj : Further (readerAt text s) (text.length + white s) (getObj n (readerAt text s))
  array : Further (readerAt text s) (text.length + white s) (getArray n (readerAt text s))

theorem progress (n : ℕ) (text s : List Byte) : Progress n text s where
  value p := ((takesAll n).value text s p).further
  string := (getString_takes text s).further
  num head p := (Takes.behind (getNum_takes (text ++ [head]) s head p)).further (k := 0)
  obj := ((takesAll n).member text s true []).further
  array := ((takesAll n).array text s).further

/-- A loop that takes another turn has read on. -/
structure TurnsAdvance : Prop where
  member : ∀ {r isFirst value r' isFirst' value'},
    Makes (.member r isFirst value) (.member r' isFirst' value') → ReadsBeyond r r.cur r'
  element : ∀ {r c isFirst value r' c' isFirst' value'},
    Makes (.element r c isFirst value) (.element r' c' isFirst' value') → ReadsBeyond r r.cur r'

theorem turnsAdvance : TurnsAdvance where
  member h := by
    cases h with
    | nextMember hkey htemp hcomma => exact hkey.next htemp hcomma
  element {_ _ isFirst _ _ _ _ _} h := by
    cases h with
    | nextElement hstart hv hcomma =>
      -- the value takes a byte at least, so that the one put back is read again
      obtain ⟨hsame, -, -, hback⟩ := hstart.back
      have hvalue := getValue_reads hstart.le_size hv
      have hnext := skipWhiteSpace_found hcomma (by decide)
      have hsize : ∀ {r r' : JsonReader}, r'.data = r.data → r'.size = r.size :=
        fun h => congrArg List.length h
      refine ⟨(hnext.same.trans hvalue.same).trans hsame, ?_, ?_⟩
      · have hone := Bool.toNat_le isFirst
        have hread := hvalue.further
        have hread' := hnext.further
        omega
      · exact hnext.inside.trans_eq ((hsize hvalue.same).trans (hsize hsame))

/-- `Parse` ends on every input, by itself: with a value, with an error, or at a failed
assertion where the input is cut off behind `\u`. -/
theorem parse_terminates :
    (∀ str p, parse str p ≠ .unfinished ∧
      (∀ k, getValue (2 * str.length + 2 + k) ⟨str, 0⟩ p = parse str p) ∧
      (parse str p = .assertion → ∃ w u, White w ∧ str = w ++ u ∧ Cut .value u)) ∧
    (∀ n text s, Progress n text s) ∧
    WellFounded (fun b a => Makes a b) ∧ TurnsAdvance ∧
    ∀ k text s,
      (∀ c, skipWhiteSpaceFrom (s.length + k) (readerAt text s) c =
        skipWhiteSpaceFrom s.length (readerAt text s) c) ∧
      (∀ state, getStringFrom quote (s.length + k) (readerAt text s) state =
        getStringFrom quote s.length (readerAt text s) state) ∧
      ∀ state, getNumFrom (s.length + k) (readerAt text s) state =
        getNumFrom s.length (readerAt text s) state := by
  refine ⟨fun str p => ?_, progress, ?_, turnsAdvance, fun k text s => ?_⟩
  · have hspec := parse_spec str p
    refine ⟨fun h => ?_, fun k => ?_, fun h => ?_⟩
    · rw [h] at hspec
      exact hspec
    · have htodo : (Call.value ⟨str, 0⟩ p).todo = 2 * str.length + 1 := rfl
      exact run_eq (a := .value ⟨str, 0⟩ p) (by omega) (by omega)
    · rw [h] at hspec
      exact hspec
  · exact Subrelation.wf (fun h => h.todo_lt) (InvImage.wf Call.todo Nat.lt_wfRel.wf)
  · exact ⟨fun c => skipWhiteSpaceFrom_eq text s (by omega) le_rfl c,
      fun state => getStringFrom_eq text s (by omega) le_rfl state,
      fun state => getNumFrom_eq text s (by omega) le_rfl state⟩

theorem parse_terminates_truncated :
    parse (ascii "[\x7b\"a\": [1, ") .null ≠ .unfinished ∧
    ∃ w u, White w ∧ ascii "[\"\\u12" = w ++ u ∧ Cut .value u :=
  ⟨(parse_terminates.1 (ascii "[\x7b\"a\": [1, ") .null).1,
    (parse_terminates.1 (ascii "[\"\\u12") .null).2.2 rfl⟩

end Voyager.Json
