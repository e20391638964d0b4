import Voyager.JsonContainers
import Voyager.JsonValue

/-!
Reading back what was written. Null and the booleans are not read back, numbers come
back as null, and a string loses bytes if it has a run of `2 ^ 32` bytes that are
copied as they are.
-/
namespace Voyager.Json

open Lib.CString Lib.OrderedMap JsonValuePtr

/-! What is read instead of a value. -/

/-- `s'` was read where `s` was written. -/
structure BackString (s s' : List Byte) : Prop where
  length_le : s'.length ≤ s.length
  lossy : ¬ ShortRuns 0 s → s'.length < s.length
  same : ShortRuns 0 s → s' = s

/-- The strings and keys of a value, not of the values within it. -/
def ShortStrings : JsonValuePtr → Prop
  | .string s => ShortRuns 0 s
  | .obj m => ∀ e ∈ m, ShortRuns 0 e.1
  | .null | .num _ | .boolean _ | .array _ => True

/-- `v'` was read where `v` was written. -/
structure Back (v v' : JsonValuePtr) : Prop where
  not_numeric : Everywhere (fun u => ¬ Numeric u) v'
  weight_le : weight v' ≤ weight v
  lossy : ¬ Everywhere ShortStrings v → weight v' < weight v
  same : Everywhere ShortStrings v → Everywhere Textual v → v' = v

def BackMember (e e' : List Byte × JsonValuePtr) : Prop := BackString e.1 e'.1 ∧ Back e.2 e'.2

theorem back_string {s s' : List Byte} (h : BackString s s') : Back (.string s) (.string s') where
  not_numeric := everywhere_string.mpr id
  weight_le := h.length_le
  lossy hs := h.lossy fun hshort => hs (everywhere_string.mpr hshort)
  same hs _ := by rw [h.same (everywhere_string.mp hs)]

theorem back_num (n : Int) : Back (.num n) .null where
  not_numeric := everywhere_null.mpr id
  weight_le := le_rfl
  lossy h := absurd (everywhere_num.mpr trivial) h
  same _ h := (everywhere_num.mp h).elim

theorem elements_not_numeric {xs ys : List JsonValuePtr} (h : List.Forall₂ Back xs ys) :
    ∀ y ∈ ys, Everywhere (fun u => ¬ Numeric u) y := by
  induction h with
  | nil => simp
  | cons hxy _ ih => exact List.forall_mem_cons.mpr ⟨hxy.not_numeric, ih⟩

theorem weightElements_back {xs ys : List JsonValuePtr} (h : List.Forall₂ Back xs ys) :
    weightElements ys ≤ weightElements xs ∧
    ((∃ x ∈ xs, ¬ Everywhere ShortStrings x) → weightElements ys < weightElements xs) := by
  induction h with
  | nil => exact ⟨le_rfl, by simp⟩
  | @cons x y xs ys hxy _ ih =>
    have hle := hxy.weight_le
    obtain ⟨hrest, hlossy⟩ := ih
    simp only [weightElements]
    refine ⟨by omega, ?_⟩
    rintro ⟨u, hu, hlong⟩
    rcases List.mem_cons.mp hu with rfl | hmem
    · have hlt := hxy.lossy hlong
      omega
    · have hlt := hlossy ⟨u, hmem, hlong⟩
      omega

theorem elements_same {xs ys : List JsonValuePtr} (h : List.Forall₂ Back xs ys)
    (hshort : ∀ x ∈ xs, Everywhere ShortStrings x) (htext : ∀ x ∈ xs, Everywhere Textual x) :
    ys = xs := by
  induction h with
  | nil => rfl
  | cons hxy _ ih =>
    rw [hxy.same (hshort _ (by simp)) (htext _ (by simp)),
      ih (fun x hx => hshort x (by simp [hx])) fun x hx => htext x (by simp [hx])]

theorem back_array {xs ys : List JsonValuePtr} (h : List.Forall₂ Back xs ys) :
    Back (.array xs) (.array ys) where
  not_numeric := everywhere_array.mpr ⟨id, elements_not_numeric h⟩
  weight_le := (weightElements_back h).1
  lossy hlong := by
    apply (weightElements_back h).2
    by_contra hall
    push Not at hall
    exact hlong (everywhere_array.mpr ⟨trivial, hall⟩)
  same hshort htext := by
    rw [elements_same h (everywhere_array.mp hshort).2 (everywhere_array.mp htext).2]

section

variable {m es : List (List Byte × JsonValuePtr)}

theorem members_not_numeric (h : List.Forall₂ BackMember m es) :
    ∀ e ∈ es, Everywhere (fun u => ¬ Numeric u) e.2 := by
  induction h with
  | nil => simp
  | cons hxy _ ih => exact List.forall_mem_cons.mpr ⟨hxy.2.not_numeric, ih⟩

theorem weightMembers_back (h : List.Forall₂ BackMember m es) :
    weightMembers es ≤ weightMembers m ∧
    ((∃ e ∈ m, ¬ (ShortRuns 0 e.1 ∧ Everywhere ShortStrings e.2)) →
      weightMembers es < weightMembers m) := by
  induction h with
  | nil => exact ⟨le_rfl, by simp⟩
  | @cons e e' m es hback _ ih =>
    have hkey := hback.1.length_le
    have hvalue := hback.2.weight_le
    obtain ⟨hrest, hlossy⟩ := ih
    simp only [weightMembers]
    refine ⟨by omega, ?_⟩
    rintro ⟨u, hu, hlong⟩
    rcases List.mem_cons.mp hu with rfl | hmem
    · rcases not_and_or.mp hlong with hlong | hlong
      · have hlt := hback.1.lossy hlong
        omega
      · have hlt := hback.2.lossy hlong
        omega
    · have hlt := hlossy ⟨u, hmem, hlong⟩
      omega

theorem members_same (h : List.Forall₂ BackMember m es) (hkeys : ∀ e ∈ m, ShortRuns 0 e.1)
    (hshort : ∀ e ∈ m, Everywhere ShortStrings e.2) (htext : ∀ e ∈ m, Everywhere Textual e.2) :
    es = m := by
  induction h with
  | nil => rfl
  | @cons e e' m es hback _ ih =>
    have hkey : e'.1 = e.1 := hback.1.same (hkeys e (by simp))
    have hvalue : e'.2 = e.2 := hback.2.same (hshort e (by simp)) (htext e (by simp))
    rw [Prod.ext hkey hvalue, ih (fun x hx => hkeys x (by simp [hx]))
      (fun x hx => hshort x (by simp [hx])) fun x hx => htext x (by simp [hx])]

theorem back_obj (h : List.Forall₂ BackMember m es) : Back (.obj m) (.obj (insertAll [] es)) where
  not_numeric := by
    refine everywhere_obj.mpr ⟨id, fun e he => ?_⟩
    rcases mem_insertAll he with hnil | hes
    · exact absurd hnil List.not_mem_nil
    · exact members_not_numeric h e hes
  weight_le := by
    have hread := weightMembers_insertAll [] es
    have hle := (weightMembers_back h).1
    simp only [weight, weightMembers] at hread ⊢
    omega
  lossy hlong := by
    have hread := weightMembers_insertAll [] es
    have hlt : weightMembers es < weightMembers m := by
      apply (weightMembers_back h).2
      by_contra hall
      push Not at hall
      exact hlong (everywhere_obj.mpr ⟨fun e he => (hall e he).1, fun e he => (hall e he).2⟩)
    simp only [weight, weightMembers] at hread ⊢
    omega
  same hshort htext := by
    obtain ⟨hkeys, hvalues⟩ := everywhere_obj.mp hshort
    obtain ⟨hsorted, hall⟩ := everywhere_obj.mp htext
    rw [members_same h hkeys hvalues hall, insertAll_sorted hsorted (by simp)]
    rfl

end

/-! What is written. -/

theorem isDigit_byte {c : Char} (h : c.isDigit = true) : Lib.CString.isDigit (byte c) = true := by
  simp only [Char.isDigit, ge_iff_le, Bool.and_eq_true, decide_eq_true_eq, UInt32.le_iff_toNat_le]
    at h
  have hlow : 48 ≤ c.toNat := h.1
  have hhigh : c.toNat ≤ 57 := h.2
  have hbyte : (byte c).toNat = c.toNat := by
    rw [byte, UInt8.toNat_ofNat']
    omega
  simp only [Lib.CString.isDigit, decide_eq_true_eq, UInt8.le_iff_toNat_le, hbyte]
  exact ⟨hlow, hhigh⟩

/-- An integer is written as a number. -/
theorem number_writeNum (n : Int) : Number (writeNum n) := by
  have hdigits : Digits ((Nat.toDigits 10 n.natAbs).map byte) := by
    intro c hc
    obtain ⟨d, hd, rfl⟩ := List.mem_map.mp hc
    exact isDigit_byte (Nat.isDigit_of_mem_toDigits (by decide) (by decide) hd)
  have hne : (Nat.toDigits 10 n.natAbs).map byte ≠ [] := by
    simp [Nat.toDigits_ne_nil]
  have hunsigned : Unsigned ((Nat.toDigits 10 n.natAbs).map byte) :=
    ⟨_, [], [], by simp, hne, hdigits, .none, .none⟩
  unfold writeNum
  dsimp only
  split_ifs
  · exact .negative hunsigned
  · exact .unsigned hunsigned

/-- No value begins with white space or a closing bracket. -/
theorem stringify_head (v : JsonValuePtr) :
    ∃ c t, stringify v = c :: t ∧ isWhite c = false ∧ c ≠ byte ']' := by
  cases v with
  | null => exact ⟨_, _, rfl, by decide, by decide⟩
  | string s => exact ⟨quote, _, writeString_eq s, by decide, by decide⟩
  | num n =>
    obtain ⟨c, t, heq, hc⟩ := (number_writeNum n).head
    refine ⟨c, t, heq, ?_, ?_⟩
    · exact isWhite_of_number hc
    · rintro rfl
      exact absurd hc (by decide)
  | obj m => exact ⟨_, _, rfl, by decide, by decide⟩
  | array xs => exact ⟨_, _, rfl, by decide, by decide⟩
  | boolean b => cases b <;> exact ⟨_, _, rfl, by decide, by decide⟩

theorem stops_nil : Stops [] := by simp [Stops]

theorem stops_cons {c : Byte} (rest : List Byte) (hc : c = 32 ∨ c = byte ',') :
    Stops (c :: rest) := by
  intro d hd
  obtain rfl : c = d := by simpa using hd
  rcases hc with rfl | rfl <;> decide

/-! Reading it. -/

def HasLiteral (v : JsonValuePtr) : Prop := ¬ Everywhere (fun u => ¬ Literal u) v

/-- How reading ends where `v` was written, with `rest` behind it. A number leaves the
pointer `p` as it was. -/
def Reads (v p : JsonValuePtr) (text rest : List Byte) (o : Outcome JsonValuePtr) : Prop :=
  (HasLiteral v ∧ ∃ text', o = .error text') ∨
  (¬ HasLiteral v ∧ ∃ v', o = .ok v' (readerAt text rest) ∧ (Numeric v → v' = p) ∧
    (¬ Numeric v → Back v v'))

/-- With fuel for what is left, `GetValue` reads `v` behind white space. The empty
array needs a byte behind it. -/
def ReadsBack (v : JsonValuePtr) : Prop :=
  ∀ (n : ℕ) (w text rest : List Byte) (p : JsonValuePtr), White w →
    2 * (w ++ (stringify v ++ rest)).length + 1 ≤ n → Stops rest → (v = .array [] → rest ≠ []) →
    Reads v p (text ++ (w ++ stringify v)) rest
      (getValue n (readerAt text (w ++ (stringify v ++ rest))) p)

/-- With a fresh pointer. -/
theorem Reads.fresh {v : JsonValuePtr} {text rest : List Byte} {o : Outcome JsonValuePtr}
    (h : Reads v .null text rest o) :
    (HasLiteral v ∧ ∃ text', o = .error text') ∨
    (¬ HasLiteral v ∧ ∃ v', o = .ok v' (readerAt text rest) ∧ Back v v') := by
  rcases h with hliteral | ⟨hliteral, v', heq, hnum, hback⟩
  · exact .inl hliteral
  · refine .inr ⟨hliteral, v', heq, ?_⟩
    cases v with
    | num n =>
      rw [hnum trivial]
      exact back_num n
    | null | string | obj | array | boolean => exact hback id

theorem hasLiteral_array {xs : List JsonValuePtr} :
    HasLiteral (.array xs) ↔ ∃ x ∈ xs, HasLiteral x := by
  simp [HasLiteral, everywhere_array, Literal]

theorem hasLiteral_obj {m : List (List Byte × JsonValuePtr)} :
    HasLiteral (.obj m) ↔ ∃ e ∈ m, HasLiteral e.2 := by
  simp [HasLiteral, everywhere_obj, Literal]

theorem elements_behind (xs : List JsonValuePtr) (rest : List Byte) :
    ∃ c t, writeElements false xs ++ (ascii " ]" ++ rest) = c :: t ∧ (c = 32 ∨ c = byte ',') := by
  cases xs with
  | nil => exact ⟨_, _, rfl, .inl rfl⟩
  | cons x xs => exact ⟨_, _, rfl, .inr rfl⟩

/-- The elements from the second on. -/
theorem afterElement_reads {xs : List JsonValuePtr} (hxs : ∀ x ∈ xs, ReadsBack x) {n : ℕ}
    (value : List JsonValuePtr) (text rest : List Byte)
    (hn : 2 * (writeElements false xs ++ (ascii " ]" ++ rest)).length ≤ n) :
    ((∃ x ∈ xs, HasLiteral x) ∧ ∃ text', afterElement n value
      (readerAt text (writeElements false xs ++ (ascii " ]" ++ rest))) = .error text') ∨
    ((∀ x ∈ xs, ¬ HasLiteral x) ∧ ∃ ys, List.Forall₂ Back xs ys ∧
      afterElement n value (readerAt text (writeElements false xs ++ (ascii " ]" ++ rest))) =
        .ok (.array (value ++ ys))
          (readerAt (text ++ (writeElements false xs ++ ascii " ]")) rest)) := by
  induction xs generalizing n value text with
  | nil =>
    refine .inr ⟨by simp, [], .nil, ?_⟩
    rw [List.append_nil]
    exact afterElement_close n text rest white_blank value
  | cons x xs ih =>
    have htext (z : List Byte) : writeElements false (x :: xs) ++ z =
        byte ',' :: ([32] ++ (stringify x ++ (writeElements false xs ++ z))) := by
      simp [writeElements, ascii, byte]
    obtain ⟨c, t, htail, hc⟩ := elements_behind xs rest
    rw [htext] at hn ⊢
    simp only [List.length_cons, List.length_append, List.length_nil] at hn
    obtain ⟨n, rfl⟩ : ∃ m, n = m + 1 := Nat.exists_eq_add_one.mpr (by omega)
    have hx : Reads x .null (text ++ [byte ','] ++ ([32] ++ stringify x))
        (writeElements false xs ++ (ascii " ]" ++ rest)) (getValue n (readerAt (text ++ [byte ','])
          ([32] ++ (stringify x ++ (writeElements false xs ++ (ascii " ]" ++ rest))))) .null) := by
      apply hxs x (by simp) n [32] _ _ _ white_blank
      · simp only [List.length_cons, List.length_append, List.length_nil]
        omega
      · rw [htail]
        exact stops_cons t hc
      · simp [htail]
    have hstep : afterElement (n + 1) value (readerAt text (byte ',' :: ([32] ++
        (stringify x ++ (writeElements false xs ++ (ascii " ]" ++ rest)))))) =
          (getValue n (readerAt (text ++ [byte ',']) ([32] ++
            (stringify x ++ (writeElements false xs ++ (ascii " ]" ++ rest))))) .null).bind
            fun v r => afterElement n (value ++ [v]) r :=
      (afterElement_comma (n + 1) text _ white_nil value).trans
        (getArrayFrom_next n _ _ 32 (byte ',') value)
    rw [hstep]
    rcases hx.fresh with ⟨hliteral, text', heq⟩ | ⟨hliteral, y, heq, hback⟩
    · rw [heq]
      exact .inl ⟨⟨x, by simp, hliteral⟩, text', rfl⟩
    · rw [heq, bind_ok]
      rcases ih (fun u hu => hxs u (by simp [hu])) (n := n) (value ++ [y])
        (text ++ [byte ','] ++ ([32] ++ stringify x)) (by simp only [List.length_append]; omega)
        with ⟨⟨u, hu, hliteral'⟩, herror⟩ | ⟨hnone, ys, hys, heq'⟩
      · exact .inl ⟨⟨u, by simp [hu], hliteral'⟩, herror⟩
      · refine .inr ⟨List.forall_mem_cons.mpr ⟨hliteral, hnone⟩, y :: ys, .cons hback hys, ?_⟩
        rw [heq', htext (ascii " ]")]
        simp

theorem members_behind (m : List (List Byte × JsonValuePtr)) (rest : List Byte) :
    ∃ c t, writeMembers false m ++ (ascii " \x7d" ++ rest) = c :: t ∧ (c = 32 ∨ c = byte ',') := by
  cases m with
  | nil => exact ⟨_, _, rfl, .inl rfl⟩
  | cons e m => exact ⟨_, _, rfl, .inr rfl⟩

/-- A member, behind white space. -/
theorem getObjFrom_reads {k : List Byte} {x : JsonValuePtr} (hx : ReadsBack x) {n : ℕ}
    {w : List Byte} (hw : White w) (isFirst : Bool) (value : List (List Byte × JsonValuePtr))
    (text : List Byte) {tail : List Byte} (hstops : Stops tail) (hne : tail ≠ [])
    (hn : 2 * (writeString k ++ (ascii ": " ++ (stringify x ++ tail))).length ≤ n + 1) :
    (HasLiteral x ∧ ∃ text', getObjFrom (n + 1) (readerAt text
      (w ++ (writeString k ++ (ascii ": " ++ (stringify x ++ tail))))) isFirst value =
        .error text') ∨
    (¬ HasLiteral x ∧ ∃ e, BackMember (k, x) e ∧ getObjFrom (n + 1) (readerAt text
      (w ++ (writeString k ++ (ascii ": " ++ (stringify x ++ tail))))) isFirst value =
        afterMember n (insert e.1 e.2 value)
          (readerAt (text ++ (w ++ (writeString k ++ (ascii ": " ++ stringify x)))) tail)) := by
  obtain ⟨k', hk, hle, hlossy, hsame⟩ := getString_escaped k (text ++ (w ++ [quote]))
    (byte ':' :: ([32] ++ (stringify x ++ tail)))
  have hblank : ascii ": " = byte ':' :: [32] := by decide
  have hread : getObjFrom (n + 1) (readerAt text
      (w ++ (writeString k ++ (ascii ": " ++ (stringify x ++ tail))))) isFirst value =
        (getValue n (readerAt (text ++ (w ++ [quote]) ++ (escaped k ++ [quote]) ++ [byte ':'])
          ([32] ++ (stringify x ++ tail))) .null).bind fun temp r =>
            afterMember n (insert k' temp value) r := by
    have htext : w ++ (writeString k ++ (ascii ": " ++ (stringify x ++ tail))) =
        w ++ quote :: (escaped k ++ quote :: byte ':' :: ([32] ++ (stringify x ++ tail))) := by
      simp [writeString_eq, hblank]
    rw [htext, getObjFrom_key n text _ hw, hk, bind_ok]
    exact afterKey_colon n _ _ white_nil k' value
  have hreads := hx n [32] (text ++ (w ++ [quote]) ++ (escaped k ++ [quote]) ++ [byte ':']) tail
    .null white_blank (by
      rw [hblank, writeString_eq] at hn
      simp only [List.length_cons, List.length_append, List.length_nil] at hn ⊢
      omega) hstops fun _ => hne
  rw [hread]
  rcases hreads.fresh with ⟨hliteral, text', heq⟩ | ⟨hliteral, x', heq, hback⟩
  · rw [heq]
    exact .inl ⟨hliteral, text', rfl⟩
  · rw [heq, bind_ok]
    refine .inr ⟨hliteral, (k', x'), ⟨⟨hle, hlossy, hsame⟩, hback⟩, ?_⟩
    simp [writeString_eq, hblank]

/-- The members from the second on. -/
theorem afterMember_reads {m : List (List Byte × JsonValuePtr)} (hm : ∀ e ∈ m, ReadsBack e.2)
    {n : ℕ} (value : List (List Byte × JsonValuePtr)) (text rest : List Byte)
    (hn : 2 * (writeMembers false m ++ (ascii " \x7d" ++ rest)).length ≤ n) :
    ((∃ e ∈ m, HasLiteral e.2) ∧ ∃ text', afterMember n value
      (readerAt text (writeMembers false m ++ (ascii " \x7d" ++ rest))) = .error text') ∨
    ((∀ e ∈ m, ¬ HasLiteral e.2) ∧ ∃ es, List.Forall₂ BackMember m es ∧
      afterMember n value (readerAt text (writeMembers false m ++ (ascii " \x7d" ++ rest))) =
        .ok (.obj (insertAll value es))
          (readerAt (text ++ (writeMembers false m ++ ascii " \x7d")) rest)) := by
  induction m generalizing n value text with
  | nil =>
    exact .inr ⟨by simp, [], .nil, afterMember_close n text rest white_blank value⟩
  | cons e m ih =>
    obtain ⟨k, x⟩ := e
    have htext (z : List Byte) : writeMembers false ((k, x) :: m) ++ z =
        byte ',' :: ([32] ++
          (writeString k ++ (ascii ": " ++ (stringify x ++ (writeMembers false m ++ z))))) := by
      simp [writeMembers, ascii, byte]
    obtain ⟨c, t, htail, hc⟩ := members_behind m rest
    rw [htext] at hn ⊢
    simp only [List.length_cons, List.length_append, List.length_nil] at hn
    obtain ⟨n, rfl⟩ : ∃ m, n = m + 1 := Nat.exists_eq_add_one.mpr (by omega)
    have hstep : afterMember (n + 1) value (readerAt text (byte ',' :: ([32] ++ (writeString k ++
        (ascii ": " ++ (stringify x ++ (writeMembers false m ++ (ascii " \x7d" ++ rest)))))))) =
          getObjFrom (n + 1) (readerAt (text ++ [byte ',']) ([32] ++ (writeString k ++
            (ascii ": " ++ (stringify x ++ (writeMembers false m ++ (ascii " \x7d" ++ rest)))))))
            false value :=
      afterMember_comma (n + 1) text _ white_nil value
    rw [hstep]
    have hstops : Stops (writeMembers false m ++ (ascii " \x7d" ++ rest)) := by
      rw [htail]
      exact stops_cons t hc
    rcases getObjFrom_reads (hm (k, x) (by simp)) white_blank false value (text ++ [byte ','])
      (k := k) (n := n) hstops (by simp [htail]) (by simp only [List.length_append]; omega)
      with ⟨hliteral, text', heq⟩ | ⟨hliteral, e, hback, heq⟩
    · rw [heq]
      exact .inl ⟨⟨(k, x), by simp, hliteral⟩, text', rfl⟩
    · rw [heq]
      rcases ih (fun u hu => hm u (by simp [hu])) (n := n) (insert e.1 e.2 value)
        (text ++ [byte ','] ++ ([32] ++ (writeString k ++ (ascii ": " ++ stringify x))))
        (by simp only [List.length_append]; omega)
        with ⟨⟨u, hu, hliteral'⟩, herror⟩ | ⟨hnone, es, hes, heq'⟩
      · exact .inl ⟨⟨u, by simp [hu], hliteral'⟩, herror⟩
      · refine .inr ⟨List.forall_mem_cons.mpr ⟨hliteral, hnone⟩, e :: es, .cons hback hes, ?_⟩
        rw [heq', htext (ascii " \x7d")]
        simp [insertAll]

/-- Null and the booleans are looked for behind their own first letter. -/
theorem literal_error (text rest : List Byte) {v : JsonValuePtr} (hv : Literal v) (n : ℕ)
    {w : List Byte} (hw : White w) (p : JsonValuePtr) :
    ∃ text', getValue (n + 1) (readerAt text (w ++ (stringify v ++ rest))) p = .error text' := by
  have hmiss {d : Byte} {word : List Byte} (k : ℕ) (more : List Byte) (hd : d ≠ 0)
      {c : Byte} (hc : toLower c ≠ toLower d) :
      strncasecmp (c :: more) (d :: word) (k + 1) ≠ 0 := by
    rw [Ne, strncasecmp_cons hd]
    exact fun h => hc h.1
  cases v with
  | null =>
    have heq := getValue_null n text (ascii "ull" ++ rest) p hw (.inl rfl)
    have hword : strncasecmp (ascii "ull" ++ rest) (ascii "null") 4 ≠ 0 :=
      hmiss _ _ (by decide) (by decide)
    rw [getNull, peek_readerAt, if_neg hword] at heq
    exact ⟨_, heq⟩
  | boolean b =>
    cases b with
    | true =>
      have heq := getValue_boolean n text (ascii "rue" ++ rest) p hw (.inr (.inl rfl))
      have hword : strncasecmp (ascii "rue" ++ rest) (ascii "true") 4 ≠ 0 :=
        hmiss _ _ (by decide) (by decide)
      have hletter : ¬ (byte 't' = byte 'f' ∨ byte 't' = byte 'F') := by decide
      rw [getBoolean, peek_readerAt, if_neg fun h => hword h.2, if_neg fun h => hletter h.1] at heq
      exact ⟨_, heq⟩
    | false =>
      have heq := getValue_boolean n text (ascii "alse" ++ rest) p hw (.inr (.inr (.inr rfl)))
      have hword : strncasecmp (ascii "alse" ++ rest) (ascii "false") 5 ≠ 0 :=
        hmiss _ _ (by decide) (by decide)
      have hletter : ¬ (byte 'f' = byte 't' ∨ byte 'f' = byte 'T') := by decide
      rw [getBoolean, peek_readerAt, if_neg fun h => hletter h.1, if_neg fun h => hword h.2] at heq
      exact ⟨_, heq⟩
  | string | num | obj | array => exact hv.elim

theorem readsBack_obj {m : List (List Byte × JsonValuePtr)} (ih : ∀ e ∈ m, ReadsBack e.2) :
    ReadsBack (.obj m) := by
  intro n w text rest p hw hn _ _
  have hopen : ascii "\x7b " = [byte '{', 32] := by decide
  have hclose : ascii " \x7d" = [32, byte '}'] := by decide
  cases m with
  | nil =>
    obtain ⟨n, rfl⟩ : ∃ m, n = m + 2 :=
      Nat.exists_eq_add_of_le' (by simp [stringify, hopen, hclose] at hn; omega)
    have htext (z : List Byte) : stringify (.obj []) ++ z =
        byte '{' :: ([32, 32] ++ byte '}' :: z) := by
      simp [stringify, writeMembers, hopen, hclose]
    have hwhite : White [32, 32] := by simp [White, isWhite]
    refine .inr ⟨?_, .obj [], ?_, False.elim, fun _ => back_obj .nil⟩
    · simp [hasLiteral_obj]
    · rw [htext, getValue_obj (n + 1) text _ p hw, getObjFrom_close n _ rest hwhite,
        ← List.append_nil (stringify (.obj [])), htext]
      simp
  | cons e m =>
    obtain ⟨k, x⟩ := e
    have hm : ∀ e ∈ m, ReadsBack e.2 := fun e he => ih e (by simp [he])
    have htext (z : List Byte) : stringify (.obj ((k, x) :: m)) ++ z =
        byte '{' :: ([32] ++ (writeString k ++ (ascii ": " ++
          (stringify x ++ (writeMembers false m ++ (ascii " \x7d" ++ z)))))) := by
      simp [stringify, writeMembers, hopen]
    rw [htext] at hn ⊢
    simp only [List.length_append, List.length_cons, List.length_nil] at hn
    obtain ⟨n, rfl⟩ : ∃ m, n = m + 2 := Nat.exists_eq_add_of_le' (by omega)
    obtain ⟨c, t, htail, hc⟩ := members_behind m rest
    have hstops : Stops (writeMembers false m ++ (ascii " \x7d" ++ rest)) := by
      rw [htail]
      exact stops_cons t hc
    rw [getValue_obj (n + 1) text _ p hw]
    rcases getObjFrom_reads (ih (k, x) (by simp)) white_blank true [] (text ++ (w ++ [byte '{']))
      (k := k) (n := n) hstops (by simp [htail]) (by simp only [List.length_append]; omega)
      with ⟨hliteral, herror⟩ | ⟨hliteral, e, hback, heq⟩
    · exact .inl ⟨hasLiteral_obj.mpr ⟨(k, x), by simp, hliteral⟩, herror⟩
    rw [heq]
    rcases afterMember_reads hm (n := n) (insert e.1 e.2 [])
      (text ++ (w ++ [byte '{']) ++ ([32] ++ (writeString k ++ (ascii ": " ++ stringify x)))) rest
      (by simp only [List.length_append]; omega)
      with ⟨⟨u, hu, hliteral'⟩, herror⟩ | ⟨hnone, es, hes, heq'⟩
    · exact .inl ⟨hasLiteral_obj.mpr ⟨u, by simp [hu], hliteral'⟩, herror⟩
    · refine .inr ⟨?_, .obj (insertAll [] (e :: es)), ?_, False.elim,
        fun _ => back_obj (.cons hback hes)⟩
      · rw [hasLiteral_obj]
        rintro ⟨u, hu, hliteral'⟩
        rcases List.mem_cons.mp hu with rfl | hmem
        · exact hliteral hliteral'
        · exact hnone u hmem hliteral'
      · rw [heq', ← List.append_nil (stringify (.obj ((k, x) :: m))), htext]
        simp [insertAll]

/-- The first byte of the first element is read ahead and goes back. -/
theorem getValue_firstElement (n : ℕ) (text : List Byte) (x : JsonValuePtr) {tail : List Byte}
    (htail : tail ≠ []) {w : List Byte} (hw : White w) (p : JsonValuePtr) :
    getValue (n + 2) (readerAt text (w ++ byte '[' :: ([32] ++ (stringify x ++ tail)))) p =
      (getValue n (readerAt (text ++ (w ++ [byte '[']) ++ [32]) (stringify x ++ tail)) .null).bind
        fun v r => afterElement n [v] r := by
  obtain ⟨c, t, hx, hwhite, hc⟩ := stringify_head x
  obtain ⟨e, s, hbehind⟩ : ∃ e s, t ++ tail = e :: s :=
    List.exists_cons_of_ne_nil (by simp [htail])
  have hcons : stringify x ++ tail = c :: e :: s := by
    rw [hx, List.cons_append, hbehind]
  rw [hcons]
  exact getValue_element n text s hw white_blank hwhite hc e p

theorem readsBack_array {xs : List JsonValuePtr} (ih : ∀ x ∈ xs, ReadsBack x) :
    ReadsBack (.array xs) := by
  intro n w text rest p hw hn _ hne
  have hopen : ascii "[ " = [byte '[', 32] := by decide
  have hclose : ascii " ]" = [32, byte ']'] := by decide
  cases xs with
  | nil =>
    obtain ⟨n, rfl⟩ : ∃ m, n = m + 2 :=
      Nat.exists_eq_add_of_le' (by simp [stringify, hopen, hclose] at hn; omega)
    obtain ⟨d, rest, rfl⟩ := List.exists_cons_of_ne_nil (hne rfl)
    have htext (z : List Byte) : stringify (.array []) ++ z =
        byte '[' :: ([32, 32] ++ byte ']' :: z) := by
      simp [stringify, writeElements, hopen, hclose]
    have hwhite : White [32, 32] := by simp [White, isWhite]
    refine .inr ⟨?_, .array [], ?_, False.elim, fun _ => back_array .nil⟩
    · simp [hasLiteral_array]
    · rw [htext, getValue_array (n + 1) text _ p hw,
        skipWhiteSpace_cons hwhite (by decide), bind_ok, getArrayFrom_close,
        ← List.append_nil (stringify (.array [])), htext]
      simp
  | cons x xs =>
    have hxs : ∀ u ∈ xs, ReadsBack u := fun u hu => ih u (by simp [hu])
    obtain ⟨d, more, htail, hd⟩ := elements_behind xs rest
    have htext (z : List Byte) : stringify (.array (x :: xs)) ++ z =
        byte '[' :: ([32] ++ (stringify x ++ (writeElements false xs ++ (ascii " ]" ++ z)))) := by
      simp [stringify, writeElements, hopen]
    rw [htext] at hn ⊢
    simp only [List.length_append, List.length_cons, List.length_nil] at hn
    obtain ⟨n, rfl⟩ : ∃ m, n = m + 2 := Nat.exists_eq_add_of_le' (by omega)
    have hstops : Stops (writeElements false xs ++ (ascii " ]" ++ rest)) := by
      rw [htail]
      exact stops_cons more hd
    have hne : writeElements false xs ++ (ascii " ]" ++ rest) ≠ [] := by simp [htail]
    rw [getValue_firstElement n text x hne hw p]
    have hreads := (ih x (by simp) n [] (text ++ (w ++ [byte '[']) ++ [32])
      (writeElements false xs ++ (ascii " ]" ++ rest)) .null white_nil
      (by simp only [List.length_append, List.length_nil]; omega) hstops fun _ => hne).fresh
    rw [List.nil_append] at hreads
    rcases hreads with ⟨hliteral, text', heq⟩ | ⟨hliteral, y, heq, hback⟩
    · rw [heq]
      exact .inl ⟨hasLiteral_array.mpr ⟨x, by simp, hliteral⟩, text', rfl⟩
    rw [heq, bind_ok]
    rcases afterElement_reads hxs (n := n) [y]
      (text ++ (w ++ [byte '[']) ++ [32] ++ ([] ++ stringify x)) rest
      (by simp only [List.length_append]; omega)
      with ⟨⟨u, hu, hliteral'⟩, herror⟩ | ⟨hnone, ys, hys, heq'⟩
    · exact .inl ⟨hasLiteral_array.mpr ⟨u, by simp [hu], hliteral'⟩, herror⟩
    · refine .inr ⟨?_, .array (y :: ys), ?_, False.elim, fun _ => back_array (.cons hback hys)⟩
      · rw [hasLiteral_array]
        rintro ⟨u, hu, hliteral'⟩
        rcases List.mem_cons.mp hu with rfl | hmem
        · exact hliteral hliteral'
        · exact hnone u hmem hliteral'
      · rw [heq', ← List.append_nil (stringify (.array (x :: xs))), htext]
        simp

theorem readsBack (v : JsonValuePtr) : ReadsBack v := by
  induction v using JsonValuePtr.induct with
  | null =>
    intro n w text rest p hw hn _ _
    obtain ⟨n, rfl⟩ : ∃ m, n = m + 1 := Nat.exists_eq_add_one.mpr (by omega)
    have hliteral : Literal .null := trivial
    exact .inl ⟨fun h => everywhere_null.mp h hliteral, literal_error text rest hliteral n hw p⟩
  | boolean b =>
    intro n w text rest p hw hn _ _
    obtain ⟨n, rfl⟩ : ∃ m, n = m + 1 := Nat.exists_eq_add_one.mpr (by omega)
    have hliteral : Literal (.boolean b) := trivial
    exact .inl ⟨fun h => everywhere_boolean.mp h hliteral, literal_error text rest hliteral n hw p⟩
  | string s =>
    intro n w text rest p hw hn _ _
    obtain ⟨n, rfl⟩ : ∃ m, n = m + 1 := Nat.exists_eq_add_one.mpr (by omega)
    obtain ⟨s', heq, hle, hlossy, hsame⟩ := getString_escaped s (text ++ (w ++ [quote])) rest
    refine .inr ⟨not_not.mpr (everywhere_string.mpr id), .string s', ?_, False.elim,
      fun _ => back_string ⟨hle, hlossy, hsame⟩⟩
    have htext :
        w ++ (stringify (.string s) ++ rest) = w ++ quote :: (escaped s ++ quote :: rest) := by
      simp [stringify, writeString_eq]
    rw [htext, getValue_string n text _ p hw, heq, bind_ok]
    simp [stringify, writeString_eq]
  | num k =>
    intro n w text rest p hw hn hstops _
    obtain ⟨n, rfl⟩ : ∃ m, n = m + 1 := Nat.exists_eq_add_one.mpr (by omega)
    refine .inr ⟨not_not.mpr (everywhere_num.mpr id), p, ?_, fun _ => rfl,
      fun h => (h trivial).elim⟩
    have hnumber := number_writeNum k
    obtain ⟨c, t, ht, hc⟩ := hnumber.head
    rw [ht] at hnumber
    have htext (z : List Byte) : stringify (.num k) ++ z = c :: (t ++ z) := by
      rw [stringify, ht]
      rfl
    rw [htext, getValue_num n text _ p hw hc, getNum_number hnumber hstops,
      ← List.append_nil (stringify (.num k)), htext]
    simp
  | obj m ih => exact readsBack_obj fun e he => ih e.1 e.2 he
  | array xs ih => exact readsBack_array ih

/-- Reading a document that is written alone. -/
theorem parse_reads {v : JsonValuePtr} (hne : v ≠ .array []) (p : JsonValuePtr) :
    Reads v p (stringify v) [] (parse (stringify v) p) := by
  have hreads := readsBack v (2 * (stringify v).length + 2) [] [] [] p white_nil
    (by simp only [List.length_append, List.length_nil]; omega) stops_nil fun h => absurd h hne
  simp only [List.nil_append, List.append_nil] at hreads
  have hstart : (⟨stringify v, 0⟩ : JsonReader) = readerAt [] (stringify v) := rfl
  rw [parse, hstart]
  exact hreads

theorem readerAt_end (text : List Byte) : readerAt text [] = ⟨text, text.length⟩ := by
  rw [readerAt, List.append_nil]

/-- A document of strings, arrays and objects is read back as it was unless one of its
strings or keys is too long: the length of a run is counted in 32 bits. -/
theorem parse_stringify_iff {v : JsonValuePtr} (htext : Everywhere Textual v)
    (hne : v ≠ .array []) (p : JsonValuePtr) :
    parse (stringify v) p = .ok v ⟨stringify v, (stringify v).length⟩ ↔
      Everywhere ShortStrings v := by
  have hnone : ¬ HasLiteral v := by
    refine not_not.mpr fun u hu hliteral => ?_
    have hu := htext u hu
    cases u with
    | null | boolean => exact hu
    | string | num | obj | array => exact hliteral
  have hnum : ¬ Numeric v := by
    intro h
    cases v with
    | num n => exact htext _ .self
    | null | boolean | string | obj | array => exact h
  rcases parse_reads hne p with ⟨hliteral, -⟩ | ⟨-, v', heq, -, hback⟩
  · exact absurd hliteral hnone
  have hback := hback hnum
  rw [heq, readerAt_end]
  constructor
  · intro h
    injection h with hsame
    by_contra hlong
    have hlt := hback.lossy hlong
    rw [hsame] at hlt
    exact lt_irrefl _ hlt
  · intro hshort
    rw [hback.same hshort htext]

theorem parse_stringify_nested :
    parse (stringify (.obj [([97, 34], .array []), ([98], .obj [])])) .null =
        .ok (.obj [([97, 34], .array []), ([98], .obj [])])
          ⟨stringify (.obj [([97, 34], .array []), ([98], .obj [])]), 26⟩ ↔
      Everywhere ShortStrings (.obj [([97, 34], .array []), ([98], .obj [])]) := by
  have hne : JsonValuePtr.obj [([97, 34], .array []), ([98], .obj [])] ≠ .array [] := nofun
  have hkeys : ([97, 34] : List Byte) < [98] := by decide
  have htext : Everywhere Textual (.obj [([97, 34], .array []), ([98], .obj [])]) := by
    simp [everywhere_array, everywhere_obj, Textual, hkeys]
  exact parse_stringify_iff htext hne .null

theorem shortRuns_replicate {i n : ℕ} (h : ShortRuns i (List.replicate n 97)) (hn : 0 < n) :
    i + n < 2 ^ 32 := by
  have hraw : replacement 97 = none := by decide
  induction n generalizing i with
  | zero => omega
  | succ n ih =>
    rw [List.replicate_succ, ShortRuns, if_pos hraw] at h
    by_cases hzero : n = 0
    · omega
    · have hlt := ih h.2 (by omega)
      omega

/-- A string of `2 ^ 32` letters comes back without them. -/
theorem parse_stringify_long :
    parse (stringify (.string (List.replicate (2 ^ 32) 97))) .null ≠
      .ok (.string (List.replicate (2 ^ 32) 97))
        ⟨stringify (.string (List.replicate (2 ^ 32) 97)),
          (stringify (.string (List.replicate (2 ^ 32) 97))).length⟩ := by
  have hlong (n : ℕ) (hn : 2 ^ 32 ≤ n) (r : JsonReader) :
      parse (stringify (.string (List.replicate n 97))) .null ≠
        .ok (.string (List.replicate n 97)) r := by
    intro heq
    have hne : JsonValuePtr.string (List.replicate n 97) ≠ .array [] := nofun
    rcases (parse_reads hne .null).fresh with
      ⟨-, text', herror⟩ | ⟨-, v', hok, hback⟩
    · rw [herror] at heq
      cases heq
    · rw [hok] at heq
      injection heq with hsame
      have hlt : weight v' < weight (.string (List.replicate n 97)) := by
        apply hback.lossy
        rw [everywhere_string]
        intro hshort
        have hbound := shortRuns_replicate hshort (by omega)
        omega
      rw [hsame] at hlt
      exact lt_irrefl _ hlt
  exact hlong (2 ^ 32) le_rfl _

/-- `Parse` reads a value of the shape of `v` where `v` was written. -/
def KeepsShape (v p : JsonValuePtr) : Prop :=
  ∃ v' r, parse (stringify v) p = .ok v' r ∧ shape v' = shape v

/-- With null, a boolean or a number in it, or if it is the empty array, a document does
not come back. Only a number that the pointer held before is still there. -/
theorem parse_stringify_shape_iff {v : JsonValuePtr}
    (hv : (∃ u, Occurs u v ∧ (Literal u ∨ Numeric u)) ∨ v = .array []) (p : JsonValuePtr) :
    KeepsShape v p ↔ ∃ n, v = .num n ∧ p = .num n := by
  by_cases hne : v = .array []
  · subst hne
    constructor
    · rintro ⟨v', r, heq, -⟩
      have herror : ∃ text', parse (stringify (.array [])) p = .error text' := ⟨_, rfl⟩
      obtain ⟨text', herror⟩ := herror
      rw [herror] at heq
      cases heq
    · rintro ⟨n, hnum, -⟩
      cases hnum
  rcases parse_reads hne p with ⟨hliteral, text', herror⟩ | ⟨hnone, v', hok, hnum, hback⟩
  · constructor
    · rintro ⟨v', r, heq, -⟩
      rw [herror] at heq
      cases heq
    · rintro ⟨n, rfl, -⟩
      exact absurd (everywhere_num.mpr id) hliteral
  · constructor
    · rintro ⟨u, r, heq, hshape⟩
      rw [hok] at heq
      injection heq with hu
      subst hu
      obtain ⟨w, hocc, hw⟩ := hv.resolve_right hne
      have hwnum : Numeric w := by
        refine hw.resolve_left fun hliteral => hnone fun hall => ?_
        exact hall w hocc hliteral
      obtain ⟨n, rfl⟩ : ∃ n, w = .num n := by
        cases w with
        | num n => exact ⟨n, rfl⟩
        | null | boolean | string | obj | array => exact hwnum.elim
      by_cases hself : Numeric v
      · cases hocc with
        | self =>
          rw [hnum trivial] at hshape
          refine ⟨n, rfl, ?_⟩
          cases p with
          | num k => exact hshape
          | null | boolean | string | obj | array => cases hshape
        | element | member => exact hself.elim
      · have hback := hback hself
        rw [← occurs_num_shape, ← hshape, occurs_num_shape] at hocc
        exact absurd trivial (hback.not_numeric _ hocc)
    · rintro ⟨n, rfl, rfl⟩
      exact ⟨v', _, hok, by rw [hnum trivial]⟩

theorem parse_stringify_five : ¬ KeepsShape (.num 5) .null := by
  rw [parse_stringify_shape_iff (.inl ⟨.num 5, .self, .inr trivial⟩) .null]
  rintro ⟨n, -, h⟩
  cases h

/-- A number comes back as null; null, a boolean and the empty array are not read. -/
theorem parse_stringify_lost :
    ¬ KeepsShape (.num 5) .null ∧ ¬ KeepsShape .null .null ∧
    ¬ KeepsShape (.array [.boolean true]) .null ∧ ¬ KeepsShape (.array []) .null := by
  have hnum : parse (stringify (.num 5)) .null = .ok .null ⟨[53], 1⟩ := rfl
  have herror {v : JsonValuePtr} (h : ∃ text', parse (stringify v) .null = .error text') :
      ¬ KeepsShape v .null := by
    obtain ⟨text', herror⟩ := h
    rintro ⟨v', r, heq, -⟩
    rw [herror] at heq
    cases heq
  refine ⟨?_, herror ⟨_, rfl⟩, herror ⟨_, rfl⟩, herror ⟨_, rfl⟩⟩
  rintro ⟨v', r, heq, hshape⟩
  rw [hnum] at heq
  injection heq with hv'
  rw [← hv'] at hshape
  cases hshape

end Voyager.Json
