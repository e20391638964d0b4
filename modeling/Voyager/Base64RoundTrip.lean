import Voyager.Base64

/-!
What `Base64Encode` writes and what `Base64Decode` accepts. The text is that of the
six-bit pieces, padded to a multiple of four characters; the decoder accepts every
text of that form and forgets the bits that fill no byte.
-/
namespace Voyager.ModpB64

open Lib.LittleEndian Lib.Sextets Lib.Splices

/-- The number of pad characters for so many pieces. -/
def padding (n : ℕ) : ℕ := (4 - n % 4) % 4

/-- The text of pieces. -/
def textOf (xs : List Sextet) : List Byte :=
  xs.map symbol ++ List.replicate (padding xs.length) charPad

theorem getD_map_range {α : Type} (f : ℕ → α) (default : α) {i n : ℕ} (hi : i < n) :
    ((List.range n).map f).getD i default = f i := by
  simp [List.getD_eq_getElem?_getD, hi]

theorem ofNat64_eq (x : Sextet) {i : ℕ} (h : i % 64 = x.val) : Fin.ofNat 64 i = x :=
  Fin.ext h

/-! The encoder. -/

section Encode

variable (a b c : Byte)

theorem getD_e0 : e0.getD a.toNat 0 = symbol (piece0 a) := by
  have ha := a.toNat_lt
  rw [e0_eq, getD_map_range _ _ ha, ofNat64_eq (piece0 a)]
  simp only [piece0]
  omega

theorem index_piece1 :
    (a.toNat &&& 0x03) <<< 4 ||| (b.toNat >>> 4 &&& 0x0F) = (piece1 a b).val := by
  have hb := b.toNat_lt
  have hlow : b.toNat >>> 4 &&& 0x0F = b.toNat / 16 := by
    rw [Nat.shiftRight_eq_div_pow, Nat.and_two_pow_sub_one_eq_mod _ 4]
    omega
  have hhigh : a.toNat &&& 0x03 = a.toNat % 4 := Nat.and_two_pow_sub_one_eq_mod _ 2
  rw [hlow, hhigh, Nat.or_comm, or_shiftLeft _ _ 4 (by omega), piece1]
  simp only
  omega

theorem index_piece2 :
    (b.toNat &&& 0x0F) <<< 2 ||| (c.toNat >>> 6 &&& 0x03) = (piece2 b c).val := by
  have hc := c.toNat_lt
  have hlow : c.toNat >>> 6 &&& 0x03 = c.toNat / 64 := by
    rw [Nat.shiftRight_eq_div_pow, Nat.and_two_pow_sub_one_eq_mod _ 2]
    omega
  have hhigh : b.toNat &&& 0x0F = b.toNat % 16 := Nat.and_two_pow_sub_one_eq_mod _ 4
  rw [hlow, hhigh, Nat.or_comm, or_shiftLeft _ _ 2 (by omega), piece2]
  simp only
  omega

theorem getD_e1 (x : Sextet) : e1.getD x.val 0 = symbol x := by
  rw [e1_eq, getD_map_range _ _ (by omega), ofNat64_eq x (Nat.mod_eq_of_lt x.isLt)]

theorem getD_e2_sextet (x : Sextet) : e2.getD x.val 0 = symbol x := by
  rw [e2_eq, getD_map_range _ _ (by omega), ofNat64_eq x (Nat.mod_eq_of_lt x.isLt)]

theorem getD_e2 : e2.getD c.toNat 0 = symbol (piece3 c) := by
  rw [e2_eq, getD_map_range _ _ c.toNat_lt, ofNat64_eq (piece3 c) rfl]

/-- In the last group the bits of the missing byte are zero. -/
theorem index_piece1_zero : (a.toNat &&& 0x03) <<< 4 = (piece1 a 0).val := by
  rw [← index_piece1]
  simp

theorem index_piece2_zero : (b.toNat &&& 0x0F) <<< 2 = (piece2 b 0).val := by
  rw [← index_piece2]
  simp

end Encode

theorem padding_add_four (n : ℕ) : padding (n + 4) = padding n := by
  simp only [padding]
  omega

theorem length_textOf (xs : List Sextet) : (textOf xs).length = (xs.length + 3) / 4 * 4 := by
  simp only [textOf, padding, List.length_append, List.length_map, List.length_replicate]
  omega

theorem textOf_group (p q r t : Sextet) (rest : List Sextet) :
    textOf (p :: q :: r :: t :: rest) =
      [symbol p, symbol q, symbol r, symbol t] ++ textOf rest := by
  simp only [textOf, List.map_cons, List.length_cons, Nat.add_assoc, Nat.reduceAdd,
    padding_add_four]
  rfl

theorem store_eq {dest : List Byte} {p : ℕ} {xs : List Byte} (h : p + xs.length ≤ dest.length) :
    store dest p xs = some (overwrite dest p xs) := if_pos h

/-- What is stored behind the first `p` bytes, up to `n` bytes of it. -/
theorem take_store {dest : List Byte} {p n : ℕ} {xs : List Byte} (hp : p ≤ dest.length)
    (hn : n ≤ xs.length) : (overwrite dest p xs).take (p + n) = dest.take p ++ xs.take n := by
  have hlen : (dest.take p).length = p := by simp [hp]
  have hle : p + n ≤ p + xs.length := by omega
  rw [← Nat.min_eq_left hle, ← List.take_take, take_overwrite _ _ _ hp, List.take_append, hlen,
    Nat.add_sub_cancel_left, List.take_of_length_le (by omega)]

/-- The end of the loop: what is left, and the terminating zero. -/
theorem store_last {dest last : List Byte} {p : ℕ} (hroom : p + last.length + 1 ≤ dest.length) :
    ∃ dest', (store dest p (last ++ [0])).map (fun dest => (dest, p + last.length)) =
      some (dest', p + last.length) ∧ dest'.take (p + last.length) = dest.take p ++ last := by
  refine ⟨overwrite dest p (last ++ [0]), ?_, ?_⟩
  · rw [store_eq (by rw [List.length_append]; exact hroom), Option.map_some]
  · rw [take_store (by omega) (by simp), List.take_left]

theorem byteAt_append_add (front rest : List Byte) (k : ℕ) :
    byteAt (front ++ rest) (front.length + k) = byteAt rest k := by
  rw [byteAt, byteAt, List.getElem?_append_right (Nat.le_add_right _ _), Nat.add_sub_cancel_left]

theorem byteAt_append_length (front rest : List Byte) :
    byteAt (front ++ rest) front.length = byteAt rest 0 := byteAt_append_add front rest 0

theorem byteAt_zero (a : Byte) (rest : List Byte) : byteAt (a :: rest) 0 = some a.toNat := rfl

theorem byteAt_succ (a : Byte) (rest : List Byte) (k : ℕ) :
    byteAt (a :: rest) (k + 1) = byteAt rest k := rfl

/-- The loop from `front.length` on writes the text of the rest. -/
theorem encodeFrom_spec (front rest dest : List Byte) (p : ℕ)
    (hroom : p + (textOf (sextets rest)).length + 1 ≤ dest.length) :
    ∃ dest', encodeFrom (front ++ rest) front.length dest p =
        some (dest', p + (textOf (sextets rest)).length) ∧
      dest'.take (p + (textOf (sextets rest)).length) =
        dest.take p ++ textOf (sextets rest) := by
  induction rest using sextets.induct generalizing front dest p with
  | case1 =>
    rw [encodeFrom, if_neg (by simp)]
    simp only [encodeLast, List.append_nil, Nat.sub_self, Option.bind_some]
    exact store_last hroom
  | case2 a =>
    have hlen : (front ++ [a]).length - front.length = 1 := by simp
    have htext : textOf (sextets [a]) =
        [symbol (piece0 a), symbol (piece1 a 0), charPad, charPad] := rfl
    rw [encodeFrom, if_neg (by simp), encodeLast, hlen]
    simp only [byteAt_append_length, byteAt_zero, Option.map_some, Option.bind_some, getD_e0,
      index_piece1_zero, getD_e1]
    rw [← htext]
    exact store_last hroom
  | case3 a b =>
    have hlen : (front ++ [a, b]).length - front.length = 2 := by simp
    have htext : textOf (sextets [a, b]) =
        [symbol (piece0 a), symbol (piece1 a b), symbol (piece2 b 0), charPad] := rfl
    rw [encodeFrom, if_neg (by simp), encodeLast, hlen]
    simp only [byteAt_append_length, byteAt_append_add, byteAt_zero, byteAt_succ, Option.map_some,
      Option.bind_some, getD_e0, index_piece1, index_piece2_zero, getD_e1, getD_e2_sextet]
    rw [← htext]
    exact store_last hroom
  | case4 a b c rest ih =>
    have htext : textOf (sextets (a :: b :: c :: rest)) =
        [symbol (piece0 a), symbol (piece1 a b), symbol (piece2 b c), symbol (piece3 c)] ++
          textOf (sextets rest) := textOf_group _ _ _ _ _
    have hfront : front ++ a :: b :: c :: rest = (front ++ [a, b, c]) ++ rest := by simp
    have hnext : front.length + 3 = (front ++ [a, b, c]).length := by simp
    rw [htext, List.length_append, List.length_cons, List.length_cons, List.length_cons,
      List.length_cons, List.length_nil] at hroom ⊢
    rw [encodeFrom, if_pos (by simp)]
    simp only [byteAt_append_length, byteAt_append_add, byteAt_zero, byteAt_succ,
      Option.bind_some, getD_e0, index_piece1, index_piece2, getD_e1, getD_e2]
    have hstore : p + [symbol (piece0 a), symbol (piece1 a b), symbol (piece2 b c),
        symbol (piece3 c)].length ≤ dest.length := by
      simp only [List.length_cons, List.length_nil]
      omega
    obtain ⟨dest', hdest', htake⟩ := ih (front ++ [a, b, c]) _ (p + 4) (by
      rw [length_overwrite _ _ _ hstore]
      omega)
    have hwritten := take_overwrite dest p [symbol (piece0 a), symbol (piece1 a b),
      symbol (piece2 b c), symbol (piece3 c)] (by omega)
    rw [store_eq hstore, Option.bind_some, hfront, hnext, hdest']
    have hlen (n : ℕ) : p + (0 + 1 + 1 + 1 + 1 + n) = p + 4 + n := by omega
    rw [hlen]
    refine ⟨dest', rfl, ?_⟩
    rw [htake, ← List.append_assoc]
    exact congrArg (· ++ _) hwritten

/-- `Base64Encode` for every input that an `int` can count. -/
theorem base64Encode_eq {input : List Byte} (hsize : encodeLen input.length < 2 ^ 31) :
    base64Encode input = some (textOf (sextets input)) := by
  have hroom : 0 + (textOf (sextets input)).length + 1 ≤
      (List.replicate (encodeLen input.length) (0 : Byte)).length := by
    rw [List.length_replicate, length_textOf, length_sextets, encodeLen]
    omega
  obtain ⟨dest, hdest, htake⟩ := encodeFrom_spec [] input _ 0 hroom
  rw [List.nil_append, List.length_nil] at hdest
  rw [base64Encode, if_pos hsize, hdest, Option.map_some, htake]
  rfl

/-! The decoder. -/

section Word

variable (a b c d : Byte)

theorem octet_ofBytes : octet (ofBytes [a, b, c, d]) 0 = a.toNat ∧
    octet (ofBytes [a, b, c, d]) 1 = b.toNat ∧ octet (ofBytes [a, b, c, d]) 2 = c.toNat ∧
    octet (ofBytes [a, b, c, d]) 3 = d.toNat := by
  have ha := a.toNat_lt
  have hb := b.toNat_lt
  have hc := c.toNat_lt
  have hd := d.toNat_lt
  simp only [octet, ofBytes, Nat.shiftRight_eq_div_pow, Nat.and_two_pow_sub_one_eq_mod _ 8]
  omega

theorem getD_table {t : List ℕ} {place : ℕ → ℕ}
    (ht : t = (List.range 256).map fun i => entry place (UInt8.ofNat i)) :
    t.getD a.toNat 0 = entry place a := by
  rw [ht, getD_map_range _ _ a.toNat_lt, UInt8.ofNat_toNat]

/-- The word of four characters. -/
def word : ℕ := entry place0 a ||| entry place1 b ||| entry place2 c ||| entry place3 d

theorem lookup_eq : lookup (ofBytes [a, b, c, d]) = word a b c d := by
  obtain ⟨ha, hb, hc, hd⟩ := octet_ofBytes a b c d
  rw [lookup, ha, hb, hc, hd, getD_table _ d0_eq, getD_table _ d1_eq, getD_table _ d2_eq,
    getD_table _ d3_eq, word]

variable (p q r t : Sextet)

theorem or_shiftLeft_shiftLeft (m n i j : ℕ) :
    (m ||| n <<< i) <<< j = m <<< j ||| n <<< (i + j) := by
  rw [Nat.shiftLeft_or_distrib, Nat.shiftLeft_add]

/-- The word is made of the three bytes, the first one lowest. -/
theorem places_eq : place0 p.val ||| place1 q.val ||| place2 r.val ||| place3 t.val =
    (byte0 p q).toNat + 2 ^ 8 * ((byte1 q r).toNat + 2 ^ 8 * (byte2 r t).toNat) := by
  have h0 : (byte0 p q).toNat = q.val / 16 ||| p.val <<< 2 := by
    rw [toNat_byte0, or_shiftLeft _ _ 2 (by omega)]
    omega
  have h1 : (byte1 q r).toNat = r.val / 4 ||| (q.val % 16) <<< 4 := by
    rw [toNat_byte1, or_shiftLeft _ _ 4 (by omega)]
    omega
  have h2 : (byte2 r t).toNat = t.val ||| (r.val % 4) <<< 6 := by
    rw [toNat_byte2, or_shiftLeft _ _ 6 (by omega)]
    omega
  rw [← or_shiftLeft _ _ 8 (byte1 q r).toNat_lt, ← or_shiftLeft _ _ 8 (byte0 p q).toNat_lt, h0, h1,
    h2]
  have hsort (p q q' r r' t : ℕ) :
      p ||| (q ||| q') ||| (r ||| r') ||| t = q ||| p ||| (r ||| q' ||| (t ||| r')) := by
    ac_rfl
  rw [Nat.shiftLeft_or_distrib, ← Nat.shiftLeft_add _ 8 8, or_shiftLeft_shiftLeft _ _ 4 8,
    or_shiftLeft_shiftLeft _ _ 6 (8 + 8), place0, place1, place2, place3]
  exact hsort _ _ _ _ _ _

theorem entry_symbol (place : ℕ → ℕ) : entry place (symbol p) = place p.val := by
  rw [entry, value_symbol]

theorem word_symbols : word (symbol p) (symbol q) (symbol r) (symbol t) =
    (byte0 p q).toNat + 2 ^ 8 * ((byte1 q r).toNat + 2 ^ 8 * (byte2 r t).toNat) := by
  rw [word, entry_symbol, entry_symbol, entry_symbol, entry_symbol, places_eq]

theorem word_symbols_lt : word (symbol p) (symbol q) (symbol r) (symbol t) < badChar := by
  have h0 := (byte0 p q).toNat_lt
  have h1 := (byte1 q r).toNat_lt
  have h2 := (byte2 r t).toNat_lt
  rw [word_symbols, badChar]
  omega

theorem toBytes_word_symbols : toBytes 4 (word (symbol p) (symbol q) (symbol r) (symbol t)) =
    [byte0 p q, byte1 q r, byte2 r t, 0] := by
  have h : ofBytes [byte0 p q, byte1 q r, byte2 r t, 0] =
      (byte0 p q).toNat + 2 ^ 8 * ((byte1 q r).toNat + 2 ^ 8 * (byte2 r t).toNat) := by
    simp [ofBytes]
  rw [word_symbols, ← h]
  exact toBytes_ofBytes [byte0 p q, byte1 q r, byte2 r t, 0]

theorem entry_of_value_none {place : ℕ → ℕ} {c : Byte} (h : value c = none) :
    entry place c = badChar := by
  rw [entry, h]

/-- A word with a character in it that is none of the alphabet. -/
theorem badChar_le_word {a b c d : Byte}
    (h : value a = none ∨ value b = none ∨ value c = none ∨ value d = none) :
    badChar ≤ word a b c d := by
  unfold word
  rcases h with h | h | h | h
  · rw [entry_of_value_none h, Nat.or_assoc, Nat.or_assoc]
    exact Nat.left_le_or
  · rw [entry_of_value_none h, Nat.or_assoc]
    exact Nat.right_le_or.trans Nat.left_le_or
  · rw [entry_of_value_none h]
    exact Nat.right_le_or.trans Nat.left_le_or
  · rw [entry_of_value_none h]
    exact Nat.right_le_or

end Word

/-- One turn of the loop, if there are four more characters behind. -/
theorem decodeFrom_succ {front rest dest : List Byte} {a b c d : Byte} {k chunks p : ℕ}
    (hfront : front.length = 4 * k) (hrest : 4 ≤ rest.length) (hroom : p + 4 ≤ dest.length) :
    decodeFrom (front ++ a :: b :: c :: d :: rest) (chunks + 1) (k + 1) dest p
        (ofBytes [a, b, c, d]) =
      if badChar ≤ word a b c d then some none
      else decodeFrom (front ++ a :: b :: c :: d :: rest) chunks (k + 2)
        (overwrite dest p (toBytes 4 (word a b c d))) (p + 3) (ofBytes (rest.take 4)) := by
  have hload : load (front ++ a :: b :: c :: d :: rest) (k + 1) = some (ofBytes (rest.take 4)) := by
    have hdrop : (front ++ a :: b :: c :: d :: rest).drop (4 * (k + 1)) = rest := by
      have hassoc : front ++ a :: b :: c :: d :: rest = (front ++ [a, b, c, d]) ++ rest := by simp
      rw [hassoc]
      exact List.drop_left' (by simp [hfront]; omega)
    rw [load, if_pos, hdrop]
    simp only [List.length_append, List.length_cons, hfront]
    omega
  have hstore : p + (toBytes 4 (word a b c d)).length ≤ dest.length := by
    rw [length_toBytes]
    exact hroom
  rw [decodeFrom, lookup_eq, store_eq hstore, Option.bind_some, hload, Option.bind_some]

theorem exists_four {α : Type} {l : List α} (h : 4 ≤ l.length) :
    ∃ a b c d rest, l = a :: b :: c :: d :: rest := by
  match l, h with
  | a :: b :: c :: d :: rest, _ => exact ⟨a, b, c, d, rest, rfl⟩

/-- Good characters are decoded, and the characters behind them are read last. -/
theorem decodeFrom_symbols {xs : List Sextet} {front last dest : List Byte} {k chunks p : ℕ}
    (hxs : xs.length = 4 * chunks) (hfront : front.length = 4 * k) (hlast : last.length = 4)
    (hroom : p + 3 * chunks + 1 ≤ dest.length) :
    ∃ dest', decodeFrom (front ++ (xs.map symbol ++ last)) chunks (k + 1) dest p
        (ofBytes ((xs.map symbol ++ last).take 4)) =
          some (some (dest', p + 3 * chunks, ofBytes last)) ∧
      dest'.length = dest.length ∧ dest'.take (p + 3 * chunks) = dest.take p ++ octets xs := by
  induction chunks generalizing xs front dest k p with
  | zero =>
    have hnil : xs = [] := List.length_eq_zero_iff.mp (by omega)
    subst hnil
    refine ⟨dest, ?_, rfl, by simp [octets]⟩
    rw [decodeFrom, List.map_nil, List.nil_append, List.take_of_length_le (by omega)]
    rfl
  | succ chunks ih =>
    obtain ⟨q, r, t, u, xs, rfl⟩ := exists_four (l := xs) (by omega)
    have hgood := word_symbols_lt q r t u
    have hassoc : front ++ ((q :: r :: t :: u :: xs).map symbol ++ last) =
        front ++ symbol q :: symbol r :: symbol t :: symbol u :: (xs.map symbol ++ last) := rfl
    have htake : ((q :: r :: t :: u :: xs).map symbol ++ last).take 4 =
        [symbol q, symbol r, symbol t, symbol u] := rfl
    have hfour : (front ++ [symbol q, symbol r, symbol t, symbol u]).length = 4 * (k + 1) := by
      simp [hfront]
      omega
    have hstep := @decodeFrom_succ front (xs.map symbol ++ last) dest (symbol q) (symbol r)
      (symbol t) (symbol u) k chunks p hfront (by simp [hlast]) (by omega)
    rw [if_neg (by omega), toBytes_word_symbols] at hstep
    have hstored : p + [byte0 q r, byte1 r t, byte2 t u, 0].length ≤ dest.length := by
      simp only [List.length_cons, List.length_nil]
      omega
    obtain ⟨dest', hdest', hlen, hcontents⟩ := @ih xs
      (front ++ [symbol q, symbol r, symbol t, symbol u])
      (overwrite dest p [byte0 q r, byte1 r t, byte2 t u, 0]) (k + 1) (p + 3)
      (by simp only [List.length_cons] at hxs; omega) hfour
      (by rw [length_overwrite _ _ _ hstored]; omega)
    have hthree : p + 3 * (chunks + 1) = p + 3 + 3 * chunks := by omega
    rw [List.append_assoc] at hdest'
    refine ⟨dest', ?_, ?_, ?_⟩
    · rw [hassoc, htake, hstep, hthree]
      exact hdest'
    · rw [hlen, length_overwrite _ _ _ hstored]
    · have hbytes : octets (q :: r :: t :: u :: xs) =
          [byte0 q r, byte1 r t, byte2 t u] ++ octets xs := rfl
      rw [hthree, hcontents, take_store (by omega) (by simp), hbytes, ← List.append_assoc]
      rfl

/-- One bad character is enough. -/
theorem decodeFrom_bad {body front last dest : List Byte} {k chunks p : ℕ}
    (hbody : body.length = 4 * chunks) (hfront : front.length = 4 * k) (hlast : last.length = 4)
    (hroom : p + 3 * chunks + 1 ≤ dest.length) (hbad : ∃ c ∈ body, value c = none) :
    decodeFrom (front ++ (body ++ last)) chunks (k + 1) dest p
      (ofBytes ((body ++ last).take 4)) = some none := by
  induction chunks generalizing body front dest k p with
  | zero =>
    obtain ⟨c, hc, -⟩ := hbad
    rw [List.length_eq_zero_iff.mp hbody] at hc
    cases hc
  | succ chunks ih =>
    obtain ⟨a, b, c, d, body, rfl⟩ := exists_four (l := body) (by omega)
    have hassoc : front ++ (a :: b :: c :: d :: body ++ last) =
        front ++ a :: b :: c :: d :: (body ++ last) := rfl
    have htake : (a :: b :: c :: d :: body ++ last).take 4 = [a, b, c, d] := rfl
    rw [hassoc, htake, decodeFrom_succ hfront (by simp [hlast]) (by omega)]
    split
    · rfl
    · rename_i hgood
      have hstored : p + (toBytes 4 (word a b c d)).length ≤ dest.length := by
        rw [length_toBytes]
        omega
      have hfour : (front ++ [a, b, c, d]).length = 4 * (k + 1) := by
        simp [hfront]
        omega
      have hrest : ∃ c ∈ body, value c = none := by
        obtain ⟨e, he, hnone⟩ := hbad
        simp only [List.mem_cons] at he
        rcases he with rfl | rfl | rfl | rfl | he
        · exact absurd (badChar_le_word (.inl hnone)) hgood
        · exact absurd (badChar_le_word (.inr (.inl hnone))) hgood
        · exact absurd (badChar_le_word (.inr (.inr (.inl hnone)))) hgood
        · exact absurd (badChar_le_word (.inr (.inr (.inr hnone)))) hgood
        · exact ⟨e, he, hnone⟩
      have hmore := @ih body (front ++ [a, b, c, d]) (overwrite dest p
        (toBytes 4 (word a b c d))) (k + 1) (p + 3)
        (by simp only [List.length_cons] at hbody; omega) hfour
        (by rw [length_overwrite _ _ _ hstored]; omega) hrest
      rw [List.append_assoc] at hmore
      exact hmore

/-! The end of the text. -/

/-- The leftover of a text that ends in these two characters. -/
def leftoverOf (c d : Byte) : ℕ := if d = charPad then if c = charPad then 2 else 3 else 0

theorem unpadded_eq {body : List Byte} (a b c d : Byte) (h : body.length % 4 = 0) :
    ∃ len, unpadded (body ++ [a, b, c, d]) = some len ∧ len % 4 = leftoverOf c d ∧
      (if leftoverOf c d = 0 then len / 4 - 1 else len / 4) = body.length / 4 := by
  have hlast : (body ++ [a, b, c, d])[(body ++ [a, b, c, d]).length - 1]? = some d := by
    have hlen : (body ++ [a, b, c, d]).length - 1 = body.length + 3 := by simp
    rw [hlen, List.getElem?_append_right (Nat.le_add_right _ _), Nat.add_sub_cancel_left]
    rfl
  have hbefore : (body ++ [a, b, c, d])[(body ++ [a, b, c, d]).length - 2]? = some c := by
    have hlen : (body ++ [a, b, c, d]).length - 2 = body.length + 2 := by simp
    rw [hlen, List.getElem?_append_right (Nat.le_add_right _ _), Nat.add_sub_cancel_left]
    rfl
  have hlen : (body ++ [a, b, c, d]).length = body.length + 4 := by simp
  unfold unpadded
  dsimp only
  rw [hlast, hbefore, Option.bind_some, Option.map_some, hlen, leftoverOf]
  by_cases hd : d = charPad
  · by_cases hc : c = charPad
    · refine ⟨body.length + 4 - 2, by rw [if_pos hd, if_pos hc], ?_⟩
      simp only [hd, hc, if_true, OfNat.ofNat_ne_zero, if_false]
      omega
    · refine ⟨body.length + 4 - 1, by rw [if_pos hd, if_neg hc], ?_⟩
      simp only [hd, hc, if_true, OfNat.ofNat_ne_zero, if_false]
      omega
  · refine ⟨body.length + 4, by rw [if_neg hd], ?_⟩
    simp only [hd, if_true, if_false]
    omega

/-- The word that the last characters make: the missing ones count as zero. -/
theorem lastBytes_eq (a b c d : Byte) : lastBytes (leftoverOf c d) (ofBytes [a, b, c, d]) =
    if d = charPad then
      if c = charPad then
        ((toBytes 4 (word a b (symbol 0) (symbol 0))).take 1, word a b (symbol 0) (symbol 0))
      else ((toBytes 4 (word a b c (symbol 0))).take 2, word a b c (symbol 0))
    else ((toBytes 4 (word a b c d)).take 3, word a b c d) := by
  obtain ⟨ha, hb, hc, -⟩ := octet_ofBytes a b c d
  have h2 : entry place2 (symbol 0) = 0 := by rw [entry_symbol]; rfl
  have h3 : entry place3 (symbol 0) = 0 := by rw [entry_symbol]; rfl
  unfold leftoverOf
  split_ifs
  · simp only [lastBytes, ha, hb, getD_table _ d0_eq, getD_table _ d1_eq, word, h2, h3, Nat.or_zero]
  · simp only [lastBytes, ha, hb, hc, getD_table _ d0_eq, getD_table _ d1_eq,
      getD_table _ d2_eq, word, h3, Nat.or_zero]
  · simp only [lastBytes, lookup_eq]

/-- The last four characters of a text that is accepted. -/
theorem lastBytes_textOf {ys : List Sextet} (hys : ys.length = 2 ∨ ys.length = 3 ∨ ys.length = 4) :
    ∃ a b c d x, textOf ys = [a, b, c, d] ∧ leftoverOf c d = ys.length % 4 ∧ x < badChar ∧
      lastBytes (leftoverOf c d) (ofBytes [a, b, c, d]) = (octets ys, x) := by
  have hpad (x : Sextet) : symbol x ≠ charPad := by
    intro h
    have hv := value_symbol x
    rw [h, value_charPad] at hv
    cases hv
  match ys, hys with
  | [p, q], _ =>
    refine ⟨symbol p, symbol q, charPad, charPad, _, rfl, rfl, word_symbols_lt p q 0 0, ?_⟩
    rw [lastBytes_eq, if_pos rfl, if_pos rfl, toBytes_word_symbols]
    rfl
  | [p, q, r], _ =>
    refine ⟨symbol p, symbol q, symbol r, charPad, _, rfl, ?_, word_symbols_lt p q r 0, ?_⟩
    · rw [leftoverOf, if_pos rfl, if_neg (hpad r)]
      rfl
    · rw [lastBytes_eq, if_pos rfl, if_neg (hpad r), toBytes_word_symbols]
      rfl
  | [p, q, r, t], _ =>
    have htext : textOf [p, q, r, t] = [symbol p, symbol q, symbol r, symbol t] := by
      simp [textOf, padding]
    refine ⟨symbol p, symbol q, symbol r, symbol t, _, htext, ?_, word_symbols_lt p q r t, ?_⟩
    · rw [leftoverOf, if_neg (hpad t)]
      simp
    · rw [lastBytes_eq, if_neg (hpad t), toBytes_word_symbols]
      rfl

/-- Any other end of a text is rejected. -/
theorem lastBytes_bad {a b c d : Byte}
    (h : ∀ ys : List Sextet, (ys.length = 2 ∨ ys.length = 3 ∨ ys.length = 4) →
      [a, b, c, d] ≠ textOf ys) :
    badChar ≤ (lastBytes (leftoverOf c d) (ofBytes [a, b, c, d])).2 := by
  have hsymbol {c : Byte} (hc : ¬ value c = none) : ∃ x, symbol x = c := by
    obtain ⟨x, hx⟩ := Option.ne_none_iff_exists'.mp hc
    exact ⟨x, symbol_of_value hx⟩
  rw [lastBytes_eq]
  split_ifs with hd hc
  · by_contra hlt
    have hgood := mt badChar_le_word hlt
    push Not at hgood
    obtain ⟨p, rfl⟩ := hsymbol hgood.1
    obtain ⟨q, rfl⟩ := hsymbol hgood.2.1
    exact h [p, q] (.inl rfl) (by rw [hd, hc]; rfl)
  · by_contra hlt
    have hgood := mt badChar_le_word hlt
    push Not at hgood
    obtain ⟨p, rfl⟩ := hsymbol hgood.1
    obtain ⟨q, rfl⟩ := hsymbol hgood.2.1
    obtain ⟨r, rfl⟩ := hsymbol hgood.2.2.1
    exact h [p, q, r] (.inr (.inl rfl)) (by rw [hd]; rfl)
  · by_contra hlt
    have hgood := mt badChar_le_word hlt
    push Not at hgood
    obtain ⟨p, rfl⟩ := hsymbol hgood.1
    obtain ⟨q, rfl⟩ := hsymbol hgood.2.1
    obtain ⟨r, rfl⟩ := hsymbol hgood.2.2.1
    obtain ⟨t, rfl⟩ := hsymbol hgood.2.2.2
    exact h [p, q, r, t] (.inr (.inr rfl)) (by simp [textOf, padding])

/-- `decode` once the text has been divided into the part of the loop and its end. -/
theorem decode_eq {body dest : List Byte} (a b c d : Byte) (hbody : body.length % 4 = 0) :
    decode dest (body ++ [a, b, c, d]) =
      (decodeFrom (body ++ [a, b, c, d]) (body.length / 4) 1 dest 0
        (ofBytes ((body ++ [a, b, c, d]).take 4))).bind
          (finish (leftoverOf c d) (body.length / 4)) := by
  obtain ⟨len, hunpadded, hleftover, hchunks⟩ := unpadded_eq a b c d hbody
  have hlen : (body ++ [a, b, c, d]).length = body.length + 4 := by simp
  have hload : load (body ++ [a, b, c, d]) 0 =
      some (ofBytes ((body ++ [a, b, c, d]).take 4)) := by
    rw [load, if_pos (by omega)]
    rfl
  rw [decode, if_neg (by omega), if_neg (by omega)]
  simp only [hunpadded, hleftover, hchunks, hload, Option.bind_some]

/-- A text of pieces is decoded to their bytes. -/
theorem decode_textOf {xs ys : List Sextet} {dest : List Byte} {chunks : ℕ}
    (hxs : xs.length = 4 * chunks) (hys : ys.length = 2 ∨ ys.length = 3 ∨ ys.length = 4)
    (hroom : 3 * chunks + 5 ≤ dest.length) :
    ∃ dest' n, decode dest (xs.map symbol ++ textOf ys) = some (some (dest', n)) ∧
      dest'.take n = octets xs ++ octets ys := by
  obtain ⟨a, b, c, d, x, htext, hleftover, hx, hlast⟩ := lastBytes_textOf hys
  have hfour : [a, b, c, d].length = 4 := rfl
  obtain ⟨dest', hloop, hlen, htake⟩ :=
    @decodeFrom_symbols xs [] [a, b, c, d] dest 0 chunks 0 hxs (by rfl) hfour (by omega)
  have hbody : (xs.map symbol).length % 4 = 0 := by
    rw [List.length_map]
    omega
  have hdiv : (xs.map symbol).length / 4 = chunks := by
    rw [List.length_map]
    omega
  have hbytes : (octets ys).length = 3 * ys.length / 4 := length_octets ys
  rw [List.nil_append] at hloop
  rw [htext, decode_eq a b c d hbody, hdiv, hloop, Option.bind_some, finish, hlast]
  dsimp only
  have hstore : 0 + 3 * chunks + (octets ys).length ≤ dest'.length := by omega
  rw [if_neg (by omega), store_eq hstore, Option.map_some, if_neg (by omega), hleftover]
  refine ⟨overwrite dest' (0 + 3 * chunks) (octets ys), 0 + 3 * chunks + (octets ys).length, ?_, ?_⟩
  · split
    · rw [Option.some.injEq, Option.some.injEq, Prod.mk.injEq]
      exact ⟨rfl, by omega⟩
    · rw [Option.some.injEq, Option.some.injEq, Prod.mk.injEq]
      exact ⟨rfl, by omega⟩
  · rw [take_overwrite _ _ _ (by omega), htake]
    rfl

theorem length_lastBytes (a b c d : Byte) :
    (lastBytes (leftoverOf c d) (ofBytes [a, b, c, d])).1.length ≤ 3 := by
  rw [lastBytes_eq]
  split_ifs <;> simp

theorem exists_symbols {body : List Byte} (h : ¬ ∃ e ∈ body, value e = none) :
    ∃ xs : List Sextet, xs.map symbol = body := by
  push Not at h
  induction body with
  | nil => exact ⟨[], rfl⟩
  | cons e body ih =>
    obtain ⟨he, hbody⟩ := List.forall_mem_cons.mp h
    obtain ⟨x, hx⟩ := Option.ne_none_iff_exists'.mp he
    obtain ⟨xs, hxs⟩ := ih hbody
    exact ⟨x :: xs, by rw [List.map_cons, hxs, symbol_of_value hx]⟩

/-- The loop gives up, or the end does. -/
theorem decode_bad {body dest : List Byte} {a b c d : Byte} (hbody : body.length % 4 = 0)
    (hroom : body.length / 4 * 3 + 5 ≤ dest.length)
    (hbad : (∃ e ∈ body, value e = none) ∨
      ∀ ys : List Sextet, (ys.length = 2 ∨ ys.length = 3 ∨ ys.length = 4) →
        [a, b, c, d] ≠ textOf ys) : decode dest (body ++ [a, b, c, d]) = some none := by
  have hchunks : body.length = 4 * (body.length / 4) := by omega
  rw [decode_eq a b c d hbody]
  by_cases hgood : ∃ e ∈ body, value e = none
  · have hloop := @decodeFrom_bad body [] [a, b, c, d] dest 0 (body.length / 4) 0
      hchunks rfl rfl (by omega) hgood
    rw [List.nil_append] at hloop
    rw [hloop]
    rfl
  · have hend := lastBytes_bad (hbad.resolve_left hgood)
    obtain ⟨xs, rfl⟩ := exists_symbols hgood
    rw [List.length_map] at hchunks
    rw [List.length_map] at hroom
    obtain ⟨dest', hloop, hlen, -⟩ := @decodeFrom_symbols xs [] [a, b, c, d] dest 0
      (xs.length / 4) 0 hchunks rfl rfl (by omega)
    rw [List.nil_append] at hloop
    rw [List.length_map, hloop, Option.bind_some, finish]
    split
    · rfl
    · have hstore : 0 + 3 * (xs.length / 4) +
          (lastBytes (leftoverOf c d) (ofBytes [a, b, c, d])).1.length ≤ dest'.length := by
        have hle := length_lastBytes a b c d
        omega
      rw [store_eq hstore, Option.map_some]

/-- Pieces that a text can have: one left over would hold no byte. -/
abbrev Whole (xs : List Sextet) : Prop := xs.length % 4 ≠ 1

theorem textOf_append {xs ys : List Sextet} (hxs : xs.length % 4 = 0) :
    textOf (xs ++ ys) = xs.map symbol ++ textOf ys := by
  have hpadding : padding (xs ++ ys).length = padding ys.length := by
    simp only [padding, List.length_append]
    omega
  rw [textOf, textOf, hpadding, List.map_append, List.append_assoc]

theorem base64Decode_textOf {xs : List Sextet} (hxs : Whole xs)
    (hsize : (textOf xs).length < 2 ^ 31) : base64Decode (textOf xs) = some (some (octets xs)) := by
  rw [base64Decode, if_pos hsize]
  by_cases hnil : xs = []
  · subst hnil
    rfl
  · have hpos : 0 < xs.length := List.length_pos_iff.mpr hnil
    have hlen := length_textOf xs
    simp only [Whole] at hxs
    obtain ⟨chunks, hchunks⟩ : ∃ chunks, chunks = (xs.length - 1) / 4 := ⟨_, rfl⟩
    have hfront : (xs.take (4 * chunks)).length = 4 * chunks := by
      rw [List.length_take]
      omega
    have hlast : (xs.drop (4 * chunks)).length = 2 ∨ (xs.drop (4 * chunks)).length = 3 ∨
        (xs.drop (4 * chunks)).length = 4 := by
      rw [List.length_drop]
      omega
    have hroom : 3 * chunks + 5 ≤
        (List.replicate (decodeLen (textOf xs).length) (0 : Byte)).length := by
      rw [List.length_replicate, decodeLen]
      omega
    obtain ⟨dest, n, hdecode, htake⟩ := decode_textOf hfront hlast hroom
    rw [← textOf_append (by omega), List.take_append_drop] at hdecode
    rw [hdecode, Option.map_some, Option.map_some, htake, ← octets_append (by omega),
      List.take_append_drop]

theorem base64Decode_other {input : List Byte} (hsize : input.length < 2 ^ 31)
    (hinput : ∀ xs, Whole xs → input ≠ textOf xs) : base64Decode input = some none := by
  have hnone : ModpB64.decode (List.replicate (decodeLen input.length) 0) input = some none := by
    by_cases hfour : input.length % 4 = 0
    · have hne : input ≠ [] := fun hnil => hinput [] (by decide) hnil
      have hpos : 0 < input.length := List.length_pos_iff.mpr hne
      obtain ⟨n, hn⟩ : ∃ n, n = input.length - 4 := ⟨_, rfl⟩
      obtain ⟨a, b, c, d, rest, hdrop⟩ := exists_four (l := input.drop n) (by
        rw [List.length_drop]
        omega)
      have hrest : rest = [] := by
        have hlen := congrArg List.length hdrop
        simp only [List.length_drop, List.length_cons] at hlen
        exact List.length_eq_zero_iff.mp (by omega)
      subst hrest
      have hbody : (input.take n).length = n := by
        rw [List.length_take]
        omega
      have hbad : (∃ e ∈ input.take n, value e = none) ∨
          ∀ ys : List Sextet, (ys.length = 2 ∨ ys.length = 3 ∨ ys.length = 4) →
            [a, b, c, d] ≠ textOf ys := by
        by_contra hno
        rw [not_or] at hno
        obtain ⟨xs, hxs⟩ := exists_symbols hno.1
        push Not at hno
        obtain ⟨ys, hys, htext⟩ := hno.2
        have hxslen : xs.length = n := by rw [← hbody, ← hxs, List.length_map]
        refine hinput (xs ++ ys) ?_ ?_
        · simp only [Whole, List.length_append]
          omega
        · rw [textOf_append (by omega), hxs, ← htext, ← hdrop, List.take_append_drop]
      have hroom : (input.take n).length / 4 * 3 + 5 ≤
          (List.replicate (decodeLen input.length) (0 : Byte)).length := by
        rw [List.length_replicate, decodeLen]
        omega
      have hdecode := decode_bad (by omega) hroom hbad
      rwa [← hdrop, List.take_append_drop] at hdecode
    · rw [ModpB64.decode, if_neg (by omega), if_pos (.inr hfour)]
  rw [base64Decode, if_pos hsize, hnone]
  rfl

theorem whole_sextets (bytes : List Byte) : Whole (sextets bytes) := by
  rw [Whole, length_sextets]
  omega

theorem filterMap_value_textOf (xs : List Sextet) : (textOf xs).filterMap value = xs := by
  have hvalue : (value ∘ symbol) = some := funext value_symbol
  rw [textOf, List.filterMap_append, List.filterMap_map, hvalue, List.filterMap_some,
    List.filterMap_replicate_of_none value_charPad, List.append_nil]

theorem textOf_injective {xs ys : List Sextet} (h : textOf xs = textOf ys) : xs = ys := by
  rw [← filterMap_value_textOf xs, h, filterMap_value_textOf]

end Voyager.ModpB64

namespace Voyager

open ModpB64 Lib.Sextets

/-- Every input is written as the characters of the digits that its bits are when they
are taken six at a time, and comes back. -/
theorem base64_roundTrip (input : List Byte) (hsize : encodeLen input.length < 2 ^ 31) :
    ∃ (xs : List Sextet) (text : List Byte), xs.length = (4 * input.length + 2) / 3 ∧
      ofDigits 64 0 (xs.map Fin.val) =
        ofDigits 256 0 (input.map UInt8.toNat) * 2 ^ (6 * xs.length - 8 * input.length) ∧
      text = xs.map symbol ++ List.replicate ((3 - input.length % 3) % 3) charPad ∧
      base64Encode input = some text ∧ base64Decode text = some (some input) := by
  have hlen := length_sextets input
  have hpadding : padding (sextets input).length = (3 - input.length % 3) % 3 := by
    rw [padding]
    have hcases : input.length % 3 = 0 ∨ input.length % 3 = 1 ∨ input.length % 3 = 2 := by omega
    rcases hcases with h | h | h <;> omega
  refine ⟨sextets input, textOf (sextets input), hlen, ofDigits_sextets 0 input,
    by rw [textOf, hpadding], base64Encode_eq hsize, ?_⟩
  rw [base64Decode_textOf (whole_sextets input), octets_sextets]
  rw [length_textOf]
  rw [encodeLen] at hsize
  omega

theorem base64_roundTrip_ma :
    ∃ text, base64Encode (ascii "Ma") = some text ∧
      base64Decode text = some (some (ascii "Ma")) := by
  obtain ⟨_, text, -, -, -, hencode, hdecode⟩ := base64_roundTrip (ascii "Ma") (by decide)
  exact ⟨text, hencode, hdecode⟩

/-- What is accepted, what it is decoded to, and which texts are encoded again to what
they were. -/
theorem base64_accepts (input : List Byte) (hsize : input.length < 2 ^ 31) :
    ∃ result, base64Decode input = some result ∧
      ∀ bytes, result = some bytes ↔ ∃ xs, xs.length % 4 ≠ 1 ∧
        input = xs.map symbol ++ List.replicate ((4 - xs.length % 4) % 4) charPad ∧
        bytes = octets xs ∧ (base64Encode bytes = some input ↔ Canonical xs) := by
  by_cases hinput : ∃ xs, Whole xs ∧ input = textOf xs
  · obtain ⟨xs, hxs, rfl⟩ := hinput
    have hlen := length_textOf xs
    have hbytes := length_octets xs
    have hencode : base64Encode (octets xs) = some (textOf xs) ↔ Canonical xs := by
      have hfits : encodeLen (octets xs).length < 2 ^ 31 := by
        rw [encodeLen]
        omega
      rw [base64Encode_eq hfits, Option.some.injEq, ← sextets_octets]
      exact ⟨textOf_injective, congrArg textOf⟩
    refine ⟨_, base64Decode_textOf hxs hsize, fun bytes => ⟨fun h => ?_, fun h => ?_⟩⟩
    · rw [Option.some.injEq] at h
      subst h
      exact ⟨xs, hxs, rfl, rfl, hencode⟩
    · obtain ⟨ys, -, htext, rfl, -⟩ := h
      rw [textOf_injective htext]
  · push Not at hinput
    refine ⟨_, base64Decode_other hsize fun xs hxs => hinput xs hxs, fun bytes => ?_⟩
    refine iff_of_false nofun fun ⟨xs, hxs, htext, _⟩ => hinput xs hxs htext

/-- The two last bits of `F` are no part of a byte, and not zero. -/
theorem base64_accepts_twf :
    ∃ result, base64Decode (ascii "TWF=") = some result ∧
      ∀ bytes, result = some bytes → base64Encode bytes ≠ some (ascii "TWF=") := by
  obtain ⟨result, hresult, hiff⟩ := base64_accepts (ascii "TWF=") (by decide)
  refine ⟨result, hresult, fun bytes hbytes hencode => ?_⟩
  obtain ⟨xs, -, htext, -, hcanonical⟩ := (hiff bytes).mp hbytes
  have hxs : xs = [19, 22, 5] := @textOf_injective xs [19, 22, 5] htext.symm
  rw [hxs] at hcanonical
  exact absurd (hcanonical.mp hencode) (by decide)

end Voyager
