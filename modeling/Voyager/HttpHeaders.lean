import Voyager.HttpPrinter
import Voyager.HttpRequestLine
import Voyager.Lib.Runs

/-!
Runs of `AddHeader` and `RemoveHeader`. `AddHeader` gives the three fields that the
library reads one spelling, whatever the letter case; `RemoveHeader` and `Value`
look for the spelling they are given.
-/
namespace Voyager

open Lib.CString Lib.OrderedMap Lib.Runs

inductive HeaderOp
  | addHeader (field value : List Byte)
  | removeHeader (field : List Byte)
deriving DecidableEq, Repr

namespace HttpMessage

def exec (m : HttpMessage) : HeaderOp → HttpMessage
  | .addHeader field value => m.addHeader field value
  | .removeHeader field => m.removeHeader field

/-- The message after the calls. -/
def afterCalls (ops : List HeaderOp) : HttpMessage := ops.foldl exec create

/-- The fields with one spelling. -/
def readFields : List (List Byte) := [kConnection, kContentLength, kHost]

/-- The value that the last `AddHeader` gave to a field, in any letter case; nothing
when a `RemoveHeader` came behind it, in any letter case. -/
def lastAdded (name : List Byte) (ops : List HeaderOp) : List Byte :=
  ops.foldl (fun v op => match op with
    | .addHeader field value => if SameLetters field name then value else v
    | .removeHeader field => if SameLetters field name then [] else v) []

def HasValue : HeaderOp → Prop
  | .addHeader _ value => value ≠ []
  | .removeHeader _ => True

instance (op : HeaderOp) : Decidable (HasValue op) :=
  match op with
  | .addHeader _ value => inferInstanceAs (Decidable (value ≠ []))
  | .removeHeader _ => .isTrue trivial

/-- `Value` under this spelling returns the last value in every state of the run. -/
def ReturnsLast (name field : List Byte) (ops : List HeaderOp) : Prop :=
  ∀ done, done <+: ops → (afterCalls done).value field = lastAdded name done

/-- A call that the map and the letters of the field do not tell apart: the removal is
spelled as the field is, or finds nothing; no name goes on behind a NUL, except with the
value that is there. -/
def Agrees (name : List Byte) (done : List HeaderOp) : HeaderOp → Prop
  | .addHeader field value =>
    name.map toLower ++ [0] <+: field.map toLower → value = lastAdded name done
  | .removeHeader field => SameLetters field name → field = name ∨ lastAdded name done = []

/-- Every call of the run agrees. -/
def AllAgree (name : List Byte) (ops : List HeaderOp) : Prop :=
  ∀ done op, done ++ [op] <+: ops → Agrees name done op

def NeverAdded (name : List Byte) (ops : List HeaderOp) : Prop :=
  ∀ field value, HeaderOp.addHeader field value ∈ ops → ¬ SameLetters field name

/-! The spelling. -/

theorem transferField_eq_find (s : List Byte) :
    transferField s = (readFields.find? fun name => strcasecmp s name = 0).getD s := by
  simp only [transferField, readFields, List.find?_cons, List.find?_nil]
  split_ifs with hconnection hlength hhost <;> simp [*]

theorem readFields_ne_zero : ∀ name ∈ readFields, ∀ c ∈ name, c ≠ 0 := by
  decide +kernel

/-- No text is the same as two of the fields. -/
theorem readFields_unique {s name name' : List Byte} (hname : name ∈ readFields)
    (hname' : name' ∈ readFields) (h : strcasecmp s name = 0) (h' : strcasecmp s name' = 0) :
    name = name' := by
  rw [strcasecmp_eq_zero_iff (readFields_ne_zero _ hname)] at h
  rw [strcasecmp_eq_zero_iff (readFields_ne_zero _ hname')] at h'
  have hnone : ∀ n ∈ readFields, ∀ n' ∈ readFields,
      n.map toLower ++ [0] <+: n'.map toLower ++ [0] → n = n' := by
    decide +kernel
  rcases List.prefix_or_prefix_of_prefix h h' with hfront | hfront
  · exact hnone _ hname _ hname' hfront
  · exact (hnone _ hname' _ hname hfront).symm

/-- A field gets the spelling of `name` in any letter case, and behind a NUL of its own. -/
theorem transferField_eq_iff {name : List Byte} (hname : name ∈ readFields) (s : List Byte) :
    transferField s = name ↔
      SameLetters s name ∨ name.map toLower ++ [0] <+: s.map toLower := by
  have hsame : strcasecmp s name = 0 ↔
      SameLetters s name ∨ name.map toLower ++ [0] <+: s.map toLower := by
    rw [strcasecmp_eq_zero_iff (readFields_ne_zero _ hname), List.prefix_concat_iff,
      List.append_left_inj, @eq_comm _ (name.map toLower), SameLetters]
  rw [← hsame, transferField_eq_find]
  cases hfind : readFields.find? fun name => strcasecmp s name = 0 with
  | none =>
    have hnone := List.find?_eq_none.mp hfind name hname
    rw [decide_eq_true_eq] at hnone
    refine iff_of_false ?_ hnone
    rintro rfl
    exact hnone (hsame.mpr (.inl rfl))
  | some name' =>
    have hname' := List.mem_of_find?_eq_some hfind
    have hzero : strcasecmp s name' = 0 := by simpa using List.find?_some hfind
    constructor
    · rintro rfl
      exact hzero
    · exact fun h => readFields_unique hname' hname hzero h

/-! One call. -/

variable {name field : List Byte} {ops done : List HeaderOp}

theorem afterCalls_snoc (done : List HeaderOp) (op : HeaderOp) :
    afterCalls (done ++ [op]) = (afterCalls done).exec op := by
  rw [afterCalls, List.foldl_concat, afterCalls]

theorem lastAdded_addHeader (name field value : List Byte) (done : List HeaderOp) :
    lastAdded name (done ++ [HeaderOp.addHeader field value]) =
      if SameLetters field name then value else lastAdded name done := by
  rw [lastAdded, List.foldl_concat, lastAdded]

theorem lastAdded_removeHeader (name field : List Byte) (done : List HeaderOp) :
    lastAdded name (done ++ [HeaderOp.removeHeader field]) =
      if SameLetters field name then [] else lastAdded name done := by
  rw [lastAdded, List.foldl_concat, lastAdded]

theorem value_addHeader (m : HttpMessage) (hname : name ∈ readFields) {v : List Byte}
    (hv : v ≠ []) : (m.addHeader field v).value name =
      if SameLetters field name ∨ name.map toLower ++ [0] <+: field.map toLower then v
      else m.value name := by
  simp only [← transferField_eq_iff hname field]
  split_ifs with hkey
  · have hfield : field ≠ [] := by
      rintro rfl
      rw [← hkey] at hname
      exact absurd hname (by decide)
    rw [← hkey]
    exact value_addHeader_self m hfield hv
  · exact value_addHeader_of_ne m v (Ne.symm hkey)

theorem value_removeHeader (m : HttpMessage) (name field : List Byte) :
    (m.removeHeader field).value name = if field = name then [] else m.value name := by
  split_ifs with hkey
  · rw [hkey, value_removeHeader_self]
  · exact value_removeHeader_of_ne m (Ne.symm hkey)

/-- Where the last value is the one in the map, a call keeps it so exactly if it agrees. -/
theorem value_exec_iff (hname : name ∈ readFields) {op : HeaderOp} (hvalue : HasValue op)
    (h : (afterCalls done).value name = lastAdded name done) :
    (afterCalls (done ++ [op])).value name = lastAdded name (done ++ [op]) ↔
      Agrees name done op := by
  rw [afterCalls_snoc]
  cases op with
  | addHeader field value =>
    rw [lastAdded_addHeader, exec, Agrees, value_addHeader _ hname hvalue, h]
    by_cases hsame : SameLetters field name
    · have hends : ¬ name.map toLower ++ [0] <+: field.map toLower := by
        intro hfront
        have hle := hfront.length_le
        rw [hsame, List.length_append, List.length_singleton] at hle
        omega
      simp [hsame, hends]
    · by_cases hends : name.map toLower ++ [0] <+: field.map toLower
      · simp [hsame, hends]
      · simp [hsame, hends]
  | removeHeader field =>
    rw [lastAdded_removeHeader, exec, Agrees, value_removeHeader, h]
    by_cases hspelled : field = name
    · simp [hspelled, SameLetters]
    · by_cases hsame : SameLetters field name
      · simp [hspelled, hsame]
      · simp [hspelled, hsame]

/-! Runs. -/

/-- Under the one spelling the last value is returned exactly if all calls agree. -/
theorem returnsLast_iff_allAgree (hname : name ∈ readFields) (hvalues : ∀ op ∈ ops, HasValue op) :
    ReturnsLast name name ops ↔ AllAgree name ops := by
  constructor
  · intro h done op hfront
    have hop : HasValue op := hvalues op (mem_of_concat hfront)
    exact (value_exec_iff hname hop (h done (front_of_concat hfront))).mp (h _ hfront)
  · intro h done hdone
    refine holds_throughout (P := fun done => (afterCalls done).value name = lastAdded name done)
      rfl ?_ hdone
    intro done op hfront hlast
    have hop : HasValue op := hvalues op (mem_of_concat hfront)
    exact (value_exec_iff hname hop hlast).mpr (h done op hfront)

/-- The keys of the map are in order and have the one spelling. -/
structure Spelled (headers : List (List Byte × List Byte)) : Prop where
  sorted : (headers.map Prod.fst).Pairwise (· < ·)
  spelled : ∀ e ∈ headers, transferField e.1 = e.1

theorem Spelled.exec {m : HttpMessage} (h : Spelled m.headerMap) (op : HeaderOp) :
    Spelled (m.exec op).headerMap := by
  cases op with
  | addHeader field value =>
    rw [HttpMessage.exec, addHeader]
    split_ifs
    · refine ⟨pairwise_insert _ _ h.sorted, ?_⟩
      intro e he
      rcases mem_insert he with rfl | he
      · exact transferField_idem field
      · exact h.spelled e he
    · exact h
  | removeHeader field =>
    have hsub : (erase field m.headerMap).Sublist m.headerMap := List.filter_sublist
    exact ⟨h.sorted.sublist (hsub.map Prod.fst), fun e he => h.spelled e (hsub.subset he)⟩

theorem spelled_afterCalls (ops : List HeaderOp) : Spelled (afterCalls ops).headerMap := by
  induction ops using List.reverseRecOn with
  | nil => exact ⟨List.Pairwise.nil, by simp [afterCalls, create]⟩
  | append_singleton ops op ih =>
    rw [afterCalls_snoc]
    exact ih.exec op

/-- A key in another letter case than the one spelling is never in the map. -/
theorem Spelled.eq_of_sameLetters {headers : List (List Byte × List Byte)} (h : Spelled headers)
    (hname : name ∈ readFields) {e : List Byte × List Byte} (he : e ∈ headers)
    (hsame : SameLetters e.1 name) : e.1 = name := by
  rw [← h.spelled e he]
  exact (transferField_eq_iff hname e.1).mpr (.inl hsame)

theorem Spelled.length_filter_le {headers : List (List Byte × List Byte)} (h : Spelled headers)
    (hname : name ∈ readFields) : (headers.filter (SameLetters ·.1 name)).length ≤ 1 := by
  have hkeys : ∀ e ∈ headers.filter (SameLetters ·.1 name), e.1 = name := by
    intro e he
    rw [List.mem_filter, decide_eq_true_eq] at he
    exact h.eq_of_sameLetters hname he.1 he.2
  have hfilter : (headers.filter (SameLetters ·.1 name)).Sublist headers := List.filter_sublist
  have hsorted := h.sorted.sublist (hfilter.map Prod.fst)
  generalize headers.filter (SameLetters ·.1 name) = entries at hkeys hsorted ⊢
  match entries with
  | [] => exact Nat.zero_le 1
  | [_] => exact Nat.le_refl 1
  | e :: e' :: rest =>
    have hlt : e.1 < e'.1 := by simpa using (List.pairwise_cons.mp hsorted).1 e'.1 (by simp)
    rw [hkeys e (by simp), hkeys e' (by simp)] at hlt
    exact absurd hlt (List.lt_irrefl name)

theorem value_of_ne (hname : name ∈ readFields) (hsame : SameLetters field name)
    (hne : field ≠ name) (ops : List HeaderOp) : (afterCalls ops).value field = [] := by
  have hnone : (afterCalls ops).headerMap.lookup field = none := by
    rw [List.lookup_eq_none_iff]
    intro e he
    rw [bne_iff_ne]
    rintro rfl
    exact hne ((spelled_afterCalls ops).eq_of_sameLetters hname he hsame)
  rw [value, hnone]
  rfl

/-- Under another spelling nothing is ever returned. -/
theorem returnsLast_iff_neverAdded (hname : name ∈ readFields) (hsame : SameLetters field name)
    (hne : field ≠ name) (hvalues : ∀ op ∈ ops, HasValue op) :
    ReturnsLast name field ops ↔ NeverAdded name ops := by
  have hempty := value_of_ne hname hsame hne
  constructor
  · intro h field' value hmem hletters
    obtain ⟨done, rest, rfl⟩ := List.append_of_mem hmem
    have hlast := h (done ++ [HeaderOp.addHeader field' value]) ⟨rest, by simp⟩
    rw [hempty, lastAdded_addHeader, if_pos hletters] at hlast
    exact hvalues _ hmem hlast.symm
  · intro h done hdone
    rw [hempty]
    refine holds_throughout (P := fun done => [] = lastAdded name done) rfl ?_ hdone
    intro done op hfront hlast
    cases op with
    | addHeader field' value =>
      rw [lastAdded_addHeader, if_neg (h field' value (mem_of_concat hfront))]
      exact hlast
    | removeHeader field' =>
      rw [lastAdded_removeHeader]
      split_ifs
      · rfl
      · exact hlast

/-- In a run on a new message `Value` returns the last value of one of the three fields
exactly where the run agrees with the one spelling, or never adds the field; the map has
one entry for it at most. -/
theorem value_returns_last (hvalues : ∀ op ∈ ops, HasValue op) (hname : name ∈ readFields)
    (hsame : SameLetters field name) :
    (ReturnsLast name field ops ↔
      if field = name then AllAgree name ops else NeverAdded name ops) ∧
    ∀ done, done <+: ops →
      ((afterCalls done).headerMap.filter (SameLetters ·.1 name)).length ≤ 1 := by
  refine ⟨?_, fun done _ => (spelled_afterCalls done).length_filter_le hname⟩
  split_ifs with hspelled
  · rw [hspelled]
    exact returnsLast_iff_allAgree hname hvalues
  · exact returnsLast_iff_neverAdded hname hsame hspelled hvalues

/-- The field is added in two letter cases and removed in the one spelling. -/
def hostCalls : List HeaderOp :=
  [.addHeader (ascii "HOST") (ascii "a"), .removeHeader kHost,
    .addHeader (ascii "host") (ascii "b")]

theorem value_returns_last_host :
    (ReturnsLast kHost kHost hostCalls ↔
      if kHost = kHost then AllAgree kHost hostCalls else NeverAdded kHost hostCalls) ∧
    ∀ done, done <+: hostCalls →
      ((afterCalls done).headerMap.filter (SameLetters ·.1 kHost)).length ≤ 1 :=
  value_returns_last (by decide) (by decide) (by decide)

/-- A field is not found under the spelling it was added with, and not removed under
another one. -/
theorem spelling_is_missed :
    (¬ ReturnsLast kHost (ascii "host") [.addHeader (ascii "host") (ascii "a")] ∧
      (afterCalls [.addHeader (ascii "host") (ascii "a")]).value (ascii "host") = []) ∧
    ¬ ReturnsLast kHost kHost
      [.addHeader (ascii "Host") (ascii "a"), .removeHeader (ascii "host")] := by
  refine ⟨⟨fun h => ?_, by decide⟩, fun h => ?_⟩
  · exact absurd (h _ (List.prefix_refl _)) (by decide)
  · exact absurd (h _ (List.prefix_refl _)) (by decide)

end HttpMessage

end Voyager
