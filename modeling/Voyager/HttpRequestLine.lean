import Voyager.HttpRequestParser

/-!
Which lines `ParseRequestLine` accepts, against the grammar of a request line. A
name is compared over the length of the text that is there, so a part of it
passes for the whole, and the query is taken from the last question mark on, with
the mark itself.
-/
namespace Voyager

open Lib.CString

namespace HttpMessage

/-- The names of the versions, as `VersionToString` has them. -/
def versionName : HttpVersion → List Byte
  | .kHttp10 => ascii "HTTP/1.0"
  | .kHttp11 => ascii "HTTP/1.1"
  | .kHttp20 => ascii "HTTP/2"

theorem versionToString_eq (m : HttpMessage) : m.versionToString = versionName m.version := by
  unfold versionToString versionName
  cases m.version <;> rfl

theorem versionName_ne_zero (v : HttpVersion) : ∀ c ∈ versionName v, c ≠ 0 := by
  cases v <;> decide +kernel

theorem strncasecmp_versionName (text : List Byte) (v : HttpVersion) :
    strncasecmp text (versionName v) text.length = 0 ↔ PassesFor text (versionName v) :=
  strncasecmp_length_eq_zero_iff (versionName_ne_zero v) text

theorem isSome_setVersion_iff (m : HttpMessage) (text : List Byte) :
    (m.setVersion text).isSome = true ↔ ∃ v, PassesFor text (versionName v) := by
  have h10 := strncasecmp_versionName text .kHttp10
  have h11 := strncasecmp_versionName text .kHttp11
  have h20 := strncasecmp_versionName text .kHttp20
  simp only [versionName] at h10 h11 h20
  unfold setVersion
  split_ifs with hten heleven htwo
  · exact iff_of_true rfl ⟨.kHttp10, h10.mp hten⟩
  · exact iff_of_true rfl ⟨.kHttp11, h11.mp heleven⟩
  · exact iff_of_true rfl ⟨.kHttp20, h20.mp htwo⟩
  · refine iff_of_false (by simp) ?_
    rintro ⟨v, hv⟩
    cases v with
    | kHttp10 => exact hten (h10.mpr hv)
    | kHttp11 => exact heleven (h11.mpr hv)
    | kHttp20 => exact htwo (h20.mpr hv)

/-- A whole name sets its own version. -/
theorem setVersion_of_sameLetters (m : HttpMessage) {text : List Byte} {v : HttpVersion}
    (h : SameLetters text (versionName v)) :
    m.setVersion text = some { m with version := v } := by
  have hlength : text.length = (versionName v).length := by
    simpa using congrArg List.length h
  have heq : m.setVersion text = m.setVersion (versionName v) := by
    simp only [setVersion, strncasecmp_congr h, hlength]
  rw [heq, ← versionToString_eq { HttpMessage.create with version := v },
    setVersion_versionToString]

end HttpMessage

namespace HttpRequest

theorem mem_methods (m : Method) : m ∈ methods := by
  cases m <;> decide

theorem methodToString_ne_zero (m : Method) : ∀ c ∈ methodToString m, c ≠ 0 := by
  cases m <;> decide +kernel

theorem isSome_setMethod_iff (r : HttpRequest) (text : List Byte) :
    (r.setMethod text).isSome = true ↔ ∃ m, PassesFor text (methodToString m) := by
  simp only [setMethod, Option.isSome_map, List.find?_isSome, decide_eq_true_eq]
  constructor
  · rintro ⟨m, _, hm⟩
    exact ⟨m, (strncasecmp_length_eq_zero_iff (methodToString_ne_zero m) text).mp hm⟩
  · rintro ⟨m, hm⟩
    exact ⟨m, mem_methods m,
      (strncasecmp_length_eq_zero_iff (methodToString_ne_zero m) text).mpr hm⟩

/-- A whole name sets its own method. -/
theorem setMethod_of_sameLetters (r : HttpRequest) {text : List Byte} {m : Method}
    (h : SameLetters text (methodToString m)) :
    r.setMethod text = some { r with method := some m } := by
  have hlength : text.length = (methodToString m).length := by
    simpa using congrArg List.length h
  rw [← setMethod_methodToString r m, setMethod, setMethod, hlength]
  simp only [strncasecmp_congr h]

theorem isSome_setVersion_iff (r : HttpRequest) (text : List Byte) :
    (r.setVersion text).isSome = true ↔ ∃ v, PassesFor text (HttpMessage.versionName v) := by
  rw [setVersion, Option.isSome_map, HttpMessage.isSome_setVersion_iff]

theorem setVersion_of_sameLetters (r : HttpRequest) {text : List Byte} {v : HttpVersion}
    (h : SameLetters text (HttpMessage.versionName v)) :
    r.setVersion text =
      some { r with toHttpMessage := { r.toHttpMessage with version := v } } := by
  rw [setVersion, HttpMessage.setVersion_of_sameLetters _ h]
  rfl

end HttpRequest

namespace HttpRequestParser

open HttpMessage HttpRequest

/-- A line in three parts; one byte of white space is behind each of the first two. -/
structure Splits (line method target version : List Byte) : Prop where
  line_eq : ∃ b b', isSpace b = true ∧ isSpace b' = true ∧
    line = method ++ b :: (target ++ b' :: version)
  method : ∀ c ∈ method, isSpace c = false
  target : ∀ c ∈ target, isSpace c = false

/-- The grammar of a request line; `spelled` says how a version has to be written. -/
def IsRequestLine (spelled : List Byte → List Byte → Prop) (line : List Byte) (m : Method)
    (target : List Byte) (v : HttpVersion) : Prop :=
  ∃ method version, Splits line method target version ∧
    SameLetters method (methodToString m) ∧ spelled version (versionName v)

/-- A line is accepted if it is in the grammar, and then its parts are stored: the path
ends before the first question mark, and the query begins behind it. -/
def MeetsGrammar (spelled : List Byte → List Byte → Prop) (r : HttpRequest)
    (line : List Byte) : Prop :=
  ((parseRequestLine r line).1 = true ↔ ∃ m target v, IsRequestLine spelled line m target v) ∧
  ∀ m target v, IsRequestLine spelled line m target v →
    (parseRequestLine r line).2.method = some m ∧
    (parseRequestLine r line).2.version = v ∧
    (parseRequestLine r line).2.path = target.takeWhile (· ≠ 63) ∧
    (parseRequestLine r line).2.query = (target.dropWhile (· ≠ 63)).tail

/-- Where the two names of a line pass, they are whole names; the target has no query,
and none is left from before. -/
def WholeNames (spelled : List Byte → List Byte → Prop) (r : HttpRequest)
    (line : List Byte) : Prop :=
  ∀ method target version, Splits line method target version →
    (∃ m, PassesFor method (methodToString m)) → (∃ v, PassesFor version (versionName v)) →
    (∃ m, SameLetters method (methodToString m)) ∧ (∃ v, spelled version (versionName v)) ∧
      63 ∉ target ∧ r.query = []

/-! The parts of a line. -/

theorem word_some {text t rest : List Byte} (h : word text = (t, some rest)) :
    (∀ c ∈ t, isSpace c = false) ∧ ∃ b, isSpace b = true ∧ text = t ++ b :: rest := by
  unfold word at h
  split at h
  · cases h
  · rename_i b rest' hdrop
    simp only [Prod.mk.injEq, Option.some.injEq] at h
    obtain ⟨rfl, rfl⟩ := h
    refine ⟨fun c hc => by simpa using List.mem_takeWhile_imp hc, b, ?_, ?_⟩
    · have hhead := List.head?_dropWhile_not (!isSpace ·) text
      rw [hdrop] at hhead
      simpa using hhead
    · rw [← hdrop, List.takeWhile_append_dropWhile]

variable {line method target version : List Byte}

theorem Splits.word (h : Splits line method target version) :
    ∃ rest, word line = (method, some rest) ∧ HttpRequestParser.word rest =
      (target, some version) := by
  obtain ⟨b, b', hb, hb', rfl⟩ := h.line_eq
  exact ⟨_, word_append h.method hb, word_append h.target hb'⟩

theorem Splits.unique {method' target' version' : List Byte}
    (h : Splits line method target version) (h' : Splits line method' target' version') :
    method = method' ∧ target = target' ∧ version = version' := by
  obtain ⟨rest, hline, hrest⟩ := h.word
  obtain ⟨rest', hline', hrest'⟩ := h'.word
  rw [hline, Prod.mk.injEq, Option.some.injEq] at hline'
  obtain ⟨hmethod, rfl⟩ := hline'
  rw [hrest, Prod.mk.injEq, Option.some.injEq] at hrest'
  exact ⟨hmethod, hrest'⟩

theorem parseRequestLine_of_splits (r : HttpRequest) (h : Splits line method target version) :
    parseRequestLine r line = match r.setMethod method with
      | none => (false, r)
      | some r => match (setTarget r target).setVersion version with
        | none => (false, setTarget r target)
        | some r => (true, r) := by
  obtain ⟨rest, hline, hrest⟩ := h.word
  rw [parseRequestLine, hline]
  cases hmethod : r.setMethod method with
  | none => simp only [hmethod]
  | some q =>
    cases hversion : (setTarget q target).setVersion version with
    | none => simp only [hmethod, hrest, hversion]
    | some q' => simp only [hmethod, hrest, hversion]

/-- Accepted are the lines in three parts whose names pass. -/
theorem parseRequestLine_fst_iff (r : HttpRequest) (line : List Byte) :
    (parseRequestLine r line).1 = true ↔ ∃ method target version,
      Splits line method target version ∧ (∃ m, PassesFor method (methodToString m)) ∧
        ∃ v, PassesFor version (versionName v) := by
  simp only [← isSome_setMethod_iff .create, ← HttpRequest.isSome_setVersion_iff .create]
  rw [parseRequestLine_fst]
  constructor
  · intro h
    rcases hline : word line with ⟨method, _ | rest⟩
    · rw [hline] at h
      cases h
    · rw [hline, Bool.and_eq_true] at h
      obtain ⟨hmethod, h⟩ := h
      rcases hrest : word rest with ⟨target, _ | version⟩
      · rw [hrest] at h
        cases h
      · rw [hrest] at h
        obtain ⟨hm, b, hb, rfl⟩ := word_some hline
        obtain ⟨ht, b', hb', rfl⟩ := word_some hrest
        exact ⟨method, target, version, ⟨⟨b, b', hb, hb', rfl⟩, hm, ht⟩, hmethod, h⟩
  · rintro ⟨method, target, version, hsplits, hmethod, hversion⟩
    obtain ⟨rest, hline, hrest⟩ := hsplits.word
    rw [hline]
    simp only [hmethod, hrest, Bool.true_and]
    exact hversion

/-! The target. -/

theorem setTarget_of_not_mem (r : HttpRequest) (h : 63 ∉ target) :
    setTarget r target = { r with path := target } := by
  have hfind : target.reverse.findIdx? (· == 63) = none := by
    rw [List.findIdx?_eq_none_iff]
    intro c hc
    rw [beq_eq_false_iff_ne]
    rintro rfl
    exact h (List.mem_reverse.mp hc)
  rw [setTarget, hfind]

/-- Path and query together are the whole target, the mark included. -/
theorem length_setTarget (r : HttpRequest) (h : 63 ∈ target) :
    (setTarget r target).path.length + (setTarget r target).query.length = target.length := by
  obtain ⟨back, hback⟩ : ∃ back, target.reverse.findIdx? (· == 63) = some back := by
    rw [← Option.isSome_iff_exists, List.findIdx?_isSome, List.any_eq_true]
    exact ⟨63, List.mem_reverse.mpr h, rfl⟩
  rw [setTarget, hback]
  simp only [List.length_take, List.length_drop]
  omega

theorem setTarget_method (r : HttpRequest) (target : List Byte) :
    (setTarget r target).method = r.method := by
  unfold setTarget
  split <;> rfl

theorem length_takeWhile_dropWhile_tail (h : 63 ∈ target) :
    (target.takeWhile (· ≠ 63)).length + (target.dropWhile (· ≠ 63)).tail.length + 1 =
      target.length := by
  have hne : target.dropWhile (· ≠ 63) ≠ [] := by
    intro hnil
    simpa using List.dropWhile_eq_nil_iff.mp hnil 63 h
  have hpos := List.length_pos_iff.mpr hne
  have hall := congrArg List.length (List.takeWhile_append_dropWhile (p := (· ≠ 63)) (l := target))
  rw [List.length_append] at hall
  rw [List.length_tail]
  omega

/-! The grammar. -/

variable {spelled : List Byte → List Byte → Prop}

/-- A line of the grammar is accepted, with its method, its version and its target. -/
theorem parseRequestLine_of_isRequestLine
    (hspelled : ∀ text name, spelled text name → SameLetters text name) (r : HttpRequest)
    {m : Method} {v : HttpVersion} (h : IsRequestLine spelled line m target v) :
    parseRequestLine r line =
      let stored := setTarget { r with method := some m } target
      (true, { stored with toHttpMessage := { stored.toHttpMessage with version := v } }) := by
  obtain ⟨method, version, hsplits, hmethod, hversion⟩ := h
  rw [parseRequestLine_of_splits r hsplits, setMethod_of_sameLetters r hmethod]
  simp only [HttpRequest.setVersion_of_sameLetters _ (hspelled _ _ hversion)]

/-- The stored path and query are the ones of the grammar just where the target has no
query and none is left from before. -/
theorem setTarget_parts (r : HttpRequest) (target : List Byte) :
    ((setTarget r target).path = target.takeWhile (· ≠ 63) ∧
      (setTarget r target).query = (target.dropWhile (· ≠ 63)).tail) ↔
      63 ∉ target ∧ r.query = [] := by
  by_cases hmark : 63 ∈ target
  · refine iff_of_false ?_ fun h => h.1 hmark
    rintro ⟨hpath, hquery⟩
    have hlength := length_setTarget r hmark
    have hgrammar := length_takeWhile_dropWhile_tail hmark
    rw [hpath, hquery] at hlength
    omega
  · have hall : ∀ c ∈ target, (decide (c ≠ 63)) = true := by
      intro c hc
      rw [decide_eq_true_eq]
      rintro rfl
      exact hmark hc
    have htake : target.takeWhile (· ≠ 63) = target := List.takeWhile_eq_self_iff.mpr hall
    have hdrop : target.dropWhile (· ≠ 63) = [] := List.dropWhile_eq_nil_iff.mpr hall
    rw [setTarget_of_not_mem r hmark, htake, hdrop]
    simp only [true_and, List.tail_nil, hmark, not_false_eq_true]

/-- A line is treated as the grammar has it exactly when its names are whole. -/
theorem meetsGrammar_iff (hspelled : ∀ text name, spelled text name → SameLetters text name)
    (r : HttpRequest) (line : List Byte) :
    MeetsGrammar spelled r line ↔ WholeNames spelled r line := by
  constructor
  · rintro ⟨haccept, hstore⟩ method target version hsplits hmethod hversion
    have hok := (parseRequestLine_fst_iff r line).mpr
      ⟨method, target, version, hsplits, hmethod, hversion⟩
    obtain ⟨m, target', v, hline⟩ := haccept.mp hok
    obtain ⟨-, -, hpath, hquery⟩ := hstore m target' v hline
    rw [parseRequestLine_of_isRequestLine hspelled r hline] at hpath hquery
    have hparts := (setTarget_parts { r with method := some m } target').mp ⟨hpath, hquery⟩
    obtain ⟨method', version', hsplits', hmethod', hversion'⟩ := hline
    obtain ⟨rfl, rfl, rfl⟩ := hsplits.unique hsplits'
    exact ⟨⟨m, hmethod'⟩, ⟨v, hversion'⟩, hparts⟩
  · intro hwhole
    refine ⟨⟨?_, ?_⟩, ?_⟩
    · intro hok
      obtain ⟨method, target, version, hsplits, hmethod, hversion⟩ :=
        (parseRequestLine_fst_iff r line).mp hok
      obtain ⟨⟨m, hm⟩, ⟨v, hv⟩, -⟩ := hwhole method target version hsplits hmethod hversion
      exact ⟨m, target, v, method, version, hsplits, hm, hv⟩
    · rintro ⟨m, target, v, hline⟩
      rw [parseRequestLine_of_isRequestLine hspelled r hline]
    · intro m target v hline
      have hparsed := parseRequestLine_of_isRequestLine hspelled r hline
      obtain ⟨method, version, hsplits, hm, hv⟩ := hline
      obtain ⟨-, -, hparts⟩ := hwhole method target version hsplits ⟨m, hm.passesFor⟩
        ⟨v, (hspelled _ _ hv).passesFor⟩
      obtain ⟨hpath, hquery⟩ := (setTarget_parts { r with method := some m } target).mpr hparts
      rw [hparsed]
      exact ⟨setTarget_method _ target, rfl, hpath, hquery⟩

/-- The grammar is met exactly by lines of whole names without a query, with versions
written as they are and with versions in any letter case. -/
theorem parseRequestLine_grammar (r : HttpRequest) (line : List Byte) :
    (MeetsGrammar Eq r line ↔ WholeNames Eq r line) ∧
      (MeetsGrammar SameLetters r line ↔ WholeNames SameLetters r line) :=
  ⟨meetsGrammar_iff (fun _ _ => SameLetters.of_eq) r line,
    meetsGrammar_iff (fun _ _ h => h) r line⟩

/-- One letter is taken for `POST` and nothing for a version; a query comes with its mark. -/
theorem part_of_a_name_is_taken :
    ((parseRequestLine .create (ascii "P /a ")).1 = true ∧
      ¬ MeetsGrammar Eq .create (ascii "P /a ") ∧
      ¬ MeetsGrammar SameLetters .create (ascii "P /a ")) ∧
    (parseRequestLine .create (ascii "GET /a?b HTTP/1.1")).2.query = ascii "?b" ∧
      ¬ MeetsGrammar Eq .create (ascii "GET /a?b HTTP/1.1") ∧
      ¬ MeetsGrammar SameLetters .create (ascii "GET /a?b HTTP/1.1") := by
  have hshort (spelled : List Byte → List Byte → Prop) :
      ¬ WholeNames spelled .create (ascii "P /a ") := by
    intro h
    have hsplits : Splits (ascii "P /a ") (ascii "P") (ascii "/a") [] :=
      ⟨⟨32, 32, by decide⟩, by decide +kernel, by decide +kernel⟩
    obtain ⟨⟨m, hm⟩, -⟩ := h _ _ _ hsplits ⟨.kPost, by decide⟩ ⟨.kHttp10, by decide⟩
    revert hm
    cases m <;> decide
  have hquery (spelled : List Byte → List Byte → Prop) :
      ¬ WholeNames spelled .create (ascii "GET /a?b HTTP/1.1") := by
    intro h
    have hsplits : Splits (ascii "GET /a?b HTTP/1.1") (ascii "GET") (ascii "/a?b")
        (ascii "HTTP/1.1") := ⟨⟨32, 32, by decide⟩, by decide +kernel, by decide +kernel⟩
    obtain ⟨-, -, hmark, -⟩ := h _ _ _ hsplits ⟨.kGet, by decide⟩ ⟨.kHttp11, by decide⟩
    exact hmark (by decide)
  have heq := @meetsGrammar_iff Eq fun _ _ => SameLetters.of_eq
  have hcase := @meetsGrammar_iff SameLetters fun _ _ h => h
  simp only [heq, hcase]
  exact ⟨⟨by decide, hshort Eq, hshort SameLetters⟩, by decide, hquery Eq, hquery SameLetters⟩

end HttpRequestParser

end Voyager
