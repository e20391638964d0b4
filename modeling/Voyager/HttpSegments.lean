import Voyager.HttpRequestParser

/-!
`ParseBuffer` on bytes that arrive in pieces. Up to the blank line the parser takes
a line only when it is there as a whole, and what it has not taken stays in the
buffer, so the pieces leave no trace. A body is different: it is taken at once, from
the bytes that are there. So the two runs are compared on texts that do not come
to a body.
-/
namespace Voyager

namespace HttpParser

variable {μ : Type*} (g : Grammar μ)

/-- A piece is appended and `ParseBuffer` is called, until a call fails, reaches `kEnd` or
is the last one. The pieces that were not appended are returned with its outcome. -/
def parseChunks (fuel : ℕ) : HttpParser μ → Buffer → List (List Byte) →
    Option ((Bool × HttpParser μ × Buffer) × List (List Byte))
  | p, buf, [] => some ((true, p, buf), [])
  | p, buf, data :: rest =>
    (parseBuffer g fuel p (buf.append data)).bind fun r =>
      if r.1 = true ∧ r.2.1.state ≠ .kEnd then parseChunks fuel r.2.1 r.2.2 rest
      else some (r, rest)

/-- The loop comes to a message that has a body of its own. -/
def ReachesBody (v : View μ) : Prop :=
  ∃ w, View.Advances g v w ∧ w.state = .kBody ∧ g.contentLength w.message ≠ none

variable {g} {v w : View μ}

theorem parseChunks_mono {fuel fuel' : ℕ} {p : HttpParser μ} {buf : Buffer}
    {chunks : List (List Byte)} {r : (Bool × HttpParser μ × Buffer) × List (List Byte)}
    (h : parseChunks g fuel p buf chunks = some r) (hle : fuel ≤ fuel') :
    parseChunks g fuel' p buf chunks = some r := by
  induction chunks generalizing p buf with
  | nil => exact h
  | cons data rest ih =>
    rw [parseChunks, Option.bind_eq_some_iff] at h ⊢
    obtain ⟨out, hout, hrest⟩ := h
    refine ⟨out, parseBuffer_mono g hout hle, ?_⟩
    split
    · rename_i hmore
      rw [if_pos hmore] at hrest
      exact ih hrest
    · rename_i hmore
      rwa [if_neg hmore] at hrest

theorem view_append {p : HttpParser μ} {buf : Buffer} (hwf : buf.Wf) (data : List Byte) :
    (buf.append data).Wf ∧ view p (buf.append data) = (view p buf).feed data := by
  obtain ⟨hwf', hread⟩ := Buffer.append_spec hwf data
  exact ⟨hwf', by simp [view, View.feed, hread]⟩

/-- Later bytes do not take a body away. -/
theorem ReachesBody.feed {u : View μ} (hadv : View.Advances g v w) (hw : w.state = .kBody)
    (hbody : g.contentLength w.message ≠ none) {data : List Byte} (hu : u = v.feed data) :
    ReachesBody g u := by
  subst hu
  exact ⟨w.feed data, hadv.feed data, hw, hbody⟩

/-- The last turn of a call, when no body is taken: it waits, the message is
complete, or it fails. The same turn with later bytes differs in the first case only. -/
theorem turn_last_cases (hlast : (View.turn g w).1 ≠ .more)
    (hbody : w.state = .kBody → g.contentLength w.message = none) :
    (w.state ≠ .kBody ∧ View.turn g w = (.stop, w)) ∨
      ((View.turn g w).1 = .fail ∨ (View.turn g w).2.state = .kEnd) ∧
        ∀ data, View.turn g (w.feed data) = ((View.turn g w).1, (View.turn g w).2.feed data) := by
  by_cases hstate : w.state = .kBody
  · right
    have hnone := hbody hstate
    have hturn (bytes : List Byte) :
        View.turn g ⟨w.state, w.message, bytes⟩ = (.stop, ⟨.kEnd, w.message, bytes⟩) := by
      rw [hstate]
      simp only [View.turn, hnone]
    refine ⟨.inr ?_, ?_⟩
    · rw [hturn w.bytes]
    · intro data
      rw [View.feed, hturn (w.bytes ++ data), hturn w.bytes]
      rfl
  · cases hturn : (View.turn g w).1 with
    | more => exact absurd hturn hlast
    | stop =>
      left
      exact ⟨hstate, Prod.ext hturn (View.turn_stop hturn hstate)⟩
    | fail =>
      right
      refine ⟨.inl rfl, ?_⟩
      intro data
      have hfeed := View.turn_feed (g := g) (v := w) (by simp [hturn]) hstate data
      rw [hfeed, hturn]

/-- From a parser that waits, the pieces and their concatenation come to the same end,
except that the pieces behind the end are not in the buffer yet. -/
theorem parseChunks_last {p : HttpParser μ} {buf : Buffer} {chunks : List (List Byte)}
    (hwf : buf.Wf) (hend : p.state ≠ .kEnd) (hwait : View.turn g (view p buf) = (.stop, view p buf))
    (hbody : ¬ReachesBody g ((view p buf).feed chunks.flatten)) :
    ∃ w fuel p' buf' rest, View.Advances g ((view p buf).feed chunks.flatten) w ∧
      (View.turn g w).1 ≠ .more ∧
      parseChunks g fuel p buf chunks =
        some ((decide ((View.turn g w).1 = .stop), p', buf'), rest) ∧
      (View.turn g w).2 = (view p' buf').feed rest.flatten := by
  induction chunks generalizing p buf with
  | nil =>
    refine ⟨view p buf, 0, p, buf, [], ?_, by simp [hwait], ?_, ?_⟩
    · rw [List.flatten_nil, View.feed_nil]
      exact .refl _
    · rw [hwait]
      rfl
    · rw [hwait, List.flatten_nil, View.feed_nil]
  | cons data rest ih =>
    obtain ⟨hwf', hview⟩ := view_append (p := p) hwf data
    obtain ⟨w, hadv, hlast⟩ := View.exists_last (g := g) ((view p buf).feed data) hend
    obtain ⟨fuel, p', buf', hparse, hwf'', hview'⟩ :=
      exists_parseBuffer hwf' (hview ▸ hadv) hlast hend
    have hall : (view p buf).feed (data :: rest).flatten =
        ((view p buf).feed data).feed rest.flatten := by
      rw [View.feed_feed, List.flatten_cons]
    have hnone : w.state = .kBody → g.contentLength w.message = none := by
      intro hstate
      by_contra hsome
      exact hbody (ReachesBody.feed hadv hstate hsome hall)
    have hadv' := hadv.feed rest.flatten
    rcases turn_last_cases hlast hnone with ⟨hstate, hstop⟩ | ⟨hover, hfeed⟩
    · have hview' : view p' buf' = w := by rw [hview', hstop]
      have hend' : p'.state ≠ .kEnd := by
        have hadvEnd := (hadv.state_cases hend).1
        rwa [← hview'] at hadvEnd
      have hbody' : ¬ReachesBody g ((view p' buf').feed rest.flatten) := by
        rintro ⟨u, hu, hustate, hubody⟩
        rw [hview'] at hu
        rw [hall] at hbody
        exact hbody ⟨u, hadv'.trans hu, hustate, hubody⟩
      obtain ⟨x, fuel', q, qbuf, left, hx, hxlast, hchunks, hxview⟩ :=
        ih hwf'' hend' (by rw [hview', hstop]) hbody'
      rw [hview'] at hx
      refine ⟨x, max fuel fuel', q, qbuf, left, hall ▸ hadv'.trans hx, hxlast, ?_, hxview⟩
      rw [parseChunks, parseBuffer_mono g hparse (Nat.le_max_left fuel fuel'), Option.bind_some,
        if_pos ⟨by simp [hstop], hend'⟩]
      exact parseChunks_mono hchunks (Nat.le_max_right fuel fuel')
    · refine ⟨w.feed rest.flatten, fuel, p', buf', rest, hall ▸ hadv', ?_, ?_, ?_⟩
      · rw [hfeed]
        exact hlast
      · rw [parseChunks, hparse, Option.bind_some, hfeed, if_neg]
        rintro ⟨hok, hnot⟩
        rcases hover with hfail | hkEnd
        · simp [hfail] at hok
        · rw [← hview'] at hkEnd
          exact hnot hkEnd
      · rw [hfeed, hview']

end HttpParser

namespace HttpRequestParser

open HttpParser

/-- A text whose lines up to a blank one are those of a `POST` with a `Content-Length`. -/
def CompletesPost (bytes : List Byte) : Prop :=
  ∃ r rest, View.Advances grammar ⟨.kLine, .create, bytes⟩ ⟨.kBody, r, rest⟩ ∧
    r.method = some .kPost ∧ r.value HttpMessage.kContentLength ≠ []

theorem reachesBody_iff (bytes : List Byte) :
    ReachesBody grammar ⟨.kLine, .create, bytes⟩ ↔ CompletesPost bytes := by
  have hlength (r : HttpRequest) : grammar.contentLength r ≠ none ↔
      r.method = some .kPost ∧ r.value HttpMessage.kContentLength ≠ [] := by
    show bodyLength r ≠ none ↔ _
    unfold bodyLength
    by_cases hpost : r.method = some .kPost
    · by_cases hvalue : r.value HttpMessage.kContentLength = []
      · simp [hvalue]
      · simp [hpost, hvalue]
    · simp [hpost]
  constructor
  · rintro ⟨⟨state, r, rest⟩, hadv, rfl, hbody⟩
    exact ⟨r, rest, hadv, (hlength r).mp hbody⟩
  · rintro ⟨r, rest, hadv, hbody⟩
    exact ⟨⟨.kBody, r, rest⟩, hadv, rfl, (hlength r).mpr hbody⟩

/-- The outcome of the calls on the pieces is that of one call on all bytes: the same result,
state and request, at the same place of the text. -/
theorem parseChunks_eq_parseBuffer (initSize : ℕ) (chunks : List (List Byte))
    (hpost : ¬CompletesPost chunks.flatten) :
    ∃ fuel ok p buf rest wholeBuf,
      (∀ n, fuel ≤ n → parseChunks grammar n create (.ofSize initSize) chunks =
        some ((ok, p, buf), rest)) ∧
      (∀ n, fuel ≤ n → parseBuffer n create ((Buffer.ofSize initSize).append chunks.flatten) =
        some (ok, p, wholeBuf)) ∧
      wholeBuf.readable = buf.readable ++ rest.flatten := by
  have hwf := Buffer.wf_ofSize initSize
  have hfresh : view create (.ofSize initSize) = ⟨.kLine, HttpRequest.create, []⟩ := by
    simp [view, create, HttpParser.create, grammar]
  have hfeed : (view create (.ofSize initSize)).feed chunks.flatten =
      ⟨.kLine, HttpRequest.create, chunks.flatten⟩ := by
    rw [hfresh]
    rfl
  have hend : create.state ≠ .kEnd := by decide
  have hwait : View.turn grammar (view create (.ofSize initSize)) =
      (.stop, view create (.ofSize initSize)) := by
    rw [hfresh]
    rfl
  have hbody : ¬ReachesBody grammar ((view create (.ofSize initSize)).feed chunks.flatten) := by
    rwa [hfeed, reachesBody_iff]
  obtain ⟨w, fuel, p, buf, rest, hadv, hlast, hchunks, hview⟩ :=
    parseChunks_last hwf hend hwait hbody
  obtain ⟨hwf', hwhole⟩ := view_append (p := create) hwf chunks.flatten
  obtain ⟨fuel', q, wholeBuf, hparse, -, hview'⟩ :=
    exists_parseBuffer (g := grammar) hwf' (hwhole ▸ hadv) hlast hend
  rw [hview] at hview'
  simp only [view, View.feed, View.mk.injEq] at hview'
  obtain ⟨hstate, hmessage, hbytes⟩ := hview'
  have hq : q = p := by
    obtain ⟨state, message⟩ := q
    simp only at hstate hmessage
    rw [hstate, hmessage]
  refine ⟨max fuel fuel', decide ((View.turn grammar w).1 = .stop), p, buf, rest, wholeBuf, ?_, ?_,
    hbytes⟩
  · intro n hn
    exact parseChunks_mono hchunks (Nat.le_trans (Nat.le_max_left _ _) hn)
  · intro n hn
    rw [← hq]
    exact parseBuffer_mono grammar hparse (Nat.le_trans (Nat.le_max_right _ _) hn)

/-- Texts on which the loop ends among the lines. -/
theorem not_completesPost {bytes : List Byte} (fuel : ℕ)
    (h : (View.parse grammar fuel ⟨.kLine, .create, bytes⟩).map (fun r => r.2.state) =
      some .kHeaders) : ¬CompletesPost bytes := by
  rintro ⟨r, rest, hbody, -⟩
  rw [Option.map_eq_some_iff] at h
  obtain ⟨out, hout, hstate⟩ := h
  obtain ⟨w, hadv, hlast, rfl⟩ := View.exists_advances_of_parse hout
  have hw := (hadv.to_last hbody hlast).last_unique (View.turn_kBody_ne_more rfl)
  have hkBody : w.state = .kBody := by rw [← hw]
  rcases View.turn_kBody (g := grammar) hkBody with ⟨-, hkEnd⟩ | hfail
  · rw [hkEnd] at hstate
    cases hstate
  · rw [hfail, hkBody] at hstate
    cases hstate

/-- A line end is cut in two, and the third piece has a line without a colon. -/
def cutRequest : List (List Byte) :=
  [ascii "PUT /a HT", ascii "TP/1.1" ++ [13], 10 :: ascii "Host: b" ++ [13, 10, 120, 13, 10, 121],
    ascii "z"]

theorem parseChunks_eq_parseBuffer_cut :
    ∃ fuel ok p buf rest wholeBuf,
      parseChunks grammar fuel create (.ofSize 8) cutRequest = some ((ok, p, buf), rest) ∧
      parseBuffer fuel create ((Buffer.ofSize 8).append cutRequest.flatten) =
        some (ok, p, wholeBuf) ∧
      wholeBuf.readable = buf.readable ++ rest.flatten := by
  have hpost : ¬CompletesPost cutRequest.flatten :=
    not_completesPost 9 (by decide)
  obtain ⟨fuel, ok, p, buf, rest, wholeBuf, hchunks, hwhole, hbytes⟩ :=
    parseChunks_eq_parseBuffer 8 cutRequest hpost
  exact ⟨fuel, ok, p, buf, rest, wholeBuf, hchunks fuel (Nat.le_refl _),
    hwhole fuel (Nat.le_refl _), hbytes⟩

end HttpRequestParser

end Voyager
