import Voyager.HttpServer

/-!
What happens on a connection after `ParseBuffer` has returned `false`. The
socket stays readable after `ShutDown`, so `OnMessage` is called again with the
parser and the bytes as the failure left them. A bad request line is not
consumed and fails again in every later call. A bad header line is consumed and
a body of the wrong size is kept, and from there later bytes complete the
request.
-/
namespace Voyager.HttpServer

open Lib.CString HttpParser

namespace Session

variable {httpCb : Option (List Act → HttpCallback)} {s t : Session} {data : List Byte}
  {w : View HttpRequest}

theorem Ends.served (h : Ends httpCb s data w t) :
    t.served = s.served ++
      if (View.turn HttpRequestParser.grammar w).2.state = .kEnd ∧ httpCb.isSome
      then [(View.turn HttpRequestParser.grammar w).2.message] else [] := by
  unfold Session.served
  rw [h.acts, List.filterMap_append, called_afterParse]
  simp [finishParse]

/-- A call that does not reach `kEnd` leaves what the last turn left. -/
theorem Ends.unfinished (h : Ends httpCb s data w t)
    (hne : (View.turn HttpRequestParser.grammar w).2.state ≠ .kEnd) :
    t.view = (View.turn HttpRequestParser.grammar w).2 ∧ t.requests = s.requests ∧
      t.served = s.served := by
  refine ⟨?_, ?_, ?_⟩
  · have hparser := h.parser
    rw [afterParse_of_ne _ _ (by exact hne)] at hparser
    simp only [Session.view, HttpParser.view, h.bytes, hparser]
  · simp [h.requests, hne]
  · simp [h.served, hne]

/-- The request line that is complete with the new bytes is not accepted. -/
def RejectsLine (s : Session) (data : List Byte) : Prop :=
  s.parser.state = .kLine ∧ ∃ crlf, ByteQueue.firstCRLF (s.readbuf.readable ++ data) = some crlf ∧
    (HttpRequestParser.parseRequestLine .create
      ((s.readbuf.readable ++ data).take crlf)).1 = false

theorem rejectsLine_iff (hstate : s.parser.state = .kLine) :
    RejectsLine s data ↔ (View.turn HttpRequestParser.grammar (s.view.feed data)).1 = .fail := by
  simp only [RejectsLine, hstate, true_and]
  cases hcrlf : ByteQueue.firstCRLF (s.readbuf.readable ++ data) with
  | none => simp [View.turn, Session.view, HttpParser.view, View.feed, hstate, hcrlf]
  | some crlf =>
    have hfst := HttpRequestParser.parseRequestLine_fst s.parser.message
      ((s.readbuf.readable ++ data).take crlf)
    rw [← HttpRequestParser.parseRequestLine_fst .create] at hfst
    simp only [Option.some.injEq, exists_eq_left', ← hfst]
    cases hline : (HttpRequestParser.parseRequestLine s.parser.message
      ((s.readbuf.readable ++ data).take crlf)).1 <;>
      simp [View.turn, Session.view, HttpParser.view, View.feed, hstate, hcrlf,
        HttpRequestParser.grammar, hline]

/-- A rejected request line stays in front of the buffer. -/
theorem RejectsLine.read {fuel : ℕ} (hrej : RejectsLine s data) (hwf : s.readbuf.Wf)
    (hread : s.read httpCb fuel data = some t) :
    (∀ more, RejectsLine t more) ∧ t.requests = s.requests ∧ t.served = s.served := by
  obtain ⟨w, hends⟩ := read_ends hwf hread
  have hfail := (rejectsLine_iff hrej.1).mp hrej
  have hw : s.view.feed data = w := hends.advances.last_unique (by simp [hfail])
  obtain ⟨hustate, hubytes⟩ := View.turn_kLine_fail (v := s.view.feed data) hrej.1
    (Prod.ext hfail rfl)
  rw [hw] at hustate hubytes
  obtain ⟨hview, hreq, hserved⟩ := hends.unfinished (by simp [hustate])
  refine ⟨?_, hreq, hserved⟩
  intro more
  have hstate : t.parser.state = .kLine := by
    rw [show t.parser.state = t.view.state from rfl, hview, hustate]
  have hbytes : t.readbuf.readable = s.readbuf.readable ++ data := by
    rw [show t.readbuf.readable = t.view.bytes from rfl, hview, hubytes, ← hw]
    rfl
  obtain ⟨_, crlf, hcrlf, hline⟩ := hrej
  have hlen := (ByteQueue.firstCRLF_eq_some.mp hcrlf).1.lt_length
  refine ⟨hstate, crlf, ?_, ?_⟩
  · rw [hbytes]
    exact ByteQueue.firstCRLF_append hcrlf more
  · rw [hbytes, List.take_append_of_le_length (by omega)]
    exact hline

/-- It is rejected again by every later call. -/
theorem Reads.of_rejectsLine {chunks : List (List Byte)} (h : Reads httpCb s chunks t)
    (hwf : s.readbuf.Wf) (hrej : ∀ more, RejectsLine s more) :
    t.requests = s.requests ∧ t.served = s.served := by
  have hinv : t.readbuf.Wf ∧ (∀ more, RejectsLine t more) ∧ t.requests = s.requests ∧
      t.served = s.served := by
    apply h.invariant (P := fun t => t.readbuf.Wf ∧ (∀ more, RejectsLine t more) ∧
      t.requests = s.requests ∧ t.served = s.served)
    · exact ⟨hwf, hrej, rfl, rfl⟩
    · rintro s' fuel data t ⟨hwf, hrej, hreq, hserved⟩ hread
      obtain ⟨w, hends⟩ := read_ends hwf hread
      obtain ⟨hrej', hreq', hserved'⟩ := (hrej data).read hwf hread
      exact ⟨hends.wf, hrej', hreq'.trans hreq, hserved'.trans hserved⟩
  exact hinv.2.2

/-- Some later reads make the parser reach `kEnd` once more. -/
def CanFinish (httpCb : Option (List Act → HttpCallback)) (s : Session) : Prop :=
  ∃ later t, Reads httpCb s later t ∧ s.requests.length < t.requests.length

theorem CanFinish.of_read {fuel : ℕ} (hdata : data ≠ [])
    (hread : s.read httpCb fuel data = some t) (hreq : t.requests = s.requests)
    (h : CanFinish httpCb t) : CanFinish httpCb s := by
  obtain ⟨later, u, hreads, hlen⟩ := h
  exact ⟨data :: later, u, reads_cons_iff.mpr ⟨hdata, fuel, t, hread, hreads⟩, by rwa [← hreq]⟩

theorem canFinish_of_turn (hwf : s.readbuf.Wf) (hend : s.parser.state ≠ .kEnd)
    (data : List Byte) (hdata : data ≠ [])
    (hadv : View.Advances HttpRequestParser.grammar (s.view.feed data) w)
    (hlast : (View.turn HttpRequestParser.grammar w).1 ≠ .more)
    (hfinish : (View.turn HttpRequestParser.grammar w).2.state = .kEnd) :
    CanFinish httpCb s := by
  obtain ⟨fuel, t, hread⟩ := exists_read httpCb hwf hend data
  obtain ⟨w', hends⟩ := read_ends hwf hread
  have hw : w' = w := (hadv.to_last hends.advances hlast).last_unique hends.last
  refine ⟨[data], t, reads_cons_iff.mpr ⟨hdata, fuel, t, hread, .nil t⟩, ?_⟩
  rw [hends.requests, hw, if_pos hfinish]
  simp

/-- A body of the wrong size is kept, and more bytes give it the right one. -/
theorem canFinish_of_kBody (hwf : s.readbuf.Wf) (hstate : s.parser.state = .kBody) :
    CanFinish httpCb s := by
  have hend : s.parser.state ≠ .kEnd := by simp [hstate]
  cases hlen : HttpRequestParser.grammar.contentLength s.parser.message with
  | none =>
    have hturn : View.turn HttpRequestParser.grammar (s.view.feed [0]) =
        (.stop, ⟨.kEnd, s.parser.message, s.readbuf.readable ++ [0]⟩) := by
      simp [View.turn, Session.view, HttpParser.view, View.feed, hstate, hlen]
    exact canFinish_of_turn hwf hend [0] (by simp) (.refl _) (by simp [hturn]) (by simp [hturn])
  | some text =>
    obtain ⟨k, hk, hsize⟩ := exists_size_eq_atoi text s.readbuf.readable.length
    have hint : toInt (s.readbuf.readable ++ List.replicate k (0 : Byte)).length = atoi text := by
      rw [List.length_append, List.length_replicate]
      exact hsize
    have hturn : View.turn HttpRequestParser.grammar (s.view.feed (List.replicate k 0)) =
        (.stop, ⟨.kEnd, HttpRequestParser.grammar.setBody s.parser.message
          (s.readbuf.readable ++ List.replicate k 0), []⟩) := by
      simp only [View.turn, Session.view, HttpParser.view, View.feed, hstate, hlen, hint, if_true]
    refine canFinish_of_turn hwf hend (List.replicate k 0) ?_ (.refl _) (by simp [hturn])
      (by simp [hturn])
    simp only [ne_eq, List.replicate_eq_nil_iff]
    omega

/-- The bytes end with a line end, or there are none. -/
def EndsLine (bytes : List Byte) : Prop := bytes = [] ∨ ∃ front, bytes = front ++ [13, 10]

theorem EndsLine.drop {bytes : List Byte} {crlf : ℕ} (h : EndsLine bytes)
    (hcrlf : ByteQueue.CRLFAt bytes crlf) : EndsLine (bytes.drop (crlf + 2)) := by
  have hlen := hcrlf.lt_length
  rcases h with rfl | ⟨front, rfl⟩
  · simp at hlen
  · simp only [List.length_append, List.length_cons, List.length_nil] at hlen
    have hmiddle : crlf + 1 ≠ front.length := by
      intro heq
      have hbyte := hcrlf.2
      rw [heq] at hbyte
      simp at hbyte
    by_cases hall : crlf = front.length
    · left
      simp [hall]
    · right
      exact ⟨front.drop (crlf + 2), List.drop_append_of_le_length (by omega)⟩

theorem EndsLine.of_firstCRLF_none {bytes : List Byte} (h : EndsLine bytes)
    (hnone : ByteQueue.firstCRLF bytes = none) : bytes = [] := by
  rcases h with rfl | ⟨front, rfl⟩
  · rfl
  · exact absurd ⟨by simp, by simp⟩ (ByteQueue.firstCRLF_eq_none.mp hnone front.length)

theorem EndsLine.advances {v w : View HttpRequest} (h : EndsLine v.bytes)
    (hadv : View.Advances HttpRequestParser.grammar v w) (hend : v.state ≠ .kEnd) :
    EndsLine w.bytes := by
  induction hadv with
  | refl _ => exact h
  | step hturn _ ih =>
    obtain ⟨hend', _, crlf, hcrlf, hbytes⟩ := View.turn_more_progress hturn hend
    refine ih ?_ hend'
    rw [hbytes]
    exact h.drop (ByteQueue.firstCRLF_eq_some.mp hcrlf).1

/-- A bad header line is consumed; the parser goes on behind it. Every further
line end either completes the headers or drops another line. -/
theorem canFinish_of_kHeaders (hwf : s.readbuf.Wf) (hstate : s.parser.state = .kHeaders) :
    CanFinish httpCb s := by
  generalize hn : s.readbuf.readable.length = n
  induction n using Nat.strong_induction_on generalizing s with
  | _ n ih =>
    have hend : s.parser.state ≠ .kEnd := by simp [hstate]
    obtain ⟨fuel, t, hread⟩ := exists_read httpCb hwf hend [13, 10]
    obtain ⟨w, hends⟩ := read_ends hwf hread
    obtain ⟨hwend, hwline⟩ := hends.advances.state_cases hend
    have hle := hends.advances.length_le hend
    have hlines : EndsLine w.bytes :=
      EndsLine.advances (.inr ⟨s.readbuf.readable, rfl⟩) hends.advances hend
    simp only [Session.view, HttpParser.view, View.feed, List.length_append, hn, List.length_cons,
      List.length_nil] at hle
    cases hw : w.state with
    | kLine =>
      have heq := congrArg View.state (hwline hw)
      rw [hw] at heq
      exact absurd (hstate.symm.trans heq) (by simp)
    | kHeaders =>
      rcases View.turn_kHeaders_last hw hends.last with ⟨hnone, hturn⟩ | ⟨crlf, hcrlf, hpos, hturn⟩
      · obtain ⟨hview, hreq, _⟩ := hends.unfinished (by simp [hturn, hw])
        rw [hturn] at hview
        have hempty := hlines.of_firstCRLF_none hnone
        have hnpos : 0 < n := by
          -- a lone line end is the blank line, which is not waited behind
          rw [Nat.pos_iff_ne_zero]
          rintro rfl
          have hnil : s.readbuf.readable = [] := List.length_eq_zero_iff.mp hn
          have hblank : View.turn HttpRequestParser.grammar (s.view.feed [13, 10]) =
              (.more, ⟨.kBody, s.parser.message, []⟩) := by
            have hfirst : ByteQueue.firstCRLF [13, 10] = some 0 := by decide
            simp [View.turn, Session.view, HttpParser.view, View.feed, hstate, hnil, hfirst]
          have hbody := (hends.advances.to_last (.step hblank (.refl _)) hends.last).last_unique
            (View.turn_kBody_ne_more rfl)
          simp [← hbody] at hw
        refine (ih 0 hnpos hends.wf ?_ ?_).of_read (by simp) hread hreq
        · rw [show t.parser.state = t.view.state from rfl, hview, hw]
        · rw [show t.readbuf.readable = t.view.bytes from rfl, hview, hempty]
          rfl
      · obtain ⟨hview, hreq, _⟩ := hends.unfinished (by simp [hturn])
        rw [hturn] at hview
        have hlen := (ByteQueue.firstCRLF_eq_some.mp hcrlf).1.lt_length
        refine (ih _ ?_ hends.wf ?_ rfl).of_read (by simp) hread hreq
        · rw [show t.readbuf.readable = t.view.bytes from rfl, hview, List.length_drop]
          omega
        · rw [show t.parser.state = t.view.state from rfl, hview]
    | kBody =>
      rcases View.turn_kBody (g := HttpRequestParser.grammar) hw with ⟨_, hfinish⟩ | hturn
      · exact canFinish_of_turn hwf hend [13, 10] (by simp) hends.advances hends.last hfinish
      · obtain ⟨hview, hreq, _⟩ := hends.unfinished (by simp [hturn, hw])
        rw [hturn] at hview
        refine (canFinish_of_kBody hends.wf ?_).of_read (by simp) hread hreq
        rw [show t.parser.state = t.view.state from rfl, hview, hw]
    | kEnd => exact absurd hw hwend

theorem exists_ends_of_false {fuel : ℕ} {parser : HttpParser HttpRequest} {buf : Buffer}
    (httpCb : Option (List Act → HttpCallback)) (hwf : s.readbuf.Wf)
    (hfalse : HttpRequestParser.parseBuffer fuel s.parser (s.readbuf.readV (some data)) =
      some (false, parser, buf)) :
    ∃ t w u, s.read httpCb fuel data = some t ∧ Ends httpCb s data w t ∧
      View.turn HttpRequestParser.grammar w = (.fail, u) := by
  have hread : ∃ t, s.read httpCb fuel data = some t := ⟨_, by rw [read, onMessage, hfalse]; rfl⟩
  obtain ⟨t, hread⟩ := hread
  obtain ⟨w, hends⟩ := read_ends hwf hread
  obtain ⟨hwf', hview⟩ := view_readV hwf data
  have hspec := (parseBuffer_spec HttpRequestParser.grammar fuel s.parser hwf').1
  rw [parseBuffer_mono _ hfalse (Nat.le_succ fuel), hview] at hspec
  obtain ⟨w', hadv, hlast, hresult⟩ := View.exists_advances_of_parse hspec.symm
  have hw : w = w' := (hadv.to_last hends.advances hlast).last_unique hends.last
  subst hw
  refine ⟨t, w, (View.turn HttpRequestParser.grammar w).2, hread, hends, ?_⟩
  have hstop := (congrArg Prod.fst hresult).symm
  rcases hturn : View.turn HttpRequestParser.grammar w with ⟨verdict, u⟩
  rw [hturn] at hlast hstop
  cases verdict with
  | more => exact absurd rfl hlast
  | stop => simp at hstop
  | fail => rfl

end Session

/-- After a call whose `ParseBuffer` has returned `false`, no later call
completes a request or invokes `http_cb_` if, and only if, what was rejected is
the request line. -/
theorem rejected_never_served_iff (httpCb : Option (List Act → HttpCallback)) (initSize : ℕ)
    (chunks : List (List Byte)) (s : Session)
    (hs : Session.Reads httpCb (Session.start initSize) chunks s) (data : List Byte)
    (hdata : data ≠ []) (fuel : ℕ) (parser : HttpParser HttpRequest) (buf : Buffer)
    (hfalse : HttpRequestParser.parseBuffer fuel s.parser (s.readbuf.readV (some data)) =
      some (false, parser, buf)) :
    (∀ t later u, Session.Reads httpCb s [data] t → Session.Reads httpCb t later u →
      u.requests = t.requests ∧ u.served = t.served) ↔ s.RejectsLine data := by
  have hwf := hs.wf (Buffer.wf_ofSize initSize)
  obtain ⟨t, w, u, hread, hends, hturn⟩ := Session.exists_ends_of_false httpCb hwf hfalse
  have hreads : Session.Reads httpCb s [data] t :=
    Session.reads_cons_iff.mpr ⟨hdata, fuel, t, hread, .nil t⟩
  constructor
  · intro hnever
    have hstuck : ¬ Session.CanFinish httpCb t := by
      rintro ⟨later, u, hlater, hlen⟩
      have hsame := (hnever t later u hreads hlater).1
      rw [hsame] at hlen
      omega
    have hend := Session.read_state_ne_kEnd hwf hread
    obtain ⟨hwend, hwline⟩ := hends.advances.state_cases hend
    cases hw : w.state with
    | kLine =>
      have hstate : s.parser.state = .kLine := by
        rw [show s.parser.state = (s.view.feed data).state from rfl, hwline hw, hw]
      rw [Session.rejectsLine_iff hstate, hwline hw, hturn]
    | kHeaders =>
      refine absurd (Session.canFinish_of_kHeaders hends.wf ?_) hstuck
      rcases View.turn_kHeaders_last hw hends.last with ⟨_, hstop⟩ | ⟨crlf, _, _, hfail⟩
      · rw [hstop] at hturn
        simp at hturn
      · obtain ⟨hview, _⟩ := hends.unfinished (by simp [hfail])
        rw [show t.parser.state = t.view.state from rfl, hview, hfail]
    | kBody =>
      refine absurd (Session.canFinish_of_kBody hends.wf ?_) hstuck
      rcases View.turn_kBody (g := HttpRequestParser.grammar) hw with ⟨hstop, _⟩ | hfail
      · rw [hturn] at hstop
        simp at hstop
      · obtain ⟨hview, _⟩ := hends.unfinished (by simp [hfail, hw])
        rw [show t.parser.state = t.view.state from rfl, hview, hfail, hw]
    | kEnd => exact absurd hw hwend
  · intro hrej t' later u hreads' hlater
    rw [hreads'.unique hreads] at hlater ⊢
    exact hlater.of_rejectsLine hends.wf (hrej.read hwf hread).1

/-- A line that names no method. -/
def badLine : List Byte := ascii "x y z" ++ [13, 10]

theorem rejected_never_served_badLine :
    (Session.start 0).RejectsLine badLine ∧
    ∀ t later u, Session.Reads none (Session.start 0) [badLine] t → Session.Reads none t later u →
      u.requests = t.requests ∧ u.served = t.served := by
  have hrejects : (Session.start 0).RejectsLine badLine :=
    ⟨rfl, 5, by decide +kernel, by decide +kernel⟩
  refine ⟨hrejects, ?_⟩
  exact (rejected_never_served_iff none 0 [] _ (.nil _) badLine (by decide) 10 ⟨.kLine, .create⟩
    ((Buffer.ofSize 0).readV (some badLine)) (by decide +kernel)).mpr hrejects

/-- The head of a `POST` with half of its body. -/
def halfPost : List Byte :=
  ascii "POST / HTTP/1.1" ++ [13, 10] ++ ascii "Content-Length: 2" ++ [13, 10, 13, 10] ++ ascii "a"

/-- The other half makes the request complete that was answered with 400. -/
theorem rejected_post_served_later :
    ∃ t u, Session.Reads (some fun _ _ response => response) (Session.start 0) [halfPost] t ∧
      Act.parseBuffer false ∈ t.acts ∧ Act.sendMessage badRequest ∈ t.acts ∧
      Session.Reads (some fun _ _ response => response) t [ascii "b"] u ∧
      t.served = [] ∧ u.served.map (·.body) = [ascii "ab"] := by
  have hfirst : ((Session.start 0).readAll (some fun _ _ response => response) 10 [halfPost]).any
      (fun t => decide (Act.parseBuffer false ∈ t.acts ∧ Act.sendMessage badRequest ∈ t.acts ∧
        t.served = [] ∧ (t.readAll (some fun _ _ response => response) 10 [ascii "b"]).any
          (fun u => decide (u.served.map (·.body) = [ascii "ab"])) = true)) = true := by
    decide +kernel
  obtain ⟨t, ht, hfalse, hsent, hnone, hsecond⟩ :=
    Session.exists_reads_of_readAll _ _ 10 [halfPost] _ (by decide) hfirst
  obtain ⟨u, hu, hbody⟩ := Session.exists_reads_of_readAll _ _ 10 [ascii "b"] _ (by decide) hsecond
  exact ⟨t, u, ht, hfalse, hsent, hu, hnone, hbody⟩

end Voyager.HttpServer
