import Voyager.HttpReprint
import Voyager.HttpRoundTrip

/-!
A parser on a stream of messages. One call of `ParseBuffer` takes at most one message
out of what has arrived, and of a message with a body it may take the head only: then
the call fails, and so do the later ones until the buffer holds the body and nothing
behind it. But what is taken is always the next message of the stream, as a whole.
-/
namespace Voyager

open Lib.CString Lib.Framing

namespace HttpParser

variable {μ : Type*}

/-- A message on the wire, up to its blank line and behind it. `headed` is what the parser
has made of the head, `message` what it has in the end. -/
structure Packet (μ : Type*) where
  head : List Byte
  body : List Byte
  headed : μ
  message : μ

namespace Packet

def bytes (p : Packet μ) : List Byte := p.head ++ p.body

/-- The parser reads the packet as it stands. -/
structure Sound (g : Grammar μ) (p : Packet μ) : Prop where
  advances : View.Advances g ⟨.kLine, g.create, p.head⟩ ⟨.kBody, p.headed, []⟩
  body : (g.contentLength p.headed = none ∧ p.body = [] ∧ p.message = p.headed) ∨
    ∃ s, g.contentLength p.headed = some s ∧ IsSizeOf s p.body ∧
      p.message = g.setBody p.headed p.body

end Packet

/-- The bytes `here` of the next message have brought the parser to this point. -/
def Partway (g : Grammar μ) (here : List Byte) (v : View μ) : Prop :=
  View.Advances g ⟨.kLine, g.create, here⟩ v

variable {g : Grammar μ} {p : Packet μ} {here data more : List Byte} {v w : View μ}

theorem partway_create : Partway g [] ⟨.kLine, g.create, []⟩ := .refl _

theorem Partway.state_ne (h : Partway g here v) : v.state ≠ .kEnd :=
  (h.state_cases (by simp)).1

/-- Casting a size to `int` tells sizes below 2^32 apart. -/
theorem toInt_injective {n m : ℕ} (hn : n < 2 ^ 32) (hm : m < 2 ^ 32) (h : toInt n = toInt m) :
    n = m := by
  have hcast (k : ℕ) : toInt k % ((2 ^ 32 : ℕ) : ℤ) = ((k % 2 ^ 32 : ℕ) : ℤ) := Int.bmod_emod
  have hmod := hcast n
  rw [h, hcast m, Nat.mod_eq_of_lt hm, Nat.mod_eq_of_lt hn] at hmod
  exact (Int.ofNat.inj hmod).symm

/-- The head is not complete: the loop ends where it waits for the next line. -/
theorem Partway.wait (hp : p.Sound g) (h : Partway g here v) {q : List Byte} (hq : q ≠ [])
    (hhead : here ++ data ++ q = p.head) (hw : View.Advances g (v.feed data) w)
    (hlast : (View.turn g w).1 ≠ .more) :
    (View.turn g w).1 = .stop ∧ (View.turn g w).2 = w := by
  have hadv : View.Advances g ⟨.kLine, g.create, here ++ data⟩ w := (h.feed data).trans hw
  have hrest : View.Advances g (w.feed q) ⟨.kBody, p.headed, []⟩ := by
    have hall := hp.advances
    rw [← hhead] at hall
    exact hall.to_last (hadv.feed q) (View.turn_kBody_ne_more rfl)
  have hbody : w.state ≠ .kBody := by
    intro hstate
    have heq := hrest.last_unique (View.turn_kBody_ne_more (v := w.feed q) hstate)
    have hbytes := congrArg View.bytes heq
    simp only [View.feed, List.append_eq_nil_iff] at hbytes
    exact hq hbytes.2
  have hstop : (View.turn g w).1 = .stop := by
    rcases hturn : View.turn g w with ⟨verdict, u⟩
    cases verdict with
    | more => exact absurd (by rw [hturn]) hlast
    | stop => rfl
    | fail =>
      -- more bytes would not make it better, but the whole head is read
      have heq := hrest.last_unique (by rw [View.turn_fail_feed hturn hbody]; simp)
      exact absurd (congrArg View.state heq) hbody
  exact ⟨hstop, View.turn_stop hstop hbody⟩

/-- The head is complete: the loop ends at the body. -/
theorem Partway.at_body (hp : p.Sound g) (h : Partway g here v) {rest : List Byte}
    (hhead : here ++ data = p.head ++ rest) (hw : View.Advances g (v.feed data) w)
    (hlast : (View.turn g w).1 ≠ .more) : w = ⟨.kBody, p.headed, rest⟩ := by
  have hadv : View.Advances g ⟨.kLine, g.create, here ++ data⟩ w := (h.feed data).trans hw
  have hall : View.Advances g ⟨.kLine, g.create, here ++ data⟩ ⟨.kBody, p.headed, rest⟩ := by
    rw [hhead]
    exact hp.advances.feed rest
  exact (hall.to_last hadv (View.turn_kBody_ne_more rfl)).last_unique hlast

/-- At the body the last turn takes all that is there, if that is the body, and nothing
otherwise. -/
theorem turn_headed (hp : p.Sound g) {rest : List Byte} (hrest : rest <+: p.body ++ more)
    (hsize : rest.length < 2 ^ 32) :
    (∃ rest', rest = p.body ++ rest' ∧
      View.turn g ⟨.kBody, p.headed, rest⟩ = (.stop, ⟨.kEnd, p.message, rest'⟩)) ∨
    View.turn g ⟨.kBody, p.headed, rest⟩ = (.fail, ⟨.kBody, p.headed, rest⟩) := by
  rcases hp.body with ⟨hnone, hbody, hmessage⟩ | ⟨s, hsome, hs, hmessage⟩
  · left
    refine ⟨rest, by rw [hbody, List.nil_append], ?_⟩
    simp only [View.turn, hnone, hmessage]
  · by_cases hlen : rest.length = p.body.length
    · left
      have heq : rest = p.body := by
        have hpre := List.prefix_of_prefix_length_le hrest (List.prefix_append p.body more)
          (by omega)
        exact hpre.eq_of_length hlen
      refine ⟨[], by rw [heq, List.append_nil], ?_⟩
      simp only [View.turn, hsome, heq, hs.atoi_eq, if_true, hmessage]
    · right
      have hne : toInt rest.length ≠ atoi s := by
        intro heq
        rw [← hs.atoi_eq] at heq
        have hlt := hs.size_lt
        exact hlen (toInt_injective hsize (by omega) heq)
      simp only [View.turn, hsome, if_neg hne]

/-- Where one call leaves the parser: still inside the message, or behind it. -/
theorem Partway.call (hp : p.Sound g) (h : Partway g here v)
    (hdata : here ++ data <+: p.bytes ++ more) (hsize : (here ++ data).length < 2 ^ 32)
    (hw : View.Advances g (v.feed data) w) (hlast : (View.turn g w).1 ≠ .more) :
    Partway g (here ++ data) (View.turn g w).2 ∨
      ∃ rest, here ++ data = p.bytes ++ rest ∧
        View.turn g w = (.stop, ⟨.kEnd, p.message, rest⟩) := by
  have hadv : Partway g (here ++ data) w := (h.feed data).trans hw
  rw [Packet.bytes, List.append_assoc] at hdata
  by_cases hlen : (here ++ data).length < p.head.length
  · left
    have hpre := List.prefix_of_prefix_length_le hdata (List.prefix_append p.head _) (by omega)
    obtain ⟨q, hq⟩ := hpre
    have hne : q ≠ [] := by
      rintro rfl
      rw [List.append_nil] at hq
      rw [hq] at hlen
      omega
    rw [(h.wait hp hne hq hw hlast).2]
    exact hadv
  · have hpre := List.prefix_of_prefix_length_le (List.prefix_append p.head (p.body ++ more)) hdata
      (by omega)
    obtain ⟨rest, hrest⟩ := hpre
    rw [← hrest] at hdata
    have hbody : rest <+: p.body ++ more := (List.prefix_append_right_inj _).mp hdata
    have hw' := h.at_body hp hrest.symm hw hlast
    have hrestlen : rest.length < 2 ^ 32 := by
      rw [← hrest, List.length_append] at hsize
      omega
    rcases turn_headed hp hbody hrestlen with ⟨rest', heq, hturn⟩ | hturn
    · right
      refine ⟨rest', ?_, by rw [hw', hturn]⟩
      rw [Packet.bytes, List.append_assoc, ← heq, hrest]
    · left
      rw [hw', hturn, ← hw']
      exact hadv

/-- `ParseBuffer` on a buffer to which `data` has been appended. -/
theorem Partway.parseBuffer {p : Packet μ} (hp : p.Sound g) {q : HttpParser μ} {buf : Buffer}
    (hwf : buf.Wf) (h : Partway g here (q.view buf)) (hdata : here ++ data <+: p.bytes ++ more)
    (hsize : (here ++ data).length < 2 ^ 32) {fuel : ℕ} {r : Bool × HttpParser μ × Buffer}
    (hr : HttpParser.parseBuffer g fuel q (buf.readV (some data)) = some r) :
    r.2.2.Wf ∧ ((r.2.1.state ≠ .kEnd ∧ Partway g (here ++ data) (r.2.1.view r.2.2)) ∨
      ∃ rest, here ++ data = p.bytes ++ rest ∧ r.1 = true ∧ r.2.1 = ⟨.kEnd, p.message⟩ ∧
        r.2.2.readable = rest) := by
  obtain ⟨hwf', hread⟩ := Buffer.readV_spec hwf data
  have hview : q.view (buf.readV (some data)) = (q.view buf).feed data := by
    simp [HttpParser.view, View.feed, hread]
  cases fuel with
  | zero => simp [HttpParser.parseBuffer, loop] at hr
  | succ fuel =>
    obtain ⟨hspec, hbuf⟩ := parseBuffer_spec g fuel q hwf'
    rw [hr, hview] at hspec
    obtain ⟨w, hadv, hlast, hresult⟩ := View.exists_advances_of_parse hspec.symm
    rw [Prod.mk.injEq] at hresult
    obtain ⟨hok, hres⟩ := hresult
    refine ⟨hbuf _ hr, ?_⟩
    rcases h.call hp hdata hsize hadv hlast with hpart | ⟨rest, hall, hturn⟩
    · rw [← hres] at hpart
      exact .inl ⟨hpart.state_ne, hpart⟩
    · rw [hturn] at hok hres
      simp only [HttpParser.view, View.mk.injEq] at hres
      obtain ⟨hstate, hmessage, hbytes⟩ := hres
      refine .inr ⟨rest, hall, by simpa using hok, ?_, hbytes⟩
      rw [← hstate, ← hmessage]

end HttpParser

/-! The packets of printed messages. -/

namespace HttpRequest

variable {r : HttpRequest}

def packet (r : HttpRequest) : HttpParser.Packet HttpRequest where
  head := r.requestLine ++ 13 :: 10 ::
    (HttpMessage.headerLines (ascii ":") r.headerMap ++ [13, 10])
  body := r.body
  headed := { r.readBack with body := [] }
  message := r.readBack

theorem bytes_packet (r : HttpRequest) : r.packet.bytes = r.serialized := by
  simp [HttpParser.Packet.bytes, packet, serialized]

theorem sound_packet (h : r.Printable) : r.packet.Sound HttpRequestParser.grammar where
  advances := by
    have hblanks : ∀ b ∈ ([] : List Byte), b = 32 := by simp
    have hadv := HttpParser.advances_printed (g := HttpRequestParser.grammar)
      (not_mem_requestLine h) (parseRequestLine_requestLine h) h.orderly hblanks []
    have hmap := HttpMessage.foldl_addHeaderText h.orderly hblanks
      (m := r.lineOnly.toHttpMessage) rfl
    simp only [HttpRequestParser.grammar] at hadv ⊢
    rw [foldl_addHeaderText, hmap] at hadv
    exact hadv
  body := contentLength_readBack h

end HttpRequest

namespace HttpResponse

variable {r : HttpResponse}

/-- `close_` is not on the wire. -/
def packet (r : HttpResponse) : HttpParser.Packet HttpResponse where
  head := r.statusLine ++ 13 :: 10 ::
    (HttpMessage.headerLines (ascii ": ") r.headerMap ++ [13, 10])
  body := r.body
  headed := { r.setCloseState false with body := [] }
  message := r.setCloseState false

theorem bytes_packet (r : HttpResponse) : r.packet.bytes = r.serialized := by
  simp [HttpParser.Packet.bytes, packet, serialized]

theorem sound_packet (h : r.Printable) : r.packet.Sound HttpResponseParser.grammar where
  advances := by
    have hblanks : ∀ b ∈ [(32 : Byte)], b = 32 := by simp
    have hadv := HttpParser.advances_printed (g := HttpResponseParser.grammar)
      (not_mem_statusLine h) (parseResponseLine_statusLine h) h.orderly hblanks []
    have hmap := HttpMessage.foldl_addHeaderText h.orderly hblanks
      (m := r.lineOnly.toHttpMessage) rfl
    simp only [HttpResponseParser.grammar] at hadv ⊢
    rw [foldl_addHeaderText, hmap] at hadv
    exact hadv
  body := contentLength_setCloseState h

end HttpResponse

end Voyager
