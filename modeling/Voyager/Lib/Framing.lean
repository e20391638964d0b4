import Mathlib.Data.List.Basic

/-!
Streams of self-delimiting frames, received piece by piece. `Received` says
how the bytes seen so far fall apart into whole frames and the beginning of
the next one; it is kept when a receiver takes all the frames it can out of
its pending bytes and the next piece.
-/
namespace Voyager.Lib.Framing

variable {μ β : Type*} (encode : μ → List β)

/-- The concatenation of the frames of all messages. -/
def stream (ms : List μ) : List β := ms.flatMap encode

@[simp] theorem stream_nil : stream encode [] = [] := rfl

@[simp] theorem stream_cons (m : μ) (ms : List μ) :
    stream encode (m :: ms) = encode m ++ stream encode ms := rfl

theorem stream_append (ms ns : List μ) :
    stream encode (ms ++ ns) = stream encode ms ++ stream encode ns := List.flatMap_append

/-- After `seen`, a prefix of the stream of `ms`, exactly `done` have arrived
completely; `rest` is the incomplete beginning of the next frame. -/
structure Received (ms : List μ) (seen : List β) (done : List μ) (rest : List β) : Prop where
  done_prefix : done <+: ms
  seen_eq : seen = stream encode done ++ rest
  incomplete : ∀ m, ms[done.length]? = some m → rest.length < (encode m).length

variable {encode}

/-- A prefix of a stream ends inside its first frame or contains that frame. -/
theorem prefix_stream_cons {m : μ} {ms : List μ} {p : List β}
    (hp : p <+: stream encode (m :: ms)) :
    (p <+: encode m ∧ p.length < (encode m).length) ∨
      ∃ q, p = encode m ++ q ∧ q <+: stream encode ms := by
  obtain ⟨t, ht⟩ := hp
  by_cases hlen : p.length < (encode m).length
  · left
    refine ⟨?_, hlen⟩
    exact List.prefix_of_prefix_length_le ⟨t, ht⟩ ⟨stream encode ms, rfl⟩ (Nat.le_of_lt hlen)
  · right
    have hframe : encode m <+: p :=
      List.prefix_of_prefix_length_le ⟨stream encode ms, rfl⟩ ⟨t, ht⟩ (Nat.le_of_not_lt hlen)
    obtain ⟨q, rfl⟩ := hframe
    refine ⟨q, rfl, t, ?_⟩
    rw [stream_cons, List.append_assoc] at ht
    exact List.append_cancel_left ht

/-- What arrives behind the first `k` frames and a part of the next one. -/
theorem exists_next {ms : List μ} {k : ℕ} {here data : List β}
    (h : stream encode (ms.take k) ++ here ++ data <+: stream encode ms) (hdata : data ≠ []) :
    ∃ m, ms[k]? = some m ∧ here ++ data <+: encode m ++ stream encode (ms.drop (k + 1)) := by
  have hall : stream encode ms = stream encode (ms.take k) ++ stream encode (ms.drop k) := by
    rw [← stream_append, List.take_append_drop]
  rw [hall, List.append_assoc, List.prefix_append_right_inj] at h
  by_cases hk : k < ms.length
  · refine ⟨ms[k], List.getElem?_eq_getElem hk, ?_⟩
    rwa [List.drop_eq_getElem_cons hk, stream_cons] at h
  · rw [List.drop_eq_nil_of_le (by omega), stream_nil, List.prefix_nil] at h
    exact absurd (List.append_eq_nil_iff.mp h).2 hdata

/-- One more frame has been taken. -/
theorem stream_take_succ {ms : List μ} {k : ℕ} {m : μ} (h : ms[k]? = some m) :
    stream encode (ms.take (k + 1)) = stream encode (ms.take k) ++ encode m := by
  rw [List.take_add_one, h, stream_append]
  simp

namespace Received

theorem start (ms : List μ) (hpos : ∀ m ∈ ms, 0 < (encode m).length) :
    Received encode ms [] [] [] where
  done_prefix := List.nil_prefix
  seen_eq := rfl
  incomplete m hm := hpos m (List.mem_of_getElem? hm)

/-- The first frame is complete: it is taken out before the others. -/
theorem cons {m : μ} {ms done : List μ} {seen rest : List β}
    (h : Received encode ms seen done rest) :
    Received encode (m :: ms) (encode m ++ seen) (m :: done) rest where
  done_prefix := List.cons_prefix_cons.mpr ⟨rfl, h.done_prefix⟩
  seen_eq := by rw [h.seen_eq, stream_cons, List.append_assoc]
  incomplete := h.incomplete

/-- Nothing can be taken out of bytes that end inside the first frame. -/
theorem wait {m : μ} {ms : List μ} {seen : List β} (hlen : seen.length < (encode m).length) :
    Received encode (m :: ms) seen [] seen where
  done_prefix := List.nil_prefix
  seen_eq := rfl
  incomplete m' hm' := by
    simp only [List.length_nil, List.getElem?_cons_zero, Option.some.injEq] at hm'
    rwa [← hm']

/-- The pending bytes and the next piece begin the stream of what is left. -/
theorem rest_append_prefix {done todo : List μ} {seen piece rest : List β}
    (h : Received encode (done ++ todo) seen done rest)
    (hseen : seen ++ piece <+: stream encode (done ++ todo)) :
    rest ++ piece <+: stream encode todo := by
  rw [h.seen_eq, stream_append, List.append_assoc] at hseen
  exact (List.prefix_append_right_inj _).mp hseen

/-- Taking all frames out of the pending bytes and the next piece continues
what was received before. -/
theorem trans {done todo more : List μ} {seen piece rest rest' : List β}
    (h : Received encode (done ++ todo) seen done rest)
    (hnext : Received encode todo (rest ++ piece) more rest') :
    Received encode (done ++ todo) (seen ++ piece) (done ++ more) rest' where
  done_prefix := (List.prefix_append_right_inj done).mpr hnext.done_prefix
  seen_eq := by
    rw [h.seen_eq, stream_append, List.append_assoc, hnext.seen_eq, List.append_assoc]
  incomplete m hm := by
    apply hnext.incomplete m
    rwa [List.length_append, List.getElem?_append_right (Nat.le_add_right _ _),
      Nat.add_sub_cancel_left] at hm

/-- Another frame is going to follow the stream. -/
theorem extend {ms done : List μ} {seen rest : List β} {m : μ}
    (h : Received encode ms seen done rest) (hseen : seen <+: stream encode ms)
    (hpos : 0 < (encode m).length) : Received encode (ms ++ [m]) seen done rest where
  done_prefix := h.done_prefix.trans (List.prefix_append ms [m])
  seen_eq := h.seen_eq
  incomplete m' hm' := by
    by_cases hlt : done.length < ms.length
    · rw [List.getElem?_append_left hlt] at hm'
      exact h.incomplete m' hm'
    · have hall : done = ms := h.done_prefix.eq_of_length_le (by omega)
      have hle := hseen.length_le
      rw [h.seen_eq, hall, List.length_append] at hle
      rw [hall, List.getElem?_concat_length, Option.some.injEq] at hm'
      rw [← hm']
      omega

/-- What has arrived completely stays so when more is seen. -/
theorem done_mono {ms done done' : List μ} {seen piece rest rest' : List β}
    (h : Received encode ms seen done rest)
    (hmore : Received encode ms (seen ++ piece) done' rest') : done <+: done' := by
  rcases List.prefix_or_prefix_of_prefix h.done_prefix hmore.done_prefix with hle | ⟨tail, htail⟩
  · exact hle
  cases tail with
  | nil =>
    rw [List.append_nil] at htail
    exact htail ▸ List.prefix_rfl
  | cons m tail =>
    -- `m` had arrived, so it cannot be incomplete now
    have hnext : ms[done'.length]? = some m := by
      obtain ⟨todo, rfl⟩ := h.done_prefix
      rw [← htail, List.append_assoc, List.getElem?_append_right (Nat.le_refl _), Nat.sub_self]
      rfl
    have hlt := hmore.incomplete m hnext
    have hseen := congrArg List.length hmore.seen_eq
    rw [h.seen_eq, ← htail, stream_append, stream_cons] at hseen
    simp only [List.length_append] at hseen
    omega

/-- Once the whole stream has been seen, all messages have arrived. -/
theorem complete {ms done : List μ} {rest : List β}
    (h : Received encode ms (stream encode ms) done rest) : done = ms ∧ rest = [] := by
  obtain ⟨todo, rfl⟩ := h.done_prefix
  have hrest : rest = stream encode todo := by
    have hseen := h.seen_eq
    rw [stream_append] at hseen
    exact (List.append_cancel_left hseen).symm
  cases todo with
  | nil => exact ⟨(List.append_nil _).symm, hrest⟩
  | cons m todo =>
    have hlt := h.incomplete m (by simp)
    rw [hrest, stream_cons, List.length_append] at hlt
    omega

end Received

end Voyager.Lib.Framing
