import HttpBalancer.Net.Framing

/-! The language `HttpParser` recognises, stated without reference to the parser. -/

namespace HttpBalancer.Net

open Lib.Search

def IsRequestLine (line m t v : Bytes) : Prop :=
  line = m ++ 32 :: (t ++ 32 :: v) ∧ m ≠ [] ∧ t ≠ [] ∧ 32 ∉ m ∧ 32 ∉ t ∧
    (v = lit "HTTP/1.1" ∨ v = lit "HTTP/1.0")

/-- `s` is a request line, header lines, an empty line, a body of the announced length and `rest`.
No line holds a CRLF, so each of them ends at the first one after its start. -/
def Recognised (s m t v : Bytes) (hs : HeaderList) (body rest : Bytes) : Prop :=
  ∃ l₀ lines, s = l₀ ++ crlf ++ (unlines lines ++ crlf ++ (body ++ rest)) ∧ ¬ crlf <:+: l₀ ∧
    IsRequestLine l₀ m t v ∧ IsHeaderLines lines hs ∧ body.length = contentLengthFrom hs

/-- Among the CRLF-terminated lines of `s` the first is no request line, or it is one and some line
before the first empty one is no header line. -/
def Rejected (s : Bytes) : Prop :=
  ∃ l₀ lines rest, s = unlines (l₀ :: lines) ++ rest ∧ (∀ l ∈ l₀ :: lines, ¬ crlf <:+: l) ∧
    ¬ crlf <:+: rest ∧
    ((¬ ∃ m t v, IsRequestLine l₀ m t v) ∨
      (∃ m t v, IsRequestLine l₀ m t v) ∧ ∃ before line after, lines = before ++ line :: after ∧
        (∀ l ∈ before, l ≠ []) ∧ line ≠ [] ∧ ¬ ∃ h, IsHeaderLine line h)

lemma parseRequestLine_tokens {m t : Bytes} (hm : 32 ∉ m) (ht : 32 ∉ t) (v : Bytes) (req : HttpRequest) :
    parseRequestLine (m ++ 32 :: (t ++ 32 :: v)) req =
      (decide (m ≠ [] ∧ t ≠ [] ∧ (v = lit "HTTP/1.1" ∨ v = lit "HTTP/1.0")),
        { req with method := m, target := t, version := v }) := by
  have hd : (m ++ 32 :: (t ++ 32 :: v)).drop (m.length + 1) = t ++ 32 :: v := by simp
  have hf : findFrom [32] (m ++ 32 :: (t ++ 32 :: v)) (m.length + 1) =
      some (t.length + (m.length + 1)) := by
    rw [findFrom, hd, find_singleton_append ht]
    rfl
  have hl : t.length + (m.length + 1) - m.length - 1 = t.length := by omega
  have hv : (m ++ 32 :: (t ++ 32 :: v)).drop (t.length + (m.length + 1) + 1) = v := by
    rw [show t.length + (m.length + 1) + 1 = (m.length + 1) + (t.length + 1) by omega,
      ← List.drop_drop, hd]
    simp
  simp only [parseRequestLine, find_singleton_append hm, hf, hd, hl, hv, List.take_left]
  by_cases h₁ : m = [] ∨ t = []
  · rw [if_pos h₁]
    rcases h₁ with h₁ | h₁ <;> simp [h₁]
  · rw [if_neg h₁]
    obtain ⟨hm', ht'⟩ := not_or.mp h₁
    by_cases h₂ : v = lit "HTTP/1.1" ∨ v = lit "HTTP/1.0"
    · rw [if_neg (fun hn => h₂.elim hn.1 hn.2)]
      simp [hm', ht', h₂]
    · rw [if_pos (not_or.mp h₂)]
      simp [h₂]

lemma parseRequestLine_accept {line m t v : Bytes} (h : IsRequestLine line m t v) (req : HttpRequest) :
    parseRequestLine line req = (true, { req with method := m, target := t, version := v }) := by
  obtain ⟨rfl, hm, ht, hm', ht', hv⟩ := h
  rw [parseRequestLine_tokens hm' ht']
  simp [hm, ht, hv]

lemma parseRequestLine_reject {line : Bytes} (h : ¬ ∃ m t v, IsRequestLine line m t v)
    (req : HttpRequest) : (parseRequestLine line req).1 = false := by
  cases hf : find [32] line with
  | none => simp [parseRequestLine, hf]
  | some i =>
    obtain ⟨m, r, rfl, rfl, hm⟩ := find_singleton_cut hf
    cases hg : find [32] r with
    | none =>
      have hr : findFrom [32] (m ++ 32 :: r) (m.length + 1) = none := by
        simp [findFrom, hg]
      simp [parseRequestLine, hf, hr]
    | some j =>
      obtain ⟨t, v, rfl, rfl, ht⟩ := find_singleton_cut hg
      rw [parseRequestLine_tokens hm ht, decide_eq_false_iff_not]
      rintro ⟨hm', ht', hv⟩
      exact h ⟨m, t, v, rfl, hm', ht', hm, ht, hv⟩

lemma parseRequestLine_false {line : Bytes} {req : HttpRequest} :
    (parseRequestLine line req).1 = false ↔ ¬ ∃ m t v, IsRequestLine line m t v := by
  refine ⟨?_, fun h => parseRequestLine_reject h req⟩
  rintro hf ⟨m, t, v, h⟩
  simp [parseRequestLine_accept h] at hf

lemma accepted_line {line : Bytes} {req : HttpRequest}
    (h : parseRequestLine line Message.fresh = (true, req)) :
    ∃ m t v, IsRequestLine line m t v ∧ req = { method := m, target := t, version := v } := by
  by_cases hr : ∃ m t v, IsRequestLine line m t v
  · obtain ⟨m, t, v, hr⟩ := hr
    rw [parseRequestLine_accept hr, Prod.mk.injEq] at h
    exact ⟨m, t, v, hr, h.2.symm⟩
  · have hf := parseRequestLine_reject hr (Message.fresh : HttpRequest)
    simp [h] at hf

lemma recognised_iff {s m t v body rest : Bytes} {hs : HeaderList} :
    Recognised s m t v hs body rest ↔
      Framed s ({ method := m, target := t, version := v } : HttpRequest) hs body rest := by
  constructor
  · rintro ⟨l₀, lines, he, hc, hr, hl, hb⟩
    exact ⟨l₀, lines, he, hc, parseRequestLine_accept hr _, hl, hb⟩
  · rintro ⟨l₀, lines, he, hc, hp, hl, hb⟩
    obtain ⟨m', t', v', hr, hm⟩ := accepted_line hp
    simp only [HttpRequest.mk.injEq, and_true] at hm
    obtain ⟨rfl, rfl, rfl⟩ := hm
    exact ⟨l₀, lines, he, hc, hr, hl, hb⟩

lemma framed_recognised {s body rest : Bytes} {req : HttpRequest} {hs : HeaderList}
    (h : Framed s req hs body rest) : ∃ m t v, Recognised s m t v hs body rest := by
  obtain ⟨l₀, lines, hl⟩ := id h
  obtain ⟨m, t, v, -, rfl⟩ := accepted_line hl.2.2.1
  exact ⟨m, t, v, recognised_iff.mpr h⟩

lemma rejected_iff {s : Bytes} : Rejected s ↔ Malformed HttpRequest s := by
  constructor
  · rintro ⟨l₀, lines, rest, rfl, hc, -, hh⟩
    refine ⟨l₀, unlines lines ++ rest, by simp, hc l₀ (by simp), ?_⟩
    rcases hh with hh | ⟨⟨m, t, v, hh⟩, before, line, after, rfl, hb, hn, hl⟩
    · exact Or.inl (parseRequestLine_reject hh _)
    · refine Or.inr ⟨by simp [Message.parseStartLine, parseRequestLine_accept hh], before, line,
        unlines after ++ rest, ?_, hn, hc line (by simp), hl, by simp⟩
      exact fun l hm => ⟨hb l hm, hc l (by simp [hm])⟩
  · rintro ⟨l₀, r, rfl, hc, hp | ⟨hp, lines, line, rest, hl, hn, hlc, hh, rfl⟩⟩
    · obtain ⟨ls, last, rfl, hls, hlast⟩ := lines_of_buffer r
      exact ⟨l₀, ls, last, by simp, by simpa using ⟨hc, hls⟩, hlast, Or.inl (parseRequestLine_false.mp hp)⟩
    · obtain ⟨ls, last, rfl, hls, hlast⟩ := lines_of_buffer rest
      have hr : ∃ m t v, IsRequestLine l₀ m t v := by
        by_contra hn'
        have hf := parseRequestLine_reject hn' (Message.fresh : HttpRequest)
        exact absurd hp (by simp [Message.parseStartLine, hf])
      refine ⟨l₀, lines ++ line :: ls, last, by simp, ?_, hlast,
        Or.inr ⟨hr, lines, line, ls, rfl, fun l h => (hl l h).1, hn, hh⟩⟩
      intro l hm
      simp only [List.mem_cons, List.mem_append] at hm
      rcases hm with rfl | hm | rfl | hm
      · exact hc
      · exact (hl l hm).2
      · exact hlc
      · exact hls l hm

/-- `HttpParser` recognises exactly the grammar, with the pieces as its results; it reports an error
exactly on the rejected inputs and asks for more on all others. -/
theorem request_grammar (s : Bytes) :
    (∀ m t v hs body rest, Recognised s m t v hs body rest ↔
      ((Parser.fresh : HttpParser).consume s).1.state = .complete ∧
      ((Parser.fresh : HttpParser).consume s).1.msg.method = m ∧
      ((Parser.fresh : HttpParser).consume s).1.msg.target = t ∧
      ((Parser.fresh : HttpParser).consume s).1.msg.version = v ∧
      ((Parser.fresh : HttpParser).consume s).1.msg.headers = hs ∧
      ((Parser.fresh : HttpParser).consume s).1.msg.body = body ∧
      ((Parser.fresh : HttpParser).consume s).1.buffer = rest) ∧
    (((Parser.fresh : HttpParser).consume s).1.state = .error ↔ Rejected s) ∧
    (((Parser.fresh : HttpParser).consume s).2 = .complete ↔
      ∃ m t v hs body rest, Recognised s m t v hs body rest) ∧
    (((Parser.fresh : HttpParser).consume s).2 = .error ↔ Rejected s) ∧
    (((Parser.fresh : HttpParser).consume s).2 = .needMoreData ↔
      (¬ ∃ m t v hs body rest, Recognised s m t v hs body rest) ∧ ¬ Rejected s) := by
  have hc : ∀ {m t v hs body rest}, Recognised s m t v hs body rest →
      ((Parser.fresh : HttpParser).consume s) = _ := fun h => Parser.framed_complete (recognised_iff.mp h)
  have he : Rejected s → _ := fun h => Parser.malformed_error (rejected_iff.mp h)
  rcases Parser.trichotomy HttpRequest s with ⟨req, hs, body, rest, hf⟩ | hm | ⟨hw, hs⟩
  · obtain ⟨m, t, v, hr⟩ := framed_recognised hf
    have hn : ¬ Rejected s := fun hh => by simpa [hc hr] using he hh
    refine ⟨?_, by simp [hc hr, hn], ?_, by simp [hc hr, hn], ?_⟩
    · intro m' t' v' hs' body' rest'
      constructor
      · intro hr'
        rw [hc hr']
        exact ⟨rfl, rfl, rfl, rfl, rfl, rfl, rfl⟩
      · rw [hc hr]
        rintro ⟨-, rfl, rfl, rfl, rfl, rfl, rfl⟩
        exact hr
    · exact ⟨fun _ => ⟨m, t, v, hs, body, rest, hr⟩, fun _ => by rw [hc hr]⟩
    · simp only [hc hr, reduceCtorEq, false_iff, not_and]
      exact fun hh => absurd ⟨m, t, v, hs, body, rest, hr⟩ hh
  · have hr := rejected_iff.mpr hm
    obtain ⟨hs, ht⟩ := he hr
    have hn : ∀ m t v hs body rest, ¬ Recognised s m t v hs body rest := by
      intro m t v hs' body rest hh
      simp [hc hh] at ht
    refine ⟨?_, by simp [hs, hr], by simp [ht, hn], by simp [ht, hr], by simp [ht, hr]⟩
    intro m t v hs' body rest
    simp [hn, hs]
  · have hn : ∀ m t v hs body rest, ¬ Recognised s m t v hs body rest := by
      intro m t v hs' body rest hh
      simp [hc hh] at hw
    have hr : ¬ Rejected s := fun hh => hs (Or.inr (he hh).1)
    simp only [Parser.Settled, not_or] at hs
    refine ⟨?_, by simp [hs, hr], by simp [hw, hn], by simp [hw, hr], by simp [hw, hr, hn]⟩
    intro m t v hs' body rest
    simp [hn, hs]

end HttpBalancer.Net
