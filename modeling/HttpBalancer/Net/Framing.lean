import HttpBalancer.Net.HeaderSection
import HttpBalancer.Net.Incremental

/-! How a byte string is framed as one message, for both parsers: a first line, a header section
and a body of the announced length, with the rest of the string left over. -/

namespace HttpBalancer.Net

variable {μ : Type} [Message μ]

def finished (m : μ) (hs : HeaderList) (body : Bytes) : μ :=
  let m := Message.setHeaders hs m
  Message.setBody body (Message.setKeepAlive (connectionKeepAlive hs (Message.version m)) m)

def Framed (s : Bytes) (m : μ) (hs : HeaderList) (body rest : Bytes) : Prop :=
  ∃ l₀ lines, s = l₀ ++ crlf ++ (unlines lines ++ crlf ++ (body ++ rest)) ∧ ¬ crlf <:+: l₀ ∧
    Message.parseStartLine l₀ (Message.fresh : μ) = (true, m) ∧ IsHeaderLines lines hs ∧
    body.length = contentLengthFrom hs

def Malformed (μ : Type) [Message μ] (s : Bytes) : Prop :=
  ∃ l₀ r, s = l₀ ++ crlf ++ r ∧ ¬ crlf <:+: l₀ ∧
    ((Message.parseStartLine l₀ (Message.fresh : μ)).1 = false ∨
      (Message.parseStartLine l₀ (Message.fresh : μ)).1 = true ∧ ∃ lines line rest,
        (∀ l ∈ lines, l ≠ [] ∧ ¬ crlf <:+: l) ∧ line ≠ [] ∧ ¬ crlf <:+: line ∧
        (¬ ∃ h, IsHeaderLine line h) ∧ r = unlines lines ++ (line ++ crlf ++ rest))

namespace Parser

lemma fresh_buffer_line {l₀ : Bytes} (h : ¬ crlf <:+: l₀) (rest : Bytes) :
    extractLine ((fresh : Parser μ).append (l₀ ++ crlf ++ rest)).buffer 0 = some (l₀, l₀.length + 2) :=
  extractLine_line h rest

def afterLine (m : μ) (rest : Bytes) : Parser μ := { state := .headers, buffer := rest, msg := m }

lemma consume_accept {l₀ : Bytes} {m : μ} (hc : ¬ crlf <:+: l₀)
    (h : Message.parseStartLine l₀ Message.fresh = (true, m)) (rest : Bytes) :
    fresh.consume (l₀ ++ crlf ++ rest) = (afterLine m rest).processHeaders := by
  have hd : ((fresh : Parser μ).append (l₀ ++ crlf ++ rest)).buffer.drop (l₀.length + 2) = rest :=
    drop_line l₀ rest
  rw [consume, process_good rfl (fresh_buffer_line hc rest) h, hd]
  rfl

lemma consume_reject {l₀ : Bytes} (hc : ¬ crlf <:+: l₀)
    (h : (Message.parseStartLine l₀ (Message.fresh : μ)).1 = false) (rest : Bytes) :
    ((fresh : Parser μ).consume (l₀ ++ crlf ++ rest)).1.state = .error ∧
      ((fresh : Parser μ).consume (l₀ ++ crlf ++ rest)).2 = .error := by
  have hp : Message.parseStartLine l₀ (Message.fresh : μ) =
      (false, (Message.parseStartLine l₀ (Message.fresh : μ)).2) := by rw [← h]
  rw [consume, process_bad rfl (fresh_buffer_line hc rest) hp]
  exact ⟨rfl, rfl⟩

lemma consume_unterminated {s : Bytes} (h : ¬ crlf <:+: s) :
    (fresh : Parser μ).consume s = (append fresh s, .needMoreData) :=
  process_wait rfl (extractLine_eq_none.mpr h)

lemma consume_closed {l₀ : Bytes} {m : μ} {lines : List Bytes} {hs : HeaderList} (hc : ¬ crlf <:+: l₀)
    (h : Message.parseStartLine l₀ Message.fresh = (true, m)) (hl : IsHeaderLines lines hs)
    (rest : Bytes) :
    fresh.consume (l₀ ++ crlf ++ (unlines lines ++ crlf ++ rest)) =
      processBody { finalizeHeaders (afterLine (Message.setHeaders hs m) rest) with state := .body } := by
  have hm : Message.headers m = [] := by
    have hh := Message.headers_startLine l₀ (Message.fresh : μ)
    rwa [h, Message.headers_fresh] at hh
  rw [consume_accept hc h, processHeaders_closed hl rest rfl]
  simp [addHeaders, afterLine, hm]

lemma framed_complete {s body rest : Bytes} {m : μ} {hs : HeaderList} (h : Framed s m hs body rest) :
    fresh.consume s =
      ({ state := .complete, buffer := rest, bodyBytesNeeded := contentLengthFrom hs,
         msg := finished m hs body }, .complete) := by
  obtain ⟨l₀, lines, rfl, hc, hp, hl, hb⟩ := h
  have hn : ¬ (body ++ rest).length < body.length := by simp
  rw [consume_closed hc hp hl]
  simp only [processBody, finalizeHeaders, afterLine, Message.headers_setHeaders, hn, if_false,
    finished, ← hb, List.take_left, List.drop_left]

lemma malformed_error {s : Bytes} (h : Malformed μ s) :
    ((fresh : Parser μ).consume s).1.state = .error ∧ ((fresh : Parser μ).consume s).2 = .error := by
  obtain ⟨l₀, r, rfl, hc, hp | ⟨hp, lines, line, rest, hl, hn, hlc, hh, rfl⟩⟩ := h
  · exact consume_reject hc hp r
  · have hp' : Message.parseStartLine l₀ (Message.fresh : μ) =
        (true, (Message.parseStartLine l₀ (Message.fresh : μ)).2) := by rw [← hp]
    rw [consume_accept hc hp']
    exact processHeaders_broken hl hn hlc hh rfl

lemma trichotomy (μ : Type) [Message μ] (s : Bytes) :
    (∃ (m : μ) (hs : HeaderList) (body rest : Bytes), Framed s m hs body rest) ∨ Malformed μ s ∨
      ((fresh : Parser μ).consume s).2 = .needMoreData ∧ ¬ ((fresh : Parser μ).consume s).1.Settled := by
  cases he : extractLine s 0 with
  | none =>
    rw [consume_unterminated (extractLine_eq_none.mp he)]
    exact Or.inr (Or.inr ⟨rfl, by simp [Settled, fresh]⟩)
  | some lp =>
    obtain ⟨l₀, pos⟩ := lp
    obtain ⟨r, rfl, -, hc⟩ := extractLine_cut he
    rcases hp : Message.parseStartLine l₀ (Message.fresh : μ) with ⟨_ | _, m⟩
    · exact Or.inr (Or.inl ⟨l₀, r, rfl, hc, Or.inl (by rw [hp])⟩)
    · cases section_of_buffer r with
      | closed lines hs rest hl hb =>
        subst hb
        by_cases hn : rest.length < contentLengthFrom hs
        · refine Or.inr (Or.inr ?_)
          rw [consume_closed hc hp hl]
          simp [processBody, finalizeHeaders, afterLine, Message.headers_setHeaders, hn, Settled]
        · refine Or.inl ⟨m, hs, rest.take (contentLengthFrom hs), rest.drop (contentLengthFrom hs),
            l₀, lines, by simp, hc, hp, hl, ?_⟩
          simp only [List.length_take]
          omega
      | broken lines hs line rest hl hn hlc hb he =>
        exact Or.inr (Or.inl ⟨l₀, r, rfl, hc, Or.inr ⟨by rw [hp], lines, line, rest, hl.1, hn, hlc, hb, he⟩⟩)
      | opened lines hs rest hl hlast hb =>
        rw [consume_accept hc hp, processHeaders_opened hl hlast hb]
        exact Or.inr (Or.inr ⟨rfl, by simp [Settled, addHeaders, afterLine]⟩)

lemma framed_of_complete {s : Bytes} (h : ((fresh : Parser μ).consume s).1.state = .complete) :
    ∃ (m : μ) (hs : HeaderList) (body rest : Bytes), Framed s m hs body rest := by
  rcases trichotomy μ s with hf | hm | ⟨_, hn⟩
  · exact hf
  · simp [(malformed_error hm).1] at h
  · exact absurd (Or.inl h) hn

end Parser

end HttpBalancer.Net
