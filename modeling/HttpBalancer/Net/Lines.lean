import HttpBalancer.Net.HttpParser

/-! Cutting CRLF-terminated lines off a buffer, and one turn of the header loop for each kind of
line. -/

namespace HttpBalancer.Net

open Lib.Search

lemma extractLine_line {line : Bytes} (h : ¬ crlf <:+: line) (rest : Bytes) :
    extractLine (line ++ crlf ++ rest) 0 = some (line, line.length + 2) := by
  simp only [extractLine, findFrom_zero, find_append_pat crlf_unbordered line rest h, List.drop_zero,
    Nat.sub_zero]
  simp

lemma drop_line (line rest : Bytes) : (line ++ crlf ++ rest).drop (line.length + 2) = rest := by
  have hl : line.length + 2 = (line ++ crlf).length := by simp
  rw [hl, List.drop_left]

lemma extractLine_eq_none {buffer : Bytes} : extractLine buffer 0 = none ↔ ¬ crlf <:+: buffer := by
  rw [← find_eq_none_iff crlf_unbordered.ne_nil, extractLine, findFrom_zero]
  cases find crlf buffer <;> simp

lemma extractLine_append {buffer line : Bytes} {pos : ℕ}
    (h : extractLine buffer 0 = some (line, pos)) (data : Bytes) :
    extractLine (buffer ++ data) 0 = some (line, pos) ∧
      (buffer ++ data).drop pos = buffer.drop pos ++ data := by
  obtain ⟨rest, rfl, rfl, hl⟩ := extractLine_cut h
  rw [drop_line, List.append_assoc, drop_line]
  exact ⟨extractLine_line hl _, rfl⟩

namespace Parser

variable {μ : Type}

@[simp] lemma append_state (p : Parser μ) (d : Bytes) : (p.append d).state = p.state := rfl

lemma append_append (p : Parser μ) (a b : Bytes) : (p.append a).append b = p.append (a ++ b) := by
  simp [append, List.append_assoc]

variable [Message μ] {p : Parser μ} {line : Bytes} {pos : ℕ}

lemma processHeaders_wait (h : extractLine p.buffer 0 = none) :
    p.processHeaders = (p, .needMoreData) := by
  rw [processHeaders]
  split
  · rfl
  · simp_all

lemma processHeaders_blank (h : extractLine p.buffer 0 = some ([], pos)) :
    p.processHeaders =
      processBody { finalizeHeaders { p with buffer := p.buffer.drop pos } with state := .body } := by
  rw [processHeaders]
  split
  · simp_all
  · next hh => simp_all

lemma processHeaders_bad (h : extractLine p.buffer 0 = some (line, pos)) (hn : line ≠ [])
    (hb : parseGenericHeaderLine line (Message.headers p.msg) = none) :
    p.processHeaders = ({ p with state := .error }, .error) := by
  rw [processHeaders]
  split
  · simp_all
  · next hh =>
    obtain ⟨rfl, rfl⟩ : _ ∧ _ := by simpa [h] using hh
    rw [if_neg hn, hb]

lemma processHeaders_good {hs : HeaderList} (h : extractLine p.buffer 0 = some (line, pos))
    (hn : line ≠ []) (hg : parseGenericHeaderLine line (Message.headers p.msg) = some hs) :
    p.processHeaders =
      processHeaders { p with buffer := p.buffer.drop pos, msg := Message.setHeaders hs p.msg } := by
  rw [processHeaders]
  split
  · simp_all
  · next hh =>
    obtain ⟨rfl, rfl⟩ : _ ∧ _ := by simpa [h] using hh
    rw [if_neg hn, hg]

lemma process_wait (hs : p.state = .startLine) (h : extractLine p.buffer 0 = none) :
    p.process = (p, .needMoreData) := by
  simp [process, hs, h]

lemma process_bad {m : μ} (hs : p.state = .startLine) (h : extractLine p.buffer 0 = some (line, pos))
    (hl : Message.parseStartLine line p.msg = (false, m)) :
    p.process = ({ p with state := .error, msg := m }, .error) := by
  simp [process, hs, h, hl]

lemma process_good {m : μ} (hs : p.state = .startLine) (h : extractLine p.buffer 0 = some (line, pos))
    (hl : Message.parseStartLine line p.msg = (true, m)) :
    p.process =
      processHeaders { p with buffer := p.buffer.drop pos, msg := m, state := .headers } := by
  simp [process, hs, h, hl]

lemma process_headers (hs : p.state = .headers) : p.process = p.processHeaders := by
  simp [process, hs]

lemma process_body (hs : p.state = .body) : p.process = p.processBody := by
  simp [process, hs]

lemma headers_induction {motive : Parser μ → Prop}
    (wait : ∀ p : Parser μ, extractLine p.buffer 0 = none → motive p)
    (blank : ∀ (p : Parser μ) pos, extractLine p.buffer 0 = some ([], pos) → motive p)
    (bad : ∀ (p : Parser μ) line pos, extractLine p.buffer 0 = some (line, pos) → line ≠ [] →
      parseGenericHeaderLine line (Message.headers p.msg) = none → motive p)
    (good : ∀ (p : Parser μ) line pos hs, extractLine p.buffer 0 = some (line, pos) → line ≠ [] →
      parseGenericHeaderLine line (Message.headers p.msg) = some hs →
      motive { p with buffer := p.buffer.drop pos, msg := Message.setHeaders hs p.msg } → motive p)
    (p : Parser μ) : motive p := by
  induction hn : p.buffer.length using Nat.strong_induction_on generalizing p with
  | h n ih =>
    subst hn
    cases he : extractLine p.buffer 0 with
    | none => exact wait p he
    | some lp =>
      obtain ⟨line, pos⟩ := lp
      by_cases hl : line = []
      · subst hl
        exact blank p pos he
      · cases hg : parseGenericHeaderLine line (Message.headers p.msg) with
        | none => exact bad p line pos he hl hg
        | some hs => exact good p line pos hs he hl hg (ih _ (extractLine_shrinks he) _ rfl)

end Parser

end HttpBalancer.Net
