import HttpBalancer.Net.Incremental

/-! What a parser answers and what it says of itself afterwards. A parser that has failed falls through
every test and answers the next read as if it were done. -/

namespace HttpBalancer.Net

inductive ParserCall
  | consume (data : Bytes)
  | reset
  deriving DecidableEq

namespace Parser

variable {μ : Type}

structure Agrees (r : Parser μ × ParseStatus) : Prop where
  error : r.2 = .error ↔ r.1.failed = true
  complete : r.2 = .complete ↔ r.1.done = true
  needMoreData : r.2 = .needMoreData ↔ r.1.failed = false ∧ r.1.done = false

lemma standing_agrees (p : Parser μ) : Agrees (p, p.standing) := by
  refine ⟨?_, ?_, ?_⟩ <;> cases hs : p.state <;> simp [standing, failed, done, hs]

variable [Message μ]

def reads (p : Parser μ) : List ParserCall → List (Parser μ × Bytes)
  | [] => []
  | .consume data :: calls => (p, data) :: reads (p.consume data).1 calls
  | .reset :: calls => reads p.reset calls

lemma consume_agrees_iff (p : Parser μ) (data : Bytes) :
    Agrees (p.consume data) ↔ p.failed = false := by
  constructor
  · intro h
    by_contra hf
    have he : (p.append data).state = .error := by simpa [failed] using hf
    have hs : (p.append data).Settled := Or.inr he
    have hc : p.consume data = (p.append data, .complete) := hs.process
    rw [hc] at h
    have hd := h.complete.mp rfl
    rw [done, he] at hd
    exact Bool.noConfusion hd
  · intro hf
    have he : p.state ≠ .error := by simpa [failed] using hf
    have hh := standing_agrees (p.consume data).1
    rwa [← consume_standing he data] at hh

end Parser

theorem status_agrees_iff (calls : List ParserCall) :
    ((∀ r ∈ (Parser.fresh : HttpParser).reads calls, Parser.Agrees (r.1.consume r.2)) ↔
      ∀ r ∈ (Parser.fresh : HttpParser).reads calls, r.1.failed = false) ∧
    ((∀ r ∈ (Parser.fresh : HttpResponseParser).reads calls, Parser.Agrees (r.1.consume r.2)) ↔
      ∀ r ∈ (Parser.fresh : HttpResponseParser).reads calls, r.1.failed = false) := by
  constructor
  · apply forall₂_congr
    intro r _
    exact Parser.consume_agrees_iff r.1 r.2
  · apply forall₂_congr
    intro r _
    exact Parser.consume_agrees_iff r.1 r.2

theorem failed_parser_completes :
    let p := ((Parser.fresh : HttpParser).consume (lit "GET /\r\n")).1
    let q := ((Parser.fresh : HttpResponseParser).consume (lit "HTTP/1.1\r\n")).1
    (p.failed = true ∧ (p.consume []).2 = .complete ∧ (p.consume []).1.failed = true) ∧
      (q.failed = true ∧ (q.consume []).2 = .complete ∧ (q.consume []).1.failed = true) := by
  decide +kernel

end HttpBalancer.Net
