import HttpBalancer.Balancer.KeepAlive
import HttpBalancer.Net.ContentLength

/-! The body of a relayed response. The parser decides from the headers alone when a response is
complete, so a body that only the end of the stream delimits is cut to nothing. -/

namespace HttpBalancer.Balancer

open Net Lib

/-- An upstream's whole stream: a first line, header lines, an empty line and the body, which the
`Content-Length` values measure where there are any. A longer body is beyond any `std::string`. -/
structure IsResponse (s : Bytes) (hs : HeaderList) (body : Bytes) : Prop where
  stream : ∃ l₀ lines, s = l₀ ++ crlf ++ (unlines lines ++ crlf ++ body) ∧ ¬ crlf <:+: l₀ ∧
    IsHeaderLines lines hs
  transferEncoding : findHeader hs (lit "Transfer-Encoding") = none
  contentLength : ∀ v ∈ contentLengths hs, IsLength v body.length
  body_le : body.length ≤ longMax

lemma IsResponse.measured {s body : Bytes} {hs : HeaderList} (h : IsResponse s hs body)
    (hb : contentLengths hs ≠ [] ∨ body = []) : contentLengthFrom hs = body.length := by
  by_cases hl : contentLengths hs = []
  · have hu : Unmeasured hs := by
      intro v hv
      simp [hl] at hv
    rw [contentLengthFrom_unmeasured hu, hb.resolve_left (not_not.mpr hl), List.length_nil]
  · exact contentLengthFrom_isLength h.body_le hl h.contentLength

lemma IsResponse.reply {s body : Bytes} {hs : HeaderList} (h : IsResponse s hs body)
    (hb : contentLengths hs ≠ [] ∨ body = [])
    (hc : ((Parser.fresh : HttpResponseParser).consume s).1.state = .complete) :
    ((Parser.fresh : HttpResponseParser).consume s).1.msg.body = body := by
  obtain ⟨l₀, lines, rfl, hl₀, hlines⟩ := h.stream
  rcases hp : parseStatusLine l₀ ({} : HttpResponse) with ⟨_ | _, m⟩
  · have hbad := Parser.consume_reject (μ := HttpResponse) hl₀ (congrArg Prod.fst hp)
      (unlines lines ++ crlf ++ body)
    rw [hbad.1] at hc
    exact State.noConfusion hc
  · have hf : Framed (l₀ ++ crlf ++ (unlines lines ++ crlf ++ (body ++ []))) m hs body [] :=
      ⟨l₀, lines, rfl, hl₀, hp, hlines, (h.measured hb).symm⟩
    rw [List.append_nil] at hf
    rw [Parser.framed_complete hf]
    rfl

lemma delivered_chunks {chunks : List Bytes} (h : ∀ c ∈ chunks, c ≠ []) :
    delivered (chunks.map .received ++ [.received []]) = chunks := by
  induction chunks with
  | nil => rfl
  | cons c chunks ih =>
    obtain ⟨b, bs, rfl⟩ := List.exists_cons_of_ne_nil (h c (by simp))
    simp only [List.map_cons, List.cons_append, delivered]
    rw [ih fun c hc => h c (by simp [hc])]

theorem relayed_body_entire (io : UpstreamCalls) (req : HttpRequest) (chunks : List Bytes)
    (hs : HeaderList) (body : Bytes) (h : IsResponse chunks.flatten hs body)
    (hb : contentLengths hs ≠ [] ∨ body = []) (hne : ∀ c ∈ chunks, c ≠ [])
    (hr : io.recvs (upstreamRequest req) = chunks.map .received ++ [.received []]) :
    ((proxyRequest io req).2 = true ∧
      ∃ resp, (proxyRequest io req).1 = relayed resp req ∧ resp.body = body) ∨
    ((proxyRequest io req).2 = false ∧ ∃ json keepAlive, (proxyRequest io req).1 =
      ⟨{ badGateway json with keepAlive := keepAlive }.serialize, keepAlive⟩) := by
  simp only [proxyRequest]
  cases io.pick with
  | none => exact Or.inr ⟨rfl, _, _, rfl⟩
  | some u =>
    cases io.socket with
    | false => exact Or.inr ⟨rfl, _, _, rfl⟩
    | true =>
      cases he : exchange io req with
      | none => exact Or.inr ⟨rfl, _, _, rfl⟩
      | some resp =>
        obtain ⟨-, hc, rfl⟩ := (exchange_eq_some_iff io req resp).mp he
        have hreply : upstreamReply io req =
            ((Parser.fresh : HttpResponseParser).consume chunks.flatten).1 := by
          rw [upstreamReply, hr, delivered_chunks hne, Parser.fresh_feed]
        refine Or.inl ⟨rfl, _, rfl, ?_⟩
        rw [hreply] at hc ⊢
        exact h.reply hb hc

theorem relayed_body_entire_chunked :
    let req := parsed (lit "GET / HTTP/1.1\r\n\r\n")
    let chunks := [lit "HTTP/1.1 200 OK\r\nContent-Len", lit "gth: 5\r\n\r\nhel", lit "lo"]
    let io : UpstreamCalls := ⟨some ⟨lit "127.0.0.1", 9001⟩, true, true, [.sent 1000],
      fun _ => chunks.map .received ++ [.received []]⟩
    (proxyRequest io req).2 = true ∧
      ∃ resp, (proxyRequest io req).1 = relayed resp req ∧ resp.body = lit "hello" := by
  intro req chunks io
  have hresp : IsResponse chunks.flatten [(lit "Content-Length", lit "5")] (lit "hello") := by
    refine ⟨⟨lit "HTTP/1.1 200 OK", [lit "Content-Length: 5"], by decide, ?_, ?_⟩, by decide, ?_, by decide⟩
    · exact crlf_not_infix (by decide)
    · refine isHeaderLines_cons.mpr ⟨⟨by decide, crlf_not_infix (by decide), ?_⟩, isHeaderLines_nil⟩
      exact ⟨lit "Content-Length", lit " 5", by decide, by decide, by decide, by decide⟩
    · rw [show contentLengths [(lit "Content-Length", lit "5")] = [lit "5"] by decide]
      simp only [List.mem_singleton, forall_eq]
      exact ⟨by decide, List.all_eq_true.mp (by decide), by decide⟩
  have ht : (proxyRequest io req).2 = true := by decide +kernel
  rcases relayed_body_entire io req chunks _ _ hresp (Or.inl (by decide)) (by decide) rfl with hh | hh
  · exact hh
  · simp [ht] at hh

theorem body_without_length_dropped :
    let req := parsed (lit "GET / HTTP/1.1\r\n\r\n")
    let chunks := [lit "HTTP/1.1 200 OK\r\n\r\nhello"]
    let io : UpstreamCalls := ⟨some ⟨lit "127.0.0.1", 9001⟩, true, true, [.sent 1000],
      fun _ => chunks.map .received ++ [.received []]⟩
    let p := ((Parser.fresh : HttpResponseParser).consume (proxyRequest io req).1.data).1
    IsResponse chunks.flatten [] (lit "hello") ∧ (proxyRequest io req).2 = true ∧
      (proxyRequest io req).1 = relayed { status := 200, reason := lit "OK", body := [] } req ∧
      p.state = .complete ∧ p.msg.status = 200 ∧ p.msg.body = [] := by
  refine ⟨⟨⟨lit "HTTP/1.1 200 OK", [], by decide, ?_, isHeaderLines_nil⟩, rfl, ?_, by decide⟩, ?_⟩
  · exact crlf_not_infix (by decide)
  · simp [contentLengths]
  · refine ⟨?_, ?_, ?_, ?_, ?_⟩ <;> decide +kernel

end HttpBalancer.Balancer
