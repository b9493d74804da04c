import HttpBalancer.Net.Framing

/-! The two parsers side by side. Once their first lines are read they differ in the version that
`finalizeHeaders` looks at and in nothing else. -/

namespace HttpBalancer.Net

structure Lockstep (p : HttpParser) (q : HttpResponseParser) : Prop where
  started : p.state ≠ .startLine
  state : q.state = p.state
  buffer : q.buffer = p.buffer
  bodyBytesNeeded : q.bodyBytesNeeded = p.bodyBytesNeeded
  headers : q.msg.headers = p.msg.headers
  body : q.msg.body = p.msg.body
  keepAlive : p.msg.version = lit "HTTP/1.1" → q.msg.keepAlive = p.msg.keepAlive

variable {p : HttpParser} {q : HttpResponseParser}

lemma Lockstep.append (h : Lockstep p q) (data : Bytes) : Lockstep (p.append data) (q.append data) := by
  obtain ⟨hn, hs, hb, hl, hh, hbody, hk⟩ := h
  exact ⟨hn, hs, congrArg (· ++ data) hb, hl, hh, hbody, hk⟩

lemma Lockstep.finalizeHeaders (h : Lockstep p q) :
    Lockstep { p.finalizeHeaders with state := .body } { q.finalizeHeaders with state := .body } := by
  obtain ⟨-, -, hb, -, hh, hbody, -⟩ := h
  refine ⟨by simp, rfl, hb, congrArg contentLengthFrom hh, hh, hbody, ?_⟩
  intro hv
  change p.msg.version = _ at hv
  change connectionKeepAlive q.msg.headers (lit "HTTP/1.1") =
    connectionKeepAlive p.msg.headers p.msg.version
  rw [hh, hv]

lemma Lockstep.processBody (h : Lockstep p q) :
    p.processBody.2 = q.processBody.2 ∧ Lockstep p.processBody.1 q.processBody.1 := by
  obtain ⟨hn, hst, hb, hl, hh, hbody, hk⟩ := h
  simp only [Parser.processBody, hb, hl]
  split_ifs
  · exact ⟨rfl, hn, hst, hb, hl, hh, hbody, hk⟩
  · exact ⟨rfl, by simp, rfl, rfl, rfl, hh, rfl, hk⟩

lemma Lockstep.processHeaders (h : Lockstep p q) :
    p.processHeaders.2 = q.processHeaders.2 ∧ Lockstep p.processHeaders.1 q.processHeaders.1 := by
  have hb := h.buffer
  have hh : Message.headers q.msg = Message.headers p.msg := h.headers
  induction p using Parser.headers_induction generalizing q with
  | wait p he =>
    rw [Parser.processHeaders_wait he, Parser.processHeaders_wait (hb ▸ he)]
    exact ⟨rfl, h⟩
  | blank p pos he =>
    rw [Parser.processHeaders_blank he, Parser.processHeaders_blank (hb ▸ he)]
    have hd : Lockstep { p with buffer := p.buffer.drop pos } { q with buffer := q.buffer.drop pos } :=
      ⟨h.started, h.state, by rw [hb], h.bodyBytesNeeded, h.headers, h.body, h.keepAlive⟩
    exact hd.finalizeHeaders.processBody
  | bad p line pos he hn hg =>
    rw [Parser.processHeaders_bad he hn hg, Parser.processHeaders_bad (hb ▸ he) hn (hh ▸ hg)]
    exact ⟨rfl, by simp, rfl, hb, h.bodyBytesNeeded, h.headers, h.body, h.keepAlive⟩
  | good p line pos hs' he hn hg ih =>
    have hq := Parser.processHeaders_good (p := q) (hb ▸ he) hn (hh ▸ hg)
    rw [Parser.processHeaders_good he hn hg, hq, hb]
    refine ih ?_ rfl rfl
    exact ⟨h.started, h.state, rfl, h.bodyBytesNeeded, rfl, h.body, h.keepAlive⟩

lemma Lockstep.process (h : Lockstep p q) :
    p.process.2 = q.process.2 ∧ Lockstep p.process.1 q.process.1 := by
  have hst := h.state
  cases hs : p.state with
  | startLine => exact absurd hs h.started
  | headers =>
    rw [Parser.process_headers hs, Parser.process_headers (hst.trans hs)]
    exact h.processHeaders
  | body =>
    rw [Parser.process_body hs, Parser.process_body (hst.trans hs)]
    exact h.processBody
  | complete | error =>
    have hp : p.Settled := by simp [Parser.Settled, hs]
    have hq : q.Settled := by simp [Parser.Settled, hst, hs]
    rw [hp.process, hq.process]
    exact ⟨rfl, h⟩

lemma Lockstep.feed (h : Lockstep p q) (chunks : List Bytes) :
    (p.feed chunks).2 = (q.feed chunks).2 ∧ Lockstep (p.feed chunks).1 (q.feed chunks).1 := by
  induction chunks generalizing p q with
  | nil => exact ⟨rfl, h⟩
  | cons c cs ih =>
    obtain ⟨he, hc⟩ := (h.append c).process
    obtain ⟨hes, hcs⟩ := ih hc
    exact ⟨congrArg₂ List.cons he hes, hcs⟩

lemma parseRequestLine_fields (line : Bytes) (req : HttpRequest) :
    (parseRequestLine line req).2.body = req.body ∧
      (parseRequestLine line req).2.keepAlive = req.keepAlive := by
  simp only [parseRequestLine]
  split
  · exact ⟨rfl, rfl⟩
  split
  · exact ⟨rfl, rfl⟩
  split_ifs <;> exact ⟨rfl, rfl⟩

lemma parseStatusLine_fields (line : Bytes) (resp : HttpResponse) :
    (parseStatusLine line resp).2.body = resp.body ∧
      (parseStatusLine line resp).2.keepAlive = resp.keepAlive := by
  simp only [parseStatusLine]
  split
  · exact ⟨rfl, rfl⟩
  split
  · exact ⟨rfl, rfl⟩
  split <;> exact ⟨rfl, rfl⟩

lemma lockstep_afterLine {l₁ l₂ : Bytes} {req : HttpRequest} {resp : HttpResponse}
    (h₁ : parseRequestLine l₁ {} = (true, req)) (h₂ : parseStatusLine l₂ {} = (true, resp))
    (rest : Bytes) : Lockstep (Parser.afterLine req rest) (Parser.afterLine resp rest) := by
  have hh₁ := parseRequestLine_headers l₁ {}
  have hh₂ := parseStatusLine_headers l₂ {}
  obtain ⟨hb₁, hk₁⟩ := parseRequestLine_fields l₁ {}
  obtain ⟨hb₂, hk₂⟩ := parseStatusLine_fields l₂ {}
  rw [h₁] at hh₁ hb₁ hk₁
  rw [h₂] at hh₂ hb₂ hk₂
  exact ⟨by simp [Parser.afterLine], rfl, rfl, rfl, hh₂.trans hh₁.symm, hb₂.trans hb₁.symm,
    fun _ => hk₂.trans hk₁.symm⟩

/-- `process` is what is left of the call that accepted the first line. -/
theorem parsers_in_lockstep (l₁ l₂ : Bytes) (req : HttpRequest) (resp : HttpResponse)
    (h₁ : parseRequestLine l₁ {} = (true, req)) (h₂ : parseStatusLine l₂ {} = (true, resp))
    (rest : Bytes) (chunks : List Bytes) :
    let p := (Parser.afterLine req rest : HttpParser).process
    let q := (Parser.afterLine resp rest : HttpResponseParser).process
    p.2 = q.2 ∧ Lockstep p.1 q.1 ∧
      (p.1.feed chunks).2 = (q.1.feed chunks).2 ∧ Lockstep (p.1.feed chunks).1 (q.1.feed chunks).1 := by
  obtain ⟨he, hp⟩ := (lockstep_afterLine h₁ h₂ rest).process
  exact ⟨he, hp, hp.feed chunks⟩

theorem parsers_in_lockstep_chunked :
    let req : HttpRequest := { method := lit "PUT", target := lit "/x", version := lit "HTTP/1.1" }
    let resp : HttpResponse := { status := 404, reason := lit "Not Found" }
    let chunks := [lit "gth: 3\r\nConnection: close\r\n\r\nab", lit "c", lit "rest"]
    let p := ((Parser.afterLine req (lit "Content-Len") : HttpParser).process).1
    let q := ((Parser.afterLine resp (lit "Content-Len") : HttpResponseParser).process).1
    (p.feed chunks).2 = [.needMoreData, .complete, .complete] ∧
      (p.feed chunks).2 = (q.feed chunks).2 ∧ Lockstep (p.feed chunks).1 (q.feed chunks).1 := by
  intro req resp chunks p q
  have h := parsers_in_lockstep (lit "PUT /x HTTP/1.1") (lit "HTTP/1.0 404 Not Found") req resp
    (by decide +kernel) (by decide +kernel) (lit "Content-Len") chunks
  exact ⟨by decide +kernel, h.2.2⟩

end HttpBalancer.Net
