import HttpBalancer.Net.Fields

/-! `HttpResponse::serialize` and `HttpResponseParser` are inverse to each other on responses whose
parts do not break the framing, and the parser produces no others. -/

namespace HttpBalancer.Net

open Lib Lib.Search

/-- Nothing in the response can be mistaken for a line end or a field boundary, and an explicit
Content-Length tells the truth. A body longer than `longMax` is beyond any `std::string`. -/
structure Serializable (r : HttpResponse) : Prop where
  reason : ¬ crlf <:+: r.reason
  field : ∀ h ∈ r.headers, IsField h
  contentLength : findHeader r.headers (lit "Content-Length") ≠ none →
    contentLengthFrom r.headers = r.body.length
  body : r.body.length ≤ longMax

def HttpResponse.addedHeaders (r : HttpResponse) : HeaderList :=
  (if findHeader r.headers (lit "Content-Length") = none then
    [(lit "Content-Length", toDecimal r.body.length)] else []) ++
  (if findHeader r.headers (lit "Connection") = none then
    [(lit "Connection", if r.keepAlive then lit "keep-alive" else lit "close")] else [])

def HttpResponse.statusLine (r : HttpResponse) : Bytes :=
  lit "HTTP/1.1" ++ 32 :: (toDecimal r.status.toInt ++ 32 :: r.reason)

lemma serialize_eq (r : HttpResponse) : r.serialize =
    r.statusLine ++ crlf ++ (unlines ((r.headers ++ r.addedHeaders).map fieldLine) ++ crlf ++ r.body) := by
  have hs : lit "HTTP/1.1 " ++ toDecimal r.status.toInt ++ lit " " ++ r.reason ++ crlf =
      r.statusLine ++ crlf := by
    simp [HttpResponse.statusLine, show lit "HTTP/1.1 " = lit "HTTP/1.1" ++ [32] by decide,
      show lit " " = [32] by decide]
  simp only [HttpResponse.serialize, hs, HttpResponse.addedHeaders, ← flatMap_headerLine,
    List.flatMap_append]
  have hc := hasContentLength_iff r
  have hn := hasConnection_iff r
  by_cases h₁ : findHeader r.headers (lit "Content-Length") = none <;>
    by_cases h₂ : findHeader r.headers (lit "Connection") = none <;>
    simp [h₁, h₂] at hc hn <;> simp [h₁, h₂, hc, hn]

lemma toDecimal_mem {i : ℤ} {c : UInt8} (h : c ∈ toDecimal i) :
    isSpace c = false ∧ c ≠ 13 ∧ c ≠ 32 := by
  have hs : isSpace c = false := by
    simp only [toDecimal] at h
    split_ifs at h
    · rcases List.mem_cons.mp h with rfl | h
      · decide
      · exact (isDigit_ne (Decimal.isDigit_of_mem_numeral h)).2.1
    · exact (isDigit_ne (Decimal.isDigit_of_mem_numeral h)).2.1
  refine ⟨hs, ?_, ?_⟩ <;> rintro rfl <;> exact absurd hs (by decide)

lemma added_isField (r : HttpResponse) : ∀ h ∈ r.addedHeaders, IsField h := by
  intro h hh
  rcases List.mem_append.mp hh with hh | hh
  · split_ifs at hh with h₁
    · obtain rfl := List.mem_singleton.mp hh
      have hk : IsField (lit "Content-Length", []) := by constructor <;> decide
      have hv : ∀ c ∈ toDecimal r.body.length, isSpace c = false ∧ c ≠ 13 ∧ c ≠ 32 :=
        fun _ => toDecimal_mem
      exact ⟨hk.name_ne, hk.name_trimmed, hk.name_colon, hk.name_crlf,
        Trim.trimmed_of_forall isSpace fun c hc => (hv c hc).1,
        crlf_not_infix fun hc => (hv 13 hc).2.1 rfl⟩
    · simp at hh
  · split_ifs at hh with h₁ h₂
    all_goals first
      | (obtain rfl := List.mem_singleton.mp hh; constructor <;> decide)
      | simp at hh

lemma contentLengthFrom_congr {hs ks : HeaderList}
    (h : findHeader hs (lit "Content-Length") = findHeader ks (lit "Content-Length")) :
    contentLengthFrom hs = contentLengthFrom ks := by
  simp only [contentLengthFrom, h]

lemma contentLengthFrom_le (hs : HeaderList) : contentLengthFrom hs ≤ longMax := by
  simp only [contentLengthFrom]
  split
  · omega
  · split
    · omega
    · next v hv =>
      have hle : v ≤ longMax := by
        simp only [strtol] at hv
        split_ifs at hv <;> simp only [Option.some.injEq] at hv <;> omega
      split_ifs <;> omega

lemma written_contentLength {r : HttpResponse} (h : Serializable r) :
    contentLengthFrom (r.headers ++ r.addedHeaders) = r.body.length := by
  by_cases hc : findHeader r.headers (lit "Content-Length") = none
  · have hf : findHeader (r.headers ++ r.addedHeaders) (lit "Content-Length") =
        some (toDecimal r.body.length) := by
      rw [findHeader_append, hc, HttpResponse.addedHeaders, if_pos hc, List.singleton_append,
        findHeader_cons]
      rfl
    have hb := h.body
    have hs : strtol (toDecimal r.body.length) = some (r.body.length : ℤ) :=
      strtol_toDecimal (by omega) (by omega)
    simp [contentLengthFrom, hf, hs]
  · rw [← h.contentLength hc]
    apply contentLengthFrom_congr
    rw [findHeader_append]
    obtain ⟨v, hv⟩ := Option.ne_none_iff_exists'.mp hc
    simp [hv]

lemma written_connection {r : HttpResponse} (h : findHeader r.headers (lit "Connection") = none) :
    findHeader (r.headers ++ r.addedHeaders) (lit "Connection") =
      some (if r.keepAlive then lit "keep-alive" else lit "close") := by
  have hn : toLower (lit "Content-Length") ≠ toLower (lit "Connection") := by decide
  rw [findHeader_append, h, HttpResponse.addedHeaders, if_pos h, findHeader_append]
  split_ifs <;> simp [findHeader_cons, hn]

lemma written_keepAlive {r : HttpResponse} (h : findHeader r.headers (lit "Connection") = none)
    (v : Bytes) : connectionKeepAlive (r.headers ++ r.addedHeaders) v = r.keepAlive := by
  have hk : find (lit "close") (toLower (lit "keep-alive")) = none ∧
      find (lit "keep-alive") (toLower (lit "keep-alive")) ≠ none := by decide
  have hc : find (lit "close") (toLower (lit "close")) ≠ none := by decide
  simp only [connectionKeepAlive, written_connection h]
  cases r.keepAlive <;> simp [hk, hc]

lemma parseStatusLine_tokens {t : Bytes} (ht : 32 ∉ t) {status : ℤ} (hs : strtol t = some status)
    (reason : Bytes) (resp : HttpResponse) :
    parseStatusLine (lit "HTTP/1.1" ++ 32 :: (t ++ 32 :: reason)) resp =
      (true, { resp with status := Int32.ofInt status, reason := reason }) := by
  let v := lit "HTTP/1.1"
  have hv : 32 ∉ v := by decide
  have hd : (v ++ 32 :: (t ++ 32 :: reason)).drop (v.length + 1) = t ++ 32 :: reason := by simp
  have hf : findFrom [32] (v ++ 32 :: (t ++ 32 :: reason)) (v.length + 1) =
      some (t.length + (v.length + 1)) := by
    rw [findFrom, hd, find_singleton_append ht]
    rfl
  have hl : t.length + (v.length + 1) - v.length - 1 = t.length := by omega
  have hr : (v ++ 32 :: (t ++ 32 :: reason)).drop (t.length + (v.length + 1) + 1) = reason := by
    rw [show t.length + (v.length + 1) + 1 = (v.length + 1) + (t.length + 1) by omega,
      ← List.drop_drop, hd]
    simp
  have hlt : t.length + (v.length + 1) < (v ++ 32 :: (t ++ 32 :: reason)).length := by
    simp only [List.length_append, List.length_cons]
    omega
  change parseStatusLine (v ++ 32 :: (t ++ 32 :: reason)) resp = _
  simp only [parseStatusLine, find_singleton_append hv, hf, Option.getD_some, hd, hl, hr, hlt,
    List.take_left, hs, if_true]
  rw [if_neg (fun hh => hh.1 rfl)]

lemma parseStatusLine_reason {line : Bytes} {resp resp' : HttpResponse}
    (h : parseStatusLine line resp = (true, resp')) : resp'.reason <:+: line := by
  simp only [parseStatusLine] at h
  split at h
  · simp at h
  · split at h
    · simp at h
    · split at h
      · simp at h
      · rw [Prod.mk.injEq] at h
        rw [← h.2]
        dsimp only
        split_ifs
        · exact (List.drop_suffix _ _).isInfix
        · exact List.nil_infix

lemma parseStatusLine_statusLine (r : HttpResponse) (resp : HttpResponse) :
    parseStatusLine r.statusLine resp = (true, { resp with status := r.status, reason := r.reason }) := by
  have hl := Int32.le_toInt r.status
  have hu := Int32.toInt_lt r.status
  have hs : strtol (toDecimal r.status.toInt) = some r.status.toInt :=
    strtol_toDecimal (by simp only [longMax]; omega) (by simp only [longMax]; omega)
  rw [HttpResponse.statusLine, parseStatusLine_tokens (fun hh => (toDecimal_mem hh).2.2 rfl) hs]
  simp

lemma statusLine_crlf {r : HttpResponse} (h : ¬ crlf <:+: r.reason) : ¬ crlf <:+: r.statusLine := by
  intro hh
  rcases infix_append_cons (by decide) hh with hh | hh
  · exact absurd hh (by decide)
  · rcases infix_append_cons (by decide) hh with hh | hh
    · exact crlf_not_infix (fun hc => (toDecimal_mem hc).2.1 rfl) hh
    · exact h hh

def HttpResponse.reparsed (r : HttpResponse) : HttpResponse := { r with
  headers := r.headers ++ r.addedHeaders
  keepAlive := connectionKeepAlive (r.headers ++ r.addedHeaders) (lit "HTTP/1.1") }

lemma serialize_framed {r : HttpResponse} (h : Serializable r) :
    Framed r.serialize ({ status := r.status, reason := r.reason } : HttpResponse)
      (r.headers ++ r.addedHeaders) r.body [] := by
  refine ⟨r.statusLine, (r.headers ++ r.addedHeaders).map fieldLine, ?_, statusLine_crlf h.reason,
    parseStatusLine_statusLine r _, isHeaderLines_fields ?_, (written_contentLength h).symm⟩
  · rw [serialize_eq, List.append_nil]
  · intro f hf
    rcases List.mem_append.mp hf with hf | hf
    · exact h.field f hf
    · exact added_isField r f hf

lemma serialize_consume {r : HttpResponse} (h : Serializable r) :
    (Parser.fresh : HttpResponseParser).consume r.serialize =
      ({ state := .complete, buffer := [], bodyBytesNeeded := r.body.length, msg := r.reparsed },
        .complete) := by
  rw [Parser.framed_complete (serialize_framed h), written_contentLength h]
  rfl

lemma serialize_feed {r : HttpResponse} (h : Serializable r) {chunks : List Bytes}
    (hc : chunks.flatten = r.serialize) :
    ((Parser.fresh : HttpResponseParser).feed chunks).1 =
      { state := .complete, buffer := [], bodyBytesNeeded := r.body.length, msg := r.reparsed } := by
  rw [Parser.fresh_feed, hc, serialize_consume h]

lemma serialize_consume_append {r : HttpResponse} (h : Serializable r) (rest : Bytes) :
    ((Parser.fresh : HttpResponseParser).consume (r.serialize ++ rest)).1.state = .complete ∧
      ((Parser.fresh : HttpResponseParser).consume (r.serialize ++ rest)).1.msg = r.reparsed := by
  have hs : ((Parser.fresh : HttpResponseParser).consume r.serialize).1.Settled := by
    rw [serialize_consume h]
    exact Or.inl rfl
  obtain ⟨hst, hm⟩ := hs.consume_append rest
  rw [hst, hm, serialize_consume h]
  exact ⟨rfl, rfl⟩

lemma complete_serializable {s : Bytes}
    (h : ((Parser.fresh : HttpResponseParser).consume s).1.state = .complete) :
    Serializable ((Parser.fresh : HttpResponseParser).consume s).1.msg := by
  obtain ⟨m, hs, body, rest, hf⟩ := Parser.framed_of_complete h
  rw [Parser.framed_complete hf]
  obtain ⟨l₀, lines, -, hc, hp, hl, hb⟩ := hf
  have hr : m.reason <:+: l₀ := parseStatusLine_reason hp
  exact {
    reason := fun hh => hc (hh.trans hr)
    field := hl.isField
    contentLength := fun _ => hb.symm
    body := hb ▸ contentLengthFrom_le hs }

lemma feed_serializable {chunks : List Bytes}
    (h : ((Parser.fresh : HttpResponseParser).feed chunks).1.state = .complete) :
    Serializable ((Parser.fresh : HttpResponseParser).feed chunks).1.msg := by
  rw [Parser.fresh_feed] at h ⊢
  exact complete_serializable h

lemma Serializable.withKeepAlive {r : HttpResponse} (h : Serializable r) (keepAlive : Bool) :
    Serializable { r with keepAlive := keepAlive } :=
  ⟨h.reason, h.field, h.contentLength, h.body⟩

lemma makeJsonResponse_serializable {reason json : Bytes} (status : Int32)
    (hr : ¬ crlf <:+: reason) (hb : json.length ≤ longMax) :
    Serializable (makeJsonResponse status reason json) where
  reason := hr
  field := by
    intro f hf
    obtain rfl := List.mem_singleton.mp hf
    constructor <;> decide
  contentLength := fun hc => absurd rfl hc
  body := hb

/-- Serializing and parsing again, in any chunks, gives the response back with the headers
`serialize` adds. Every response the parser completes can be serialized so, whatever keep-alive it
is relayed with. -/
theorem response_round_trip :
    (∀ r : HttpResponse, Serializable r → ∀ chunks : List Bytes, chunks.flatten = r.serialize →
      ((Parser.fresh : HttpResponseParser).feed chunks).1.state = .complete ∧
      ((Parser.fresh : HttpResponseParser).feed chunks).1.buffer = [] ∧
      ((Parser.fresh : HttpResponseParser).feed chunks).1.msg.status = r.status ∧
      ((Parser.fresh : HttpResponseParser).feed chunks).1.msg.reason = r.reason ∧
      ((Parser.fresh : HttpResponseParser).feed chunks).1.msg.body = r.body ∧
      ((Parser.fresh : HttpResponseParser).feed chunks).1.msg.headers = r.headers ++ r.addedHeaders ∧
      (findHeader r.headers (lit "Connection") = none →
        ((Parser.fresh : HttpResponseParser).feed chunks).1.msg.keepAlive = r.keepAlive)) ∧
    (∀ chunks : List Bytes, ((Parser.fresh : HttpResponseParser).feed chunks).1.state = .complete →
      ∀ keepAlive, Serializable
        { ((Parser.fresh : HttpResponseParser).feed chunks).1.msg with keepAlive := keepAlive }) := by
  refine ⟨?_, ?_⟩
  · intro r hr chunks hc
    rw [serialize_feed hr hc]
    exact ⟨rfl, rfl, rfl, rfl, rfl, rfl, fun hn => written_keepAlive hn _⟩
  · intro chunks hc keepAlive
    exact (feed_serializable hc).withKeepAlive keepAlive

theorem response_round_trip_split :
    Serializable { status := 404, reason := lit "Not Found", body := lit "x" } ∧
    ((Parser.fresh : HttpResponseParser).feed
      [lit "HTTP/1.1 404 Not Fou", lit "nd\r\nContent-Length: 1\r\nConnection: keep-alive\r\n\r\nx"]
      ).1.msg.status = 404 := by
  have hr : Serializable { status := 404, reason := lit "Not Found", body := lit "x" } :=
    ⟨by decide, by simp, by simp, by decide⟩
  exact ⟨hr, (response_round_trip.1 _ hr _ (by decide +kernel)).2.2.1⟩

end HttpBalancer.Net
