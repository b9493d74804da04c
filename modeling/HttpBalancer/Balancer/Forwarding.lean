import HttpBalancer.Balancer.LoadBalancer
import HttpBalancer.Net.Fields
import HttpBalancer.Net.RequestGrammar

/-! The request rebuilt for the upstream parses to the client's request, with every Connection
header turned into `Connection: close`. Which headers these are is decided by `strcasecmp`, where the
parser and the serializer compare whole strings. -/

namespace HttpBalancer.Balancer

open Net Lib Lib.Search

def closeHeader : Bytes × Bytes := (lit "Connection", lit "close")

def forwardedHeaders (hs : HeaderList) : HeaderList :=
  hs.map (fun h => if isConnection h then closeHeader else h) ++
    if hs.any isConnection then [] else [closeHeader]

def forwarded (req : HttpRequest) : HttpRequest :=
  { req with headers := forwardedHeaders req.headers, keepAlive := false }

lemma closeLine_eq : closeLine = headerLine closeHeader := by decide

lemma forwarded_flatMap (hs : HeaderList) :
    (hs.flatMap fun h => if isConnection h then closeLine else headerLine h) =
      (hs.map fun h => if isConnection h then closeHeader else h).flatMap headerLine := by
  induction hs with
  | nil => rfl
  | cons h hs ih =>
    rw [List.flatMap_cons, List.map_cons, List.flatMap_cons, ih, closeLine_eq]
    split_ifs <;> rfl

lemma upstreamRequest_eq (req : HttpRequest) : upstreamRequest req =
    req.method ++ 32 :: (req.target ++ 32 :: req.version) ++ crlf ++
      (unlines ((forwardedHeaders req.headers).map fieldLine) ++ crlf ++ req.body) := by
  simp only [upstreamRequest, forwarded_flatMap, forwardedHeaders, ← flatMap_headerLine,
    List.flatMap_append, show lit " " = [32] by decide]
  split_ifs <;> simp [closeLine_eq]

lemma closeHeader_isField : IsField closeHeader := by
  constructor <;> decide

lemma forwarded_isField {hs : HeaderList} (h : ∀ f ∈ hs, IsField f) :
    ∀ f ∈ forwardedHeaders hs, IsField f := by
  intro f hf
  rcases List.mem_append.mp hf with hf | hf
  · obtain ⟨g, hg, rfl⟩ := List.mem_map.mp hf
    split_ifs
    · exact closeHeader_isField
    · exact h g hg
  · split_ifs at hf
    · simp at hf
    · obtain rfl := List.mem_singleton.mp hf
      exact closeHeader_isField

lemma toLower_append (a b : Bytes) : toLower (a ++ b) = toLower a ++ toLower b := by
  simp [toLower]

lemma zero_not_mem {c : Bytes} (h : toLower c = lit "connection") : 0 ∉ c := by
  intro hz
  have hm : tolower 0 ∈ toLower c := List.mem_map_of_mem hz
  rw [h] at hm
  exact absurd hm (by decide)

lemma isConnection_iff {h : Bytes × Bytes} : isConnection h = true ↔
    toLower h.1 = lit "connection" ∨ ∃ c t, h.1 = c ++ 0 :: t ∧ toLower c = lit "connection" := by
  have hs : isConnection h = true ↔ toLower (cStr h.1) = lit "connection" := by
    have hl : toLower (cStr (lit "connection")) = lit "connection" := by decide
    rw [isConnection, strcasecmp, beq_iff_eq, hl]
  rw [hs]
  constructor
  · intro hc
    by_cases hz : 0 ∈ h.1
    · obtain ⟨c, t, he, hn⟩ := List.eq_append_cons_of_mem hz
      rw [cStr, he, (takeWhile_ne hn t).1] at hc
      exact Or.inr ⟨c, t, he, hc⟩
    · rw [cStr, takeWhile_ne_self hz] at hc
      exact Or.inl hc
  · rintro (hc | ⟨c, t, he, hc⟩)
    · rwa [cStr, takeWhile_ne_self (zero_not_mem hc)]
    · rwa [cStr, he, (takeWhile_ne (zero_not_mem hc) t).1]

lemma isConnection_prefix {h : Bytes × Bytes} (hc : isConnection h = true) :
    lit "connection" <+: toLower h.1 := by
  rcases isConnection_iff.mp hc with hc | ⟨c, t, he, hc⟩
  · rw [hc]
  · rw [he, toLower_append, hc]
    exact List.prefix_append _ _

lemma forwarded_contentLength (hs : HeaderList) :
    contentLengthFrom (forwardedHeaders hs) = contentLengthFrom hs := by
  have hn : toLower closeHeader.1 ≠ toLower (lit "Content-Length") := by decide
  have hm : ∀ h, isConnection h = true → toLower h.1 ≠ toLower (lit "Content-Length") := by
    intro h hc he
    have hp := isConnection_prefix hc
    rw [he] at hp
    exact absurd hp (by decide)
  have hf : ∀ ks : HeaderList, findHeader
      (ks.map fun h => if isConnection h then closeHeader else h) (lit "Content-Length") =
      findHeader ks (lit "Content-Length") := by
    intro ks
    induction ks with
    | nil => rfl
    | cons k ks ih =>
      rw [List.map_cons, findHeader_cons, findHeader_cons, ih]
      by_cases hc : isConnection k = true
      · simp [hc, hn, hm k hc]
      · simp [hc]
  have hl : findHeader (forwardedHeaders hs) (lit "Content-Length") =
      findHeader hs (lit "Content-Length") := by
    rw [forwardedHeaders, findHeader_append, hf]
    split_ifs
    · simp
    · simp [findHeader_cons, hn]
  simp only [contentLengthFrom, hl]

lemma forwarded_connection (hs : HeaderList) :
    findHeader (forwardedHeaders hs) (lit "Connection") = some (lit "close") := by
  have hl : toLower (lit "Connection") = lit "connection" := by decide
  have hf : ∀ ks : HeaderList, findHeader
      (ks.map fun h => if isConnection h then closeHeader else h) (lit "Connection") =
      if ks.any isConnection then some (lit "close") else none := by
    intro ks
    induction ks with
    | nil => rfl
    | cons k ks ih =>
      rw [List.map_cons, findHeader_cons, ih]
      cases hc : isConnection k with
      | true => simp [hc, closeHeader]
      | false =>
        have hk : toLower k.1 ≠ toLower (lit "Connection") := by
          intro hh
          simp [isConnection_iff.mpr (Or.inl (hh.trans hl))] at hc
        rw [List.any_cons, hc, Bool.false_or, if_neg Bool.false_ne_true, if_neg hk]
  rw [forwardedHeaders, findHeader_append, hf]
  split_ifs
  · rfl
  · simp [findHeader_cons, closeHeader]

lemma forwarded_keepAlive (hs : HeaderList) (v : Bytes) :
    connectionKeepAlive (forwardedHeaders hs) v = false := by
  simp only [connectionKeepAlive, forwarded_connection]
  rw [if_pos (by decide)]

lemma upstreamRequest_framed {s m t v body rest : Bytes} {hs : HeaderList}
    (h : Recognised s m t v hs body rest) :
    Recognised (upstreamRequest (finished { method := m, target := t, version := v } hs body)) m t v
      (forwardedHeaders hs) body [] := by
  obtain ⟨l₀, lines, -, hc, hr, hl, hb⟩ := h
  refine ⟨l₀, (forwardedHeaders hs).map fieldLine, ?_, hc, hr,
    isHeaderLines_fields (forwarded_isField hl.isField), by rw [forwarded_contentLength, hb]⟩
  rw [upstreamRequest_eq, List.append_nil, hr.1]
  rfl

lemma upstreamRequest_consume {s : Bytes}
    (h : ((Parser.fresh : HttpParser).consume s).1.state = .complete) :
    let req := ((Parser.fresh : HttpParser).consume s).1.msg
    (Parser.fresh : HttpParser).consume (upstreamRequest req) =
      ({ state := .complete, buffer := [], bodyBytesNeeded := contentLengthFrom req.headers,
         msg := forwarded req }, .complete) := by
  obtain ⟨req, hs, body, rest, hf⟩ := Parser.framed_of_complete h
  obtain ⟨m, t, v, hr⟩ := framed_recognised hf
  have hq := Parser.framed_complete (recognised_iff.mp hr)
  simp only [hq]
  rw [Parser.framed_complete (recognised_iff.mp (upstreamRequest_framed hr)), forwarded_contentLength]
  simp only [finished, forwarded, Message.setHeaders, Message.setBody, Message.setKeepAlive,
    Message.version, forwarded_keepAlive]

theorem forwarded_request (chunks : List Bytes)
    (h : ((Parser.fresh : HttpParser).feed chunks).1.state = .complete) (chunks' : List Bytes)
    (hc : chunks'.flatten = upstreamRequest ((Parser.fresh : HttpParser).feed chunks).1.msg) :
    let req := ((Parser.fresh : HttpParser).feed chunks).1.msg
    let p := ((Parser.fresh : HttpParser).feed chunks').1
    p.state = .complete ∧ p.buffer = [] ∧ p.msg.method = req.method ∧ p.msg.target = req.target ∧
      p.msg.version = req.version ∧ p.msg.body = req.body ∧
      p.msg.headers = forwardedHeaders req.headers ∧ p.msg.keepAlive = false := by
  rw [Parser.fresh_feed] at h hc ⊢
  rw [Parser.fresh_feed, hc, upstreamRequest_consume h]
  exact ⟨rfl, rfl, rfl, rfl, rfl, rfl, rfl, rfl⟩

theorem forwarded_request_get :
    ((Parser.fresh : HttpParser).feed
      [lit "GET / HTTP/1.1\r\nCONNECTION: keep-alive\r\n\r\nGET"]).1.state = .complete ∧
    ((Parser.fresh : HttpParser).feed
      [lit "GET / HTTP/1.1\r\n", lit "Connection: close\r\n\r\n"]).1.msg.keepAlive = false := by
  have h : ((Parser.fresh : HttpParser).feed
      [lit "GET / HTTP/1.1\r\nCONNECTION: keep-alive\r\n\r\nGET"]).1.state = .complete := by
    decide +kernel
  exact ⟨h, (forwarded_request _ h _ (by decide +kernel)).2.2.2.2.2.2.2⟩

def SameAnswer (name : Bytes) : Prop :=
  sameName name (lit "Connection") = (toLower name == lit "connection") ∧
    (toLower name == lit "connection") = strcasecmp name (lit "connection")

theorem connection_recognised_iff (name : Bytes) :
    SameAnswer name ↔ ∀ c t, name = c ++ 0 :: t → toLower c ≠ lit "connection" := by
  have hl : toLower (lit "Connection") = lit "connection" := by decide
  have hf : sameName name (lit "Connection") = (toLower name == lit "connection") := by
    rw [Bool.eq_iff_iff, sameName_iff, hl, beq_iff_eq]
  have hs : strcasecmp name (lit "connection") = true ↔ toLower name = lit "connection" ∨
      ∃ c t, name = c ++ 0 :: t ∧ toLower c = lit "connection" := isConnection_iff (h := (name, []))
  rw [SameAnswer, and_iff_right hf, Bool.eq_iff_iff, hs, beq_iff_eq]
  constructor
  · rintro h c t rfl hc
    -- the whole name then has a NUL in it and is not the word
    have hn := zero_not_mem (h.mpr (Or.inr ⟨c, t, rfl, hc⟩))
    exact hn (by simp)
  · intro h
    refine ⟨Or.inl, ?_⟩
    rintro (hc | ⟨c, t, he, hc⟩)
    · exact hc
    · exact absurd hc (h c t he)

/-- The parser takes the name for another header and keeps the connection alive; the upstream is sent
`Connection: close` in its place. -/
theorem nul_name_replaced :
    let name := lit "Connection\x00x"
    let p := (Parser.fresh : HttpParser).consume
      (lit "GET / HTTP/1.1\r\nConnection\x00x: close\r\n\r\n")
    p.2 = .complete ∧ p.1.msg.headers = [(name, lit "close")] ∧ ¬ SameAnswer name ∧
      findHeader p.1.msg.headers (lit "Connection") = none ∧ p.1.msg.keepAlive = true ∧
      upstreamRequest p.1.msg = lit "GET / HTTP/1.1\r\nConnection: close\r\n\r\n" := by
  intro name p
  have hn : ¬ SameAnswer name := fun h => absurd h.2 (by decide)
  exact ⟨by decide +kernel, by decide +kernel, hn, by decide +kernel, by decide +kernel, by decide +kernel⟩

end HttpBalancer.Balancer
