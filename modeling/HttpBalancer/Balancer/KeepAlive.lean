import HttpBalancer.Balancer.LoadBalancer
import HttpBalancer.Net.ResponseRoundTrip

/-! What the load balancer announces to its client and what it is going to do. A `Connection` header
of the upstream survives the relay and is believed by the client, whatever the balancer decided. -/

namespace HttpBalancer.Balancer

open Net Lib.Search

def delivered : List RecvResult → List Bytes
  | .received (b :: bs) :: recvs => (b :: bs) :: delivered recvs
  | _ => []

def Reached (io : UpstreamCalls) (req : HttpRequest) : Prop :=
  io.pick ≠ none ∧ io.socket = true ∧ io.connect = true ∧ sendAll (upstreamRequest req) io.sends = true

def upstreamReply (io : UpstreamCalls) (req : HttpRequest) : HttpResponseParser :=
  ((Parser.fresh : HttpResponseParser).feed (delivered (io.recvs (upstreamRequest req)))).1

lemma receive_eq_some_iff {p : HttpResponseParser} (h : ¬ p.Settled) (recvs : List RecvResult)
    (resp : HttpResponse) : receive p recvs = some resp ↔
      (p.feed (delivered recvs)).1.state = .complete ∧ (p.feed (delivered recvs)).1.msg = resp := by
  fun_induction receive p recvs with
  | case1 p b bs recvs r hr =>
    rw [Parser.consume_standing (fun he => h (Or.inr he)), Parser.standing_eq_complete] at hr
    obtain ⟨hs, hm⟩ := Parser.Settled.feed (Or.inl hr) (delivered recvs)
    rw [delivered, Parser.feed_cons, hs, hm, Option.some.injEq]
    exact ⟨fun hh => ⟨hr, hh⟩, fun hh => hh.2⟩
  | case2 p b bs recvs r hr =>
    rw [Parser.consume_standing (fun he => h (Or.inr he)), Parser.standing_eq_error] at hr
    obtain ⟨hs, -⟩ := Parser.Settled.feed (Or.inr hr) (delivered recvs)
    rw [delivered, Parser.feed_cons, hs, hr]
    simp
  | case3 p b bs recvs r hr ih =>
    rw [Parser.consume_standing (fun he => h (Or.inr he)), Parser.standing_eq_needMoreData] at hr
    rw [delivered, Parser.feed_cons]
    exact ih hr
  | case4 recvs p hn =>
    have hd : delivered recvs = [] := by
      rw [delivered.eq_def]
      split
      · exact (hn _ _ _ rfl).elim
      · rfl
    have hp : p.state ≠ .complete := fun hs => h (Or.inl hs)
    rw [hd]
    exact iff_of_false (by simp) fun hh => hp hh.1

lemma relayed_announced {resp : HttpResponse} (h : Serializable resp) (keepAlive : Bool) :
    let p := ((Parser.fresh : HttpResponseParser).consume
      { resp with keepAlive := keepAlive }.serialize).1
    p.state = .complete ∧ p.msg.keepAlive =
      match findHeader resp.headers (lit "Connection") with
      | none => keepAlive
      | some v => (find (lit "close") (toLower v)).isNone := by
  intro p
  have hp : p = _ := congrArg Prod.fst
    (serialize_consume (h.withKeepAlive keepAlive))
  rw [hp]
  refine ⟨rfl, ?_⟩
  cases hc : findHeader resp.headers (lit "Connection") with
  | none => exact written_keepAlive (r := { resp with keepAlive := keepAlive }) hc _
  | some v =>
    have hf : findHeader (resp.headers ++ HttpResponse.addedHeaders { resp with keepAlive := keepAlive })
        (lit "Connection") = some v := by
      rw [findHeader_append, hc]
      rfl
    simp only [HttpResponse.reparsed, connectionKeepAlive, hf]
    cases find (lit "close") (toLower v) <;> simp

lemma badGateway_serializable {json : Bytes} (h : json.length ≤ longMax) :
    Serializable (badGateway json) :=
  makeJsonResponse_serializable 502 (by decide) h

lemma exchange_eq_some_iff (io : UpstreamCalls) (req : HttpRequest) (resp : HttpResponse) :
    exchange io req = some resp ↔
      (io.connect = true ∧ sendAll (upstreamRequest req) io.sends = true) ∧
        (upstreamReply io req).state = .complete ∧ (upstreamReply io req).msg = resp := by
  rw [exchange]
  split_ifs with h
  · rw [receive_eq_some_iff (by simp [Parser.Settled, Parser.fresh])]
    simp only [Bool.and_eq_true] at h
    simp [h, upstreamReply]
  · simp only [Bool.and_eq_true] at h
    simp [h]

lemma proxyRequest_cases (io : UpstreamCalls) (req : HttpRequest) :
    (Reached io req ∧ (upstreamReply io req).state = .complete ∧
      (proxyRequest io req).1 = relayed (upstreamReply io req).msg req) ∨
    (¬ (Reached io req ∧ (upstreamReply io req).state = .complete) ∧
      ∃ json keepAlive, json.length ≤ longMax ∧ (proxyRequest io req).1 =
        ⟨{ badGateway json with keepAlive := keepAlive }.serialize, keepAlive⟩) := by
  have hown : ∀ json keepAlive, json.length ≤ longMax → ∃ json' keepAlive', json'.length ≤ longMax ∧
      (⟨{ badGateway json with keepAlive := keepAlive }.serialize, keepAlive⟩ : Answer) =
        ⟨{ badGateway json' with keepAlive := keepAlive' }.serialize, keepAlive'⟩ :=
    fun json keepAlive hj => ⟨json, keepAlive, hj, rfl⟩
  simp only [proxyRequest]
  cases hu : io.pick with
  | none => exact Or.inr ⟨fun hr => hr.1.1 hu, hown _ false (by decide)⟩
  | some u =>
    cases ht : io.socket with
    | false => exact Or.inr ⟨by simp [Reached, ht], hown _ false (by decide)⟩
    | true =>
      cases he : exchange io req with
      | none =>
        refine Or.inr ⟨?_, hown _ req.keepAlive (by decide)⟩
        rintro ⟨hr, hc⟩
        have hh := (exchange_eq_some_iff io req _).mpr ⟨hr.2.2, hc, rfl⟩
        simp [he] at hh
      | some resp =>
        obtain ⟨hw, hc, rfl⟩ := (exchange_eq_some_iff io req resp).mp he
        exact Or.inl ⟨⟨by simp [hu], ht, hw⟩, hc, rfl⟩

theorem announced_keepAlive (io : UpstreamCalls) (req : HttpRequest) (conn : Connection) :
    let a := (proxyRequest io req).1
    let p := ((Parser.fresh : HttpResponseParser).consume a.data).1
    p.state = .complete ∧
      (p.msg.keepAlive = (conn.answer a).pendingKeepAlive ↔
        (Reached io req → (upstreamReply io req).state = .complete →
          ∀ v, findHeader (upstreamReply io req).msg.headers (lit "Connection") = some v →
            (find (lit "close") (toLower v) = none ↔ req.keepAlive = true))) := by
  intro a p
  change p.state = .complete ∧ (p.msg.keepAlive = a.keepAlive ↔ _)
  rcases proxyRequest_cases io req with ⟨hr, hc, ha⟩ | ⟨hn, json, keepAlive, hj, ha⟩
  · have hf : Serializable (upstreamReply io req).msg := feed_serializable hc
    obtain ⟨hs, hk⟩ := relayed_announced hf req.keepAlive
    simp only [p, a, ha, relayed]
    refine ⟨hs, ?_⟩
    simp only [hr, hc, true_implies, hk]
    cases findHeader (upstreamReply io req).msg.headers (lit "Connection") with
    | none => simp
    | some v => cases req.keepAlive <;> simp [Option.isSome_iff_ne_none]
  · -- a response of the balancer's own has no `Connection` header to contradict it
    obtain ⟨hs, hk⟩ := relayed_announced (badGateway_serializable hj) keepAlive
    simp only [p, a, ha]
    exact ⟨hs, iff_of_true hk fun hr hc => absurd ⟨hr, hc⟩ hn⟩

theorem kept_client_told_close :
    let req := ((Parser.fresh : HttpParser).consume (lit "GET /health HTTP/1.1\r\n\r\n")).1.msg
    let reply := lit "HTTP/1.1 200 OK\r\nContent-Length: 2\r\nConnection: close\r\n\r\nok"
    let io : UpstreamCalls :=
      ⟨some ⟨lit "127.0.0.1", 9001⟩, true, true, [.sent 1000], fun _ => [.received reply]⟩
    let a := (proxyRequest io req).1
    let p := ((Parser.fresh : HttpResponseParser).consume a.data).1
    p.state = .complete ∧ p.msg.keepAlive = false ∧
      (Connection.fresh.answer a).pendingKeepAlive = true := by
  refine ⟨?_, ?_, ?_⟩ <;> decide +kernel

end HttpBalancer.Balancer
