import HttpBalancer.Balancer.Forwarding
import HttpBalancer.Balancer.KeepAlive
import HttpBalancer.Net.Delivery
import HttpBalancer.Server.HttpServer

/-! Behind the load balancer the shipped server answers as if the client had asked it directly, up to
the Connection header. -/

namespace HttpBalancer.System

open Net Server Balancer

/-- The upstream serves the routes of `main`, and it and the balancer get all of each other's bytes. -/
def ServedBy (port : UInt16) (io : UpstreamCalls) (req : HttpRequest) : Prop :=
  Reached io req ∧ ∃ events, (httpServer (routes port)).Delivers events (upstreamRequest req) ∧
    (delivered (io.recvs (upstreamRequest req))).flatten =
      output ((httpServer (routes port)).run .fresh events).2

def withoutConnection (hs : HeaderList) : HeaderList :=
  hs.filter fun h => toLower h.1 != lit "connection"

lemma delivers_reads {S : Service} {events : List (S.Env × ClientCalls)} {s : Bytes} {r : HttpResponse}
    (h : S.Delivers events s) (hr : Serializable r)
    (hf : (responses (S.run .fresh events).2).head? = some r.serialize) :
    ((Parser.fresh : HttpResponseParser).consume (output (S.run .fresh events).2)).1.state = .complete ∧
    ((Parser.fresh : HttpResponseParser).consume (output (S.run .fresh events).2)).1.msg = r.reparsed := by
  obtain ⟨l, hl⟩ := List.head?_eq_some_iff.mp hf
  rw [h.output, hl, List.flatten_cons]
  exact serialize_consume_append hr l.flatten

lemma ServedBy.reply {port : UInt16} {io : UpstreamCalls} {s : Bytes}
    (hc : ((Parser.fresh : HttpParser).consume s).1.state = .complete)
    (h : ServedBy port io ((Parser.fresh : HttpParser).consume s).1.msg) :
    let req := ((Parser.fresh : HttpParser).consume s).1.msg
    (proxyRequest io req).1 = relayed ((routes port).response (forwarded req)).reparsed req := by
  intro req
  obtain ⟨hr, events, hd, ho⟩ := h
  have hq := upstreamRequest_consume hc
  obtain ⟨e, -, hh⟩ := hd.answered (by rw [hq])
  rw [hq] at hh
  obtain ⟨hs, hm⟩ := delivers_reads hd (routes_serializable port _) hh
  rw [← ho, ← Parser.fresh_feed] at hs hm
  rcases proxyRequest_cases io req with ⟨-, -, ha⟩ | ⟨hn, -⟩
  · rw [ha, ← hm]
    rfl
  · exact absurd ⟨hr, hs⟩ hn

lemma reparsed_serializable {r : HttpResponse} (h : Serializable r) : Serializable r.reparsed := by
  have hs := serialize_consume h
  have hh := complete_serializable (s := r.serialize) (by rw [hs])
  rwa [hs] at hh

lemma addedHeaders_reparsed (r : HttpResponse) (keepAlive : Bool) :
    HttpResponse.addedHeaders { r.reparsed with keepAlive := keepAlive } = [] := by
  have hl : findHeader (r.headers ++ r.addedHeaders) (lit "Content-Length") ≠ none := by
    rw [findHeader_append, HttpResponse.addedHeaders]
    split_ifs with h <;> simp [h, findHeader_cons]
  have hc : findHeader (r.headers ++ r.addedHeaders) (lit "Connection") ≠ none := by
    by_cases h : findHeader r.headers (lit "Connection") = none
    · simp [written_connection h]
    · simp [findHeader_append, h]
  rw [HttpResponse.addedHeaders]
  simp only [HttpResponse.reparsed, hl, hc, if_false, List.append_nil]

lemma withoutConnection_append (hs ks : HeaderList) :
    withoutConnection (hs ++ ks) = withoutConnection hs ++ withoutConnection ks :=
  List.filter_append hs ks

lemma withoutConnection_added (r : HttpResponse) (keepAlive : Bool) :
    withoutConnection (HttpResponse.addedHeaders { r with keepAlive := keepAlive }) =
      withoutConnection r.addedHeaders := by
  have hk : ∀ v : Bytes, withoutConnection [(lit "Connection", v)] = [] := by
    intro v
    simp [withoutConnection, show toLower (lit "Connection") = lit "connection" by decide]
  simp only [HttpResponse.addedHeaders, withoutConnection_append]
  congr 1
  by_cases hc : findHeader r.headers (lit "Connection") = none
  · rw [if_pos hc, if_pos hc, hk, hk]
  · rw [if_neg hc, if_neg hc]

structure SameReply (p q : HttpResponseParser) : Prop where
  direct : p.state = .complete
  proxied : q.state = .complete
  status : p.msg.status = q.msg.status
  reason : p.msg.reason = q.msg.reason
  body : p.msg.body = q.msg.body
  headers : withoutConnection p.msg.headers = withoutConnection q.msg.headers

lemma relayed_sameReply {port : UInt16} {req : HttpRequest} {p q : HttpResponseParser}
    (hp : p.state = .complete ∧ p.msg = ((routes port).response req).reparsed)
    (hq : q.state = .complete ∧ q.msg = HttpResponse.reparsed
      { ((routes port).response (forwarded req)).reparsed with keepAlive := req.keepAlive }) :
    SameReply p q := by
  have hd : (routes port).response (forwarded req) =
      { (routes port).response req with keepAlive := false } := by
    have hh : (routes port).dispatch (forwarded req) = (routes port).dispatch req :=
      routes_dispatch_congr port rfl rfl
    rw [Router.response, hh]
    rfl
  rw [hd] at hq
  refine ⟨hp.1, hq.1, by rw [hp.2, hq.2]; rfl, by rw [hp.2, hq.2]; rfl, by rw [hp.2, hq.2]; rfl, ?_⟩
  have ha := addedHeaders_reparsed { (routes port).response req with keepAlive := false } req.keepAlive
  have hw := withoutConnection_added ((routes port).response req) false
  rw [hp.2, hq.2]
  simp only [HttpResponse.reparsed] at ha ⊢
  rw [ha, List.append_nil, withoutConnection_append, withoutConnection_append, hw]

/-- A client cannot tell the balancer from the server behind it: both answer or neither does, and the
first responses agree but for the Connection header. -/
theorem balancer_transparent (port : UInt16) (s : Bytes) (direct : List (Unit × ClientCalls))
    (proxied : List (UpstreamCalls × ClientCalls)) (hd : (httpServer (routes port)).Delivers direct s)
    (hp : loadBalancer.Delivers proxied s)
    (hu : ((Parser.fresh : HttpParser).consume s).1.state = .complete →
      ∀ e ∈ proxied, ServedBy port e.1 ((Parser.fresh : HttpParser).consume s).1.msg) :
    let a := output ((httpServer (routes port)).run .fresh direct).2
    let b := output (loadBalancer.run .fresh proxied).2
    (a = [] ↔ b = []) ∧ (a ≠ [] → ∀ ca cb : List Bytes, ca.flatten = a → cb.flatten = b →
      SameReply ((Parser.fresh : HttpResponseParser).feed ca).1
        ((Parser.fresh : HttpResponseParser).feed cb).1) := by
  intro a b
  by_cases hq : ((Parser.fresh : HttpParser).consume s).1.Settled
  · have hsame : SameReply ((Parser.fresh : HttpResponseParser).consume a).1
        ((Parser.fresh : HttpResponseParser).consume b).1 := by
      rcases hq with hc | he
      · obtain ⟨_, -, hda⟩ := hd.answered hc
        obtain ⟨e, he, hpa⟩ := hp.answered hc
        have hr := (hu hc e he).reply hc
        change _ = some (proxyRequest e.1 _).1.data at hpa
        rw [hr] at hpa
        apply relayed_sameReply (delivers_reads hd (routes_serializable port _) hda)
        apply delivers_reads hp _ hpa
        exact (reparsed_serializable (routes_serializable port _)).withKeepAlive _
      · have hb : Serializable badRequest :=
          (makeJsonResponse_serializable 400 (by decide) (by decide)).withKeepAlive false
        obtain ⟨hs, hm⟩ := delivers_reads hd hb (hd.malformed he)
        obtain ⟨hs', hm'⟩ := delivers_reads hp hb (hp.malformed he)
        have hh := hm.trans hm'.symm
        exact ⟨hs, hs', by rw [hh], by rw [hh], by rw [hh], by rw [hh]⟩
    have hne : ∀ r : Bytes, ((Parser.fresh : HttpResponseParser).consume r).1.state = .complete → r ≠ [] := by
      rintro r hr rfl
      exact absurd hr (by decide)
    refine ⟨iff_of_false (hne a hsame.direct) (hne b hsame.proxied), fun _ ca cb hca hcb => ?_⟩
    rw [Parser.fresh_feed, Parser.fresh_feed, hca, hcb]
    exact hsame
  · have ha : a = [] := hd.silent hq
    have hb : b = [] := hp.silent hq
    exact ⟨iff_of_true ha hb, fun hn => absurd ha hn⟩

def promptUpstream (port : UInt16) : UpstreamCalls where
  pick := some ⟨lit "127.0.0.1", port⟩
  socket := true
  connect := true
  sends := [.sent 1000]
  recvs data := [.received (output
    ((httpServer (routes port)).run .fresh [((), ⟨.received data, [.sent 1000]⟩)]).2)]

theorem balancer_transparent_split :
    let s := lit "GET /health HTTP/1.1\r\n\r\n"
    let direct : List (Unit × ClientCalls) := [((), ⟨.received s, [.sent 1000]⟩)]
    let proxied : List (UpstreamCalls × ClientCalls) :=
      [(promptUpstream 9001, ⟨.received (s.take 9), []⟩),
       (promptUpstream 9001, ⟨.received (s.drop 9), [.sent 40, .again]⟩),
       (promptUpstream 9001, ⟨.again, [.sent 1000]⟩)]
    SameReply
      ((Parser.fresh : HttpResponseParser).feed [output ((httpServer (routes 9001)).run .fresh direct).2]).1
      ((Parser.fresh : HttpResponseParser).feed [output (loadBalancer.run .fresh proxied).2]).1 := by
  intro s direct proxied
  have hd : (httpServer (routes 9001)).Delivers direct s :=
    ⟨List.forall_mem_singleton.mpr (by decide), by decide +kernel, by decide +kernel, by decide +kernel⟩
  have hp : loadBalancer.Delivers proxied s :=
    ⟨List.forall_mem_cons.mpr ⟨by decide, List.forall_mem_cons.mpr
      ⟨by decide, List.forall_mem_singleton.mpr (by decide)⟩⟩,
      by decide +kernel, by decide +kernel, by decide +kernel⟩
  have hs : ServedBy 9001 (promptUpstream 9001) ((Parser.fresh : HttpParser).consume s).1.msg :=
    ⟨⟨by decide, rfl, rfl, by decide +kernel⟩,
      [((), ⟨.received (upstreamRequest ((Parser.fresh : HttpParser).consume s).1.msg), [.sent 1000]⟩)],
      ⟨List.forall_mem_singleton.mpr (by decide), by decide +kernel, by decide +kernel,
        by decide +kernel⟩, by decide +kernel⟩
  have hu : ∀ e ∈ proxied, ServedBy 9001 e.1 ((Parser.fresh : HttpParser).consume s).1.msg := by
    intro e he
    simp only [proxied, List.mem_cons, List.not_mem_nil, or_false] at he
    rcases he with rfl | rfl | rfl <;> exact hs
  exact (balancer_transparent 9001 s direct proxied hd hp fun _ => hu).2 (by decide +kernel) _ _
    (by simp) (by simp)

end HttpBalancer.System
