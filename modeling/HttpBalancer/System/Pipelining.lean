import HttpBalancer.Balancer.LoadBalancer
import HttpBalancer.Net.Requests
import HttpBalancer.Server.HttpServer

/-! A client that does not wait for its responses. What a read holds beyond the end of a request is
dropped when the parser is reset, so the connection stays in step with the client's requests as long as
nothing but whole requests is dropped. -/

namespace HttpBalancer.Net

/-- Reads of a stream of requests: each takes a part of the current request that leaves some of it, or
the rest of it and any number of whole requests after it. -/
inductive Aligned : List Bytes → List Bytes → Prop
  | nil (rest : List Bytes) : Aligned rest []
  | inside {b : Bytes} {rest chunks : List Bytes} (c : Bytes) : b ≠ [] → Aligned (b :: rest) chunks →
      Aligned ((c ++ b) :: rest) (c :: chunks)
  | through {rest chunks : List Bytes} (b : Bytes) (passed : List Bytes) : Aligned rest chunks →
      Aligned (b :: passed ++ rest) ((b ++ passed.flatten) :: chunks)

lemma IsRequest.ne_nil {r : Bytes} (h : IsRequest r) : r ≠ [] := by
  rintro rfl
  have hc := h.complete
  rw [reading_nil] at hc
  simp [Parser.fresh] at hc

lemma IsRequest.consume_through {a b : Bytes} (h : IsRequest (a ++ b)) (hb : b ≠ []) (later : Bytes) :
    ((reading a).consume (b ++ later)).2 = .complete ∧
      ((reading a).consume (b ++ later)).1.msg = parsed (a ++ b) := by
  have hs : (reading (a ++ b)).Settled := Or.inl h.complete
  obtain ⟨hst, hm⟩ := hs.consume_append later
  change (reading (a ++ b ++ later)).state = _ at hst
  rw [consume_reading (h.not_settled hb), ← List.append_assoc]
  exact ⟨Parser.standing_eq_complete.mpr (hst.trans h.complete), hm⟩

def expected (a : Bytes) : List Bytes → List HttpRequest
  | [] => []
  | b :: rest => parsed (a ++ b) :: rest.map parsed

lemma expected_nil (rest : List Bytes) : expected [] rest = rest.map parsed := by
  cases rest <;> rfl

/-- Where a connection is in its client's stream: `a` of the current request is read, and the first of
`rest` is what is missing of it. -/
structure InStep (conn : Connection) (a : Bytes) (rest : List Bytes) : Prop where
  parser : conn.unsent ≠ [] ∧ a = [] ∨ conn.unsent = [] ∧ conn.parser = reading a
  current : ∀ b l, rest = b :: l → b ≠ [] ∧ IsRequest (a ++ b)
  later : ∀ r ∈ rest.tail, IsRequest r

lemma inStep_boundary {conn : Connection} {rest : List Bytes} (h : ∀ r ∈ rest, IsRequest r)
    (hc : conn.unsent = [] → conn.parser = Parser.fresh) : InStep conn [] rest := by
  refine ⟨?_, ?_, fun r hr => h r (List.mem_of_mem_tail hr)⟩
  · by_cases hu : conn.unsent = []
    · exact Or.inr ⟨hu, (hc hu).trans reading_nil.symm⟩
    · exact Or.inl ⟨hu, rfl⟩
  · rintro b l rfl
    exact ⟨(h b (by simp)).ne_nil, h b (by simp)⟩

lemma inStep_next {c : Connection} {sends : List SendResult} {rest : List Bytes}
    (h : ∀ r ∈ rest, IsRequest r) : InStep (c.flushWrite sends).next [] rest := by
  apply inStep_boundary h
  intro hu
  rw [Connection.Flush.unsent_next] at hu
  rw [Connection.Flush.next, if_pos ((c.flush_pending sends).mpr hu)]
  rfl

lemma InStep.read {conn : Connection} {a data : Bytes} {rest chunks : List Bytes}
    (hs : InStep conn a rest) (hu : conn.unsent = []) (ha : Aligned rest (data :: chunks)) :
    ((conn.parser.consume data).2 = .needMoreData ∧ ∃ a' rest', (conn.parser.consume data).1 = reading a' ∧
      InStep { conn with parser := reading a' } a' rest' ∧ Aligned rest' chunks ∧
        expected a' rest' ⊆ expected a rest) ∨
    ((conn.parser.consume data).2 = .complete ∧ (conn.parser.consume data).1.msg ∈ expected a rest ∧
      ∃ rest', (∀ r ∈ rest', IsRequest r) ∧ Aligned rest' chunks ∧ rest'.map parsed ⊆ expected a rest) := by
  obtain ⟨-, hp⟩ := hs.parser.resolve_left fun h => h.1 hu
  rw [hp]
  cases ha with
  | @inside b rest _ c hb h =>
    obtain ⟨-, hreq⟩ := hs.current _ _ rfl
    rw [← List.append_assoc] at hreq
    have hn : ¬ (reading a).Settled := by
      rw [List.append_assoc] at hreq
      exact hreq.not_settled (by simp [hb])
    rw [consume_reading hn]
    refine Or.inl ⟨Parser.standing_eq_needMoreData.mpr (hreq.not_settled hb), a ++ data, b :: rest, rfl,
      ?_, h, ?_⟩
    · refine ⟨Or.inr ⟨hu, rfl⟩, ?_, hs.later⟩
      rintro b' l hbl
      obtain ⟨rfl, rfl⟩ := List.cons.inj hbl
      exact ⟨hb, hreq⟩
    · simp [expected]
  | @through rest _ b passed h =>
    obtain ⟨hb, hreq⟩ := hs.current _ _ rfl
    obtain ⟨hst, hm⟩ := hreq.consume_through hb passed.flatten
    refine Or.inr ⟨hst, by simp [expected, hm], rest, ?_, h, ?_⟩
    · intro r hr
      exact hs.later r (by simp [hr])
    · intro r hr
      obtain ⟨s, hs, rfl⟩ := List.mem_map.mp hr
      exact List.mem_cons_of_mem _ (List.mem_map_of_mem (by simp [hs]))

namespace Service

variable {S : Service} {conn : Connection} {a : Bytes} {rest chunks : List Bytes}

structure Stays (a : Bytes) (rest chunks : List Bytes) (r : Connection × List Action) : Prop where
  requests : dispatched r.2 ⊆ expected a rest
  accepts : ∀ data st pending, .consumed data st pending .error ∉ r.2
  next : ∃ a' rest', InStep r.1 a' rest' ∧ Aligned rest' chunks ∧ expected a' rest' ⊆ expected a rest

lemma handlePending_stays (hs : InStep conn a rest) (hu : conn.unsent ≠ []) (io : ClientCalls)
    (ha : Aligned rest chunks) : Stays a rest chunks (handlePending io conn) := by
  obtain ⟨-, rfl⟩ := hs.parser.resolve_right fun h => hu h.1
  have hrest : ∀ r ∈ rest, IsRequest r := by
    intro r hr
    cases rest with
    | nil => simp at hr
    | cons b l =>
      rcases List.mem_cons.mp hr with rfl | hr
      · exact (hs.current r l rfl).2
      · exact hs.later r hr
  rw [handlePending_eq]
  exact ⟨by simp [dispatched], by simp, [], rest, inStep_next hrest, ha, List.Subset.refl _⟩

lemma handleEvent_stays (hs : InStep conn a rest) (env : S.Env) (io : ClientCalls)
    (ha : Aligned rest (received (S.handleEvent env io conn).2 ++ chunks)) :
    Stays a rest chunks (S.handleEvent env io conn) := by
  revert ha
  refine handleEvent_cases
    (motive := fun r => Aligned rest (received r.2 ++ chunks) → Stays a rest chunks r) ?_ ?_ ?_ ?_ ?_
  · intro hu ha
    apply handlePending_stays hs hu io
    rwa [handlePending_eq] at ha
  · intro hu act ha
    exact ⟨by simp [dispatched], by simp, a, rest, hs, ha, List.Subset.refl _⟩
  · intro hu data hc ha
    rcases hs.read hu ha with ⟨-, a', rest', hp, hi, ha', he⟩ | ⟨hc', -⟩
    · exact ⟨by simp [dispatched], by simp, a', rest', hp ▸ hi, ha', he⟩
    · simp [hc] at hc'
  · intro hu data hc c _ ha
    rcases hs.read hu ha with ⟨hc', -⟩ | ⟨hc', -⟩ <;> simp [hc] at hc'
  · intro hu data hc c hcc ha
    rw [handleComplete_eq env io rfl] at ha ⊢
    rcases hs.read hu ha with ⟨hc', -⟩ | ⟨-, hm, rest', hr, ha', he⟩
    · simp [hc] at hc'
    · have hcm : c.parser.msg ∈ expected a rest := by rwa [hcc]
      rw [← expected_nil] at he
      exact ⟨by simpa [dispatched] using hcm, by simp, [], rest', inStep_next hr, ha', he⟩

lemma run_stays (hs : InStep conn a rest) {events : List (S.Env × ClientCalls)}
    (ha : Aligned rest (received (S.run conn events).2)) :
    dispatched (S.run conn events).2 ⊆ expected a rest ∧
      ∀ data st pending, .consumed data st pending .error ∉ (S.run conn events).2 := by
  induction events generalizing conn a rest with
  | nil => simp [run, dispatched]
  | cons e events ih =>
    simp only [run] at ha ⊢
    split_ifs at ha ⊢ with hc
    · rw [← List.append_nil (received _)] at ha
      have hstay := handleEvent_stays hs e.1 e.2 ha
      exact ⟨hstay.requests, hstay.accepts⟩
    · dsimp only at ha ⊢
      rw [received_append] at ha
      obtain ⟨hreq, hacc, a', rest', hs', ha', he⟩ := handleEvent_stays hs e.1 e.2 ha
      obtain ⟨hreq', hacc'⟩ := ih hs' ha'
      refine ⟨?_, ?_⟩
      · rw [dispatched_append]
        exact List.append_subset.mpr ⟨hreq, List.Subset.trans hreq' he⟩
      · intro data st pending hm
        rcases List.mem_append.mp hm with hm | hm
        · exact hacc data st pending hm
        · exact hacc' data st pending hm

lemma run_requests {requests : List Bytes} {events : List (S.Env × ClientCalls)}
    (hr : ∀ r ∈ requests, IsRequest r) (ha : Aligned requests (received (S.run .fresh events).2)) :
    dispatched (S.run .fresh events).2 ⊆ requests.map parsed ∧
      ∀ data st pending, .consumed data st pending .error ∉ (S.run .fresh events).2 := by
  have hs : InStep .fresh [] requests := inStep_boundary hr fun _ => rfl
  rw [← expected_nil]
  exact run_stays hs ha

end Service

end HttpBalancer.Net

namespace HttpBalancer.System

open Net Server Balancer

theorem aligned_requests_only :
    (∀ (router : Router) (requests : List Bytes) (events : List (Unit × ClientCalls)),
      (∀ r ∈ requests, IsRequest r) →
      Aligned requests (received ((httpServer router).run .fresh events).2) →
      dispatched ((httpServer router).run .fresh events).2 ⊆ requests.map parsed ∧
        ∀ data st pending, .consumed data st pending .error ∉ ((httpServer router).run .fresh events).2) ∧
    (∀ (requests : List Bytes) (events : List (UpstreamCalls × ClientCalls)),
      (∀ r ∈ requests, IsRequest r) →
      Aligned requests (received (loadBalancer.run .fresh events).2) →
      dispatched (loadBalancer.run .fresh events).2 ⊆ requests.map parsed ∧
        ∀ data st pending, .consumed data st pending .error ∉ (loadBalancer.run .fresh events).2) := by
  refine ⟨?_, ?_⟩
  · intro router requests events hr ha
    exact Service.run_requests hr ha
  · intro requests events hr ha
    exact Service.run_requests hr ha

theorem aligned_requests_only_pipelined :
    let ping := lit "GET /health HTTP/1.1\r\n\r\n"
    let log := ((httpServer (routes 8080)).run .fresh
      [((), ⟨.received (lit "GET /hea"), []⟩),
        ((), ⟨.received (lit "lth HTTP/1.1\r\n\r\n" ++ ping), [.sent 10]⟩),
        ((), ⟨.again, [.failed]⟩), ((), ⟨.received ping, [.sent 1000]⟩)]).2
    dispatched log = [parsed ping, parsed ping] ∧ dispatched log ⊆ [ping, ping, ping].map parsed := by
  intro ping log
  have hping : IsRequest ping := ⟨by decide +kernel, by decide +kernel⟩
  have hread : received log = [lit "GET /hea", lit "lth HTTP/1.1\r\n\r\n" ++ ping, ping] := by decide +kernel
  refine ⟨by decide +kernel, (aligned_requests_only.1 (routes 8080) [ping, ping, ping] _ ?_ ?_).1⟩
  · simp [hping]
  · change Aligned _ (received log)
    rw [hread]
    exact .inside (b := lit "lth HTTP/1.1\r\n\r\n") (lit "GET /hea") (by decide)
      (.through _ [ping] (.through ping [] (.nil [])))

/-- The body of the second request is read as a request of its own, because the read that ended the
first one also held the headers of the second. -/
theorem request_body_served :
    let ping := lit "GET /health HTTP/1.1\r\n\r\n"
    let head := lit "POST /api/echo HTTP/1.1\r\nContent-Length: 26\r\n\r\n"
    let body := lit "GET /api/echo HTTP/1.1\r\n\r\n"
    let log := ((httpServer (routes 8080)).run .fresh
      [((), ⟨.received (ping ++ head), [.sent 1000]⟩), ((), ⟨.received body, [.sent 1000]⟩)]).2
    IsRequest ping ∧ IsRequest (head ++ body) ∧ (received log).flatten = [ping, head ++ body].flatten ∧
      parsed body ∈ dispatched log ∧ parsed body ∉ [ping, head ++ body].map parsed := by
  refine ⟨⟨?_, ?_⟩, ⟨?_, ?_⟩, ?_, ?_, ?_⟩ <;> decide +kernel

end HttpBalancer.System
