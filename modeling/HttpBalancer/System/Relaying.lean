import HttpBalancer.Server.Sessions
import HttpBalancer.System.Transparency

/-! A whole keep-alive session through the load balancer. Each request may go to another upstream, and
the client reads off its connection what that upstream would have told it directly. -/

namespace HttpBalancer.System

open Net Server Balancer

/-- The responses a client reads off `s`, one after the other. -/
def readReplies : ℕ → Bytes → List HttpResponseParser
  | 0, _ => []
  | n + 1, s =>
    let p := ((Parser.fresh : HttpResponseParser).consume s).1
    p :: readReplies n p.buffer

/-- One request through the balancer: the calls on the client's connection, the upstream's port and the
calls to it. -/
structure Relay where
  client : Exchange
  port : UInt16
  upstream : UpstreamCalls

namespace Relay

def events (x : Relay) : List (UpstreamCalls × ClientCalls) := x.client.events.map fun io => (x.upstream, io)

def reply (x : Relay) (r : Bytes) : HttpResponse :=
  { ((routes x.port).response (forwarded (parsed r))).reparsed with keepAlive := (parsed r).keepAlive }

structure Serves (r : Bytes) (x : Relay) : Prop where
  reads : ∀ io ∈ x.client.reads, io.recv = .again ∨ ∃ data ≠ [], io.recv = .received data
  last : ∃ data ≠ [], x.client.last.recv = .received data
  request : bytesRead (x.client.reads ++ [x.client.last]) = r
  upstream : ServedBy x.port x.upstream (parsed r)
  response : Drains (proxyRequest x.upstream (parsed r)).1.data.length
    (x.client.last.sends :: x.client.resumes.map ClientCalls.sends)

lemma answer {r : Bytes} {x : Relay} (hr : IsRequest r) (hx : x.Serves r) :
    (proxyRequest x.upstream (parsed r)).1 = ⟨(x.reply r).serialize, (parsed r).keepAlive⟩ :=
  ServedBy.reply hr.complete hx.upstream

lemma reply_serializable (x : Relay) (r : Bytes) : Serializable (x.reply r) :=
  (reparsed_serializable (routes_serializable x.port _)).withKeepAlive _

lemma passes_relay {conn : Connection} {r : Bytes} {x : Relay} (hu : conn.unsent = [])
    (hp : conn.parser = Parser.fresh) (hr : IsRequest r) (hk : (parsed r).keepAlive = true)
    (hx : x.Serves r) :
    ∃ conn', loadBalancer.Passes conn x.events conn' [parsed r] (x.reply r).serialize ∧
      conn'.unsent = [] ∧ conn'.parser = Parser.fresh := by
  have ha := answer hr hx
  obtain ⟨data, hd, hlast⟩ := hx.last
  have hreq : bytesRead x.client.reads ++ data = r := by
    simpa [bytesRead, hlast] using hx.request
  subst hreq
  obtain ⟨conn₁, hpass₁, hu₁, hp₁⟩ :
      ∃ conn₁, loadBalancer.Passes conn (x.client.reads.map fun io => (x.upstream, io)) conn₁ [] [] ∧ _ :=
    Service.passes_reads (a := []) hu (hp.trans reading_nil.symm) hx.reads hr hd
  have hkeep : (loadBalancer.answer x.upstream (parsed (bytesRead x.client.reads ++ data))).keepAlive = true :=
    (congrArg Answer.keepAlive ha).trans hk
  obtain ⟨conn₂, hpass₂, hend⟩ : ∃ conn₂, loadBalancer.Passes conn₁ _ conn₂ _ _ ∧ _ :=
    Service.passes_complete hu₁ hp₁ hlast hd hr hkeep
      (fun c hc => by simp [loadBalancer, keepAliveAction, hc]) hx.response
  refine ⟨conn₂, ?_, hend⟩
  have hpass := hpass₁.append hpass₂
  rw [← List.map_append] at hpass
  simpa [events, Exchange.events, loadBalancer, ha] using hpass

end Relay

lemma passes_relays {conn : Connection} {requests : List Bytes} {relays : List Relay}
    (hu : conn.unsent = []) (hp : conn.parser = Parser.fresh)
    (hr : ∀ r ∈ requests, IsRequest r ∧ (parsed r).keepAlive = true)
    (hx : List.Forall₂ (fun r x => Relay.Serves r x) requests relays) :
    ∃ conn', loadBalancer.Passes conn (relays.flatMap Relay.events) conn' (requests.map parsed)
      (((requests.zip relays).map fun e => e.2.reply e.1).map HttpResponse.serialize).flatten ∧
      conn'.unsent = [] ∧ conn'.parser = Parser.fresh := by
  induction hx generalizing conn with
  | nil => exact ⟨conn, .nil, hu, hp⟩
  | @cons r x requests relays hxr _ ih =>
    obtain ⟨hreq, hk⟩ := hr r (by simp)
    obtain ⟨conn₁, hpass₁, hu₁, hp₁⟩ := Relay.passes_relay hu hp hreq hk hxr
    obtain ⟨conn₂, hpass₂, hend⟩ := ih hu₁ hp₁ fun r hr' => hr r (by simp [hr'])
    exact ⟨conn₂, hpass₁.append hpass₂, hend⟩

lemma consume_serialize_append {r : HttpResponse} (h : Serializable r) (rest : Bytes) :
    let p := ((Parser.fresh : HttpResponseParser).consume (r.serialize ++ rest)).1
    p.state = .complete ∧ p.msg = r.reparsed ∧ p.buffer = rest := by
  intro p
  have hc := congrArg Prod.fst (serialize_consume h)
  obtain ⟨hs, hm⟩ := serialize_consume_append h rest
  refine ⟨hs, hm, ?_⟩
  have hsettled : (((Parser.fresh : HttpResponseParser).consume r.serialize).1.append rest).Settled := by
    rw [hc]
    exact Or.inl rfl
  have hp : p = ((Parser.fresh : HttpResponseParser).consume r.serialize).1.append rest := by
    change ((Parser.fresh : HttpResponseParser).consume (r.serialize ++ rest)).1 = _
    rw [← Parser.consume_incremental.state]
    exact congrArg Prod.fst hsettled.process
  rw [hp, hc]
  rfl

lemma readReplies_serialize {replies : List HttpResponse} (h : ∀ r ∈ replies, Serializable r) :
    List.Forall₂ (fun r p => p.state = .complete ∧ p.msg = r.reparsed) replies
      (readReplies replies.length (replies.map HttpResponse.serialize).flatten) := by
  induction replies with
  | nil => exact .nil
  | cons r replies ih =>
    obtain ⟨hs, hm, hb⟩ := consume_serialize_append (h r (by simp)) (replies.map HttpResponse.serialize).flatten
    refine .cons ⟨hs, hm⟩ ?_
    rw [List.map_cons, List.flatten_cons, hb]
    exact ih fun r hr => h r (by simp [hr])

lemma readReplies_map {α : Type} (l : List α) (f : α → HttpResponse) (h : ∀ a, Serializable (f a)) :
    List.Forall₂ (fun a p => p.state = .complete ∧ p.msg = (f a).reparsed) l
      (readReplies l.length ((l.map f).map HttpResponse.serialize).flatten) := by
  have hs : ∀ r ∈ l.map f, Serializable r := by simpa using fun a _ => h a
  have hh := readReplies_serialize hs
  rw [List.forall₂_map_left_iff, List.length_map] at hh
  exact hh

lemma relay_sameReply {r : Bytes} {x : Relay} {p q : HttpResponseParser}
    (hp : p.state = .complete ∧ p.msg = ((routes x.port).response (parsed r)).reparsed)
    (hq : q.state = .complete ∧ q.msg = (x.reply r).reparsed) : SameReply p q :=
  relayed_sameReply hp hq

lemma forall₂_join {α β γ : Type} {R : α → β → Prop} {S : α → γ → Prop} {T : β → γ → Prop} {l : List α}
    {m : List β} {n : List γ} (h : ∀ a b c, R a b → S a c → T b c) (hm : List.Forall₂ R l m)
    (hn : List.Forall₂ S l n) : List.Forall₂ T m n := by
  induction hm generalizing n with
  | nil =>
    cases hn
    exact .nil
  | cons hab _ ih =>
    cases hn with
    | cons hac hn => exact .cons (h _ _ _ hab hac) (ih hn)

theorem session_relayed (requests : List Bytes) (relays : List Relay)
    (hr : ∀ r ∈ requests, IsRequest r ∧ (parsed r).keepAlive = true)
    (hx : List.Forall₂ (fun r x => Relay.Serves r x) requests relays) :
    let log := (loadBalancer.run .fresh (relays.flatMap Relay.events)).2
    dispatched log = requests.map parsed ∧
    List.Forall₂ (fun e q => SameReply
        ((Parser.fresh : HttpResponseParser).consume ((routes e.2.port).response (parsed e.1)).serialize).1 q)
      (requests.zip relays) (readReplies requests.length (output log)) ∧
    ∀ port exchanges, (∀ x ∈ relays, x.port = port) →
      List.Forall₂ (Exchange.Serves (routes port)) requests exchanges →
      List.Forall₂ SameReply
        (readReplies requests.length
          (output (serve (routes port) .fresh (exchanges.flatMap Exchange.events)).2))
        (readReplies requests.length (output log)) := by
  intro log
  obtain ⟨conn, hpass, -, -⟩ := passes_relays (rfl : Connection.fresh.unsent = []) rfl hr hx
  have hlen : (requests.zip relays).length = requests.length := by simp [hx.length_eq]
  have hrelayed := readReplies_map (requests.zip relays) (fun e => e.2.reply e.1)
    fun e => e.2.reply_serializable e.1
  rw [hlen, ← hpass.sent] at hrelayed
  refine ⟨hpass.requests, hrelayed.imp fun e q hq => ?_, fun port exchanges hport hserves => ?_⟩
  · have hd := serialize_consume (routes_serializable e.2.port (parsed e.1))
    exact relay_sameReply ⟨by rw [hd], by rw [hd]⟩ hq
  · obtain ⟨_, hdirect⟩ := passes_session (rfl : Connection.fresh.unsent = []) rfl hr hserves
    have hsent := readReplies_map (requests.zip relays) (fun e => (routes e.2.port).response (parsed e.1))
      fun e => routes_serializable e.2.port (parsed e.1)
    have hmap : ((requests.zip relays).map fun e => (routes e.2.port).response (parsed e.1)) =
        requests.map fun r => (routes port).response (parsed r) := by
      have hfst : (requests.zip relays).map Prod.fst = requests := List.map_fst_zip hx.length_eq.le
      conv_rhs => rw [← hfst, List.map_map]
      apply List.map_congr_left
      intro e he
      rw [hport e.2 (List.of_mem_zip he).2]
      rfl
    rw [hlen, hmap, List.map_map, ← List.flatMap_def] at hsent
    change List.Forall₂ _ _ (readReplies _
      (requests.flatMap fun r => ((routes port).response (parsed r)).serialize)) at hsent
    rw [← hdirect.sent] at hsent
    exact forall₂_join (fun e p q hp hq => relay_sameReply (r := e.1) (x := e.2) hp hq) hsent hrelayed

theorem session_relayed_two_upstreams :
    let requests := [lit "GET /health HTTP/1.1\r\n\r\n", lit "GET / HTTP/1.1\r\n\r\n"]
    let relays : List Relay :=
      [⟨⟨[⟨.received (lit "GET /hea"), []⟩], ⟨.received (lit "lth HTTP/1.1\r\n\r\n"), [.sent 9, .again]⟩,
          [⟨.again, [.sent 1000]⟩]⟩, 9001, promptUpstream 9001⟩,
       ⟨⟨[], ⟨.received (lit "GET / HTTP/1.1\r\n\r\n"), [.sent 1000]⟩, []⟩, 9002, promptUpstream 9002⟩]
    List.Forall₂ (fun e q => SameReply
        ((Parser.fresh : HttpResponseParser).consume ((routes e.2.port).response (parsed e.1)).serialize).1 q)
      (requests.zip relays)
      (readReplies 2 (output (loadBalancer.run .fresh (relays.flatMap Relay.events)).2)) := by
  intro requests relays
  have hhealth : ServedBy 9001 (promptUpstream 9001) (parsed (lit "GET /health HTTP/1.1\r\n\r\n")) :=
    ⟨⟨by decide, rfl, rfl, by decide +kernel⟩,
      [((), ⟨.received (upstreamRequest (parsed (lit "GET /health HTTP/1.1\r\n\r\n"))), [.sent 1000]⟩)],
      ⟨List.forall_mem_singleton.mpr (by decide), by decide +kernel, by decide +kernel, by decide +kernel⟩,
      by decide +kernel⟩
  have hroot : ServedBy 9002 (promptUpstream 9002) (parsed (lit "GET / HTTP/1.1\r\n\r\n")) :=
    ⟨⟨by decide, rfl, rfl, by decide +kernel⟩,
      [((), ⟨.received (upstreamRequest (parsed (lit "GET / HTTP/1.1\r\n\r\n"))), [.sent 1000]⟩)],
      ⟨List.forall_mem_singleton.mpr (by decide), by decide +kernel, by decide +kernel, by decide +kernel⟩,
      by decide +kernel⟩
  refine (session_relayed requests relays ?_ ?_).2.1
  · simp only [requests, List.mem_cons, List.not_mem_nil, or_false, forall_eq_or_imp, forall_eq]
    exact ⟨⟨⟨by decide +kernel, by decide +kernel⟩, by decide +kernel⟩,
      ⟨⟨by decide +kernel, by decide +kernel⟩, by decide +kernel⟩⟩
  · refine .cons ⟨?_, ⟨_, by decide, rfl⟩, by decide +kernel, ?_, ?_⟩
      (.cons ⟨by simp, ⟨_, by decide, rfl⟩, by decide +kernel, ?_, ?_⟩ .nil)
    · simp only [List.mem_cons, List.not_mem_nil, or_false, forall_eq]
      exact Or.inr ⟨_, by decide, rfl⟩
    · exact hhealth
    · exact ⟨by decide, by decide +kernel, by decide, by decide +kernel⟩
    · exact hroot
    · exact ⟨by decide, by decide +kernel⟩

end HttpBalancer.System
