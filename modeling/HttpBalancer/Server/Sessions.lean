import HttpBalancer.Net.Requests
import HttpBalancer.Server.HttpServer

/-! A client that waits for each response before it sends its next request. After every response the
connection is as it was when it was accepted, whichever of the two places reset its parser. -/

namespace HttpBalancer.Net

def bytesRead (reads : List ClientCalls) : Bytes :=
  reads.flatMap fun io =>
    match io.recv with
    | .received data => data
    | _ => []

/-- The calls of `send` of successive events, without hard errors, of which the last takes the rest of
`n` bytes. -/
def Drains : ℕ → List (List SendResult) → Prop
  | _, [] => False
  | n, [sends] => NoHardError sends ∧ n ≤ room sends
  | n, sends :: next :: later => NoHardError sends ∧ room sends < n ∧ Drains (n - room sends) (next :: later)

namespace Service

variable {S : Service} {env : S.Env} {conn : Connection}

lemma passes_read {a b c : Bytes} {io : ClientCalls} (hu : conn.unsent = [])
    (hp : conn.parser = reading a) (hr : io.recv = .received b) (hb : b ≠ [])
    (h : IsRequest (a ++ b ++ c)) (hc : c ≠ []) :
    S.Passes conn [(env, io)] { conn with parser := reading (a ++ b) } [] [] := by
  have hcon := h.consume hb
  rw [if_neg hc, ← hp] at hcon
  have he : S.handleEvent env io conn = ({ conn with parser := reading (a ++ b) },
      [.consumed b conn.parser.state conn.hasPendingWrite .needMoreData, .rearmed .waitReadable]) := by
    rw [handleEvent_read hu hr hb, handleData, hcon]
  exact Passes.event he (by simp [rearms])

lemma passes_reads {a c : Bytes} {reads : List ClientCalls} (hu : conn.unsent = [])
    (hp : conn.parser = reading a)
    (hr : ∀ io ∈ reads, io.recv = .again ∨ ∃ data ≠ [], io.recv = .received data)
    (h : IsRequest (a ++ bytesRead reads ++ c)) (hc : c ≠ []) :
    ∃ conn', S.Passes conn (reads.map fun io => (env, io)) conn' [] [] ∧
      conn'.unsent = [] ∧ conn'.parser = reading (a ++ bytesRead reads) := by
  induction reads generalizing conn a with
  | nil => exact ⟨conn, .nil, hu, by simpa [bytesRead] using hp⟩
  | cons io reads ih =>
    have hrs : ∀ io ∈ reads, io.recv = .again ∨ ∃ data ≠ [], io.recv = .received data :=
      fun io hio => hr io (by simp [hio])
    rcases hr io (by simp) with hio | ⟨data, hd, hio⟩
    · have hb : bytesRead (io :: reads) = bytesRead reads := by simp [bytesRead, hio]
      rw [hb] at h ⊢
      obtain ⟨conn', hpass, hu', hp'⟩ := ih hu hp hrs h
      have he : S.Passes conn [(env, io)] conn [] [] :=
        Passes.event (handleEvent_again hu hio) (by simp [rearms])
      exact ⟨conn', he.append hpass, hu', hp'⟩
    · have hb : bytesRead (io :: reads) = data ++ bytesRead reads := by simp [bytesRead, hio]
      rw [hb, ← List.append_assoc] at h ⊢
      have hread : S.Passes conn [(env, io)] { conn with parser := reading (a ++ data) } [] [] := by
        rw [List.append_assoc] at h
        exact passes_read hu hp hio hd h (by simp [hc])
      have hu₁ : ({ conn with parser := reading (a ++ data) } : Connection).unsent = [] := hu
      obtain ⟨conn', hpass, hu', hp'⟩ := ih hu₁ rfl hrs h
      exact ⟨conn', hread.append hpass, hu', hp'⟩

lemma passes_pending {io : ClientCalls} (hu : conn.unsent ≠ []) (hk : conn.pendingKeepAlive = true) :
    S.Passes conn [(env, io)] (conn.flushWrite io.sends).next [] (conn.flushWrite io.sends).taken := by
  have he : S.handleEvent env io conn = _ := (handleEvent_pending hu).trans (handlePending_eq io conn)
  have ho : ∀ b : Bool, (if b then keepAliveAction conn.pendingKeepAlive else .waitWritable) ≠ .close := by
    simp [hk, keepAliveAction]
  simpa [dispatched, output] using Passes.event he (by simpa [rearms] using (ho _).symm)

lemma passes_drains {sends : List SendResult} {resumes : List ClientCalls}
    (hk : conn.pendingKeepAlive = true)
    (hd : Drains conn.unsent.length (sends :: resumes.map ClientCalls.sends)) :
    ∃ conn' out, S.Passes (conn.flushWrite sends).next (resumes.map fun io => (env, io)) conn' [] out ∧
      (conn.flushWrite sends).taken ++ out = conn.unsent ∧
      conn'.unsent = [] ∧ conn'.parser = Parser.fresh := by
  induction resumes generalizing conn sends with
  | nil =>
    obtain ⟨hs, hl⟩ := hd
    obtain ⟨ht, hu⟩ := conn.flush_room hs
    rw [List.take_of_length_le hl] at ht
    rw [List.drop_of_length_le hl] at hu
    refine ⟨_, [], .nil, by rw [ht, List.append_nil], by rwa [Connection.Flush.unsent_next], ?_⟩
    rw [Connection.Flush.next, if_pos ((conn.flushed_iff_room hs).mpr hl)]
    rfl
  | cons io resumes ih =>
    obtain ⟨hs, hl, hd⟩ := hd
    obtain ⟨ht, hu⟩ := conn.flush_room hs
    rw [← Connection.Flush.unsent_next] at hu
    have hn : (conn.flushWrite sends).next.unsent ≠ [] := by
      rw [hu]
      simpa using hl
    have hk' : (conn.flushWrite sends).next.pendingKeepAlive = true := by simpa using hk
    rw [← List.length_drop, ← hu] at hd
    obtain ⟨conn', out, hpass, hout, hend⟩ := ih hk' hd
    refine ⟨conn', _, (passes_pending hn hk').append hpass, ?_, hend⟩
    rw [hout, ht, hu, List.take_append_drop]

lemma passes_complete {a b : Bytes} {io : ClientCalls} {resumes : List ClientCalls}
    (hu : conn.unsent = []) (hp : conn.parser = reading a) (hr : io.recv = .received b) (hb : b ≠ [])
    (h : IsRequest (a ++ b)) (hk : (S.answer env (parsed (a ++ b))).keepAlive = true)
    (hrearm : ∀ c : Connection, c.pendingKeepAlive = true → S.rearm c.resetParser = .waitReadable)
    (hd : Drains (S.answer env (parsed (a ++ b))).data.length
      (io.sends :: resumes.map ClientCalls.sends)) :
    ∃ conn', S.Passes conn ((io :: resumes).map fun io => (env, io)) conn' [parsed (a ++ b)]
      (S.answer env (parsed (a ++ b))).data ∧ conn'.unsent = [] ∧ conn'.parser = Parser.fresh := by
  have hcon := IsRequest.consume (c := []) (by rwa [List.append_nil]) hb
  rw [if_pos rfl, ← hp] at hcon
  generalize hq : Connection.answer { conn with parser := reading (a ++ b) }
    (S.answer env (parsed (a ++ b))) = queued
  have he : S.handleEvent env io conn = _ := handleEvent_read hu hr hb
  simp only [handleData, hcon, handleComplete_eq env io hq.symm] at he
  have hqu : queued.unsent = (S.answer env (parsed (a ++ b))).data := by
    rw [← hq, unsent_answer]
    change conn.unsent ++ _ = _
    rw [hu, List.nil_append]
  have hkq : queued.pendingKeepAlive = true := by
    rw [← hq]
    exact hk
  rw [← hqu] at hd ⊢
  obtain ⟨conn', out, hpass, hout, hend⟩ :
      ∃ conn' out, S.Passes _ (resumes.map fun io => (env, io)) conn' [] out ∧ _ := passes_drains hkq hd
  have ho : ∀ b : Bool, (if b then RearmAction.waitReadable else .waitWritable) ≠ .close := by simp
  have hwait : S.rearm (queued.flushWrite io.sends).conn.resetParser = .waitReadable :=
    hrearm _ (by rw [Connection.pendingKeepAlive_flush, hkq])
  simp only [hwait] at he
  have hh := (Passes.event he (by simpa [rearms] using (ho _).symm)).append hpass
  refine ⟨conn', ?_, hend⟩
  simpa [dispatched, output, hout, parsed] using hh

end Service

end HttpBalancer.Net

namespace HttpBalancer.Server

open Net

structure Exchange where
  reads : List ClientCalls
  last : ClientCalls
  resumes : List ClientCalls

def Exchange.events (x : Exchange) : List ClientCalls := x.reads ++ x.last :: x.resumes

structure Exchange.Serves (router : Router) (r : Bytes) (x : Exchange) : Prop where
  reads : ∀ io ∈ x.reads, io.recv = .again ∨ ∃ data ≠ [], io.recv = .received data
  last : ∃ data ≠ [], x.last.recv = .received data
  request : bytesRead (x.reads ++ [x.last]) = r
  response : Drains (router.response (parsed r)).serialize.length
    (x.last.sends :: x.resumes.map ClientCalls.sends)

def serve (router : Router) (conn : Connection) (events : List ClientCalls) : Connection × List Action :=
  (httpServer router).run conn (events.map fun io => ((), io))

lemma passes_exchange {router : Router} {conn : Connection} {r : Bytes} {x : Exchange}
    (hu : conn.unsent = []) (hp : conn.parser = Parser.fresh) (hr : IsRequest r)
    (hk : (parsed r).keepAlive = true) (hx : x.Serves router r) :
    ∃ conn', (httpServer router).Passes conn (x.events.map fun io => ((), io)) conn' [parsed r]
      (router.response (parsed r)).serialize ∧ conn'.unsent = [] ∧ conn'.parser = Parser.fresh := by
  obtain ⟨data, hd, hlast⟩ := hx.last
  have hreq : bytesRead x.reads ++ data = r := by
    simpa [bytesRead, hlast] using hx.request
  subst hreq
  obtain ⟨conn₁, hpass₁, hu₁, hp₁⟩ :
      ∃ conn₁, (httpServer router).Passes conn (x.reads.map fun io => ((), io)) conn₁ [] [] ∧ _ :=
    Service.passes_reads (a := []) hu (hp.trans reading_nil.symm) hx.reads hr hd
  obtain ⟨conn₂, hpass₂, hu₂, hp₂⟩ : ∃ conn₂, (httpServer router).Passes conn₁
      ((x.last :: x.resumes).map fun io => ((), io)) conn₂ [parsed (bytesRead x.reads ++ data)]
      (router.response (parsed (bytesRead x.reads ++ data))).serialize ∧ _ :=
    Service.passes_complete hu₁ hp₁ hlast hd hr hk (fun _ _ => rfl) hx.response
  refine ⟨conn₂, ?_, hu₂, hp₂⟩
  rw [Exchange.events, List.map_append]
  exact hpass₁.append hpass₂

lemma passes_session {router : Router} {conn : Connection} {requests : List Bytes}
    {exchanges : List Exchange} (hu : conn.unsent = []) (hp : conn.parser = Parser.fresh)
    (hr : ∀ r ∈ requests, IsRequest r ∧ (parsed r).keepAlive = true)
    (hx : List.Forall₂ (Exchange.Serves router) requests exchanges) :
    ∃ conn', (httpServer router).Passes conn
      ((exchanges.flatMap Exchange.events).map fun io => ((), io)) conn' (requests.map parsed)
      (requests.flatMap fun r => (router.response (parsed r)).serialize) := by
  induction hx generalizing conn with
  | nil => exact ⟨conn, .nil⟩
  | @cons r x requests exchanges hxr _ ih =>
    obtain ⟨hreq, hk⟩ := hr r (by simp)
    obtain ⟨conn₁, hpass₁, hu₁, hp₁⟩ := passes_exchange hu hp hreq hk hxr
    obtain ⟨conn₂, hpass₂⟩ := ih hu₁ hp₁ fun r hr' => hr r (by simp [hr'])
    refine ⟨conn₂, ?_⟩
    rw [List.flatMap_cons, List.map_append]
    exact hpass₁.append hpass₂

theorem session_served (router : Router) (requests : List Bytes) (exchanges : List Exchange)
    (hr : ∀ r ∈ requests, IsRequest r ∧ (parsed r).keepAlive = true)
    (hx : List.Forall₂ (Exchange.Serves router) requests exchanges) :
    let log := (serve router .fresh (exchanges.flatMap Exchange.events)).2
    dispatched log = requests.map parsed ∧
      output log = requests.flatMap fun r => (router.response (parsed r)).serialize := by
  obtain ⟨conn, hpass⟩ := passes_session (rfl : Connection.fresh.unsent = []) rfl hr hx
  exact ⟨hpass.requests, hpass.sent⟩

theorem session_served_two :
    let requests := [lit "POST /api/echo HTTP/1.1\r\nContent-Length: 2\r\n\r\nhi",
      lit "GET /health HTTP/1.1\r\n\r\n"]
    let exchanges : List Exchange :=
      [⟨[⟨.received (lit "POST /api/ec"), []⟩, ⟨.again, []⟩],
        ⟨.received (lit "ho HTTP/1.1\r\nContent-Length: 2\r\n\r\nhi"), [.sent 10, .again]⟩,
        [⟨.again, [.again]⟩, ⟨.again, [.sent 5, .sent 1000]⟩]⟩,
      ⟨[], ⟨.received (lit "GET /health HTTP/1.1\r\n\r\n"), [.sent 1000]⟩, []⟩]
    let log := (serve (routes 8080) .fresh (exchanges.flatMap Exchange.events)).2
    dispatched log = requests.map parsed ∧
      output log = requests.flatMap fun r => ((routes 8080).response (parsed r)).serialize := by
  intro requests exchanges
  apply session_served (routes 8080) requests exchanges
  · simp only [requests, List.mem_cons, List.not_mem_nil, or_false, forall_eq_or_imp, forall_eq]
    exact ⟨⟨⟨by decide +kernel, by decide +kernel⟩, by decide +kernel⟩,
      ⟨⟨by decide +kernel, by decide +kernel⟩, by decide +kernel⟩⟩
  · refine .cons ⟨?_, ⟨_, by decide, rfl⟩, by decide +kernel, ?_⟩
      (.cons ⟨by simp, ⟨_, by decide, rfl⟩, by decide +kernel, ?_⟩ .nil)
    · simp only [List.mem_cons, List.not_mem_nil, or_false, forall_eq_or_imp, forall_eq]
      exact ⟨Or.inr ⟨_, by decide, rfl⟩, Or.inl trivial⟩
    · exact ⟨by decide, by decide +kernel, by decide, by decide +kernel, by decide, by decide +kernel⟩
    · exact ⟨by decide, by decide +kernel⟩

end HttpBalancer.Server
