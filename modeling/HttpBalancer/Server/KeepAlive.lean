import HttpBalancer.Net.ConnectionRuns
import HttpBalancer.Server.HttpServer

/-! Which re-arm the server posts once a response is written. After an immediate flush it comes from
the parser that was just reset, so a client that asked for `close` is kept; a resumed flush gets it
right. -/

namespace HttpBalancer.Net.Service

variable (S : Service)

def actionWhenWritten : Connection → List (S.Env × ClientCalls) → Option RearmAction
  | _, [] => none
  | conn, (env, io) :: events =>
    let r := S.handleEvent env io conn
    if r.1.hasPendingWrite then actionWhenWritten r.1 events else (rearms r.2).getLast?

variable {S}

lemma actionWhenWritten_written {conn : Connection} {env : S.Env} {io : ClientCalls}
    {events : List (S.Env × ClientCalls)} (h : (S.handleEvent env io conn).1.unsent = []) :
    S.actionWhenWritten conn ((env, io) :: events) = (rearms (S.handleEvent env io conn).2).getLast? := by
  rw [actionWhenWritten, if_neg]
  rw [Connection.hasPendingWrite_iff, h]
  simp

lemma actionWhenWritten_left {conn : Connection} {env : S.Env} {io : ClientCalls}
    {events : List (S.Env × ClientCalls)} (h : (S.handleEvent env io conn).1.unsent ≠ []) :
    S.actionWhenWritten conn ((env, io) :: events) =
      S.actionWhenWritten (S.handleEvent env io conn).1 events := by
  rw [actionWhenWritten, if_pos ((Connection.hasPendingWrite_iff _).mpr h)]

lemma actionWhenWritten_pending {conn : Connection} {events : List (S.Env × ClientCalls)}
    {a : RearmAction} (hp : conn.unsent ≠ []) (h : S.actionWhenWritten conn events = some a) :
    a = keepAliveAction conn.pendingKeepAlive := by
  induction events generalizing conn with
  | nil => simp [actionWhenWritten] at h
  | cons e events ih =>
    obtain ⟨env, io⟩ := e
    have he : S.handleEvent env io conn = _ := (handleEvent_pending hp).trans (handlePending_eq io conn)
    have hf := conn.flush_pending io.sends
    by_cases hd : (conn.flushWrite io.sends).flushed = true
    · rw [actionWhenWritten_written (by simpa [he] using hf.mp hd), he] at h
      simpa [rearms, hd] using h.symm
    · have hu : (conn.flushWrite io.sends).next.unsent ≠ [] := by
        rw [Connection.Flush.unsent_next]
        exact fun hu => hd (hf.mpr hu)
      rw [actionWhenWritten_left (by rwa [he]), he] at h
      simpa using ih hu h

lemma actionWhenWritten_complete {conn queued : Connection} {b : UInt8} {bs : Bytes}
    {sends : List SendResult} {events : List (S.Env × ClientCalls)} {env : S.Env} {a : RearmAction}
    {p : HttpParser} (hp : conn.unsent = []) (hc : conn.parser.consume (b :: bs) = (p, .complete))
    (hq : queued = Connection.answer { conn with parser := p } (S.answer env p.msg))
    (h : S.actionWhenWritten conn ((env, ⟨.received (b :: bs), sends⟩) :: events) = some a) :
    a = if (queued.flushWrite sends).flushed then S.rearm (queued.flushWrite sends).conn.resetParser
      else keepAliveAction (S.answer env p.msg).keepAlive := by
  have he : S.handleEvent env ⟨.received (b :: bs), sends⟩ conn = _ :=
    handleEvent_read hp rfl (List.cons_ne_nil b bs)
  simp only [handleData, hc, handleComplete_eq env _ hq] at he
  have hf := queued.flush_pending sends
  by_cases hd : (queued.flushWrite sends).flushed = true
  · rw [if_pos hd]
    rw [actionWhenWritten_written (by simpa [he] using hf.mp hd), he] at h
    simpa [rearms, hd] using h.symm
  · have hu : (queued.flushWrite sends).next.unsent ≠ [] := by
      rw [Connection.Flush.unsent_next]
      exact fun hu => hd (hf.mpr hu)
    rw [if_neg hd]
    rw [actionWhenWritten_left (by rwa [he]), he] at h
    rw [actionWhenWritten_pending hu h, Connection.Flush.pendingKeepAlive_next,
      Connection.pendingKeepAlive_flush, hq]
    rfl

end HttpBalancer.Net.Service

namespace HttpBalancer.Server

open Net

lemma rearm_resetParser (router : Router) (conn : Connection) :
    (httpServer router).rearm conn.resetParser = .waitReadable := rfl

/-- The re-arm after a response agrees with the request's keep-alive exactly when the client asked
for keep-alive or the socket could not take the whole response at once. -/
theorem rearm_follows_keepAlive (router : Router) (conn : Connection) (b : UInt8) (bs : Bytes)
    (sends : List SendResult) (later : List (Unit × ClientCalls)) (a : RearmAction)
    (hp : conn.hasPendingWrite = false) (hc : (conn.parser.consume (b :: bs)).2 = .complete)
    (hs : NoHardError sends)
    (ha : (httpServer router).actionWhenWritten conn (((), ⟨.received (b :: bs), sends⟩) :: later) =
      some a) :
    let req := (conn.parser.consume (b :: bs)).1.msg
    (a = if req.keepAlive then .waitReadable else .close) ↔
      req.keepAlive = true ∨ room sends < (router.response req).serialize.length := by
  have hu : conn.unsent = [] := conn.hasPendingWrite_eq_false.mp hp
  generalize hq : conn.parser.consume (b :: bs) = r at hc ⊢
  obtain ⟨p, status⟩ := r
  obtain rfl : status = .complete := hc
  have hh := Service.actionWhenWritten_complete hu hq rfl ha
  have hl : (Connection.answer { conn with parser := p }
      ((httpServer router).answer () p.msg)).unsent = (router.response p.msg).serialize := by
    rw [Connection.answer, Connection.unsent_queueWrite, Connection.unsent_setPendingKeepAlive]
    change conn.unsent ++ _ = _
    rw [hu]
    rfl
  have hr := Connection.flushed_iff_room
    (Connection.answer { conn with parser := p } ((httpServer router).answer () p.msg)) hs
  rw [hl] at hr
  simp only [hr] at hh
  subst hh
  dsimp only
  by_cases hf : (router.response p.msg).serialize.length ≤ room sends
  · -- written at once: the re-arm reads the request of the parser that was just reset
    rw [if_pos hf, rearm_resetParser]
    cases hk : p.msg.keepAlive <;> simp [hf]
  · rw [if_neg hf]
    change keepAliveAction p.msg.keepAlive = _ ↔ _
    cases hk : p.msg.keepAlive <;> simp [keepAliveAction, not_le.mp hf]

theorem rearm_follows_keepAlive_resumed :
    let req := lit "GET /health HTTP/1.1\r\nConnection: close\r\n\r\n"
    let p := ((Parser.fresh : HttpParser).consume req).1
    (httpServer (routes 8080)).actionWhenWritten .fresh
      [((), ⟨.received req, [.sent 20, .again]⟩), ((), ⟨.again, [.sent 1000]⟩)] = some .close ∧
    ((RearmAction.close = if p.msg.keepAlive then .waitReadable else .close) ↔
      p.msg.keepAlive = true ∨
        room [.sent 20, .again] < ((routes 8080).response p.msg).serialize.length) := by
  refine ⟨by decide +kernel, ?_⟩
  exact rearm_follows_keepAlive (routes 8080) .fresh _ _ [.sent 20, .again] [((), ⟨.again, [.sent 1000]⟩)]
    .close rfl (by decide +kernel) (by decide) (by decide +kernel)

theorem closing_client_kept :
    let req := lit "GET /health HTTP/1.1\r\nConnection: close\r\n\r\n"
    let p := ((Parser.fresh : HttpParser).consume req).1
    p.state = .complete ∧ p.msg.keepAlive = false ∧ NoHardError [.sent 1000] ∧
      (httpServer (routes 8080)).actionWhenWritten .fresh [((), ⟨.received req, [.sent 1000]⟩)] =
        some .waitReadable := by
  refine ⟨?_, ?_, ?_, ?_⟩ <;> decide +kernel

end HttpBalancer.Server
