import HttpBalancer.Net.Connection

/-! The worker's handling of one event on a client connection. `HttpServer::handleConnectionEvent`
and `LoadBalancer::handleClientEvent` differ in how a complete request is answered and in where the
re-arm after an immediate flush is read from. -/

namespace HttpBalancer.Net

inductive RearmAction
  | waitReadable
  | waitWritable
  | close
  deriving DecidableEq

/-- What a handler does, in order. `consumed` records the bytes read, the state the parser was in and
whether response bytes were pending; `accepted` are bytes the client's socket took. -/
inductive Action
  | consumed (data : Bytes) (state : State) (pending : Bool) (status : ParseStatus)
  | dispatched (req : HttpRequest)
  | queued (data : Bytes)
  | accepted (data : Bytes)
  | rearmed (action : RearmAction)
  deriving DecidableEq

structure ClientCalls where
  recv : RecvResult
  sends : List SendResult

structure Answer where
  data : Bytes
  keepAlive : Bool
  deriving DecidableEq

def Connection.answer (c : Connection) (a : Answer) : Connection :=
  (c.setPendingKeepAlive a.keepAlive).queueWrite a.data

/-- `Env` is what answering a request takes from outside; `rearm` reads the connection after the
parser was reset. -/
structure Service where
  Env : Type
  answer : Env → HttpRequest → Answer
  rearm : Connection → RearmAction

def keepAliveAction (keepAlive : Bool) : RearmAction := if keepAlive then .waitReadable else .close

def badRequest : HttpResponse :=
  { makeJsonResponse 400 (lit "Bad Request") (lit "\x7b\"error\":\"bad request\"\x7d") with
    keepAlive := false }

namespace Service

variable (S : Service)

def handlePending (io : ClientCalls) (conn : Connection) : Connection × List Action :=
  let f := conn.flushWrite io.sends
  if f.flushed then
    let conn := f.conn.resetParser
    (conn, [.accepted f.taken, .rearmed (keepAliveAction conn.pendingKeepAlive)])
  else (f.conn, [.accepted f.taken, .rearmed .waitWritable])

-- the parser is not reset here; a later flush does it before the connection is closed
def handleError (io : ClientCalls) (conn : Connection) : Connection × List Action :=
  let f := (conn.answer ⟨badRequest.serialize, false⟩).flushWrite io.sends
  (f.conn, [.queued badRequest.serialize, .accepted f.taken,
    .rearmed (if f.flushed then .close else .waitWritable)])

def handleComplete (env : S.Env) (io : ClientCalls) (conn : Connection) : Connection × List Action :=
  let req := conn.parser.msg
  let a := S.answer env req
  let f := (conn.answer a).flushWrite io.sends
  if f.flushed then
    let conn := f.conn.resetParser
    (conn, [.dispatched req, .queued a.data, .accepted f.taken, .rearmed (S.rearm conn)])
  else (f.conn, [.dispatched req, .queued a.data, .accepted f.taken, .rearmed .waitWritable])

def handleData (env : S.Env) (io : ClientCalls) (conn : Connection) (data : Bytes) :
    Connection × List Action :=
  let r := conn.parser.consume data
  let consumed := Action.consumed data conn.parser.state conn.hasPendingWrite r.2
  let conn := { conn with parser := r.1 }
  match r.2 with
  | .needMoreData => (conn, [consumed, .rearmed .waitReadable])
  | .error => let h := handleError io conn; (h.1, consumed :: h.2)
  | .complete => let h := S.handleComplete env io conn; (h.1, consumed :: h.2)

def handleEvent (env : S.Env) (io : ClientCalls) (conn : Connection) : Connection × List Action :=
  if conn.hasPendingWrite then handlePending io conn
  else
    match io.recv with
    | .received [] => (conn, [.rearmed .close])
    | .again => (conn, [.rearmed .waitReadable])
    | .failed => (conn, [.rearmed .close])
    | .received (b :: bs) => S.handleData env io conn (b :: bs)

variable {S} {env : S.Env} {io : ClientCalls} {conn : Connection}

lemma handleEvent_again (hu : conn.unsent = []) (hr : io.recv = .again) :
    S.handleEvent env io conn = (conn, [.rearmed .waitReadable]) := by
  simp [handleEvent, conn.hasPendingWrite_eq_false.mpr hu, hr]

lemma handleEvent_read {data : Bytes} (hu : conn.unsent = []) (hr : io.recv = .received data)
    (hd : data ≠ []) : S.handleEvent env io conn = S.handleData env io conn data := by
  obtain ⟨b, bs, rfl⟩ := List.exists_cons_of_ne_nil hd
  simp [handleEvent, conn.hasPendingWrite_eq_false.mpr hu, hr]

lemma handleEvent_pending (hu : conn.unsent ≠ []) : S.handleEvent env io conn = handlePending io conn := by
  rw [handleEvent, if_pos (conn.hasPendingWrite_iff.mpr hu)]

lemma handlePending_eq (io : ClientCalls) (conn : Connection) :
    handlePending io conn = ((conn.flushWrite io.sends).next,
      [.accepted (conn.flushWrite io.sends).taken,
        .rearmed (if (conn.flushWrite io.sends).flushed then keepAliveAction conn.pendingKeepAlive
          else .waitWritable)]) := by
  rw [handlePending, Connection.Flush.next]
  dsimp only
  split_ifs
  · rw [Connection.pendingKeepAlive_resetParser, Connection.pendingKeepAlive_flush]
  · rfl

lemma handleComplete_eq (env : S.Env) (io : ClientCalls) {queued : Connection}
    (hq : queued = conn.answer (S.answer env conn.parser.msg)) :
    S.handleComplete env io conn = ((queued.flushWrite io.sends).next,
      [.dispatched conn.parser.msg, .queued (S.answer env conn.parser.msg).data,
        .accepted (queued.flushWrite io.sends).taken,
        .rearmed (if (queued.flushWrite io.sends).flushed
          then S.rearm (queued.flushWrite io.sends).conn.resetParser else .waitWritable)]) := by
  subst hq
  rw [handleComplete, Connection.Flush.next]
  dsimp only
  split_ifs <;> rfl

lemma handleEvent_cases {motive : Connection × List Action → Prop}
    (pending : conn.unsent ≠ [] → motive (handlePending io conn))
    (idle : conn.unsent = [] → ∀ a, motive (conn, [.rearmed a]))
    (waiting : conn.unsent = [] → ∀ data, (conn.parser.consume data).2 = .needMoreData →
      motive ({ conn with parser := (conn.parser.consume data).1 },
        [.consumed data conn.parser.state false .needMoreData, .rearmed .waitReadable]))
    (error : conn.unsent = [] → ∀ data, (conn.parser.consume data).2 = .error →
      ∀ c, c = { conn with parser := (conn.parser.consume data).1 } →
      motive ((handleError io c).1,
        .consumed data conn.parser.state false .error :: (handleError io c).2))
    (complete : conn.unsent = [] → ∀ data, (conn.parser.consume data).2 = .complete →
      ∀ c, c = { conn with parser := (conn.parser.consume data).1 } →
      motive ((S.handleComplete env io c).1,
        .consumed data conn.parser.state false .complete :: (S.handleComplete env io c).2)) :
    motive (S.handleEvent env io conn) := by
  rw [handleEvent]
  split_ifs with hp
  · exact pending ((Connection.hasPendingWrite_iff conn).mp hp)
  · have hu : conn.unsent = [] := not_not.mp ((Connection.hasPendingWrite_iff conn).not.mp hp)
    have hf : conn.hasPendingWrite = false := by simpa using hp
    split
    · exact idle hu _
    · exact idle hu _
    · exact idle hu _
    · next data b bs _ =>
      rw [handleData, hf]
      dsimp only
      cases hc : (conn.parser.consume (b :: bs)).2 with
      | needMoreData => exact waiting hu _ hc
      | error => exact error hu _ hc _ rfl
      | complete => exact complete hu _ hc _ rfl

end Service

def rearms (log : List Action) : List RearmAction :=
  log.filterMap fun
    | .rearmed a => some a
    | _ => none

lemma rearms_append (l l' : List Action) : rearms (l ++ l') = rearms l ++ rearms l' :=
  List.filterMap_append

lemma Service.handleEvent_rearm (S : Service) (env : S.Env) (io : ClientCalls) (conn : Connection) :
    ∃ log a, (S.handleEvent env io conn).2 = log ++ [.rearmed a] ∧ rearms log = [] := by
  have hlast : ∀ (l : List Action) (a : RearmAction), rearms l = [] →
      ∃ log b, l ++ [.rearmed a] = log ++ [.rearmed b] ∧ rearms log = [] :=
    fun l a hl => ⟨l, a, rfl, hl⟩
  refine handleEvent_cases (motive := fun r => ∃ log a, r.2 = log ++ [.rearmed a] ∧ rearms log = [])
    ?_ ?_ ?_ ?_ ?_
  · intro _
    rw [handlePending_eq]
    exact hlast [_] _ rfl
  · intro _ a
    exact hlast [] a rfl
  · intro _ data _
    exact hlast [_] _ rfl
  · intro _ data _ c _
    exact hlast [_, _, _] _ rfl
  · intro _ data _ c _
    rw [handleComplete_eq env io rfl]
    exact hlast [_, _, _, _] _ rfl

end HttpBalancer.Net
