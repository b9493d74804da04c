import HttpBalancer.Balancer.Probes
import HttpBalancer.Lib.Blocks
import HttpBalancer.Server.HttpServer
import HttpBalancer.System.EventLoop

/-! What the reactor, the workers and the checker run, call by call. The two services differ in what a worker
does with a complete request. -/

namespace HttpBalancer.System

open Net Server Balancer Lib

inductive SockOpt
  | reuseAddr
  | rcvTimeo
  | sndTimeo
  | noDelay
  deriving DecidableEq

/-- The word of `F_GETFL`. -/
structure Flags where
  nonBlock : Bool
  others : UInt32
  deriving DecidableEq

/-- The calls to the system and to the event loop, whose own descriptor is `loop`, and what the threads do
under a lock: to `connections_`, to `pendingRearms_` and to the queue of the pool. -/
inductive Syscall
  | socket
  | setsockopt (fd : Fd) (opt : SockOpt)
  | getFlags (fd : Fd)
  | setFlags (fd : Fd) (flags : Flags)
  | inetPton (host : Bytes)
  | bind (fd : Fd) (port : UInt16)
  | listen (fd : Fd) (backlog : ℕ)
  | accept (fd : Fd)
  | connect (fd : Fd) (port : UInt16)
  | send (fd : Fd) (data : Bytes)
  | recv (fd : Fd) (size : ℕ)
  | close (fd : Fd)
  | createLoop
  | add (loop : Option Fd) (fd : Fd) (interestMask : UInt8)
  | modify (loop : Option Fd) (fd : Fd) (interestMask : UInt8)
  | remove (loop : Option Fd) (fd : Fd)
  | wait (loop : Option Fd) (timeoutMs : ℕ)
  | running
  | insert (fd : Fd)
  | count (fd : Fd)
  | find (fd : Fd)
  | swapRearms
  | postRearm (fd : Fd) (action : RearmAction)
  | enqueue (fd : Fd)

inductive Accepted
  | fd (fd : Fd)
  | again
  | failed

@[reducible] def Syscall.Result : Syscall → Type
  | .socket | .createLoop => Option Fd
  | .getFlags _ => Option Flags
  | .accept _ => Accepted
  | .send _ _ => SendResult
  | .recv _ _ => RecvResult
  | .find _ => Option Connection
  | .wait _ _ => List IoEvent
  | .swapRearms => List (Fd × RearmAction)
  | .close _ | .insert _ | .postRearm _ _ | .enqueue _ => Unit
  | .setsockopt _ _ | .setFlags _ _ | .inetPton _ | .bind _ _ | .listen _ _ | .connect _ _
  | .add _ _ _ | .modify _ _ _ | .remove _ _ | .running | .count _ => Bool

structure Client where
  fd : Fd
  conn : Connection

/-- The heads of the loops: of `reactorLoop`, of `handleAccept`, and of the reads of an upstream's response. -/
inductive Point
  | polling (listenFd : Fd) (loop : Option Fd)
  | accepting (listenFd : Fd) (loop : Option Fd) (events : List IoEvent)
  | receiving (client : Option Client) (ufd : Fd) (parser : HttpResponseParser) (req : HttpRequest)
  | probing (fd : Fd) (parser : HttpResponseParser)

/-- `handled` has the connection as its handler leaves it, if there was one. -/
inductive Outcome
  | stopped
  | handled (left : Option (Connection × RearmAction))
  | proxied (answer : Answer × Bool)
  | probed (ok : Bool)

abbrev Code := Block Syscall Syscall.Result Point Outcome

structure AcceptResult where
  sock : Option Fd
  wouldBlock : Bool

namespace Code

def setNonBlocking (fd : Fd) (k : Bool → Code) : Code :=
  .call (.getFlags fd) fun
    | none => k false
    | some flags => .call (.setFlags fd { flags with nonBlock := true }) k

def createListenSocket (port : UInt16) (backlog : ℕ) (k : Option Fd → Code) : Code :=
  .call .socket fun
    | none => k none
    | some fd =>
      let fail : Code := .call (.close fd) fun _ => k none
      .call (.setsockopt fd .reuseAddr) fun _ =>
        setNonBlocking fd fun ok =>
          if ok then
            .call (.bind fd port) fun ok =>
              if ok then
                .call (.listen fd backlog) fun ok => if ok then k (some fd) else fail
              else fail
          else fail

def acceptNonBlocking (listenFd : Fd) (k : AcceptResult → Code) : Code :=
  .call (.accept listenFd) fun
    | .again => k ⟨none, true⟩
    | .failed => k ⟨none, false⟩
    | .fd fd => setNonBlocking fd fun ok =>
        if ok then k ⟨some fd, false⟩ else .call (.close fd) fun _ => k ⟨none, false⟩

-- the entry that goes closes its socket
def erase (loop : Option Fd) (fd : Fd) (k : Code) : Code :=
  .call (.remove loop fd) fun _ => .call (.close fd) fun _ => k

def applyPendingRearms (loop : Option Fd) (k : Code) : List (Fd × RearmAction) → Code
  | [] => k
  | (fd, action) :: rearms => .call (.count fd) fun
      | false => applyPendingRearms loop k rearms
      | true =>
        match action with
        | .waitReadable => .call (.modify loop fd EventType.readable) fun _ => applyPendingRearms loop k rearms
        | .waitWritable => .call (.modify loop fd EventType.writable) fun _ => applyPendingRearms loop k rearms
        | .close => erase loop fd (applyPendingRearms loop k rearms)

def dispatch (listenFd : Fd) (loop : Option Fd) : List IoEvent → Code
  | [] => .jump (.polling listenFd loop)
  | ev :: events =>
    if ev.fd = listenFd then .jump (.accepting listenFd loop events)
    else .call (.count ev.fd) fun
      | false => dispatch listenFd loop events
      | true =>
        if ev.error then erase loop ev.fd (dispatch listenFd loop events)
        else .call (.modify loop ev.fd 0) fun _ =>
          .call (.enqueue ev.fd) fun _ => dispatch listenFd loop events

def reactorLoop (listenFd : Fd) (loop : Option Fd) : Code :=
  .call .running fun
    | false => .ret .stopped
    | true => .call .swapRearms fun rearms =>
        applyPendingRearms loop (.call (.wait loop 100) fun events => dispatch listenFd loop events) rearms

def handleAccept (listenFd : Fd) (loop : Option Fd) (events : List IoEvent) : Code :=
  acceptNonBlocking listenFd fun res =>
    if res.wouldBlock then dispatch listenFd loop events
    else
      match res.sock with
      | none => dispatch listenFd loop events
      | some fd =>
        .call (.setsockopt fd .noDelay) fun _ =>
          .call (.insert fd) fun _ =>
            .call (.add loop fd EventType.readable) fun _ => .jump (.accepting listenFd loop events)

def run (port : UInt16) : Code :=
  createListenSocket port 1024 fun
    | none => .ret .stopped
    | some listenFd => .call .createLoop fun loop =>
        .call (.add loop listenFd EventType.readable) fun _ => .jump (.polling listenFd loop)

def postRearm (fd : Fd) (conn : Connection) (action : RearmAction) : Code :=
  .call (.postRearm fd action) fun _ => .ret (.handled (some (conn, action)))

def flushWrite (fd : Fd) (k : Bool → Connection → Code) (conn : Connection) : Code :=
  if conn.hasPendingWrite then
    .call (.send fd conn.unsent) fun
      | .sent (n + 1) => flushWrite fd k (conn.advance (n + 1))
      | .again => k false conn
      | _ => k true conn.abandon
  else k true conn.drained.conn
termination_by conn.unsent.length
decreasing_by
  have hp : conn.unsent ≠ [] := conn.hasPendingWrite_iff.mp ‹_›
  have := List.length_pos_iff.mpr hp
  rw [Connection.unsent_advance, List.length_drop]
  omega

-- the flush of a response, the reset after it and the re-arm
def finish (rearm : Connection → RearmAction) (fd : Fd) (conn : Connection) : Code :=
  flushWrite fd (fun flushed conn =>
    if flushed then postRearm fd conn.resetParser (rearm conn.resetParser)
    else postRearm fd conn .waitWritable) conn

def handleError (fd : Fd) (conn : Connection) : Code :=
  flushWrite fd (fun flushed conn => postRearm fd conn (if flushed then .close else .waitWritable))
    (conn.answer ⟨badRequest.serialize, false⟩)

def handleEvent (complete : Client → Code) (fd : Fd) : Code :=
  .call (.find fd) fun
    | none => .ret (.handled none)
    | some conn =>
      if conn.hasPendingWrite then finish (fun conn => keepAliveAction conn.pendingKeepAlive) fd conn
      else .call (.recv fd 8192) fun
        | .received (b :: bs) =>
          let r := conn.parser.consume (b :: bs)
          match r.2 with
          | .needMoreData => postRearm fd { conn with parser := r.1 } .waitReadable
          | .error => handleError fd { conn with parser := r.1 }
          | .complete => complete ⟨fd, { conn with parser := r.1 }⟩
        | .again => postRearm fd conn .waitReadable
        | _ => postRearm fd conn .close

def handleConnectionEvent (router : Router) (fd : Fd) : Code :=
  handleEvent (fun c => finish (httpServer router).rearm c.fd
    (c.conn.answer ((httpServer router).answer () c.conn.parser.msg))) fd

def sendAll (fd : Fd) (k : Bool → Code) : Bytes → Code
  | [] => k true
  | b :: bs => .call (.send fd (b :: bs)) fun
      | .sent (n + 1) => sendAll fd k (bs.drop n)
      | _ => k false
termination_by data => data.length
decreasing_by simp

-- `proxyRequest` comes back to the handler of its client, and to nobody where it is looked at alone
def answered (client : Option Client) (a : Answer × Bool) : Code :=
  match client with
  | none => .ret (.proxied a)
  | some c => finish loadBalancer.rearm c.fd (c.conn.answer a.1)

def relay (client : Option Client) (ufd : Fd) (req : HttpRequest) (resp : Option HttpResponse) : Code :=
  .call (.close ufd) fun _ =>
    match resp with
    | none => answered client
        (relayed (badGateway (lit "\x7b\"error\":\"upstream request failed\"\x7d")) req, false)
    | some resp => answered client (relayed resp req, true)

def proxyRequest (client : Option Client) (pick : Option Upstream) (req : HttpRequest) : Code :=
  match pick with
  | none => answered client (refusal (lit "\x7b\"error\":\"no healthy upstream\"\x7d"), false)
  | some upstream =>
    .call .socket fun
      | none => answered client (refusal (lit "\x7b\"error\":\"upstream connect failed\"\x7d"), false)
      | some ufd =>
        .call (.setsockopt ufd .rcvTimeo) fun _ =>
          .call (.setsockopt ufd .sndTimeo) fun _ =>
            .call (.inetPton upstream.host) fun _ =>
              .call (.connect ufd upstream.port) fun connected =>
                if connected then
                  sendAll ufd (fun sent =>
                    if sent then .jump (.receiving client ufd Parser.fresh req) else relay client ufd req none)
                    (upstreamRequest req)
                else relay client ufd req none

def receiving (client : Option Client) (ufd : Fd) (parser : HttpResponseParser) (req : HttpRequest) : Code :=
  .call (.recv ufd 8192) fun
    | .received (b :: bs) =>
      let r := parser.consume (b :: bs)
      match r.2 with
      | .complete => relay client ufd req (some r.1.msg)
      | .error => relay client ufd req none
      | .needMoreData => .jump (.receiving client ufd r.1 req)
    | _ => relay client ufd req none

def handleClientEvent (pick : Option Upstream) (fd : Fd) : Code :=
  handleEvent (fun c => proxyRequest (some c) pick c.conn.parser.msg) fd

def probed (fd : Fd) (ok : Bool) : Code := .call (.close fd) fun _ => .ret (.probed ok)

def probeOnce (u : Upstream) : Code :=
  .call .socket fun
    | none => .ret (.probed false)
    | some fd =>
      .call (.setsockopt fd .rcvTimeo) fun _ =>
        .call (.setsockopt fd .sndTimeo) fun _ =>
          .call (.inetPton u.host) fun ok =>
            if ok then
              .call (.connect fd u.port) fun ok =>
                if ok then
                  .call (.send fd kRequest) fun
                    | .sent _ => .jump (.probing fd Parser.fresh)
                    | _ => probed fd false
                else probed fd false
            else probed fd false

def probing (fd : Fd) (parser : HttpResponseParser) : Code :=
  .call (.recv fd 2048) fun
    | .received (b :: bs) =>
      let r := parser.consume (b :: bs)
      match r.2 with
      | .complete => probed fd (r.1.msg.status == 200)
      | .error => probed fd false
      | .needMoreData => .jump (.probing fd r.1)
    | _ => probed fd false

/-- The loop that reads a response, as `proxyRequest` and `probeOnce` share it. -/
def awaiting (fd : Fd) (size : ℕ) (again : HttpResponseParser → Point) (k : Option HttpResponse → Code)
    (parser : HttpResponseParser) : Code :=
  .call (.recv fd size) fun
    | .received (b :: bs) =>
      let r := parser.consume (b :: bs)
      match r.2 with
      | .complete => k (some r.1.msg)
      | .error => k none
      | .needMoreData => .jump (again r.1)
    | _ => k none

def judged (fd : Fd) : Option HttpResponse → Code
  | none => probed fd false
  | some resp => probed fd (resp.status == 200)

lemma receiving_eq (client : Option Client) (ufd : Fd) (parser : HttpResponseParser) (req : HttpRequest) :
    receiving client ufd parser req =
      awaiting ufd 8192 (fun p => .receiving client ufd p req) (relay client ufd req) parser := by
  rw [receiving, awaiting]
  congr
  funext r
  rcases r with (_ | ⟨b, bs⟩) | _ | _ <;> rfl

lemma probing_eq (fd : Fd) (parser : HttpResponseParser) :
    probing fd parser = awaiting fd 2048 (fun p => .probing fd p) (judged fd) parser := by
  rw [probing, awaiting]
  congr
  funext r
  rcases r with (_ | ⟨b, bs⟩) | _ | _ <;> rfl

end Code

def code : Point → Code
  | .polling listenFd loop => Code.reactorLoop listenFd loop
  | .accepting listenFd loop events => Code.handleAccept listenFd loop events
  | .receiving client ufd parser req => Code.receiving client ufd parser req
  | .probing fd parser => Code.probing fd parser

end HttpBalancer.System
