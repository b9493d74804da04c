import HttpBalancer.Net.Service

/-! The load balancer: the request it rebuilds for the upstream and how it answers the client. -/

namespace HttpBalancer.Balancer

open Net

structure Upstream where
  host : Bytes
  port : UInt16
  deriving DecidableEq

/-- The system calls of one `proxyRequest` and what `pickNext` returned. The upstream answers as a
function of the request bytes it was sent. -/
structure UpstreamCalls where
  pick : Option Upstream
  socket : Bool
  connect : Bool
  sends : List SendResult
  recvs : Bytes → List RecvResult

def isConnection (h : Bytes × Bytes) : Bool := strcasecmp h.1 (lit "connection")

def closeLine : Bytes := lit "Connection: close\r\n"

def upstreamRequest (req : HttpRequest) : Bytes :=
  let out := req.method ++ lit " " ++ req.target ++ lit " " ++ req.version ++ crlf
  let out := out ++ req.headers.flatMap fun h => if isConnection h then closeLine else headerLine h
  let out := if req.headers.any isConnection then out else out ++ closeLine
  out ++ crlf ++ req.body

def sendAll : Bytes → List SendResult → Bool
  | [], _ => true
  | _ :: data, .sent (n + 1) :: sends => sendAll (data.drop n) sends
  | _ :: _, _ => false

def receive (parser : HttpResponseParser) : List RecvResult → Option HttpResponse
  | .received (b :: bs) :: recvs =>
    let r := parser.consume (b :: bs)
    match r.2 with
    | .complete => some r.1.msg
    | .error => none
    | .needMoreData => receive r.1 recvs
  -- end of stream, timeout or error
  | _ => none

def exchange (io : UpstreamCalls) (req : HttpRequest) : Option HttpResponse :=
  if io.connect && sendAll (upstreamRequest req) io.sends then
    receive Parser.fresh (io.recvs (upstreamRequest req))
  else none

def badGateway (json : Bytes) : HttpResponse := makeJsonResponse 502 (lit "Bad Gateway") json

def refusal (json : Bytes) : Answer :=
  ⟨{ badGateway json with keepAlive := false }.serialize, false⟩

def relayed (resp : HttpResponse) (req : HttpRequest) : Answer :=
  ⟨{ resp with keepAlive := req.keepAlive }.serialize, req.keepAlive⟩

/-- What `proxyRequest` queues on the client connection and sets `pendingKeepAlive` to, and the
value it returns. -/
def proxyRequest (io : UpstreamCalls) (req : HttpRequest) : Answer × Bool :=
  match io.pick with
  | none => (refusal (lit "\x7b\"error\":\"no healthy upstream\"\x7d"), false)
  | some _ =>
    if !io.socket then (refusal (lit "\x7b\"error\":\"upstream connect failed\"\x7d"), false)
    else
      match exchange io req with
      | none => (relayed (badGateway (lit "\x7b\"error\":\"upstream request failed\"\x7d")) req, false)
      | some resp => (relayed resp req, true)

def loadBalancer : Service where
  Env := UpstreamCalls
  answer io req := (proxyRequest io req).1
  rearm conn := keepAliveAction conn.pendingKeepAlive

def handleClientEvent (upstream : UpstreamCalls) (io : ClientCalls) (conn : Connection) :
    Connection × List Action :=
  loadBalancer.handleEvent upstream io conn

end HttpBalancer.Balancer
