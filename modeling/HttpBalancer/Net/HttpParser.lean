import HttpBalancer.Net.HttpMessage

/-! The incremental parsers for requests and responses. They differ in the first line and in the
version `finalizeHeaders` takes the keep-alive default from; the rest is one definition. -/

namespace HttpBalancer.Net

open Lib.Search

inductive ParseStatus
  | needMoreData
  | complete
  | error
  deriving DecidableEq

/-- `startLine` is `RequestLine` in `HttpParser` and `StatusLine` in `HttpResponseParser`. -/
inductive State
  | startLine
  | headers
  | body
  | complete
  | error
  deriving DecidableEq

def extractLine (buffer : Bytes) (pos : ℕ) : Option (Bytes × ℕ) :=
  match findFrom crlf buffer pos with
  | none => none
  | some i => some ((buffer.drop pos).take (i - pos), i + 2)

def parseGenericHeaderLine (line : Bytes) (headers : HeaderList) : Option HeaderList :=
  match find [58] line with
  | none => none
  | some colon =>
    let name := trim (line.take colon)
    let value := trim (line.drop (colon + 1))
    if name = [] then none else some (headers ++ [(name, value)])

def contentLengthFrom (headers : HeaderList) : ℕ :=
  match findHeader headers (lit "Content-Length") with
  | none => 0
  | some cl =>
    match strtol cl with
    | none => 0
    | some v => if v < 0 then 0 else v.toNat

def connectionKeepAlive (headers : HeaderList) (version : Bytes) : Bool :=
  match findHeader headers (lit "Connection") with
  | some conn =>
    let v := toLower conn
    if find (lit "close") v ≠ none then false
    else if find (lit "keep-alive") v ≠ none then true
    else version == lit "HTTP/1.1"
  | none => version == lit "HTTP/1.1"

-- the fields are written before the checks, so a rejected line leaves them behind
def parseRequestLine (line : Bytes) (req : HttpRequest) : Bool × HttpRequest :=
  match find [32] line with
  | none => (false, req)
  | some sp1 =>
    match findFrom [32] line (sp1 + 1) with
    | none => (false, req)
    | some sp2 =>
      let req := { req with
        method := line.take sp1
        target := (line.drop (sp1 + 1)).take (sp2 - sp1 - 1)
        version := line.drop (sp2 + 1) }
      if req.method = [] ∨ req.target = [] then (false, req)
      else if req.version ≠ lit "HTTP/1.1" ∧ req.version ≠ lit "HTTP/1.0" then (false, req)
      else (true, req)

def parseStatusLine (line : Bytes) (resp : HttpResponse) : Bool × HttpResponse :=
  match find [32] line with
  | none => (false, resp)
  | some sp1 =>
    let sp2 := (findFrom [32] line (sp1 + 1)).getD line.length
    let version := line.take sp1
    if version ≠ lit "HTTP/1.1" ∧ version ≠ lit "HTTP/1.0" then (false, resp)
    else
      match strtol ((line.drop (sp1 + 1)).take (sp2 - sp1 - 1)) with
      | none => (false, resp)
      | some status => (true, { resp with
          status := Int32.ofInt status
          reason := if sp2 < line.length then line.drop (sp2 + 1) else [] })

class Message (μ : Type) where
  fresh : μ
  parseStartLine : Bytes → μ → Bool × μ
  headers : μ → HeaderList
  setHeaders : HeaderList → μ → μ
  /-- The version `finalizeHeaders` hands to `connectionKeepAlive`. -/
  version : μ → Bytes
  setKeepAlive : Bool → μ → μ
  setBody : Bytes → μ → μ
  headers_fresh : headers fresh = []
  headers_startLine : ∀ line m, headers (parseStartLine line m).2 = headers m
  headers_setHeaders : ∀ hs m, headers (setHeaders hs m) = hs
  setHeaders_setHeaders : ∀ hs hs' m, setHeaders hs (setHeaders hs' m) = setHeaders hs m
  setHeaders_headers : ∀ m, setHeaders (headers m) m = m

lemma parseRequestLine_headers (line : Bytes) (req : HttpRequest) :
    (parseRequestLine line req).2.headers = req.headers := by
  simp only [parseRequestLine]
  split <;> try rfl
  split <;> try rfl
  split_ifs <;> rfl

lemma parseStatusLine_headers (line : Bytes) (resp : HttpResponse) :
    (parseStatusLine line resp).2.headers = resp.headers := by
  simp only [parseStatusLine]
  split <;> try rfl
  split <;> try rfl
  split <;> rfl

instance : Message HttpRequest where
  fresh := {}
  parseStartLine := parseRequestLine
  headers := HttpRequest.headers
  setHeaders hs req := { req with headers := hs }
  version := HttpRequest.version
  setKeepAlive b req := { req with keepAlive := b }
  setBody b req := { req with body := b }
  headers_fresh := rfl
  headers_startLine := parseRequestLine_headers
  headers_setHeaders _ _ := rfl
  setHeaders_setHeaders _ _ _ := rfl
  setHeaders_headers _ := rfl

instance : Message HttpResponse where
  fresh := {}
  parseStartLine := parseStatusLine
  headers := HttpResponse.headers
  setHeaders hs resp := { resp with headers := hs }
  version _ := lit "HTTP/1.1"
  setKeepAlive b resp := { resp with keepAlive := b }
  setBody b resp := { resp with body := b }
  headers_fresh := rfl
  headers_startLine := parseStatusLine_headers
  headers_setHeaders _ _ := rfl
  setHeaders_setHeaders _ _ _ := rfl
  setHeaders_headers _ := rfl

structure Parser (μ : Type) where
  state : State := .startLine
  buffer : Bytes := []
  bodyBytesNeeded : ℕ := 0
  msg : μ
  deriving DecidableEq

lemma extractLine_cut {buffer line : Bytes} {pos : ℕ} (h : extractLine buffer 0 = some (line, pos)) :
    ∃ rest, buffer = line ++ crlf ++ rest ∧ pos = line.length + 2 ∧ ¬ crlf <:+: line := by
  simp only [extractLine, findFrom_zero] at h
  cases hf : find crlf buffer with
  | none => simp [hf] at h
  | some i =>
    obtain ⟨l, r, hb, rfl, hl⟩ := find_cut crlf_unbordered.ne_nil hf
    simp only [hf, List.drop_zero, Nat.sub_zero, Option.some.injEq, Prod.mk.injEq] at h
    obtain ⟨rfl, rfl⟩ := h
    have ht : buffer.take l.length = l := by simp [hb]
    rw [ht]
    exact ⟨r, hb, rfl, hl⟩

lemma extractLine_shrinks {buffer line : Bytes} {pos : ℕ} (h : extractLine buffer 0 = some (line, pos)) :
    (buffer.drop pos).length < buffer.length := by
  obtain ⟨rest, rfl, rfl, _⟩ := extractLine_cut h
  simp
  omega

namespace Parser

variable {μ : Type} [Message μ]

def fresh : Parser μ := { msg := Message.fresh }

def reset (_ : Parser μ) : Parser μ := fresh

def done (p : Parser μ) : Bool := p.state == .complete

def failed (p : Parser μ) : Bool := p.state == .error

def finalizeHeaders (p : Parser μ) : Parser μ := { p with
  bodyBytesNeeded := contentLengthFrom (Message.headers p.msg)
  msg := Message.setKeepAlive
    (connectionKeepAlive (Message.headers p.msg) (Message.version p.msg)) p.msg }

def processBody (p : Parser μ) : Parser μ × ParseStatus :=
  if p.buffer.length < p.bodyBytesNeeded then (p, .needMoreData)
  else ({ p with
    msg := Message.setBody (p.buffer.take p.bodyBytesNeeded) p.msg
    buffer := p.buffer.drop p.bodyBytesNeeded
    state := .complete }, .complete)

def processHeaders (p : Parser μ) : Parser μ × ParseStatus :=
  match _h : extractLine p.buffer 0 with
  | none => (p, .needMoreData)
  | some (line, pos) =>
    if line = [] then
      processBody { finalizeHeaders { p with buffer := p.buffer.drop pos } with state := .body }
    else
      match parseGenericHeaderLine line (Message.headers p.msg) with
      | none => ({ p with state := .error }, .error)
      | some hs =>
        processHeaders { p with buffer := p.buffer.drop pos, msg := Message.setHeaders hs p.msg }
termination_by p.buffer.length
decreasing_by exact extractLine_shrinks _h

-- in the states `complete` and `error` every test of the source is false and it falls through
def process (p : Parser μ) : Parser μ × ParseStatus :=
  match p.state with
  | .startLine =>
    match extractLine p.buffer 0 with
    | none => (p, .needMoreData)
    | some (line, pos) =>
      match Message.parseStartLine line p.msg with
      | (false, m) => ({ p with state := .error, msg := m }, .error)
      | (true, m) =>
        processHeaders { p with buffer := p.buffer.drop pos, msg := m, state := .headers }
  | .headers => processHeaders p
  | .body => processBody p
  | .complete => (p, .complete)
  | .error => (p, .complete)

def append (p : Parser μ) (data : Bytes) : Parser μ := { p with buffer := p.buffer ++ data }

def consume (p : Parser μ) (data : Bytes) : Parser μ × ParseStatus := (p.append data).process

end Parser

abbrev HttpParser := Parser HttpRequest

abbrev HttpResponseParser := Parser HttpResponse

def HttpParser.request (p : HttpParser) : HttpRequest := p.msg

def HttpResponseParser.response (p : HttpResponseParser) : HttpResponse := p.msg

end HttpBalancer.Net
