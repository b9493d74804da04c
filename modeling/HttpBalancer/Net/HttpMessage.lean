import HttpBalancer.Net.Bytes

/-! Requests, responses and their header lists. -/

namespace HttpBalancer.Net

abbrev HeaderList := List (Bytes × Bytes)

def sameName (k name : Bytes) : Bool :=
  k.length == name.length && (k.zip name).all fun (a, b) => tolower a == tolower b

def findHeader (headers : HeaderList) (name : Bytes) : Option Bytes :=
  (headers.find? fun (k, _) => sameName k name).map Prod.snd

structure HttpRequest where
  method : Bytes := []
  target : Bytes := []
  version : Bytes := []
  headers : HeaderList := []
  body : Bytes := []
  keepAlive : Bool := true
  deriving DecidableEq

structure HttpResponse where
  status : Int32 := 200
  reason : Bytes := lit "OK"
  headers : HeaderList := []
  body : Bytes := []
  keepAlive : Bool := true
  deriving DecidableEq

def headerLine (h : Bytes × Bytes) : Bytes := h.1 ++ lit ": " ++ h.2 ++ crlf

def HttpResponse.hasContentLength (r : HttpResponse) : Bool :=
  r.headers.any fun (k, _) => toLower k == lit "content-length"

def HttpResponse.hasConnection (r : HttpResponse) : Bool :=
  r.headers.any fun (k, _) => toLower k == lit "connection"

def HttpResponse.serialize (r : HttpResponse) : Bytes :=
  let out := lit "HTTP/1.1 " ++ toDecimal r.status.toInt ++ lit " " ++ r.reason ++ crlf
  let out := out ++ r.headers.flatMap headerLine
  let out := if r.hasContentLength then out
    else out ++ headerLine (lit "Content-Length", toDecimal r.body.length)
  let out := if r.hasConnection then out
    else out ++ headerLine (lit "Connection", if r.keepAlive then lit "keep-alive" else lit "close")
  out ++ crlf ++ r.body

def makeJsonResponse (status : Int32) (reason json : Bytes) : HttpResponse where
  status := status
  reason := reason
  headers := [(lit "Content-Type", lit "application/json")]
  body := json

lemma sameName_iff (k name : Bytes) : sameName k name = true ↔ toLower k = toLower name := by
  induction k generalizing name with
  | nil => cases name <;> simp [sameName, toLower]
  | cons a k ih =>
    cases name with
    | nil => simp [sameName, toLower]
    | cons b name =>
      have hh := ih name
      simp only [sameName, toLower, Bool.and_eq_true, beq_iff_eq] at hh
      simp only [sameName, toLower, List.length_cons, List.zip_cons_cons, List.all_cons,
        Bool.and_eq_true, beq_iff_eq, Nat.add_right_cancel_iff, List.map_cons, List.cons.injEq]
      tauto

@[simp] lemma findHeader_nil (name : Bytes) : findHeader [] name = none := rfl

lemma findHeader_cons (h : Bytes × Bytes) (hs : HeaderList) (name : Bytes) :
    findHeader (h :: hs) name = if toLower h.1 = toLower name then some h.2 else findHeader hs name := by
  by_cases hn : toLower h.1 = toLower name
  · simp [findHeader, (sameName_iff _ _).mpr hn, hn]
  · have hf : sameName h.1 name = false := by rw [← Bool.not_eq_true, sameName_iff]; exact hn
    simp [findHeader, hf, hn]

lemma findHeader_eq_none_iff (hs : HeaderList) (name : Bytes) :
    findHeader hs name = none ↔ ∀ h ∈ hs, toLower h.1 ≠ toLower name := by
  induction hs with
  | nil => simp
  | cons h hs ih =>
    rw [findHeader_cons]
    split_ifs with hn
    · simp [hn]
    · simp [hn, ih]

lemma findHeader_append (hs ks : HeaderList) (name : Bytes) :
    findHeader (hs ++ ks) name = (findHeader hs name).or (findHeader ks name) := by
  induction hs with
  | nil => simp
  | cons h hs ih =>
    rw [List.cons_append, findHeader_cons, findHeader_cons]
    split_ifs
    · rfl
    · exact ih

lemma hasContentLength_iff (r : HttpResponse) :
    r.hasContentLength = true ↔ findHeader r.headers (lit "Content-Length") ≠ none := by
  rw [Ne, findHeader_eq_none_iff]
  simp [HttpResponse.hasContentLength, show toLower (lit "Content-Length") = lit "content-length" by decide]

lemma hasConnection_iff (r : HttpResponse) :
    r.hasConnection = true ↔ findHeader r.headers (lit "Connection") ≠ none := by
  rw [Ne, findHeader_eq_none_iff]
  simp [HttpResponse.hasConnection, show toLower (lit "Connection") = lit "connection" by decide]

end HttpBalancer.Net
