import HttpBalancer.Net.RequestGrammar
import HttpBalancer.Net.Requests

/-! What a body is framed by. The first `Content-Length` counts, read by `strtol`; one that gives no
number or a negative one counts as zero and is no error. -/

namespace HttpBalancer.Net

open Lib

def contentLengths (headers : HeaderList) : List Bytes :=
  (headers.filter fun (k, _) => toLower k == lit "content-length").map Prod.snd

structure IsLength (v : Bytes) (n : ℕ) : Prop where
  ne_nil : v ≠ []
  digits : ∀ c ∈ v, Decimal.isDigit c = true
  value : Decimal.value v = n

lemma findHeader_contentLength (headers : HeaderList) :
    findHeader headers (lit "Content-Length") = (contentLengths headers).head? := by
  induction headers with
  | nil => rfl
  | cons h headers ih =>
    rw [findHeader_cons, show toLower (lit "Content-Length") = lit "content-length" by decide, ih]
    by_cases hn : toLower h.1 = lit "content-length"
    · simp [contentLengths, hn]
    · simp [contentLengths, hn]

lemma contentLengthFrom_isLength {headers : HeaderList} {n : ℕ} (hn : n ≤ longMax)
    (hl : contentLengths headers ≠ []) (h : ∀ v ∈ contentLengths headers, IsLength v n) :
    contentLengthFrom headers = n := by
  obtain ⟨v, l, hv⟩ := List.exists_cons_of_ne_nil hl
  obtain ⟨hne, hd, rfl⟩ := h v (by simp [hv])
  have hi : ¬ (min (Decimal.value v : ℤ) longMax < 0) := by omega
  simp only [contentLengthFrom, findHeader_contentLength, hv, List.head?_cons, strtol_digits hne hd, hi,
    if_false]
  omega

def Unmeasured (headers : HeaderList) : Prop :=
  ∀ v, (contentLengths headers).head? = some v → ∀ i, strtol v = some i → i < 0

lemma contentLengthFrom_unmeasured {headers : HeaderList} (h : Unmeasured headers) :
    contentLengthFrom headers = 0 := by
  rw [contentLengthFrom, findHeader_contentLength]
  split
  · rfl
  · next v hv =>
    split
    · rfl
    · next i hi => rw [if_pos (h v hv i hi)]

lemma reading_framed {s body rest : Bytes} {m : HttpRequest} {hs : HeaderList} (h : Framed s m hs body rest) :
    (reading s).state = .complete ∧ (parsed s).headers = hs ∧ (parsed s).body = body := by
  have hp := congrArg Prod.fst (Parser.framed_complete h)
  change reading s = _ at hp
  rw [parsed, hp]
  exact ⟨rfl, rfl, rfl⟩

lemma body_length {s : Bytes} (h : (reading s).state = .complete) :
    (parsed s).body.length = contentLengthFrom (parsed s).headers := by
  obtain ⟨m, hs, body, rest, hf⟩ := Parser.framed_of_complete h
  obtain ⟨-, hh, hb⟩ := reading_framed hf
  obtain ⟨_, _, _, _, _, _, hl⟩ := hf
  rw [hh, hb, hl]

/-- A request whose `Content-Length` values are decimal and agree has a body of that length. A missing
one, one that is no number and a negative one are accepted and leave the body empty. -/
theorem content_length_frames_body (s : Bytes) :
    ((reading s).state = .complete → ∀ n ≤ longMax, contentLengths (parsed s).headers ≠ [] →
      (∀ v ∈ contentLengths (parsed s).headers, IsLength v n) → (parsed s).body.length = n) ∧
    ((reading s).state = .complete → Unmeasured (parsed s).headers → (parsed s).body = []) ∧
    (∀ l₀ m t v lines hs rest, s = l₀ ++ crlf ++ (unlines lines ++ crlf ++ rest) → ¬ crlf <:+: l₀ →
      IsRequestLine l₀ m t v → IsHeaderLines lines hs → Unmeasured hs →
      (reading s).state = .complete ∧ (parsed s).headers = hs) := by
  refine ⟨?_, ?_, ?_⟩
  · intro hc n hn hne hl
    rw [body_length hc, contentLengthFrom_isLength hn hne hl]
  · intro hc hu
    apply List.length_eq_zero_iff.mp
    rw [body_length hc, contentLengthFrom_unmeasured hu]
  · rintro l₀ m t v lines hs rest rfl hl₀ hline hlines hu
    have hf : Framed (l₀ ++ crlf ++ (unlines lines ++ crlf ++ ([] ++ rest)))
        (parseRequestLine l₀ ({} : HttpRequest)).2 hs [] rest := by
      refine ⟨l₀, lines, rfl, hl₀, ?_, hlines, (contentLengthFrom_unmeasured hu).symm⟩
      have hp := parseRequestLine_accept hline ({} : HttpRequest)
      change parseRequestLine l₀ ({} : HttpRequest) = _
      rw [hp]
    obtain ⟨hc, hh, -⟩ := reading_framed hf
    exact ⟨hc, hh⟩

theorem content_length_frames_body_repeated :
    let s := lit "POST / HTTP/1.1\r\nContent-Length: 5\r\ncontent-length: 05\r\n\r\nhello"
    (reading s).state = .complete ∧ (parsed s).body.length = 5 := by
  intro s
  have hc : (reading s).state = .complete := by decide +kernel
  refine ⟨hc, (content_length_frames_body s).1 hc 5 (by decide) (by decide +kernel) ?_⟩
  rw [show contentLengths (parsed s).headers = [lit "5", lit "05"] by decide +kernel]
  simp only [List.mem_cons, List.not_mem_nil, or_false, forall_eq_or_imp, forall_eq]
  exact ⟨⟨by decide, List.all_eq_true.mp (by decide), by decide⟩,
    ⟨by decide, List.all_eq_true.mp (by decide), by decide⟩⟩

theorem length_without_digits_accepted :
    let s := lit "POST / HTTP/1.1\r\nContent-Length: abc\r\n\r\n"
    (reading s).state = .complete ∧ contentLengths (parsed s).headers = [lit "abc"] ∧
      ¬ (lit "abc").all Decimal.isDigit = true := by
  decide +kernel

end HttpBalancer.Net
