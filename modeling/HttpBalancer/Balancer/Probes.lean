import HttpBalancer.Balancer.KeepAlive
import HttpBalancer.Net.StatusLine

/-! A health probe: one request to an upstream, and what its answer says about it. -/

namespace HttpBalancer.Balancer

open Net

structure ProbeCalls where
  socket : Bool
  inetPton : Bool
  connect : Bool
  send : SendResult
  recvs : Bytes → List RecvResult

def kRequest : Bytes :=
  lit "GET /health HTTP/1.1\r\nHost: healthcheck\r\nConnection: close\r\n\r\n"

def probeOnce (io : ProbeCalls) : Bool :=
  if io.socket = false then false
  else if io.inetPton = false then false
  else if io.connect = false then false
  else
    match io.send with
    | .again | .failed => false
    | .sent _ =>
      match receive Parser.fresh (io.recvs kRequest) with
      | some resp => resp.status == 200
      | none => false

def ProbeCalls.reply (io : ProbeCalls) : Bytes := (delivered (io.recvs kRequest)).flatten

lemma probeOnce_receive {io : ProbeCalls} (h : probeOnce io = true) :
    ∃ resp, receive Parser.fresh (io.recvs kRequest) = some resp ∧ resp.status = 200 := by
  simp only [probeOnce] at h
  split_ifs at h
  split at h
  · cases h
  · cases h
  · split at h
    · next resp hr => exact ⟨resp, hr, by simpa using h⟩
    · cases h

lemma first_line_unique {a b r s : Bytes} (ha : ¬ crlf <:+: a) (hb : ¬ crlf <:+: b)
    (h : a ++ crlf ++ r = b ++ crlf ++ s) : a = b := by
  have hh := extractLine_line ha r
  rw [h, extractLine_line hb s] at hh
  exact (congrArg Prod.fst (Option.some.inj hh)).symm

lemma receive_status {recvs : List RecvResult} {resp : HttpResponse} {line rest : Bytes}
    (hs : (delivered recvs).flatten = line ++ crlf ++ rest) (hl : ¬ crlf <:+: line)
    (h : receive Parser.fresh recvs = some resp) :
    ∃ m, parseStatusLine line {} = (true, m) ∧ m.status = resp.status := by
  obtain ⟨hc, rfl⟩ := (receive_eq_some_iff (by simp [Parser.Settled, Parser.fresh]) recvs resp).mp h
  rw [Parser.fresh_feed, hs] at hc
  rw [Parser.fresh_feed, hs]
  obtain ⟨m, headers, body, left, hf⟩ := Parser.framed_of_complete hc
  rw [Parser.framed_complete hf]
  obtain ⟨l₀, lines, he, hl₀, hp, -, -⟩ := hf
  rw [List.append_assoc (unlines lines)] at he
  obtain rfl := first_line_unique hl hl₀ (by simpa using he)
  exact ⟨m, hp, rfl⟩

def ProbeHonest (line : Bytes) : Prop :=
  ∀ (io : ProbeCalls) (rest : Bytes), io.reply = line ++ crlf ++ rest → ¬ crlf <:+: line →
    probeOnce io = true → decimalInt (secondToken line) = some 200

lemma probeHonest_of_exact {line : Bytes} (h : StatusExact line) : ProbeHonest line := by
  intro io rest hr hl hp
  obtain ⟨resp, hrecv, hs⟩ := probeOnce_receive hp
  obtain ⟨m, hm, he⟩ := receive_status hr hl hrecv
  rw [h {} m hm, he, hs]
  rfl

theorem status_exact_iff (line : Bytes) : StatusExact line ∧ ProbeHonest line ↔
    (IsVersion (firstToken line) → strtol (secondToken line) ≠ none →
      ∃ i, decimalInt (secondToken line) = some i ∧ InIntRange i) := by
  have h := statusExact_iff line
  constructor
  · exact fun hh => h.mp hh.1
  · intro hp
    have hs := h.mpr hp
    exact ⟨hs, probeHonest_of_exact hs⟩

theorem probe_truncates_status :
    let line := lit "HTTP/1.1 4294967496 OK"
    let io : ProbeCalls := ⟨true, true, true, .sent 64,
      fun _ => [.received (line ++ crlf ++ crlf), .received []]⟩
    decimalInt (secondToken line) = some 4294967496 ∧ ¬ StatusExact line ∧ ¬ ProbeHonest line ∧
      (parseStatusLine line {}).1 = true ∧ (parseStatusLine line {}).2.status = 200 ∧
      probeOnce io = true := by
  intro line io
  have hd : decimalInt (secondToken line) = some 4294967496 := by decide +kernel
  have hp : probeOnce io = true := by decide +kernel
  have hh : ¬ ProbeHonest line := by
    intro h
    have hl : ¬ crlf <:+: line := crlf_not_infix (by decide)
    have hr := h io crlf (by decide +kernel) hl hp
    simp [hd] at hr
  exact ⟨hd, fun h => hh (probeHonest_of_exact h), hh, by decide +kernel, by decide +kernel, hp⟩

end HttpBalancer.Balancer
