import HttpBalancer.Net.Delivery
import HttpBalancer.System.Syscalls

/-! The functions of the workers and the checker, call by call, compute what the models of their results say. -/

namespace HttpBalancer.System

open Net Server Balancer Lib

/-- What the calls on one client's connection answer, and the connection the table has for it. -/
structure ClientScript where
  fd : Fd
  conn : Connection
  io : ClientCalls

/-- What the calls of one function answer. When a list is used up the socket is full or has failed. -/
structure Script where
  client : Option ClientScript := none
  taken : Bytes := []
  socket : Option Fd := none
  inetPton : Bool := false
  connect : Bool := false
  sends : List SendResult := []
  recvs : List RecvResult := []

namespace Script

def clientAt (s : Script) (fd : Fd) : Option ClientScript := s.client.filter fun c => c.fd = fd

def accepted (data : Bytes) : SendResult → Bytes
  | .sent n => data.take n
  | _ => []

def Answers (s : Script) : (c : Syscall) → c.Result → Script → Prop
  | .socket, r, s' => r = s.socket ∧ s' = s
  | .inetPton _, r, s' => r = s.inetPton ∧ s' = s
  | .connect _ _, r, s' => r = s.connect ∧ s' = s
  | .find fd, r, s' => r = (s.clientAt fd).map ClientScript.conn ∧ s' = s
  | .send fd data, r, s' =>
    match s.clientAt fd with
    | some c => r = c.io.sends.headD .again ∧
        s' = { s with
          client := some { c with io := { c.io with sends := c.io.sends.tail } }
          taken := s.taken ++ accepted data r }
    | none => r = s.sends.headD .again ∧ s' = { s with sends := s.sends.tail }
  | .recv fd _, r, s' =>
    match s.clientAt fd with
    | some c => r = c.io.recv ∧ s' = s
    | none => r = s.recvs.headD .failed ∧ s' = { s with recvs := s.recvs.tail }
  | _, _, s' => s' = s

end Script

-- how `finish` ends, and what it sends
def finished (rearm : Connection → RearmAction) (f : Connection.Flush) : Outcome :=
  .handled (some (f.next, if f.flushed then rearm f.conn.resetParser else .waitWritable))

inductive Concludes (s : Script) (a : Answer × Bool) : Option Client → Outcome → Bytes → Prop
  | alone : Concludes s a none (.proxied a) s.taken
  | client (c : ClientScript) (conn : Connection) : s.clientAt c.fd = some c →
      Concludes s a (some ⟨c.fd, conn⟩) (finished loadBalancer.rearm ((conn.answer a.1).flushWrite c.io.sends))
        (s.taken ++ ((conn.answer a.1).flushWrite c.io.sends).taken)

def Point.left (_ : Point) (s : Script) : ℕ := s.recvs.length

section Ends

variable {a : Outcome} {taken : Bytes} {fd : Fd} {s : Script} {c : ClientScript} {I : Point → Script → Prop}

lemma Concludes.upstream {client : Option Client} {r : Answer × Bool} (h : Concludes s r client a taken)
    (sends : List SendResult) (recvs : List RecvResult) :
    Concludes { s with sends := sends, recvs := recvs } r client a taken := by
  cases h with
  | alone => exact .alone
  | client c conn hc => exact .client c conn hc

end Ends

end HttpBalancer.System
