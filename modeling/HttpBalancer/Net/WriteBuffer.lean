import HttpBalancer.Net.Connection

/-! The write buffer of a connection as a queue of bytes: what is queued goes out in order, and a send
that fails takes away everything that is still in the queue. -/

namespace HttpBalancer.Net

inductive WriteEvent
  | queued (data : Bytes)
  | accepted (data : Bytes)
  | refused
  | failed (rest : Bytes)
  deriving DecidableEq

namespace WriteEvent

def settled : WriteEvent → Bytes
  | .accepted data => data
  | .failed rest => rest
  | _ => []

end WriteEvent

namespace Connection

open WriteEvent

def sendEvents (c : Connection) : List SendResult → List WriteEvent
  | [] => if c.hasPendingWrite then [.refused] else []
  | r :: sends =>
    if c.hasPendingWrite then
      match r with
      | .again => [.refused]
      | .failed => [.failed c.unsent]
      | .sent 0 => [.failed c.unsent]
      | .sent (n + 1) => .accepted (c.unsent.take (n + 1)) :: sendEvents (c.advance (n + 1)) sends
    else []

inductive WriteOp
  | queueWrite (data : Bytes)
  | flushWrite (sends : List SendResult)

def write (c : Connection) : WriteOp → Connection × List WriteEvent
  | .queueWrite data => (c.queueWrite data, [.queued data])
  | .flushWrite sends => ((c.flushWrite sends).conn, c.sendEvents sends)

end Connection

end HttpBalancer.Net
