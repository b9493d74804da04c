import Mathlib.Tactic

/-! The interface of the event loop, which both backends implement. -/

namespace HttpBalancer.System

abbrev Fd := ℕ

namespace EventType

def readable : UInt8 := 1

def writable : UInt8 := 2

def masks : List UInt8 := [0, readable, writable, readable ||| writable]

end EventType

structure IoEvent where
  fd : Fd
  mask : UInt8 := 0
  error : Bool := false
  deriving DecidableEq

inductive Call
  | add (fd : Fd) (interestMask : UInt8)
  | modify (fd : Fd) (interestMask : UInt8)
  | remove (fd : Fd)
  deriving DecidableEq

end HttpBalancer.System
