import HttpBalancer.System.EventLoop

/-! The epoll backend. The kernel keeps one set of events for each registered descriptor. -/

namespace HttpBalancer.System

namespace Epoll

def epollin : UInt32 := 0x001

def epollout : UInt32 := 0x004

def epollerr : UInt32 := 0x008

def epollhup : UInt32 := 0x010

inductive Op
  | add
  | mod
  | del
  deriving DecidableEq

abbrev Registered := Fd → Option UInt32

def ctl (reg : Registered) (op : Op) (fd : Fd) (events : UInt32) : Registered × Bool :=
  match op, reg fd with
  | .add, none => (Function.update reg fd (some events), true)
  | .add, some _ => (reg, false)
  | .mod, none => (reg, false)
  | .mod, some _ => (Function.update reg fd (some events), true)
  | .del, none => (reg, false)
  | .del, some _ => (Function.update reg fd none, true)

end Epoll

def toEpollEvents (interestMask : UInt8) : UInt32 :=
  (if interestMask &&& EventType.readable ≠ 0 then Epoll.epollin else 0) |||
    if interestMask &&& EventType.writable ≠ 0 then Epoll.epollout else 0

def fromEpollEvents (events : UInt32) : UInt8 :=
  (if events &&& Epoll.epollin ≠ 0 then EventType.readable else 0) |||
    if events &&& Epoll.epollout ≠ 0 then EventType.writable else 0

structure EpollReactor where
  registered : Epoll.Registered

namespace EpollReactor

def create : EpollReactor := ⟨fun _ => none⟩

def add (r : EpollReactor) (fd : Fd) (interestMask : UInt8) : EpollReactor × Bool :=
  match Epoll.ctl r.registered .add fd (toEpollEvents interestMask) with
  | (reg, true) => (⟨reg⟩, true)
  | (reg, false) => Prod.map mk id (Epoll.ctl reg .mod fd (toEpollEvents interestMask))

def modify (r : EpollReactor) (fd : Fd) (interestMask : UInt8) : EpollReactor × Bool :=
  Prod.map mk id (Epoll.ctl r.registered .mod fd (toEpollEvents interestMask))

def remove (r : EpollReactor) (fd : Fd) : EpollReactor × Bool :=
  Prod.map mk id (Epoll.ctl r.registered .del fd 0)

def call (r : EpollReactor) : Call → EpollReactor × Bool
  | .add fd interestMask => r.add fd interestMask
  | .modify fd interestMask => r.modify fd interestMask
  | .remove fd => r.remove fd

def wait (events : List (Fd × UInt32)) : List IoEvent :=
  events.map fun e => ⟨e.1, fromEpollEvents e.2, e.2 &&& (Epoll.epollerr ||| Epoll.epollhup) != 0⟩

def mask (r : EpollReactor) (fd : Fd) : UInt8 := (r.registered fd).elim 0 fromEpollEvents

lemma add_registered (r : EpollReactor) (fd : Fd) (m : UInt8) :
    r.add fd m = (⟨Function.update r.registered fd (some (toEpollEvents m))⟩, true) := by
  cases h : r.registered fd <;> simp [add, Epoll.ctl, h]

lemma modify_registered (r : EpollReactor) {fd : Fd} (h : r.registered fd ≠ none) (m : UInt8) :
    r.modify fd m = (⟨Function.update r.registered fd (some (toEpollEvents m))⟩, true) := by
  obtain ⟨events, h⟩ := Option.ne_none_iff_exists'.mp h
  simp [modify, Epoll.ctl, h]

lemma remove_registered (r : EpollReactor) {fd : Fd} (h : r.registered fd ≠ none) :
    r.remove fd = (⟨Function.update r.registered fd none⟩, true) := by
  obtain ⟨events, h⟩ := Option.ne_none_iff_exists'.mp h
  simp [remove, Epoll.ctl, h]

lemma fromEpollEvents_toEpollEvents {m : UInt8} (h : m ∈ EventType.masks) :
    fromEpollEvents (toEpollEvents m) = m := by
  simp only [EventType.masks, List.mem_cons, List.not_mem_nil, or_false] at h
  rcases h with rfl | rfl | rfl | rfl <;> decide

end EpollReactor

end HttpBalancer.System
