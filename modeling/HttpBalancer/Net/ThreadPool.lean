import HttpBalancer.Lib.Threads
import HttpBalancer.Lib.Transitions

/-! The thread pool: its workers, its queue and its destructor. Every access to `queue_` and `stop_`
is made under `mutex_`, so a critical section is one step; `notify_one` and `notify_all` are called
outside of it and are steps of their own. -/

namespace HttpBalancer.Net

open Lib

variable {τ : Type}

/-- `awake` is a worker on its way to the mutex, at the top of its loop or woken from the wait;
`steps` are those a task has made so far. -/
inductive Worker (τ : Type)
  | awake
  | blocked
  | running (task : τ) (steps : ℕ)
  | exited
  deriving DecidableEq

def Worker.isAwake : Worker τ → Bool
  | .awake => true
  | _ => false

def Worker.isBlocked : Worker τ → Bool
  | .blocked => true
  | _ => false

def Worker.tasks : Worker τ → List τ
  | .running t _ => [t]
  | _ => []

def Worker.wake : Worker τ → Worker τ
  | .blocked => .awake
  | w => w

/-- `notifying` counts the calls of `enqueue` that have pushed and not yet notified, `joined` the
joins of the destructor that have returned. The last three are the tasks in the order they were
pushed, taken and finished. -/
structure ThreadPool (τ : Type) where
  workers : List (Worker τ)
  queue : List τ := []
  stop : Bool := false
  notifying : ℕ := 0
  notifiedAll : Bool := false
  joined : ℕ := 0
  enqueued : List τ := []
  taken : List τ := []
  finished : List τ := []
  deriving DecidableEq

namespace ThreadPool

inductive Step (τ : Type)
  | enqueue (task : τ)
  | notifyOne (i : ℕ)
  | spuriousWakeup (i : ℕ)
  | workerLoop (i : ℕ)
  | work (i : ℕ)
  | finish (i : ℕ)
  | setStop
  | notifyAll
  | join
  deriving DecidableEq

def Step.isEnqueue : Step τ → Bool
  | .enqueue _ => true
  | _ => false

def create (numThreads : ℕ) : ThreadPool τ :=
  { workers := List.replicate (if numThreads = 0 then 1 else numThreads) .awake }

def move (p : ThreadPool τ) (i : ℕ) (w : Worker τ) : ThreadPool τ :=
  { p with workers := p.workers.set i w }

def push (p : ThreadPool τ) (task : τ) : ThreadPool τ :=
  { p with queue := p.queue ++ [task], enqueued := p.enqueued ++ [task], notifying := p.notifying + 1 }

-- the critical section of `workerLoop`: the wait blocks in the step that found its condition false
def take (p : ThreadPool τ) (i : ℕ) : ThreadPool τ :=
  if p.stop || !p.queue.isEmpty then
    match p.queue with
    | [] => p.move i .exited
    | t :: queue => { p.move i (.running t 0) with queue := queue, taken := p.taken ++ [t] }
  else p.move i .blocked

def step (p : ThreadPool τ) : Step τ → Option (ThreadPool τ)
  | .enqueue t => some (p.push t)
  | .notifyOne i =>
    if p.notifying = 0 then none
    else if p.workers.any Worker.isBlocked then
      match p.workers[i]? with
      | some .blocked => some { p.move i .awake with notifying := p.notifying - 1 }
      | _ => none
    else some { p with notifying := p.notifying - 1 }
  | .spuriousWakeup i =>
    match p.workers[i]? with
    | some .blocked => some (p.move i .awake)
    | _ => none
  | .workerLoop i =>
    match p.workers[i]? with
    | some .awake => some (p.take i)
    | _ => none
  | .work i =>
    match p.workers[i]? with
    | some (.running t k) => some (p.move i (.running t (k + 1)))
    | _ => none
  | .finish i =>
    match p.workers[i]? with
    | some (.running t _) => some { p.move i .awake with finished := p.finished ++ [t] }
    | _ => none
  | .setStop => if p.stop then none else some { p with stop := true }
  | .notifyAll =>
    if p.stop && !p.notifiedAll then
      some { p with workers := p.workers.map Worker.wake, notifiedAll := true }
    else none
  | .join =>
    if p.notifiedAll then
      match p.workers[p.joined]? with
      | some .exited => some { p with joined := p.joined + 1 }
      | _ => none
    else none

def blocked (p : ThreadPool τ) : ℕ := p.workers.countP Worker.isBlocked

def awake (p : ThreadPool τ) : ℕ := p.workers.countP Worker.isAwake

def running (p : ThreadPool τ) : List τ := p.workers.flatMap Worker.tasks

def Joined (p : ThreadPool τ) : Prop := p.notifiedAll = true ∧ p.joined = p.workers.length

instance (p : ThreadPool τ) : Decidable p.Joined :=
  inferInstanceAs (Decidable (p.notifiedAll = true ∧ p.joined = p.workers.length))

inductive Moves (p : ThreadPool τ) : Step τ → ThreadPool τ → Prop
  | enqueue (t : τ) : Moves p (.enqueue t) (p.push t)
  | notifyOne (i : ℕ) : 0 < p.notifying → p.workers[i]? = some .blocked →
      Moves p (.notifyOne i) { p.move i .awake with notifying := p.notifying - 1 }
  | notifyNone (i : ℕ) : 0 < p.notifying → p.blocked = 0 →
      Moves p (.notifyOne i) { p with notifying := p.notifying - 1 }
  | spuriousWakeup (i : ℕ) : p.workers[i]? = some .blocked →
      Moves p (.spuriousWakeup i) (p.move i .awake)
  | exit (i : ℕ) : p.workers[i]? = some .awake → p.stop = true → p.queue = [] →
      Moves p (.workerLoop i) (p.move i .exited)
  | block (i : ℕ) : p.workers[i]? = some .awake → p.stop = false → p.queue = [] →
      Moves p (.workerLoop i) (p.move i .blocked)
  | take (i : ℕ) (t : τ) (queue : List τ) : p.workers[i]? = some .awake → p.queue = t :: queue →
      Moves p (.workerLoop i)
        { p.move i (.running t 0) with queue := queue, taken := p.taken ++ [t] }
  | work (i : ℕ) (t : τ) (k : ℕ) : p.workers[i]? = some (.running t k) →
      Moves p (.work i) (p.move i (.running t (k + 1)))
  | finish (i : ℕ) (t : τ) (k : ℕ) : p.workers[i]? = some (.running t k) →
      Moves p (.finish i) { p.move i .awake with finished := p.finished ++ [t] }
  | setStop : p.stop = false → Moves p .setStop { p with stop := true }
  | notifyAll : p.stop = true → p.notifiedAll = false →
      Moves p .notifyAll { p with workers := p.workers.map Worker.wake, notifiedAll := true }
  | join : p.notifiedAll = true → p.workers[p.joined]? = some .exited →
      Moves p .join { p with joined := p.joined + 1 }

lemma step_moves {p q : ThreadPool τ} {l : Step τ} (h : p.step l = some q) : p.Moves l q := by
  cases l with
  | enqueue t =>
    obtain rfl := Option.some.inj h
    exact .enqueue t
  | notifyOne i =>
    simp only [step] at h
    split_ifs at h with hn hb
    · split at h
      · obtain rfl := Option.some.inj h
        exact .notifyOne i (Nat.pos_of_ne_zero hn) (by assumption)
      · simp at h
    · obtain rfl := Option.some.inj h
      apply Moves.notifyNone i (Nat.pos_of_ne_zero hn)
      rw [blocked, List.countP_eq_zero]
      simpa using hb
  | spuriousWakeup i =>
    simp only [step] at h
    split at h
    · obtain rfl := Option.some.inj h
      exact .spuriousWakeup i (by assumption)
    · simp at h
  | workerLoop i =>
    simp only [step] at h
    split at h
    · next hw =>
      obtain rfl := Option.some.inj h
      rw [take]
      split_ifs with hc
      · split
        · next hq => exact .exit i hw (by simpa [hq] using hc) hq
        · next t queue hq => exact .take i t queue hw hq
      · exact .block i hw (by simp_all) (by simp_all)
    · simp at h
  | work i =>
    simp only [step] at h
    split at h
    · obtain rfl := Option.some.inj h
      exact .work i _ _ (by assumption)
    · simp at h
  | finish i =>
    simp only [step] at h
    split at h
    · obtain rfl := Option.some.inj h
      exact .finish i _ _ (by assumption)
    · simp at h
  | setStop =>
    simp only [step] at h
    split_ifs at h with hs
    obtain rfl := Option.some.inj h
    exact .setStop (by simpa using hs)
  | notifyAll =>
    simp only [step] at h
    split_ifs at h with hs
    obtain rfl := Option.some.inj h
    simp only [Bool.and_eq_true, Bool.not_eq_true'] at hs
    exact .notifyAll hs.1 hs.2
  | join =>
    simp only [step] at h
    split_ifs at h with hs
    split at h
    · obtain rfl := Option.some.inj h
      exact .join hs (by assumption)
    · simp at h

end ThreadPool

end HttpBalancer.Net
