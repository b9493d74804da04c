import HttpBalancer.Net.ThreadPoolProgress
import HttpBalancer.System.Exit

/-! A whole program, with the worker pool whose destructor `main` runs between those of the server or
balancer and of the health checker. A sweep is made of its probes, a turn of the loop of its events. -/

namespace HttpBalancer.System

open Lib
open Net (ThreadPool)

/-- `events` are those of the last `wait` not handled yet, if the turn has made its `wait`; `probes` are those
the sweep has still to make. -/
structure Program where
  process : Process
  pool : ThreadPool ℕ
  events : Option ℕ
  probes : ℕ
  deriving DecidableEq

namespace Program

inductive Party
  | process (k : Process.Party)
  | loop (i : ℕ)
  | task (i : ℕ)
  deriving DecidableEq

/-- `handle` is the handling of an event that needs no task. -/
inductive Label
  | process (l : Process.Label)
  | wait (events : ℕ)
  | handle
  | pool (l : ThreadPool.Step ℕ)
  | probe
  deriving DecidableEq

-- the thread that runs `main` calls `enqueue`, and then the pool's destructor
def ofPool : ThreadPool.Party → Party
  | .loop i => .loop i
  | .finish i => .task i
  | .notify | .destructor => .process .main

def Label.party : Label → Option Party
  | .process l => l.party.map .process
  | .wait _ | .handle | .pool (.enqueue _) | .pool .setStop => some (.process .main)
  | .pool l => l.party.map ofPool
  | .probe => some (.process .checker)

def create (numThreads : ℕ) : Program := ⟨Process.create, .create numThreads, none, 0⟩

def maxEvents : ℕ := 256

def allows (s : Program) : Process.Label → Bool
  | .run .iterate => s.events = some 0 ∧ s.pool.notifying = 0
  | .checker .sweep => s.probes = 0
  | .destroy _ | .destroyed => s.process.tail = .releasing → s.pool.Joined
  | _ => true

def afterProcess (upstreams : ℕ) (s : Program) (l : Process.Label) (p : Process) : Program :=
  { s with
    process := p
    events := if l = .run .iterate then none else s.events
    probes := if l = .checker .checkerTest then upstreams else s.probes }

def poolAllows (s : Program) : ThreadPool.Step ℕ → Bool
  | .enqueue _ => false
  | .setStop | .notifyAll | .join => s.process.tail = .releasing ∨ s.process.tail = .ended
  | _ => true

def step (owner : Owner) (upstreams : ℕ) (s : Program) : Label → Option Program
  | .process l =>
    if s.allows l then (s.process.step owner l).map (s.afterProcess upstreams l) else none
  | .wait n =>
    if s.process.core.main = .iterating ∧ s.events = none ∧ n ≤ maxEvents then
      some { s with events := some n }
    else none
  | .handle =>
    match s.events with
    | some (k + 1) => if s.pool.notifying = 0 then some { s with events := some k } else none
    | _ => none
  | .pool (.enqueue fd) =>
    match s.events with
    | some (k + 1) =>
      if s.pool.notifying = 0 then some { s with events := some k, pool := s.pool.push fd } else none
    | _ => none
  | .pool l => if s.poolAllows l then (s.pool.step l).map fun p => { s with pool := p } else none
  | .probe =>
    if s.process.core.checker = .probing ∧ 0 < s.probes then some { s with probes := s.probes - 1 } else none

inductive Moves (owner : Owner) (upstreams : ℕ) (s : Program) : Label → Program → Prop
  | process (l : Process.Label) (p : Process) : s.allows l = true → s.process.step owner l = some p →
      Moves owner upstreams s (.process l) (s.afterProcess upstreams l p)
  | wait (n : ℕ) : s.process.core.main = .iterating → s.events = none → n ≤ maxEvents →
      Moves owner upstreams s (.wait n) { s with events := some n }
  | handle (k : ℕ) : s.events = some (k + 1) → s.pool.notifying = 0 →
      Moves owner upstreams s .handle { s with events := some k }
  | enqueue (fd k : ℕ) : s.events = some (k + 1) → s.pool.notifying = 0 →
      Moves owner upstreams s (.pool (.enqueue fd)) { s with events := some k, pool := s.pool.push fd }
  | pool (l : ThreadPool.Step ℕ) (p : ThreadPool ℕ) : l.isEnqueue = false → s.poolAllows l = true →
      s.pool.step l = some p → Moves owner upstreams s (.pool l) { s with pool := p }
  | probe : s.process.core.checker = .probing → 0 < s.probes →
      Moves owner upstreams s .probe { s with probes := s.probes - 1 }

variable {owner : Owner} {upstreams : ℕ} {s t : Program} {l : Label}

lemma step_moves (h : step owner upstreams s l = some t) : Moves owner upstreams s l t := by
  cases l with
  | process l =>
    obtain ⟨ha, h⟩ := Option.ite_none_right_eq_some.mp h
    obtain ⟨p, hp, rfl⟩ := Option.map_eq_some_iff.mp h
    exact .process l p ha hp
  | wait n =>
    obtain ⟨⟨hm, he, hn⟩, ⟨⟩⟩ := Option.ite_none_right_eq_some.mp h
    exact .wait n hm he hn
  | handle =>
    simp only [step] at h
    split at h
    · next k he =>
      obtain ⟨hn, ⟨⟩⟩ := Option.ite_none_right_eq_some.mp h
      exact .handle k he hn
    · cases h
  | pool l =>
    cases l with
    | enqueue fd =>
      simp only [step] at h
      split at h
      · next k he =>
        obtain ⟨hn, ⟨⟩⟩ := Option.ite_none_right_eq_some.mp h
        exact .enqueue fd k he hn
      · cases h
    | notifyOne | spuriousWakeup | workerLoop | work | finish | setStop | notifyAll | join =>
      simp only [step] at h
      obtain ⟨ha, h⟩ := Option.ite_none_right_eq_some.mp h
      obtain ⟨p, hp, rfl⟩ := Option.map_eq_some_iff.mp h
      exact .pool _ p rfl ha hp
  | probe =>
    obtain ⟨⟨hc, hp⟩, ⟨⟩⟩ := Option.ite_none_right_eq_some.mp h
    exact .probe hc hp

lemma iterating_step {p q : Process} {l : Process.Label} (h : p.step owner l = some q)
    (hm : p.core.main = .iterating) (hl : l ≠ .run .iterate) : q.core.main = .iterating := by
  cases Process.step_moves h with
  | run l c _ _ hc =>
    obtain ⟨he, rfl⟩ := Shutdown.step_eq hc
    cases l with
    | iterate => exact absurd rfl hl
    | bind _ | startChecker | spawn | assign | raise | test => simp [Shutdown.enabled, hm] at he
    | checkerTest | sweep | stopRunning | stopChecker | joinable | join => exact hm
  | checker l c hr hc => exact (Process.checker_frame hr hc).2.1.trans hm
  | stop l c _ hr hc => exact (Process.stop_frame hr hc).2.trans hm
  | destroyed => cases owner <;> exact hm
  | signal | pollRequested | pollExit | decide | stopped | leave | joinWatcher | destroyRunning | destroyChecker
    | destroyJoinable | destroyJoin | released => exact hm

lemma tail_step {p q : Process} {l : Process.Label} (h : p.step owner l = some q)
    (ht : p.tail = .releasing ∨ p.tail = .ended) : q.tail = .releasing ∨ q.tail = .ended := by
  cases Process.step_moves h with
  | leave hr | joinWatcher hr => simp [hr] at ht
  | destroyed hr => simp [hr] at ht
  | released => exact Or.inr rfl
  | signal | run | checker | pollRequested | pollExit | decide | stop | stopped | destroyRunning
    | destroyChecker | destroyJoinable | destroyJoin => exact ht

lemma ended_step {p q : Process} {l : Process.Label} (h : p.step .loadBalancer l = some q)
    (ht : q.tail = .ended) : p.tail = .ended ∨ l = .destroyed ∧ p.tail = .releasing := by
  cases Process.step_moves h with
  | leave | joinWatcher | destroyed => cases ht
  | released hr => exact Or.inr ⟨rfl, hr⟩
  | signal | run | checker | pollRequested | pollExit | decide | stop | stopped | destroyRunning
    | destroyChecker | destroyJoinable | destroyJoin => exact Or.inl ht

/-- The server or balancer is destroyed, but for its members. -/
def Down (s : Program) : Prop := s.process.tail = .releasing ∨ s.process.tail = .ended

structure Whole (owner : Owner) (upstreams : ℕ) (s : Program) : Prop where
  process : Process.Inv owner s.process
  pool : s.pool.Sound
  turn : s.events ≠ none → s.process.core.main = .iterating
  events : ∀ k, s.events = some k → k ≤ maxEvents
  pushing : 0 < s.pool.notifying → s.events ≠ none
  notifying : s.pool.notifying ≤ 1
  probes : s.probes ≤ upstreams
  stopped : s.pool.stop = true → s.Down
  released : s.process.tail = .ended → owner = .loadBalancer → s.pool.Joined

lemma create_whole (owner : Owner) (upstreams numThreads : ℕ) :
    Whole owner upstreams (create numThreads) where
  process := Process.Inv.create
  pool := ThreadPool.create_sound numThreads
  turn h := absurd rfl h
  events k h := by cases h
  pushing h := absurd h (by simp [create, ThreadPool.create])
  notifying := Nat.zero_le _
  probes := Nat.zero_le _
  stopped h := by cases h
  released h := by cases h

lemma Whole.running (hs : Whole owner upstreams s) (hm : s.process.core.main = .iterating) :
    s.process.tail = .running := by
  by_contra ht
  have hl := hs.process.left ht
  simp [hm] at hl

lemma Whole.not_down (hs : Whole owner upstreams s) (he : s.events ≠ none) : ¬ s.Down := by
  have ht := hs.running (hs.turn he)
  simp [Down, ht]

lemma Whole.unstopped (hs : Whole owner upstreams s) (he : s.events ≠ none) : s.pool.stop = false := by
  cases h : s.pool.stop with
  | false => rfl
  | true => exact absurd (hs.stopped h) (hs.not_down he)

lemma Whole.step (hs : Whole owner upstreams s) (h : step owner upstreams s l = some t) :
    Whole owner upstreams t := by
  cases step_moves h with
  | process l p ha hp =>
    have hevents : (s.afterProcess upstreams l p).events ≠ none → l ≠ .run .iterate ∧ s.events ≠ none := by
      simp only [afterProcess]
      split_ifs with hl <;> simp [hl]
    refine ⟨hs.process.step hp, hs.pool, ?_, ?_, ?_, hs.notifying, ?_, ?_, ?_⟩
    · intro he
      obtain ⟨hl, he⟩ := hevents he
      exact iterating_step hp (hs.turn he) hl
    · intro k hk
      simp only [afterProcess] at hk
      split_ifs at hk
      exact hs.events k hk
    · intro hn
      have hl : l ≠ .run .iterate := by
        rintro rfl
        simp only [allows, decide_eq_true_eq] at ha
        exact hn.ne' ha.2
      simpa [afterProcess, hl] using hs.pushing hn
    · simp only [afterProcess]
      split_ifs
      · exact le_rfl
      · exact hs.probes
    · exact fun h => tail_step hp (hs.stopped h)
    · rintro ht rfl
      rcases ended_step hp ht with he | ⟨rfl, hr⟩
      · exact hs.released he rfl
      · exact of_decide_eq_true ha hr
  | wait n hm he hn =>
    exact { hs with
      turn := fun _ => hm
      events := by rintro k ⟨⟩; exact hn
      pushing := fun _ => by simp }
  | handle k he hn =>
    have he' : s.events ≠ none := by simp [he]
    exact { hs with
      turn := fun _ => hs.turn he'
      events := by rintro k ⟨⟩; exact (Nat.le_succ k).trans (hs.events _ he)
      pushing := fun _ => by simp }
  | enqueue fd k he hn =>
    have he' : s.events ≠ none := by simp [he]
    have hstop := hs.unstopped he'
    have hpush : s.pool.step (.enqueue fd) = some (s.pool.push fd) := rfl
    exact { hs with
      pool := hs.pool.step (fun h => absurd (hstop.symm.trans h) (by simp)) hpush
      turn := fun _ => hs.turn he'
      events := by rintro k ⟨⟩; exact (Nat.le_succ k).trans (hs.events _ he)
      pushing := fun _ => by simp
      notifying := by simp [ThreadPool.push, hn]
      stopped := fun h => absurd (hstop.symm.trans h) (by simp)
      released := fun ht ho => (hs.released ht ho).step hpush }
  | pool l p hl ha hp =>
    obtain ⟨hn, hstop⟩ := ThreadPool.step_serves hp hl
    exact { hs with
      pool := hs.pool.step (fun _ => hl) hp
      pushing := fun h => hs.pushing (h.trans_le hn)
      notifying := hn.trans hs.notifying
      stopped := by
        intro h
        rcases hstop h with h | rfl
        · exact hs.stopped h
        · simpa [poolAllows, Down] using ha
      released := fun ht ho => (hs.released ht ho).step hp }
  | probe hc hp => exact { hs with probes := (Nat.sub_le _ _).trans hs.probes }

end Program

end HttpBalancer.System
