import HttpBalancer.Net.ThreadPoolRuns

/-! Destruction of a server or a load balancer. The destructors' bodies only clear `running_` (and
stop the health checker); the members then go in reverse order of declaration, so the four that the
handlers use are gone before the destructor of `pool_` lets its workers finish. -/

namespace HttpBalancer.System

open Lib Net Transitions

inductive Member
  | port
  | router
  | upstreamPool
  | healthChecker
  | listenSock
  | eventLoop
  | pool
  | connectionsMutex
  | connections
  | rearmMutex
  | pendingRearms
  | running
  deriving DecidableEq

inductive Owner
  | httpServer
  | loadBalancer
  deriving DecidableEq

def Owner.members : Owner → List Member
  | .httpServer => [.port, .router, .listenSock, .eventLoop, .pool, .connectionsMutex, .connections,
      .rearmMutex, .pendingRearms, .running]
  | .loadBalancer => [.port, .upstreamPool, .healthChecker, .listenSock, .eventLoop, .pool,
      .connectionsMutex, .connections, .rearmMutex, .pendingRearms, .running]

def shared : List Member := [.connectionsMutex, .connections, .rearmMutex, .pendingRearms]

/-- The steps of `handleConnectionEvent` and `handleClientEvent`, with the members each uses: the
lookup, the work on the connection found, and `postRearm`. -/
def handlerUses : ℕ → List Member
  | 0 => [.connectionsMutex, .connections]
  | 1 => [.connections]
  | 2 => [.rearmMutex, .pendingRearms]
  | _ => []

/-- Tasks are the descriptors they were enqueued for; `members` are those not destroyed yet. -/
structure Teardown where
  pool : ThreadPool ℕ
  members : List Member
  deriving DecidableEq

namespace Teardown

inductive Step
  | pool (l : ThreadPool.Step ℕ)
  | destroy
  deriving DecidableEq

def create (owner : Owner) (numThreads : ℕ) : Teardown := ⟨.create numThreads, owner.members⟩

-- a handler returns after the lookup if the descriptor is unknown; the pool's destructor runs when
-- the pool is the last member left
def allows (s : Teardown) : ThreadPool.Step ℕ → Bool
  | .work i =>
    match s.pool.workers[i]? with
    | some (.running _ k) => k < 3
    | _ => false
  | .finish i =>
    match s.pool.workers[i]? with
    | some (.running _ k) => k = 1 ∨ k = 3
    | _ => false
  | .setStop | .notifyAll | .join => s.members.getLast? = some .pool
  | _ => true

def step (s : Teardown) : Step → Option Teardown
  | .pool l => if s.allows l then (s.pool.step l).map fun p => { s with pool := p } else none
  | .destroy =>
    if s.members = [] then none
    else if s.members.getLast? = some .pool ∧
        ¬ (s.pool.notifiedAll = true ∧ s.pool.joined = s.pool.workers.length) then none
    else some { s with members := s.members.dropLast }

def Step.isTask : Step → Bool
  | .pool (.work _) | .pool (.finish _) => true
  | _ => false

def Step.isEnqueue : Step → Bool
  | .pool l => l.isEnqueue
  | .destroy => false

def Serving (_ : Teardown) (l : Step) : Prop := l ≠ .destroy

-- the thread that enqueues is the one that destroys
def TearingDown (_ : Teardown) (l : Step) : Prop := l.isEnqueue = false

instance (s : Teardown) : DecidablePred s.Serving := fun l => inferInstanceAs (Decidable (l ≠ .destroy))

instance (s : Teardown) : DecidablePred s.TearingDown := fun l =>
  inferInstanceAs (Decidable (l.isEnqueue = false))

def Idle (s : Teardown) : Prop := s.pool.queue = [] ∧ s.pool.running = []

lemma step_pool {s t : Teardown} {l : ThreadPool.Step ℕ} (h : s.step (.pool l) = some t) :
    s.allows l = true ∧ ∃ p, s.pool.step l = some p ∧ t = { s with pool := p } := by
  simp only [step] at h
  split_ifs at h with ha
  obtain ⟨p, hp, rfl⟩ := Option.map_eq_some_iff.mp h
  exact ⟨ha, p, hp, rfl⟩

lemma step_destroy {s t : Teardown} (h : s.step .destroy = some t) : t.pool = s.pool := by
  simp only [step] at h
  split_ifs at h
  obtain rfl := Option.some.inj h
  rfl

structure Live (owner : Owner) (s : Teardown) : Prop where
  members : s.members = owner.members
  stop : s.pool.stop = false
  notifiedAll : s.pool.notifiedAll = false
  crew : 0 < s.pool.workers.length
  workers : ∀ w ∈ s.pool.workers, w ≠ .exited ∧ ∀ t k, w = .running t k → k ≤ 3

lemma getLast_members (owner : Owner) : owner.members.getLast? = some .running := by
  cases owner <;> rfl

lemma create_live (owner : Owner) (numThreads : ℕ) : Live owner (create owner numThreads) := by
  have hcrew : 0 < (create owner numThreads).pool.workers.length :=
    ThreadPool.crew_pos
      (Transitions.Reachable.init : Transitions.Reachable ThreadPool.step (fun _ _ => True) _ _)
  refine ⟨rfl, rfl, rfl, hcrew, ?_⟩
  intro w hw
  simp [List.eq_of_mem_replicate hw]

lemma Live.of_move {owner : Owner} {s : Teardown} {p : ThreadPool ℕ} {i : ℕ} {w : Net.Worker ℕ}
    (hs : Live owner s) (hp : p.stop = s.pool.stop) (hn : p.notifiedAll = s.pool.notifiedAll)
    (hm : p.workers = s.pool.workers.set i w)
    (hw : w ≠ .exited ∧ ∀ t k, w = .running t k → k ≤ 3) : Live owner { s with pool := p } := by
  refine ⟨hs.members, hp.trans hs.stop, hn.trans hs.notifiedAll, by simpa [hm] using hs.crew, ?_⟩
  intro w' hw'
  rw [hm] at hw'
  rcases List.mem_or_eq_of_mem_set hw' with hw' | rfl
  · exact hs.workers w' hw'
  · exact hw

lemma step_live {owner : Owner} {s t : Teardown} {l : Step} (hs : Live owner s) (hl : s.Serving l)
    (h : s.step l = some t) : Live owner t := by
  cases l with
  | destroy => exact absurd rfl hl
  | pool l =>
    obtain ⟨ha, p, hp, rfl⟩ := step_pool h
    have hlast : s.members.getLast? = some .running := by rw [hs.members, getLast_members]
    cases ThreadPool.step_moves hp with
    | enqueue t => exact ⟨hs.members, hs.stop, hs.notifiedAll, hs.crew, hs.workers⟩
    | notifyNone i _ _ => exact ⟨hs.members, hs.stop, hs.notifiedAll, hs.crew, hs.workers⟩
    | exit i _ hstop _ =>
      rw [hs.stop] at hstop
      exact Bool.noConfusion hstop
    | work i t k hw =>
      have hk : k < 3 := by simpa [allows, hw] using ha
      exact hs.of_move rfl rfl rfl (by simp; omega)
    | notifyOne | spuriousWakeup | block | take | finish => exact hs.of_move rfl rfl rfl (by simp)
    | setStop | notifyAll | join => simp [allows, hlast] at ha

lemma serving_live {owner : Owner} {numThreads : ℕ} {s : Teardown}
    (h : Transitions.Reachable step Serving (create owner numThreads) s) : Live owner s :=
  h.invariant (create_live owner numThreads) fun _ _ _ hs hl ht => step_live hs hl ht

lemma running_move_nil {p : ThreadPool ℕ} {i : ℕ} {w w' : Net.Worker ℕ} (hw : p.workers[i]? = some w)
    (hr : p.running = []) (ht : w'.tasks = []) : (p.move i w').running = [] := by
  have hh := ThreadPool.running_move w' hw
  rw [hr, ht] at hh
  exact (List.append_eq_nil_iff.mp hh.eq_nil).2

lemma not_running {p : ThreadPool ℕ} {i t k : ℕ} (hr : p.running = []) :
    p.workers[i]? ≠ some (.running t k) := by
  intro hw
  have hh := List.flatMap_eq_nil_iff.mp hr _ (List.mem_of_getElem? hw)
  simp [Net.Worker.tasks] at hh

lemma step_idle {s t : Teardown} {l : Step} (hs : s.Idle) (hl : s.TearingDown l)
    (h : s.step l = some t) : t.Idle := by
  obtain ⟨hq, hr⟩ := hs
  cases l with
  | destroy => simpa [Idle, step_destroy h] using ⟨hq, hr⟩
  | pool l =>
    obtain ⟨-, p, hp, rfl⟩ := step_pool h
    cases ThreadPool.step_moves hp with
    | enqueue t => exact Bool.noConfusion hl
    | notifyOne i _ hw => exact ⟨hq, running_move_nil hw hr rfl⟩
    | spuriousWakeup i hw => exact ⟨hq, running_move_nil hw hr rfl⟩
    | exit i hw _ _ => exact ⟨hq, running_move_nil hw hr rfl⟩
    | block i hw _ _ => exact ⟨hq, running_move_nil hw hr rfl⟩
    | take i t queue _ ht => simp [hq] at ht
    | work i t k hw => exact absurd hw (not_running hr)
    | finish i t k hw => exact absurd hw (not_running hr)
    | notifyAll _ _ => exact ⟨hq, (ThreadPool.running_wake _).trans hr⟩
    | notifyNone | setStop | join => exact ⟨hq, hr⟩

lemma task_running {s t : Teardown} {l : Step} (hl : l.isTask = true) (h : s.step l = some t) :
    s.pool.running ≠ [] := by
  intro hr
  cases l with
  | destroy => exact Bool.noConfusion hl
  | pool l =>
    obtain ⟨-, p, hp, -⟩ := step_pool h
    cases l with
    | work i | finish i =>
      simp only [ThreadPool.step] at hp
      split at hp
      · next hw => exact not_running hr hw
      · simp at hp
    | _ => exact Bool.noConfusion hl

lemma destroy_reachable {s : Teardown} {p : ThreadPool ℕ} {ms : List Member} {m : Member}
    (hm : m ≠ .pool) (h : Transitions.Reachable step TearingDown s ⟨p, ms ++ [m]⟩) :
    Transitions.Reachable step TearingDown s ⟨p, ms⟩ := by
  refine h.step .destroy rfl ?_
  simp [step, hm]

lemma pool_reachable {s : Teardown} {p q : ThreadPool ℕ} {ms : List Member} {l : ThreadPool.Step ℕ}
    (h : Transitions.Reachable step TearingDown s ⟨p, ms⟩) (hl : l.isEnqueue = false)
    (ha : allows ⟨p, ms⟩ l = true) (hp : p.step l = some q) :
    Transitions.Reachable step TearingDown s ⟨q, ms⟩ := by
  refine h.step (.pool l) hl ?_
  simp [step, ha, hp]

lemma members_shared (owner : Owner) : ∃ ms, owner.members = ms ++ [.pool] ++ [.connectionsMutex] ++
    [.connections] ++ [.rearmMutex] ++ [.pendingRearms] ++ [.running] ∧
      .connectionsMutex ∉ ms ++ [Member.pool] := by
  cases owner with
  | httpServer => exact ⟨[.port, .router, .listenSock, .eventLoop], rfl, by decide⟩
  | loadBalancer =>
    exact ⟨[.port, .upstreamPool, .healthChecker, .listenSock, .eventLoop], rfl, by decide⟩

lemma Live.shared_gone {owner : Owner} {s : Teardown} (hs : Live owner s) :
    ∃ ms, Transitions.Reachable step TearingDown s ⟨s.pool, ms ++ [.pool]⟩ ∧
      .connectionsMutex ∉ ms ++ [Member.pool] := by
  obtain ⟨ms, hm, hn⟩ := members_shared owner
  have h : Transitions.Reachable step TearingDown s ⟨s.pool, s.members⟩ := .init
  rw [hs.members, hm] at h
  refine ⟨ms, ?_, hn⟩
  iterate 5 replace h := destroy_reachable (by decide) h
  exact h

lemma running_steps {s : Teardown} {i t k : ℕ} (hw : s.pool.workers[i]? = some (.running t k))
    (hk : k ≤ 3) : ∃ l u, l.isTask = true ∧ s.step l = some u := by
  rcases hk.lt_or_eq with hk | rfl
  · exact ⟨.pool (.work i), _, rfl, by simp [step, allows, hw, hk, ThreadPool.step]; rfl⟩
  · exact ⟨.pool (.finish i), _, rfl, by simp [step, allows, hw, ThreadPool.step]; rfl⟩

lemma Live.first_worker {owner : Owner} {s : Teardown} (hs : Live owner s) (hr : s.pool.running = []) :
    (s.pool.workers.map Net.Worker.wake)[0]? = some .awake := by
  have hc := hs.crew
  have h0 := List.getElem?_eq_getElem hc
  have hw := (hs.workers _ (List.mem_of_getElem? h0)).1
  rw [List.getElem?_map, h0]
  cases hk : s.pool.workers[0] with
  | awake | blocked => rfl
  | running t k => exact absurd (hk ▸ h0) (not_running hr)
  | exited => exact absurd hk hw

lemma Live.drained {owner : Owner} {s : Teardown} {ms : List Member} {t : ℕ} {queue : List ℕ}
    (hs : Live owner s) (hr : s.pool.running = []) (hq : s.pool.queue = t :: queue)
    (h : Transitions.Reachable step TearingDown s ⟨s.pool, ms ++ [.pool]⟩) :
    ∃ p, Transitions.Reachable step TearingDown s ⟨p, ms ++ [.pool]⟩ ∧
      p.workers[0]? = some (.running t 0) := by
  have hf := hs.first_worker hr
  have h1 := pool_reachable (l := .setStop) h rfl (by simp [allows])
    (by simp [ThreadPool.step, hs.stop]; rfl)
  have h2 := pool_reachable (l := .notifyAll) h1 rfl (by simp [allows])
    (by simp [ThreadPool.step, hs.notifiedAll]; rfl)
  have h3 := pool_reachable (l := .workerLoop 0) h2 rfl (by simp [allows])
    (by simp only [ThreadPool.step, hf]; rfl)
  refine ⟨_, h3, ?_⟩
  have hc := hs.crew
  simp [ThreadPool.take, hq, ThreadPool.move, hc]

theorem task_steps_before_destruction (owner : Owner) (numThreads : ℕ) (s : Teardown)
    (h : Transitions.Reachable step Serving (create owner numThreads) s) :
    (∀ t l u, Transitions.Reachable step TearingDown s t → l.isTask = true → t.step l = some u →
      ∀ m ∈ shared, m ∈ t.members) ↔ s.pool.queue = [] ∧ s.pool.running = [] := by
  have hs := serving_live h
  constructor
  · intro hsafe
    obtain ⟨ms, hgone, hn⟩ := hs.shared_gone
    have hdead : ∀ (p : ThreadPool ℕ) (i t k : ℕ),
        Transitions.Reachable step TearingDown s ⟨p, ms ++ [.pool]⟩ →
        p.workers[i]? = some (.running t k) → ¬ k ≤ 3 := by
      intro p i t k hp hw hk
      obtain ⟨l, u, hl, hu⟩ := running_steps (s := ⟨p, ms ++ [.pool]⟩) hw hk
      exact hn (hsafe _ l u hp hl hu _ (by simp [shared]))
    have hr : s.pool.running = [] := by
      rw [ThreadPool.running, List.flatMap_eq_nil_iff]
      intro w hw
      cases w with
      | running t k =>
        obtain ⟨i, hi⟩ := List.mem_iff_getElem?.mp hw
        exact absurd ((hs.workers _ hw).2 t k rfl) (hdead _ i t k hgone hi)
      | _ => rfl
    refine ⟨?_, hr⟩
    cases hq : s.pool.queue with
    | nil => rfl
    | cons t queue =>
      obtain ⟨p, hp, hw⟩ := hs.drained hr hq hgone
      exact absurd (by omega) (hdead p 0 t 0 hp hw)
  · intro hi t l u ht hl hu
    have hidle : t.Idle := ht.invariant (P := Idle) hi fun _ _ _ hs hl ht => step_idle hs hl ht
    exact absurd hidle.2 (task_running hl hu)

theorem task_steps_before_destruction_served : ∃ s : Teardown,
    Transitions.Reachable step Serving (create .loadBalancer 2) s ∧ s.pool.finished = [5] ∧
      ∀ t l u, Transitions.Reachable step TearingDown s t → l.isTask = true → t.step l = some u →
        ∀ m ∈ shared, m ∈ t.members := by
  have h : ∃ s : Teardown, Transitions.Reachable step Serving (create .loadBalancer 2) s ∧
      s.pool.finished = [5] ∧ s.pool.queue = [] ∧ s.pool.running = [] :=
    exists_reachable [.pool (.enqueue 5), .pool (.workerLoop 1), .pool (.work 1), .pool (.work 1),
      .pool (.work 1), .pool (.finish 1)] (by decide)
  obtain ⟨s, hs, hf, hi⟩ := h
  exact ⟨s, hs, hf, (task_steps_before_destruction .loadBalancer 2 s hs).mpr hi⟩

theorem destroyed_mutex_locked : ∃ s t u : Teardown,
    Transitions.Reachable step Serving (create .httpServer 1) s ∧ s.pool.queue = [5] ∧
      Transitions.Reachable step TearingDown s t ∧ t.step (.pool (.work 0)) = some u ∧
      t.pool.workers = [.running 5 0] ∧ .connectionsMutex ∈ handlerUses 0 ∧
      .connectionsMutex ∉ t.members := by
  let s : Teardown := ⟨(ThreadPool.create 1).push 5, Owner.httpServer.members⟩
  have hs : Transitions.Reachable step Serving (create .httpServer 1) s :=
    .step (.pool (.enqueue 5)) .init (by decide) rfl
  have h : ∃ t : Teardown, Transitions.Reachable step TearingDown s t ∧
      (t.step (.pool (.work 0))).isSome = true ∧
      t.pool.workers = [.running 5 0] ∧ .connectionsMutex ∉ t.members :=
    exists_reachable [.destroy, .destroy, .destroy, .destroy, .destroy, .pool .setStop,
      .pool .notifyAll, .pool (.workerLoop 0)] (by decide)
  obtain ⟨t, ht, hu, hw, hm⟩ := h
  obtain ⟨u, hu⟩ := Option.isSome_iff_exists.mp hu
  exact ⟨s, t, u, hs, rfl, ht, hu, hw, by decide, hm⟩

end Teardown

end HttpBalancer.System
