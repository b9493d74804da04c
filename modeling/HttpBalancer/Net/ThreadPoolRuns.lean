import HttpBalancer.Net.ThreadPool

/-! Every run of the pool: tasks are taken in order and run once each, and no worker sleeps while a
task waits for one. -/

namespace HttpBalancer.Net.ThreadPool

open Lib Transitions

variable {τ : Type} {p : ThreadPool τ} {i : ℕ} {w w' : Worker τ}

lemma blocked_move (w' : Worker τ) (h : p.workers[i]? = some w) :
    (p.move i w').blocked + (if w.isBlocked then 1 else 0) = p.blocked + if w'.isBlocked then 1 else 0 :=
  Threads.countP_set_add _ h

lemma awake_move (w' : Worker τ) (h : p.workers[i]? = some w) :
    (p.move i w').awake + (if w.isAwake then 1 else 0) = p.awake + if w'.isAwake then 1 else 0 :=
  Threads.countP_set_add _ h

lemma blocked_wake (workers : List (Worker τ)) :
    (workers.map Worker.wake).countP Worker.isBlocked = 0 := by
  simp only [List.countP_eq_zero, List.mem_map]
  rintro _ ⟨w, -, rfl⟩
  cases w <;> simp [Worker.wake, Worker.isBlocked]

/-- The wakeups the pool still owes: every task in the queue has a pending notification or a waking
worker, unless no worker sleeps. -/
structure Wakes (p : ThreadPool τ) : Prop where
  queue : 0 < p.blocked → p.queue.length ≤ p.notifying + p.awake
  all : p.notifiedAll = true → p.stop = true ∧ p.blocked = 0

lemma create_wakes (numThreads : ℕ) : (create numThreads : ThreadPool τ).Wakes :=
  ⟨fun _ => Nat.zero_le _, fun h => by simp [create] at h⟩

lemma Wakes.of_move {q : ThreadPool τ} {v : Worker τ} (hp : p.Wakes) (hw : p.workers[i]? = some w)
    (hm : q.workers = (p.move i v).workers) (hs : q.stop = p.stop)
    (hn : q.notifiedAll = p.notifiedAll) (hb : v.isBlocked = true → p.stop = false)
    (hq : q.queue = [] ∨ v.isBlocked = false ∧
      q.queue.length + p.notifying + (if w.isAwake then 1 else 0) ≤
        p.queue.length + q.notifying + if v.isAwake then 1 else 0) : q.Wakes := by
  have hcb := blocked_move v hw
  have hca := awake_move v hw
  have hqb : q.blocked = (p.move i v).blocked := by rw [blocked, hm, blocked]
  have hqa : q.awake = (p.move i v).awake := by rw [awake, hm, awake]
  refine ⟨?_, ?_⟩
  · intro h
    rcases hq with hq | ⟨hk, hq⟩
    · rw [hq]
      exact Nat.zero_le _
    · simp only [hk, Bool.false_eq_true, if_false] at hcb
      have hh := hp.queue (by omega)
      omega
  · intro h
    obtain ⟨ha, hz⟩ := hp.all (hn ▸ h)
    have hk : v.isBlocked = false := by
      by_contra hk
      rw [hb (by simpa using hk)] at ha
      exact Bool.noConfusion ha
    simp only [hk, Bool.false_eq_true, if_false] at hcb
    exact ⟨hs.trans ha, by omega⟩

lemma step_wakes {q : ThreadPool τ} {l : Step τ} (hp : p.Wakes) (h : p.step l = some q) : q.Wakes := by
  cases step_moves h with
  | enqueue t =>
    refine ⟨?_, hp.all⟩
    intro hb
    have hh : p.queue.length ≤ p.notifying + p.awake := hp.queue hb
    simp only [push, List.length_append, List.length_singleton]
    change _ ≤ _ + 1 + p.awake
    omega
  | notifyOne i hn hw =>
    refine hp.of_move (v := .awake) hw rfl rfl rfl (by simp [Worker.isBlocked]) (Or.inr ⟨rfl, ?_⟩)
    simp only [move, Worker.isAwake, if_true]
    simp
    omega
  | notifyNone i hn hz =>
    refine ⟨fun hb => ?_, hp.all⟩
    exact absurd hb (by simpa [blocked] using hz.le)
  | spuriousWakeup i hw =>
    refine hp.of_move hw rfl rfl rfl (by simp [Worker.isBlocked]) (Or.inr ⟨rfl, ?_⟩)
    simp [move, Worker.isAwake]
  | exit i hw hs hq => exact hp.of_move hw rfl rfl rfl (by simp [Worker.isBlocked]) (Or.inl hq)
  | block i hw hs hq => exact hp.of_move hw rfl rfl rfl (fun _ => hs) (Or.inl hq)
  | take i t queue hw hq =>
    refine hp.of_move hw rfl rfl rfl (by simp [Worker.isBlocked]) (Or.inr ⟨rfl, ?_⟩)
    simp [move, Worker.isAwake, hq]
  | work i t k hw =>
    refine hp.of_move hw rfl rfl rfl (by simp [Worker.isBlocked]) (Or.inr ⟨rfl, ?_⟩)
    simp [move, Worker.isAwake]
  | finish i t k hw =>
    refine hp.of_move hw rfl rfl rfl (by simp [Worker.isBlocked]) (Or.inr ⟨rfl, ?_⟩)
    simp [move, Worker.isAwake]
  | setStop hs => exact ⟨hp.queue, fun h => ⟨rfl, (hp.all h).2⟩⟩
  | notifyAll hs hn =>
    have hz := blocked_wake p.workers
    refine ⟨fun hb => ?_, fun _ => ⟨hs, hz⟩⟩
    exact absurd hb (by simpa [blocked] using hz.le)
  | join hn hw => exact ⟨hp.queue, hp.all⟩

theorem no_lost_wakeup (numThreads : ℕ) (p : ThreadPool τ)
    (h : Reachable step (fun _ _ => True) (create numThreads) p) :
    (0 < p.blocked → p.queue.length ≤ p.notifying + p.awake) ∧
      (p.stop = true → 0 < p.blocked → p.notifiedAll = false) := by
  have hp : p.Wakes := h.invariant (create_wakes numThreads) fun _ _ _ hs _ ht => step_wakes hs ht
  refine ⟨hp.queue, ?_⟩
  intro _ hb
  by_contra hn
  have hz := (hp.all (by simpa using hn)).2
  omega

theorem no_lost_wakeup_woken : ∃ p : ThreadPool ℕ,
    Reachable step (fun _ _ => True) (create 2) p ∧ (0 < p.blocked ∧ p.queue = [7] ∧ p.stop = true) ∧
      p.queue.length ≤ p.notifying + p.awake ∧ p.notifiedAll = false := by
  -- both workers sleep when the task arrives, and one of them is woken for it
  have h : ∃ p : ThreadPool ℕ, Reachable step (fun _ _ => True) (create 2) p ∧
      0 < p.blocked ∧ p.queue = [7] ∧ p.stop = true :=
    exists_reachable [.workerLoop 0, .workerLoop 1, .enqueue 7, .notifyOne 1, .setStop] (by decide)
  obtain ⟨p, hp, hb⟩ := h
  obtain ⟨hq, hs⟩ := no_lost_wakeup 2 p hp
  exact ⟨p, hp, hb, hq hb.1, hs hb.2.2 hb.1⟩

def EnqueuesBeforeStop (p : ThreadPool τ) (l : Step τ) : Prop := p.stop = true → l.isEnqueue = false

instance (p : ThreadPool τ) : DecidablePred p.EnqueuesBeforeStop := fun l =>
  inferInstanceAs (Decidable (p.stop = true → l.isEnqueue = false))

structure Conserved (p : ThreadPool τ) : Prop where
  order : p.taken ++ p.queue = p.enqueued
  tasks : (p.running ++ p.finished).Perm p.taken
  exited : .exited ∈ p.workers → p.stop = true ∧ p.queue = []
  joined : ∀ i < p.joined, p.workers[i]? = some .exited

lemma running_move (w' : Worker τ) (h : p.workers[i]? = some w) :
    (w.tasks ++ (p.move i w').running).Perm (w'.tasks ++ p.running) :=
  Threads.flatMap_set_perm _ h

lemma create_conserved (numThreads : ℕ) : (create numThreads : ThreadPool τ).Conserved := by
  refine ⟨rfl, ?_, ?_, ?_⟩
  · simp [create, running, Worker.tasks]
  · simp [create]
  · simp [create]

lemma Conserved.of_move {q : ThreadPool τ} (hp : p.Conserved) (hw : p.workers[i]? = some w)
    (hx : w ≠ .exited) (hm : q.workers = (p.move i w').workers) (hj : q.joined = p.joined)
    (ho : q.taken ++ q.queue = q.enqueued)
    (ht : (w'.tasks ++ (p.running ++ q.finished)).Perm (w.tasks ++ q.taken))
    (he : w' = .exited ∨ .exited ∈ p.workers → q.stop = true ∧ q.queue = []) : q.Conserved := by
  have hr : (w.tasks ++ q.running).Perm (w'.tasks ++ p.running) := by
    rw [running, hm]
    exact running_move w' hw
  refine ⟨ho, ?_, ?_, ?_⟩
  · have hh := hr.append_right q.finished
    rw [List.append_assoc, List.append_assoc] at hh
    exact (List.perm_append_left_iff _).mp (hh.trans ht)
  · intro hq
    apply he
    rw [hm] at hq
    rcases List.mem_or_eq_of_mem_set hq with hq | hq
    · exact Or.inr hq
    · exact Or.inl hq.symm
  · intro k hk
    have hk' := hp.joined k (hj ▸ hk)
    have hn : i ≠ k := by
      rintro rfl
      rw [hw] at hk'
      exact hx (Option.some.inj hk')
    rw [hm]
    change (p.workers.set i w')[k]? = _
    rw [List.getElem?_set_ne hn, hk']

lemma running_wake (workers : List (Worker τ)) :
    (workers.map Worker.wake).flatMap Worker.tasks = workers.flatMap Worker.tasks := by
  rw [List.flatMap_map]
  congr 1
  funext w
  cases w <;> rfl

lemma step_conserved {q : ThreadPool τ} {l : Step τ} (hp : p.Conserved)
    (hl : p.EnqueuesBeforeStop l) (h : p.step l = some q) : q.Conserved := by
  cases step_moves h with
  | enqueue t =>
    refine ⟨?_, hp.tasks, ?_, hp.joined⟩
    · rw [push, ← List.append_assoc, hp.order]
    · intro he
      have hs := hl (hp.exited he).1
      exact Bool.noConfusion hs
  | notifyOne i hn hw =>
    exact hp.of_move hw (by simp) rfl rfl hp.order hp.tasks (by simpa using! hp.exited)
  | notifyNone i hn hz => exact ⟨hp.order, hp.tasks, hp.exited, hp.joined⟩
  | spuriousWakeup i hw =>
    exact hp.of_move hw (by simp) rfl rfl hp.order hp.tasks (by simpa using! hp.exited)
  | exit i hw hs hq => exact hp.of_move hw (by simp) rfl rfl hp.order hp.tasks (fun _ => ⟨hs, hq⟩)
  | block i hw hs hq =>
    exact hp.of_move hw (by simp) rfl rfl hp.order hp.tasks (by simpa using! hp.exited)
  | take i t queue hw hq =>
    refine hp.of_move hw (by simp) rfl rfl ?_ ?_ ?_
    · have ho := hp.order
      rw [hq] at ho
      simpa [move] using ho
    · exact (hp.tasks.cons t).trans (List.perm_append_singleton t _).symm
    · intro he
      have hn := (hp.exited (by simpa using he)).2
      simp [hq] at hn
  | work i t k hw =>
    exact hp.of_move hw (by simp) rfl rfl hp.order (hp.tasks.cons t) (by simpa using! hp.exited)
  | finish i t k hw =>
    refine hp.of_move hw (by simp) rfl rfl hp.order ?_ (by simpa using! hp.exited)
    have hh := hp.tasks.append_right [t]
    rw [List.append_assoc] at hh
    exact hh.trans (List.perm_append_singleton t _)
  | setStop hs => exact ⟨hp.order, hp.tasks, fun he => ⟨rfl, (hp.exited he).2⟩, hp.joined⟩
  | notifyAll hs hn =>
    refine ⟨hp.order, ?_, ?_, ?_⟩
    · rw [running, running_wake]
      exact hp.tasks
    · intro he
      obtain ⟨w, hw, he⟩ := List.mem_map.mp he
      cases w <;> simp [Worker.wake] at he
      exact hp.exited hw
    · intro k hk
      simp [hp.joined k hk, Worker.wake]
  | join hn hw =>
    refine ⟨hp.order, hp.tasks, hp.exited, ?_⟩
    intro k hk
    rcases Nat.lt_succ_iff_lt_or_eq.mp hk with hk | rfl
    · exact hp.joined k hk
    · exact hw

lemma step_crew {q : ThreadPool τ} {l : Step τ} (h : p.step l = some q) :
    q.workers.length = p.workers.length := by
  cases step_moves h <;> simp [push, move]

lemma crew_pos {ok : ThreadPool τ → Step τ → Prop} {numThreads : ℕ}
    (h : Reachable step ok (create numThreads) p) : 0 < p.workers.length := by
  refine h.invariant (P := fun p => 0 < p.workers.length) ?_ ?_
  · simp only [create, List.length_replicate]
    split_ifs with hn <;> omega
  · intro p l q hp _ hq
    rw [step_crew hq]
    exact hp

lemma reachable_conserved {numThreads : ℕ}
    (h : Reachable step EnqueuesBeforeStop (create numThreads) p) : p.Conserved :=
  h.invariant (create_conserved numThreads) fun _ _ _ hs hl ht => step_conserved hs hl ht

lemma Conserved.all_exited (hp : p.Conserved) (hj : p.Joined) : ∀ w ∈ p.workers, w = .exited := by
  intro w hw
  obtain ⟨k, hk, rfl⟩ := List.getElem_of_mem hw
  have hh := hp.joined k (hj.2 ▸ hk)
  rw [List.getElem?_eq_getElem hk] at hh
  exact Option.some.inj hh

theorem tasks_run_once (numThreads : ℕ) (p : ThreadPool τ)
    (h : Reachable step EnqueuesBeforeStop (create numThreads) p) :
    (p.queue ++ p.running ++ p.finished).Perm p.enqueued ∧ p.taken ++ p.queue = p.enqueued ∧
      (p.Joined → p.queue = [] ∧ p.finished.Perm p.enqueued) := by
  have hp := reachable_conserved h
  have hall : (p.queue ++ p.running ++ p.finished).Perm p.enqueued := by
    rw [List.append_assoc, ← hp.order]
    exact (hp.tasks.append_left _).trans List.perm_append_comm
  refine ⟨hall, hp.order, ?_⟩
  intro hj
  have he := hp.all_exited hj
  obtain ⟨w, hw⟩ := List.exists_mem_of_length_pos (crew_pos h)
  have hq := (hp.exited (he w hw ▸ hw)).2
  have hr : p.running = [] := by
    rw [running, List.flatMap_eq_nil_iff]
    intro w hw
    rw [he w hw]
    rfl
  rw [hq, hr] at hall
  exact ⟨hq, hall⟩

theorem tasks_run_once_drained : ∃ p : ThreadPool ℕ,
    Reachable step EnqueuesBeforeStop (create 2) p ∧ (p.Joined ∧ p.enqueued = [7, 8, 9]) ∧
      p.queue = [] ∧ p.finished.Perm [7, 8, 9] := by
  -- the destructor stops the pool with one task running and two in the queue
  have h : ∃ p : ThreadPool ℕ, Reachable step EnqueuesBeforeStop (create 2) p ∧
      (p.notifiedAll = true ∧ p.joined = p.workers.length) ∧ p.enqueued = [7, 8, 9] :=
    exists_reachable [.workerLoop 1, .enqueue 7, .notifyOne 1, .workerLoop 0, .enqueue 8, .enqueue 9,
      .setStop, .notifyAll, .workerLoop 1, .finish 1, .workerLoop 1, .finish 0, .workerLoop 0, .finish 1,
      .join, .workerLoop 1, .join] (by decide)
  obtain ⟨p, hp, hj, he⟩ := h
  obtain ⟨-, -, hh⟩ := tasks_run_once 2 p hp
  exact ⟨p, hp, ⟨hj, he⟩, (hh hj).1, he ▸ (hh hj).2⟩

end HttpBalancer.Net.ThreadPool
