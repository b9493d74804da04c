import HttpBalancer.Lib.Fairness
import HttpBalancer.Net.ThreadPoolRuns

/-! What comes to pass in a pool whose threads are all given their turns: a queued task is taken and
finished, and the destructor returns. -/

namespace HttpBalancer.Net.ThreadPool

open Lib Transitions

variable {τ : Type} {p q : ThreadPool τ} {l : Step τ} {i : ℕ}

/-- `finish` is the return of a task, `notify` that of an `enqueue`. -/
inductive Party
  | loop (i : ℕ)
  | finish (i : ℕ)
  | notify
  | destructor
  deriving DecidableEq

def Step.party : Step τ → Option Party
  | .workerLoop i => some (.loop i)
  | .finish i => some (.finish i)
  | .notifyOne _ => some .notify
  | .notifyAll | .join => some .destructor
  | .enqueue _ | .spuriousWakeup _ | .work _ | .setStop => none

structure Sound (p : ThreadPool τ) : Prop where
  wakes : p.Wakes
  conserved : p.Conserved
  crew : 0 < p.workers.length

lemma Sound.step (hp : p.Sound) (hl : p.EnqueuesBeforeStop l) (h : p.step l = some q) : q.Sound :=
  ⟨step_wakes hp.wakes h, step_conserved hp.conserved hl h, (step_crew h).symm ▸ hp.crew⟩

lemma create_sound (numThreads : ℕ) : (create numThreads : ThreadPool τ).Sound :=
  ⟨create_wakes numThreads, create_conserved numThreads,
    crew_pos (.init : Reachable step EnqueuesBeforeStop (create numThreads) (create numThreads))⟩

lemma awake_wake (workers : List (Worker τ)) : (workers.map Worker.wake).countP Worker.isAwake =
    workers.countP Worker.isAwake + workers.countP Worker.isBlocked := by
  induction workers with
  | nil => rfl
  | cons w workers ih =>
    rw [List.map_cons, List.countP_cons, List.countP_cons, List.countP_cons, ih]
    cases w <;> simp [Worker.wake, Worker.isAwake, Worker.isBlocked] <;> omega

lemma exists_worker {f : Worker τ → Bool} (h : 0 < p.workers.countP f) :
    ∃ (i : ℕ) (w : Worker τ), p.workers[i]? = some w ∧ f w = true := by
  obtain ⟨w, hw, hf⟩ := List.countP_pos_iff.mp h
  obtain ⟨i, hi, rfl⟩ := List.getElem_of_mem hw
  exact ⟨i, _, List.getElem?_eq_getElem hi, hf⟩

lemma exists_awake (h : 0 < p.awake) : ∃ i : ℕ, p.workers[i]? = some .awake := by
  obtain ⟨i, w, hw, hf⟩ := exists_worker h
  cases w with
  | awake => exact ⟨i, hw⟩
  | blocked | running | exited => cases hf

lemma exists_blocked (h : 0 < p.blocked) : ∃ i : ℕ, p.workers[i]? = some .blocked := by
  obtain ⟨i, w, hw, hf⟩ := exists_worker h
  cases w with
  | blocked => exact ⟨i, hw⟩
  | awake | running | exited => cases hf

lemma awake_pos (h : p.workers[i]? = some .awake) : 0 < p.awake :=
  List.countP_pos_iff.mpr ⟨.awake, List.mem_of_getElem? h, rfl⟩

structure Pushed (k : ℕ) (p : ThreadPool τ) : Prop where
  sound : p.Sound
  pushed : k < p.enqueued.length

/-- Task number `k` is in the queue, and `c` tasks were taken. -/
structure Waits (k c : ℕ) (p : ThreadPool τ) : Prop extends Pushed k p where
  left : p.taken.length ≤ k
  taken : p.taken.length = c

variable {k c : ℕ}

lemma Pushed.step (hp : p.Pushed k) (hl : p.EnqueuesBeforeStop l) (h : p.step l = some q) : q.Pushed k := by
  refine ⟨hp.sound.step hl h, hp.pushed.trans_le ?_⟩
  cases step_moves h with
  | enqueue t => simp [push]
  | notifyOne | notifyNone | spuriousWakeup | exit | block | take | work | finish | setStop | notifyAll
  | join =>
    exact le_rfl

lemma Waits.queue (hp : p.Waits k c) : p.queue ≠ [] := by
  have ho := congrArg List.length hp.sound.conserved.order
  have hk := hp.pushed
  have hl := hp.left
  rw [List.length_append] at ho
  intro hq
  rw [hq, List.length_nil] at ho
  omega

lemma set_self {w w' : Worker τ} (h : p.workers[i]? = some w) : (p.workers.set i w')[i]? = some w' := by
  simp [(List.getElem?_eq_some_iff.mp h).1]

lemma awake_set {w w' : Worker τ} {j : ℕ} (hi : p.workers[i]? = some .awake) (hj : p.workers[j]? = some w)
    (hw : w ≠ .awake) : (p.workers.set j w')[i]? = some .awake := by
  have hne : j ≠ i := by
    rintro rfl
    exact hw (Option.some.inj (hj.symm.trans hi))
  rw [List.getElem?_set_ne hne, hi]

lemma Waits.awake_step (hp : p.Waits k c) (hi : p.workers[i]? = some .awake) (hl : p.EnqueuesBeforeStop l)
    (h : p.step l = some q) :
    (q.Waits k c ∧ q.workers[i]? = some .awake) ∧ l.party ≠ some (.loop i) ∨
      q.Pushed k ∧ c < q.taken.length := by
  have hq := hp.toPushed.step hl h
  cases step_moves h with
  | enqueue | notifyNone | setStop | join => exact Or.inl ⟨⟨⟨hq, hp.left, hp.taken⟩, hi⟩, by simp [Step.party]⟩
  | notifyOne j _ hj | spuriousWakeup j hj | work j _ _ hj | finish j _ _ hj =>
    exact Or.inl ⟨⟨⟨hq, hp.left, hp.taken⟩, awake_set hi hj (by simp)⟩, by simp [Step.party]⟩
  | exit j hj _ he | block j hj _ he => exact absurd he hp.queue
  | take j t queue hj he =>
    refine Or.inr ⟨hq, ?_⟩
    simp [hp.taken]
  | notifyAll =>
    refine Or.inl ⟨⟨⟨hq, hp.left, hp.taken⟩, ?_⟩, by simp [Step.party]⟩
    simp [hi, Worker.wake]

lemma Waits.asleep_step (hp : p.Waits k c) (ha : p.awake = 0) (hl : p.EnqueuesBeforeStop l)
    (h : p.step l = some q) : q.Waits k c ∧ (0 < q.awake ∨ q.awake = 0 ∧ q.blocked = p.blocked ∧
      (l.party = some .notify → p.blocked = 0) ∧ ∀ i, l.party ≠ some (.finish i)) := by
  have hq := hp.toPushed.step hl h
  have hnone : ∀ j : ℕ, p.workers[j]? ≠ some .awake := fun j hj => (awake_pos hj).ne' ha
  cases step_moves h with
  | enqueue | setStop | join => exact ⟨⟨hq, hp.left, hp.taken⟩, Or.inr ⟨ha, rfl, by simp [Step.party]⟩⟩
  | notifyNone j _ hb => exact ⟨⟨hq, hp.left, hp.taken⟩, Or.inr ⟨ha, rfl, by simp [Step.party, hb]⟩⟩
  | notifyOne j _ hj | spuriousWakeup j hj | finish j _ _ hj =>
    exact ⟨⟨hq, hp.left, hp.taken⟩, Or.inl (awake_pos (set_self hj))⟩
  | exit j hj | block j hj | take j _ _ hj => exact absurd hj (hnone j)
  | work j t n hj =>
    have hm := awake_move (.running t (n + 1)) hj
    have hb := blocked_move (.running t (n + 1)) hj
    simp only [Worker.isAwake, Worker.isBlocked, Bool.false_eq_true, if_false, Nat.add_zero] at hm hb
    exact ⟨⟨hq, hp.left, hp.taken⟩, Or.inr ⟨hm.trans ha, hb, by simp [Step.party]⟩⟩
  | notifyAll hs hn =>
    have hm := awake_wake p.workers
    have hz := blocked_wake p.workers
    change _ = p.awake + p.blocked at hm
    refine ⟨⟨hq, hp.left, hp.taken⟩, ?_⟩
    rcases Nat.eq_zero_or_pos p.blocked with hb | hb
    · exact Or.inr ⟨hm.trans (by omega), hz.trans hb.symm, by simp [Step.party]⟩
    · exact Or.inl (Nat.lt_of_lt_of_eq (by omega) hm.symm)

lemma Waits.notify_enabled (hp : p.Waits k c) (ha : p.awake = 0) (hi : p.workers[i]? = some .blocked) :
    (p.step (.notifyOne i)).isSome := by
  have hany : p.workers.any Worker.isBlocked = true :=
    List.any_eq_true.mpr ⟨.blocked, List.mem_of_getElem? hi, rfl⟩
  have hb : 0 < p.blocked := List.countP_pos_iff.mpr ⟨.blocked, List.mem_of_getElem? hi, rfl⟩
  have hn : p.notifying ≠ 0 := by
    have hw := hp.sound.wakes.queue hb
    have hq := List.length_pos_of_ne_nil hp.queue
    omega
  simp [step, hn, hany, hi]

lemma Waits.all_running (hp : p.Waits k c) (ha : p.awake = 0) (hb : p.blocked = 0) :
    ∃ t n, p.workers[0]? = some (.running t n) := by
  have hlen : 0 < p.workers.length := hp.sound.crew
  have hw := List.getElem?_eq_getElem hlen
  cases hc : p.workers[0] with
  | awake => exact absurd ha (awake_pos (hw.trans (congrArg some hc))).ne'
  | blocked =>
    have hpos : 0 < p.blocked := List.countP_pos_iff.mpr ⟨.blocked, List.mem_of_getElem hc, rfl⟩
    exact absurd hb hpos.ne'
  | running t n => exact ⟨t, n, hw.trans (congrArg some hc)⟩
  | exited => exact absurd (hp.sound.conserved.exited (List.mem_of_getElem hc)).2 hp.queue

lemma step_taken (h : p.step l = some q) : q.taken = p.taken ∨ ∃ i t, l = .workerLoop i ∧
    q.taken = p.taken ++ [t] ∧ q.workers[i]? = some (.running t 0) := by
  cases step_moves h with
  | take i t queue hi he => exact Or.inr ⟨i, t, rfl, rfl, set_self hi⟩
  | enqueue | notifyOne | notifyNone | spuriousWakeup | exit | block | work | finish | setStop | notifyAll
  | join =>
    exact Or.inl rfl

lemma step_enqueued (h : p.step l = some q) : p.enqueued <+: q.enqueued := by
  cases step_moves h with
  | enqueue t => exact List.prefix_append _ _
  | notifyOne | notifyNone | spuriousWakeup | exit | block | take | work | finish | setStop | notifyAll
  | join =>
    exact List.prefix_rfl

lemma running_set {w w' : Worker τ} {j n : ℕ} {t : τ} (hi : p.workers[i]? = some (.running t n))
    (hj : p.workers[j]? = some w) (hw : ∀ m, w ≠ .running t m) :
    (p.workers.set j w')[i]? = some (.running t n) := by
  have hne : j ≠ i := by
    rintro rfl
    exact hw n (Option.some.inj (hj.symm.trans hi))
  rw [List.getElem?_set_ne hne, hi]

lemma running_step {t : τ} {n : ℕ} (hi : p.workers[i]? = some (.running t n)) (h : p.step l = some q) :
    (∃ m, q.workers[i]? = some (.running t m)) ∧ l.party ≠ some (.finish i) ∨
      l = .finish i ∧ q.finished = p.finished ++ [t] := by
  cases step_moves h with
  | enqueue | notifyNone | setStop | join => exact Or.inl ⟨⟨n, hi⟩, by simp [Step.party]⟩
  | notifyOne j _ hj | spuriousWakeup j hj | exit j hj | block j hj | take j _ _ hj =>
    exact Or.inl ⟨⟨n, running_set hi hj (by simp)⟩, by simp [Step.party]⟩
  | work j t' m hj =>
    refine Or.inl ⟨?_, by simp [Step.party]⟩
    by_cases hne : j = i
    · subst hne
      obtain ⟨rfl, rfl⟩ : t' = t ∧ m = n := by simpa using hj.symm.trans hi
      exact ⟨m + 1, set_self hj⟩
    · exact ⟨n, (List.getElem?_set_ne hne).trans hi⟩
  | finish j t' m hj =>
    by_cases hne : j = i
    · subst hne
      obtain ⟨rfl, rfl⟩ : t' = t ∧ m = n := by simpa using hj.symm.trans hi
      exact Or.inr ⟨rfl, rfl⟩
    · exact Or.inl ⟨⟨n, (List.getElem?_set_ne hne).trans hi⟩, by simpa [Step.party] using hne⟩
  | notifyAll => exact Or.inl ⟨⟨n, by simp [hi, Worker.wake]⟩, by simp [Step.party]⟩

section Served

variable {numThreads : ℕ} {r : Run step EnqueuesBeforeStop (create numThreads : ThreadPool τ)}

lemma awake_leadsTo (hf : ∀ k : Party, r.WeaklyFair fun l => l.party = some k) (k c i : ℕ) :
    r.LeadsTo (fun p => p.Waits k c ∧ p.workers[i]? = some .awake)
      fun p => p.Pushed k ∧ c < p.taken.length := by
  apply Run.leadsTo_of_fair (hf (.loop i))
  · rintro n ⟨-, hi⟩
    exact ⟨.workerLoop i, rfl, by simp [step, hi]⟩
  · rintro n ⟨hw, hi⟩
    exact hw.awake_step hi (r.allowed n) (r.next n)

lemma blocked_leadsTo (hf : ∀ k : Party, r.WeaklyFair fun l => l.party = some k) (k c : ℕ) :
    r.LeadsTo (fun p => p.Waits k c ∧ p.awake = 0 ∧ 0 < p.blocked) fun p => p.Waits k c ∧ 0 < p.awake := by
  apply Run.leadsTo_of_fair (hf .notify)
  · rintro n ⟨hw, ha, hb⟩
    obtain ⟨i, hi⟩ := exists_blocked hb
    exact ⟨.notifyOne i, rfl, hw.notify_enabled ha hi⟩
  · rintro n ⟨hw, ha, hb⟩
    obtain ⟨hq, ha' | ⟨ha', hb', hn, -⟩⟩ := hw.asleep_step ha (r.allowed n) (r.next n)
    · exact Or.inr ⟨hq, ha'⟩
    · exact Or.inl ⟨⟨hq, ha', hb'.symm ▸ hb⟩, fun hl => hb.ne' (hn hl)⟩

lemma running_leadsTo (hf : ∀ k : Party, r.WeaklyFair fun l => l.party = some k) (k c : ℕ) :
    r.LeadsTo (fun p => p.Waits k c ∧ p.awake = 0 ∧ p.blocked = 0) fun p => p.Waits k c ∧ 0 < p.awake := by
  apply Run.leadsTo_of_fair (hf (.finish 0))
  · rintro n ⟨hw, ha, hb⟩
    obtain ⟨t, n, h0⟩ := hw.all_running ha hb
    exact ⟨.finish 0, rfl, by simp [step, h0]⟩
  · rintro n ⟨hw, ha, hb⟩
    obtain ⟨hq, ha' | ⟨ha', hb', -, hn⟩⟩ := hw.asleep_step ha (r.allowed n) (r.next n)
    · exact Or.inr ⟨hq, ha'⟩
    · exact Or.inl ⟨⟨hq, ha', hb'.trans hb⟩, hn 0⟩

lemma waits_leadsTo (hf : ∀ k : Party, r.WeaklyFair fun l => l.party = some k) (k c : ℕ) :
    r.LeadsTo (Waits k c) fun p => p.Pushed k ∧ c < p.taken.length := by
  have hawake : r.LeadsTo (fun p => p.Waits k c ∧ 0 < p.awake) fun p => p.Pushed k ∧ c < p.taken.length := by
    rintro n ⟨hw, ha⟩
    obtain ⟨i, hi⟩ := exists_awake ha
    exact awake_leadsTo hf k c i n ⟨hw, hi⟩
  have hasleep := ((blocked_leadsTo hf k c).or (running_leadsTo hf k c)).trans hawake
  intro n hw
  rcases Nat.eq_zero_or_pos (r.state n).awake with ha | ha
  · rcases Nat.eq_zero_or_pos (r.state n).blocked with hb | hb
    · exact hasleep n (Or.inr ⟨hw, ha, hb⟩)
    · exact hasleep n (Or.inl ⟨hw, ha, hb⟩)
  · exact hawake n ⟨hw, ha⟩

lemma pushed_leadsTo (hf : ∀ k : Party, r.WeaklyFair fun l => l.party = some k) (k : ℕ) :
    r.LeadsTo (Pushed k) fun p => k < p.taken.length := by
  apply Run.leadsTo_of_rank fun p => k + 1 - p.taken.length
  rintro c n ⟨hp, hc⟩
  rcases Nat.lt_or_ge k (r.state n).taken.length with hk | hk
  · exact ⟨n, le_rfl, Or.inr hk⟩
  · obtain ⟨m, hm, hq, hlt⟩ := waits_leadsTo hf k _ n ⟨hp, hk, rfl⟩
    exact ⟨m, hm, Or.inl ⟨hq, by omega⟩⟩

lemma run_sound (r : Run step EnqueuesBeforeStop (create numThreads : ThreadPool τ)) (n : ℕ) :
    (r.state n).Sound :=
  (r.reachable n).invariant (create_sound numThreads) fun _ _ _ hs hl ht => hs.step hl ht

lemma run_enqueued (r : Run step EnqueuesBeforeStop (create numThreads : ThreadPool τ)) {n m : ℕ} (h : n ≤ m) :
    (r.state n).enqueued <+: (r.state m).enqueued := by
  induction m, h using Nat.le_induction with
  | base => exact List.prefix_rfl
  | succ m _ ih => exact ih.trans (step_enqueued (r.next m))

lemma exists_take (r : Run step EnqueuesBeforeStop (create numThreads : ThreadPool τ)) {k m : ℕ}
    (h : k < (r.state m).taken.length) : ∃ i a t, r.label a = .workerLoop i ∧ (r.state a).taken.length = k ∧
      (r.state (a + 1)).taken = (r.state a).taken ++ [t] ∧
      (r.state (a + 1)).workers[i]? = some (.running t 0) := by
  induction m with
  | zero =>
    rw [r.start] at h
    exact absurd h (Nat.not_lt_zero k)
  | succ m ih =>
    rcases step_taken (r.next m) with ht | ⟨i, t, hl, ht, hi⟩
    · exact ih (ht ▸ h)
    · rcases Nat.lt_or_ge k (r.state m).taken.length with hk | hk
      · exact ih hk
      · refine ⟨i, m, t, hl, ?_, ht, hi⟩
        rw [ht, List.length_append, List.length_singleton] at h
        omega

lemma taken_enqueued (r : Run step EnqueuesBeforeStop (create numThreads : ThreadPool τ)) {n m k : ℕ} {t t' : τ}
    (hn : (r.state n).enqueued[k]? = some t) (hm : (r.state m).taken[k]? = some t') : t = t' := by
  obtain ⟨us, hu⟩ := run_enqueued r (Nat.le_add_right n m)
  obtain ⟨vs, hv⟩ := run_enqueued r (Nat.le_add_left m n)
  have ho := (run_sound r m).conserved.order
  have hn' : (r.state (n + m)).enqueued[k]? = some t := by
    rw [← hu, List.getElem?_append_left (List.getElem?_eq_some_iff.mp hn).1, hn]
  have hm' : (r.state (n + m)).enqueued[k]? = some t' := by
    rw [← hv, ← ho, List.append_assoc, List.getElem?_append_left (List.getElem?_eq_some_iff.mp hm).1, hm]
  exact Option.some.inj (hn'.symm.trans hm')

theorem tasks_served (r : Run step EnqueuesBeforeStop (create numThreads : ThreadPool τ))
    (hf : ∀ k : Party, r.WeaklyFair fun l => l.party = some k) (n k : ℕ) (t : τ)
    (ht : (r.state n).enqueued[k]? = some t) :
    ∃ i a b, a < b ∧ r.label a = .workerLoop i ∧ (r.state a).taken.length = k ∧
      (r.state (a + 1)).taken = (r.state a).taken ++ [t] ∧
      (∀ m, a < m → m ≤ b → ∃ steps, (r.state m).workers[i]? = some (.running t steps)) ∧
      r.label b = .finish i ∧ (r.state (b + 1)).finished = (r.state b).finished ++ [t] := by
  obtain ⟨m, -, hm⟩ := pushed_leadsTo hf k n ⟨run_sound r n, (List.getElem?_eq_some_iff.mp ht).1⟩
  obtain ⟨i, a, t', hl, hk, hta, hi⟩ := exists_take r hm
  have hat : (r.state (a + 1)).taken[k]? = some t' := by simp [hta, ← hk]
  obtain rfl := taken_enqueued r ht hat
  obtain ⟨b, hb, ⟨hlb, hfb⟩, hall⟩ := Run.exists_until (hf (.finish i))
    (P := fun m => ∃ steps, (r.state m).workers[i]? = some (.running t steps))
    (Q := fun m => r.label m = .finish i ∧ (r.state (m + 1)).finished = (r.state m).finished ++ [t])
    (fun m ⟨j, hj⟩ => ⟨.finish i, rfl, by simp [step, hj]⟩) (fun m ⟨j, hj⟩ => running_step hj (r.next m))
    (a + 1) ⟨0, hi⟩
  exact ⟨i, a, b, hb, hl, hk, hta, hall, hlb, hfb⟩

end Served

def servedTwice (n : ℕ) : Step ℕ :=
  ([.workerLoop 0, .enqueue 7, .enqueue 8, .notifyOne 0, .workerLoop 0, .workerLoop 1, .work 0, .notifyOne 0,
    .finish 1, .finish 0, .workerLoop 0, .workerLoop 1][n]?).getD
      (if n % 2 = 0 then .spuriousWakeup 0 else .workerLoop 0)

theorem tasks_served_both : ∃ r : Run step EnqueuesBeforeStop (create 2 : ThreadPool ℕ),
    (∀ k : Party, r.WeaklyFair fun l => l.party = some k) ∧ (r.state 3).enqueued = [7, 8] ∧
      ∃ i a b, a < b ∧ r.label a = .workerLoop i ∧ (r.state a).taken.length = 1 ∧
        (r.state (a + 1)).taken = (r.state a).taken ++ [8] ∧
        (∀ m, a < m → m ≤ b → ∃ steps, (r.state m).workers[i]? = some (.running 8 steps)) ∧
        r.label b = .finish i ∧ (r.state (b + 1)).finished = (r.state b).finished ++ [8] := by
  have hr : ∃ r : Run step EnqueuesBeforeStop (create 2 : ThreadPool ℕ),
      r.state = follow step (create 2) servedTwice ∧ r.label = servedTwice ∧ ∀ m, 12 ≤ m → r.Recurs m := by
    apply Run.exists_lasso EnqueuesBeforeStop 12 2 (by decide)
    · intro n hn
      have hn' : 12 ≤ n + 2 := hn.trans (Nat.le_add_right n 2)
      rw [servedTwice, servedTwice, List.getElem?_eq_none hn', List.getElem?_eq_none hn, Nat.add_mod_right]
    · decide
    · decide
    · decide
  obtain ⟨r, hs, -, hc⟩ := hr
  have hidle : r.state 12 = ⟨[.blocked, .blocked], [], false, 0, false, 0, [7, 8], [7, 8], [8, 7]⟩ := by
    rw [hs]
    decide
  have hf : ∀ k : Party, r.WeaklyFair fun l => l.party = some k := by
    refine fun k => (hc 12 le_rfl).weaklyFair (Or.inr ?_)
    intro l hl
    rw [hidle]
    cases l with
    | workerLoop i | finish i => rcases i with _ | _ | i <;> rfl
    | notifyOne i | notifyAll | join => rfl
    | enqueue | spuriousWakeup | work | setStop => cases hl
  have he : (r.state 3).enqueued = [7, 8] := by
    rw [hs]
    decide
  exact ⟨r, hf, he, tasks_served r hf 3 1 8 (by rw [he]; rfl)⟩

def Step.isWork : Step τ → Bool
  | .work _ => true
  | _ => false

def weight : Worker τ → ℕ
  | .awake => 1
  | .blocked | .running _ _ => 2
  | .exited => 0

/-- What bounds the steps a stopped pool can still make, those inside the tasks apart. -/
def stepsLeft (p : ThreadPool τ) : ℕ :=
  3 * p.queue.length + (p.workers.map weight).sum + p.notifying + (if p.notifiedAll then 0 else 1) +
    (p.workers.length - p.joined)

lemma weight_wake (w : Worker τ) : weight w.wake ≤ weight w := by
  cases w <;> simp [Worker.wake, weight]

lemma weight_le (w : Worker τ) : weight w ≤ 2 := by
  cases w <;> simp [weight]

lemma stepsLeft_le (p : ThreadPool τ) :
    p.stepsLeft ≤ 3 * (p.queue.length + p.workers.length) + p.notifying + 1 := by
  have hw : (p.workers.map weight).sum ≤ p.workers.length * 2 := by
    have hle := List.sum_le_card_nsmul (p.workers.map weight) 2 (by simpa using fun w _ => weight_le w)
    simpa using hle
  rw [stepsLeft]
  split_ifs <;> omega

lemma stepsLeft_set {w w' : Worker τ} (h : p.workers[i]? = some w) (hw : q.workers = p.workers.set i w')
    (hn : q.notifiedAll = p.notifiedAll) (hj : q.joined = p.joined) :
    q.stepsLeft + weight w + 3 * p.queue.length + p.notifying =
      p.stepsLeft + weight w' + 3 * q.queue.length + q.notifying := by
  have hs := Threads.sum_map_set_add weight (b := w') h
  simp only [stepsLeft, hw, hn, hj, List.length_set]
  omega

lemma stopped_step (hs : p.stop = true) (hl : p.EnqueuesBeforeStop l) (h : p.step l = some q) :
    (q.stop = true ∧ q.enqueued = p.enqueued) ∧
      q.stepsLeft + (if l.isWork then 0 else 1) ≤ p.stepsLeft := by
  cases step_moves h with
  | enqueue t => exact absurd (hl hs) (by simp [Step.isEnqueue])
  | block i _ hf | setStop hf => exact absurd (hs.symm.trans hf) (by simp)
  | notifyOne i hn hi =>
    have hm := stepsLeft_set (q := { p.move i .awake with notifying := p.notifying - 1 }) hi rfl rfl rfl
    refine ⟨⟨hs, rfl⟩, ?_⟩
    simp only [Step.isWork, move, weight] at hm ⊢
    simp
    omega
  | notifyNone i hn hb =>
    refine ⟨⟨hs, rfl⟩, ?_⟩
    simp only [stepsLeft, Step.isWork]
    simp
    omega
  | spuriousWakeup i hi =>
    have hm := stepsLeft_set (q := p.move i .awake) hi rfl rfl rfl
    refine ⟨⟨hs, rfl⟩, ?_⟩
    simp only [Step.isWork, move, weight] at hm ⊢
    simp
    omega
  | exit i hi _ he =>
    have hm := stepsLeft_set (q := p.move i .exited) hi rfl rfl rfl
    refine ⟨⟨hs, rfl⟩, ?_⟩
    simp only [Step.isWork, move, weight] at hm ⊢
    simp
    omega
  | take i t queue hi he =>
    have hm := stepsLeft_set (q := { p.move i (.running t 0) with queue := queue, taken := p.taken ++ [t] }) hi
      rfl rfl rfl
    refine ⟨⟨hs, rfl⟩, ?_⟩
    simp only [Step.isWork, move, weight, he, List.length_cons] at hm ⊢
    simp
    omega
  | work i t k hi =>
    have hm := stepsLeft_set (q := p.move i (.running t (k + 1))) hi rfl rfl rfl
    refine ⟨⟨hs, rfl⟩, ?_⟩
    simp only [Step.isWork, move, weight] at hm ⊢
    simp
    omega
  | finish i t k hi =>
    have hm := stepsLeft_set (q := { p.move i .awake with finished := p.finished ++ [t] }) hi rfl rfl rfl
    refine ⟨⟨hs, rfl⟩, ?_⟩
    simp only [Step.isWork, move, weight] at hm ⊢
    simp
    omega
  | notifyAll _ hn =>
    have hw : ((p.workers.map Worker.wake).map weight).sum ≤ (p.workers.map weight).sum := by
      rw [List.map_map]
      exact List.sum_le_sum fun w _ => weight_wake w
    refine ⟨⟨hs, rfl⟩, ?_⟩
    simp only [stepsLeft, Step.isWork, hn, List.length_map, if_true, Bool.false_eq_true, if_false]
    omega
  | join hn hj =>
    have hlt := (List.getElem?_eq_some_iff.mp hj).1
    refine ⟨⟨hs, rfl⟩, ?_⟩
    simp only [stepsLeft, Step.isWork]
    simp
    omega

lemma stopped_run {labels : List (Step τ)} (hp : p.Sound) (hs : p.stop = true)
    (h : run step EnqueuesBeforeStop p labels = some q) :
    (q.Sound ∧ q.stop = true ∧ q.enqueued = p.enqueued) ∧
      q.stepsLeft + labels.countP (fun l => !l.isWork) ≤ p.stepsLeft := by
  induction labels generalizing p with
  | nil =>
    obtain rfl := Option.some.inj h
    exact ⟨⟨hp, hs, rfl⟩, by simp⟩
  | cons l labels ih =>
    rw [run] at h
    split_ifs at h with hl
    obtain ⟨u, hu, hr⟩ := Option.bind_eq_some_iff.mp h
    obtain ⟨⟨hsu, heu⟩, hle⟩ := stopped_step hs hl hu
    obtain ⟨⟨hq, hsq, heq⟩, hle'⟩ := ih (hp.step hl hu) hsu hr
    refine ⟨⟨hq, hsq, heq.trans heu⟩, ?_⟩
    rw [List.countP_cons]
    cases hw : l.isWork with
    | false | true => simp [hw] at hle ⊢; omega

/-- Whom the destructor waits for: the worker it joins next. -/
def drainer (p : ThreadPool τ) : Party :=
  if p.notifiedAll then
    match p.workers[p.joined]? with
    | some .awake => .loop p.joined
    | some (.running _ _) => .finish p.joined
    | _ => .destructor
  else .destructor

lemma drainer_ne_notify (p : ThreadPool τ) : p.drainer ≠ .notify := by
  unfold drainer
  repeat' split
  all_goals simp

lemma Sound.enabled (hp : p.Sound) (hs : p.stop = true) (hj : ¬ p.Joined) :
    ∃ l : Step τ, l.party = some p.drainer ∧ (p.step l).isSome := by
  cases hn : p.notifiedAll with
  | false => exact ⟨.notifyAll, by simp [Step.party, drainer, hn], by simp [ThreadPool.step, hs, hn]⟩
  | true =>
    have hle : p.joined ≤ p.workers.length := by
      by_contra hlt
      have hx := hp.conserved.joined p.workers.length (Nat.lt_of_not_le hlt)
      simp at hx
    have hlt : p.joined < p.workers.length := Nat.lt_of_le_of_ne hle fun he => hj ⟨hn, he⟩
    have hw := List.getElem?_eq_getElem hlt
    cases hc : p.workers[p.joined] with
    | awake =>
      rw [hc] at hw
      exact ⟨.workerLoop p.joined, by simp [Step.party, drainer, hn, hw], by simp [ThreadPool.step, hw]⟩
    | blocked =>
      have hpos : 0 < p.blocked := List.countP_pos_iff.mpr ⟨.blocked, List.mem_of_getElem hc, rfl⟩
      exact absurd (hp.wakes.all hn).2 hpos.ne'
    | running t n =>
      rw [hc] at hw
      exact ⟨.finish p.joined, by simp [Step.party, drainer, hn, hw], by simp [ThreadPool.step, hw]⟩
    | exited =>
      rw [hc] at hw
      exact ⟨.join, by simp [Step.party, drainer, hn, hw], by simp [ThreadPool.step, hn, hw]⟩

lemma drainer_work (h : p.step (.work i) = some q) : q.drainer = p.drainer := by
  cases step_moves h with
  | work i t k hi =>
    by_cases hj : i = p.joined
    · subst hj
      simp [drainer, move, hi, set_self hi]
    · simp [drainer, move, hj]

lemma Joined.step (hj : p.Joined) (h : p.step l = some q) : q.Joined := by
  obtain ⟨hn, hj⟩ := hj
  have hlen := hj.trans (step_crew h).symm
  cases step_moves h with
  | notifyAll _ hf => exact absurd (hn.symm.trans hf) (by simp)
  | join _ hw => exact absurd (List.getElem?_eq_some_iff.mp hw).1 (by simp [hj])
  | enqueue | notifyOne | notifyNone | spuriousWakeup | exit | block | take | work | finish | setStop =>
    exact ⟨hn, hlen⟩

lemma Sound.joined_step (hp : p.Sound) (hj : p.Joined) (h : p.step l = some q) :
    l.isEnqueue = true ∨ ∃ i, l = .notifyOne i := by
  have hx : ∀ (i : ℕ) (w : Worker τ), p.workers[i]? = some w → w = .exited := fun i w hw =>
    hp.conserved.all_exited hj w (List.mem_of_getElem? hw)
  cases step_moves h with
  | enqueue t => exact Or.inl rfl
  | notifyOne i | notifyNone i => exact Or.inr ⟨i, rfl⟩
  | spuriousWakeup i hi | exit i hi | block i hi | take i _ _ hi | work i _ _ hi | finish i _ _ hi =>
    cases hx i _ hi
  | setStop hf => exact absurd ((hp.wakes.all hj.1).1.symm.trans hf) (by simp)
  | notifyAll _ hf => exact absurd (hj.1.symm.trans hf) (by simp)
  | join _ hw => exact absurd (List.getElem?_eq_some_iff.mp hw).1 (by simp [hj.2])

lemma notify_enabled (hn : 0 < p.notifying) : ∃ i, (p.step (.notifyOne i)).isSome := by
  by_cases hb : 0 < p.blocked
  · obtain ⟨i, hi⟩ := exists_blocked hb
    have hany : p.workers.any Worker.isBlocked = true :=
      List.any_eq_true.mpr ⟨.blocked, List.mem_of_getElem? hi, rfl⟩
    exact ⟨i, by simp [ThreadPool.step, hn.ne', hany, hi]⟩
  · have hnone : p.workers.any Worker.isBlocked = false := by
      rw [blocked, List.countP_pos_iff] at hb
      simpa using hb
    exact ⟨0, by simp [ThreadPool.step, hn.ne', hnone]⟩

lemma step_serves (h : p.step l = some q) (hl : l.isEnqueue = false) :
    q.notifying ≤ p.notifying ∧ (q.stop = true → p.stop = true ∨ l = .setStop) := by
  cases step_moves h with
  | enqueue t => cases hl
  | notifyOne | notifyNone => exact ⟨Nat.sub_le _ _, Or.inl⟩
  | spuriousWakeup | exit | block | take | work | finish | notifyAll | join => exact ⟨le_rfl, Or.inl⟩
  | setStop => exact ⟨le_rfl, fun _ => Or.inr rfl⟩

lemma Sound.drained (hp : p.Sound) (hj : p.Joined) : p.finished.Perm p.enqueued := by
  have hx := hp.conserved.all_exited hj
  obtain ⟨w, hw⟩ := List.exists_mem_of_length_pos hp.crew
  have hq := (hp.conserved.exited (hx w hw ▸ hw)).2
  have hr : p.running = [] := by
    rw [running, List.flatMap_eq_nil_iff]
    intro w hw
    rw [hx w hw]
    rfl
  have ht := hp.conserved.tasks
  have ho := hp.conserved.order
  rw [hr, List.nil_append] at ht
  rw [hq, List.append_nil] at ho
  exact ho ▸ ht

theorem destructor_returns (numThreads : ℕ) (p q : ThreadPool τ) (labels : List (Step τ))
    (h : Reachable step EnqueuesBeforeStop (create numThreads) p) (hs : p.stop = true)
    (hr : run step EnqueuesBeforeStop p labels = some q) :
    labels.countP (fun l => !l.isWork) ≤ 3 * (p.queue.length + p.workers.length) + p.notifying + 1 ∧
      (q.Joined ∧ q.finished.Perm p.enqueued ∨ ∃ l k, l.party = some k ∧ k ≠ .notify ∧ (q.step l).isSome) := by
  have hp : p.Sound := h.invariant (create_sound numThreads) fun _ _ _ hs hl ht => hs.step hl ht
  obtain ⟨⟨hq, hsq, he⟩, hle⟩ := stopped_run hp hs hr
  refine ⟨(Nat.le_add_left _ _).trans (hle.trans p.stepsLeft_le), ?_⟩
  by_cases hj : q.Joined
  · exact Or.inl ⟨hj, he ▸ hq.drained hj⟩
  · obtain ⟨l, hl, hsome⟩ := hq.enabled hsq hj
    exact Or.inr ⟨l, q.drainer, hl, q.drainer_ne_notify, hsome⟩

def drain : List (Step ℕ) :=
  [.notifyAll, .workerLoop 1, .work 1, .finish 1, .workerLoop 1, .finish 0, .workerLoop 0, .finish 1, .join,
    .workerLoop 1]

theorem destructor_returns_draining : ∃ p q : ThreadPool ℕ, Reachable step EnqueuesBeforeStop (create 2) p ∧
    (p.stop = true ∧ p.queue = [8, 9]) ∧ run step EnqueuesBeforeStop p drain = some q ∧
      drain.countP (fun l => !l.isWork) ≤ 3 * (p.queue.length + p.workers.length) + p.notifying + 1 ∧
      (q.Joined ∧ q.finished.Perm p.enqueued ∨ ∃ l k, l.party = some k ∧ k ≠ .notify ∧ (q.step l).isSome) := by
  have h : ∃ p : ThreadPool ℕ, Reachable step EnqueuesBeforeStop (create 2) p ∧
      (p.stop = true ∧ p.queue = [8, 9]) ∧ (run step EnqueuesBeforeStop p drain).isSome :=
    exists_reachable [.workerLoop 1, .enqueue 7, .notifyOne 1, .workerLoop 0, .enqueue 8, .enqueue 9, .setStop]
      (by decide)
  obtain ⟨p, hp, hs, hr⟩ := h
  obtain ⟨q, hq⟩ := Option.isSome_iff_exists.mp hr
  exact ⟨p, q, hp, hs, hq, destructor_returns 2 p q drain hp hs.1 hq⟩

end HttpBalancer.Net.ThreadPool
