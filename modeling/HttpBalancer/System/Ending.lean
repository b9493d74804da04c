import HttpBalancer.System.Program

/-! A program that is told to stop, or finds no port, ends: `run` returns, every thread is joined and the
tasks of the pool are all run. -/

namespace HttpBalancer.System.Program

open Lib Transitions
open Net (ThreadPool)

variable {owner : Owner} {upstreams : ℕ} {s t : Program} {l : Label}

structure Going (owner : Owner) (upstreams : ℕ) (s : Program) : Prop where
  whole : Whole owner upstreams s
  doomed : Process.Doomed owner s.process

lemma Going.step (hs : Going owner upstreams s) (h : step owner upstreams s l = some t) :
    Going owner upstreams t := by
  refine ⟨hs.whole.step h, ?_⟩
  cases step_moves h with
  | process l p _ hp => exact hs.doomed.step hp
  | wait | handle | enqueue | pool | probe => exact hs.doomed

lemma down_step (h : step owner upstreams s l = some t) (hd : s.Down) : t.Down := by
  cases step_moves h with
  | process l p _ hp => exact tail_step hp hd
  | wait | handle | enqueue | pool | probe => exact hd

lemma joined_step (h : step owner upstreams s l = some t) (hj : s.pool.Joined) : t.pool.Joined := by
  cases step_moves h with
  | enqueue fd => exact hj.step (l := .enqueue fd) rfl
  | pool l p _ _ hp => exact hj.step hp
  | process | wait | handle | probe => exact hj

/-- `main` waits for the pool, or is past its last destructor. -/
def Resting (s : Program) : Prop := s.process.tail = .releasing ∧ ¬ s.pool.Joined ∨ s.process.tail = .ended

lemma not_resting (h : ¬ s.Resting) :
    (s.process.tail = .releasing → s.pool.Joined) ∧ s.process.tail ≠ .ended := by
  rw [Resting] at h
  push Not at h
  exact h

lemma Resting.down (h : s.Resting) : s.Down := by
  rcases h with ⟨ht, -⟩ | ht
  · exact Or.inl ht
  · exact Or.inr ht

/-- What `main` has still to do before its turn of the loop is over. -/
def turnLeft (s : Program) : ℕ :=
  match s.events with
  | none => 2 * maxEvents + 2
  | some k => 2 * k + s.pool.notifying

def turnWork (s : Program) : ℕ :=
  if s.process.core.running = false ∧ s.process.core.main = .iterating then turnLeft s else 0

def sweepWork (s : Program) : ℕ :=
  if s.process.core.checkerRunning = false ∧ s.process.core.checker = .probing then s.probes else 0

def rank (upstreams : ℕ) (s : Program) : ℕ :=
  s.process.rank * (2 * maxEvents + 3 + upstreams) + turnWork s + sweepWork s

lemma turnLeft_none (h : s.events = none) : turnLeft s = 2 * maxEvents + 2 := by
  rw [turnLeft, h]

lemma turnLeft_some {k : ℕ} (h : s.events = some k) : turnLeft s = 2 * k + s.pool.notifying := by
  rw [turnLeft, h]

lemma Whole.turnWork_le (hs : Whole owner upstreams s) : turnWork s ≤ 2 * maxEvents + 2 := by
  unfold turnWork
  split_ifs
  · cases he : s.events with
    | none => exact (turnLeft_none he).le
    | some k =>
      have hk := hs.events k he
      have hn := hs.notifying
      rw [turnLeft_some he]
      omega
  · exact Nat.zero_le _

lemma Whole.sweepWork_le (hs : Whole owner upstreams s) : sweepWork s ≤ upstreams := by
  unfold sweepWork
  split_ifs
  · exact hs.probes
  · exact Nat.zero_le _

lemma rank_lt (ht : Whole owner upstreams t) (h : t.process.rank < s.process.rank) :
    rank upstreams t < rank upstreams s := by
  have hw := ht.turnWork_le
  have hk := ht.sweepWork_le
  have hm := Nat.mul_le_mul_right (2 * maxEvents + 3 + upstreams) (Nat.succ_le_of_lt h)
  rw [Nat.succ_mul] at hm
  simp only [rank]
  omega

def helpful (s : Program) : Party := .process s.process.helpful

def Descends (upstreams : ℕ) (s : Program) (l : Label) (t : Program) : Prop :=
  rank upstreams t < rank upstreams s ∨
    rank upstreams t = rank upstreams s ∧ helpful t = helpful s ∧ l.party ≠ some (helpful s)

lemma turnWork_process {l : Process.Label} {p : Process} (hp : s.process.step owner l = some p)
    (hi : Process.Idles s.process.core p.core) :
    turnWork (s.afterProcess upstreams l p) = turnWork s := by
  cases hr : s.process.core.running with
  | true => simp [turnWork, afterProcess, hi.running, hr]
  | false =>
    have hm := hi.main hr
    by_cases hit : s.process.core.main = .iterating
    · have hl : l ≠ .run .iterate := by
        rintro rfl
        cases Process.step_moves hp with
        | run l c _ _ hc =>
          obtain ⟨-, rfl⟩ := Shutdown.step_eq hc
          simp [Shutdown.effect, hit] at hm
      simp [turnWork, turnLeft, afterProcess, hi.running, hm, hl]
    · simp [turnWork, afterProcess, hm, hit]

lemma sweepWork_process {l : Process.Label} {p : Process} (hp : s.process.step owner l = some p)
    (hi : Process.Idles s.process.core p.core) :
    sweepWork (s.afterProcess upstreams l p) = sweepWork s := by
  cases hr : s.process.core.checkerRunning with
  | true => simp [sweepWork, afterProcess, hi.checkerRunning, hr]
  | false =>
    have hc := hi.checker hr
    by_cases hpr : s.process.core.checker = .probing
    · have hl : l ≠ .checker .checkerTest := by
        rintro rfl
        cases Process.step_moves hp with
        | checker l c _ hs =>
          obtain ⟨he, -⟩ := Shutdown.step_eq hs
          simp [Shutdown.enabled, hpr] at he
      simp [sweepWork, afterProcess, hi.checkerRunning, hc, hl]
    · simp [sweepWork, afterProcess, hc, hpr]

lemma Going.process_descends {l : Process.Label} {p : Process} (hs : Going owner upstreams s)
    (hp : s.process.step owner l = some p) (ht : Whole owner upstreams (s.afterProcess upstreams l p)) :
    Descends upstreams s (.process l) (s.afterProcess upstreams l p) := by
  rcases hs.doomed.descends hp with hlt | ⟨hr, hh, hl, hi⟩
  · exact Or.inl (rank_lt ht hlt)
  · refine Or.inr ⟨?_, congrArg Party.process hh, ?_⟩
    · rw [rank, rank, turnWork_process hp hi, sweepWork_process hp hi]
      simp only [afterProcess, hr]
    · rw [Label.party, Ne, Option.map_eq_some_iff]
      rintro ⟨k, hk, he⟩
      obtain rfl : k = s.process.helpful := Party.process.inj he
      exact hl hk

lemma Going.turn_descends (hs : Going owner upstreams s) (hm : s.process.core.main = .iterating)
    (hp : t.process = s.process) (hk : t.probes = s.probes) (hl : l.party = some (.process .main))
    (hw : turnLeft t < turnLeft s) : Descends upstreams s l t := by
  cases hr : s.process.core.running with
  | false =>
    left
    simp only [rank, turnWork, sweepWork, hp, hk, hr, hm, and_self, if_true]
    omega
  | true =>
    refine Or.inr ⟨by simp [rank, turnWork, sweepWork, hp, hk, hr], by rw [helpful, helpful, hp], ?_⟩
    rw [hl]
    intro h
    have hmain : .main = s.process.helpful := Party.process.inj (Option.some.inj h)
    exact hs.doomed.helpful_ne_main (hs.whole.running hm) hr hmain.symm

lemma descends_of_eq (hp : t.process = s.process) (he : t.events = s.events)
    (hn : t.pool.notifying = s.pool.notifying) (hk : t.probes = s.probes)
    (hl : ∀ k, l.party ≠ some (.process k)) : Descends upstreams s l t := by
  refine Or.inr ⟨?_, by rw [helpful, helpful, hp], hl _⟩
  simp only [rank, turnWork, turnLeft, sweepWork, hp, he, hn, hk]

lemma Going.descends (hs : Going owner upstreams s) (hj : s.process.tail = .releasing → s.pool.Joined)
    (ht : s.process.tail ≠ .ended) (h : Program.step owner upstreams s l = some t) :
    Descends upstreams s l t := by
  have hnext := hs.whole.step h
  cases step_moves h with
  | process l p ha hp => exact hs.process_descends hp hnext
  | wait n hm he hn =>
    refine hs.turn_descends hm rfl rfl rfl ?_
    rw [turnLeft_none he, turnLeft_some rfl]
    have hle := hs.whole.notifying
    change 2 * n + s.pool.notifying < _
    omega
  | handle k he hn =>
    refine hs.turn_descends (hs.whole.turn (by simp [he])) rfl rfl rfl ?_
    rw [turnLeft_some he, turnLeft_some rfl]
    change 2 * k + s.pool.notifying < _
    omega
  | enqueue fd k he hn =>
    refine hs.turn_descends (hs.whole.turn (by simp [he])) rfl rfl rfl ?_
    rw [turnLeft_some he, turnLeft_some rfl]
    simp only [ThreadPool.push]
    omega
  | pool l p hl ha hp =>
    cases ThreadPool.step_moves hp with
    | enqueue => cases hl
    | notifyOne i hn | notifyNone i hn =>
      have he := hs.whole.pushing hn
      obtain ⟨k, he'⟩ := Option.ne_none_iff_exists'.mp he
      refine hs.turn_descends (hs.whole.turn he) rfl rfl rfl ?_
      rw [turnLeft_some he', turnLeft_some (by exact he')]
      exact Nat.add_lt_add_left (Nat.sub_lt hn Nat.one_pos) _
    | spuriousWakeup | exit | block | take | work | finish =>
      exact descends_of_eq rfl rfl rfl rfl (by simp [Label.party, ThreadPool.Step.party, ofPool])
    | setStop | notifyAll | join =>
      have hjoined : s.pool.Joined := hj (by simpa [poolAllows, ht] using ha)
      rcases hs.whole.pool.joined_step hjoined hp with he | ⟨i, he⟩ <;> cases he
  | probe hc hp =>
    cases hr : s.process.core.checkerRunning with
    | false =>
      left
      simp only [rank, turnWork, turnLeft, sweepWork, hr, hc, and_self, if_true]
      omega
    | true =>
      refine Or.inr ⟨by simp [rank, turnWork, turnLeft, sweepWork, hr], rfl, ?_⟩
      intro h
      have hchecker : .checker = s.process.helpful := Party.process.inj (Option.some.inj h)
      exact hs.doomed.helpful_ne_checker hr hchecker.symm

lemma turn_enabled (hm : s.process.core.main = .iterating)
    (ha : ¬ (s.events = some 0 ∧ s.pool.notifying = 0)) :
    ∃ l : Label, l.party = some (.process .main) ∧ (Program.step owner upstreams s l).isSome := by
  rcases Nat.eq_zero_or_pos s.pool.notifying with hn | hn
  · cases he : s.events with
    | none => exact ⟨.wait 0, rfl, by simp [Program.step, hm, he]⟩
    | some k =>
      cases k with
      | zero => exact absurd ⟨he, hn⟩ ha
      | succ k => exact ⟨.handle, rfl, by simp [Program.step, he, hn]⟩
  · obtain ⟨i, hi⟩ := ThreadPool.notify_enabled hn
    exact ⟨.pool (.notifyOne i), rfl, by simpa [Program.step, poolAllows] using hi⟩

lemma Going.enabled (hs : Going owner upstreams s) (hj : s.process.tail = .releasing → s.pool.Joined)
    (ht : s.process.tail ≠ .ended) :
    ∃ l : Label, l.party = some (helpful s) ∧ (Program.step owner upstreams s l).isSome := by
  obtain ⟨l, hl, hsome⟩ := hs.doomed.enabled ht
  by_cases ha : s.allows l = true
  · exact ⟨.process l, congrArg (Option.map Party.process) hl, by simpa [Program.step, ha] using hsome⟩
  · obtain ⟨p, hp⟩ := Option.isSome_iff_exists.mp hsome
    cases Process.step_moves hp with
    | run l c _ _ hc =>
      obtain ⟨he, -⟩ := Shutdown.step_eq hc
      cases l with
      | iterate =>
        rw [helpful, ← Option.some.inj hl]
        exact turn_enabled (by simpa [Shutdown.enabled] using he) (by simpa [allows] using ha)
      | bind _ | startChecker | spawn | assign | raise | test => exact absurd rfl ha
      | checkerTest | sweep | stopRunning | stopChecker | joinable | join => exact absurd rfl ha
    | checker l c _ hc =>
      obtain ⟨he, -⟩ := Shutdown.step_eq hc
      cases l with
      | sweep =>
        rw [helpful, ← Option.some.inj hl]
        have hpr : s.process.core.checker = .probing := by simpa [Shutdown.enabled] using he
        have hpos : 0 < s.probes := Nat.pos_of_ne_zero (by simpa [allows] using ha)
        exact ⟨.probe, rfl, by simp [Program.step, hpr, hpos]⟩
      | bind _ | startChecker | spawn | assign | raise | test | iterate => exact absurd rfl ha
      | checkerTest | stopRunning | stopChecker | joinable | join => exact absurd rfl ha
    | destroyRunning | destroyChecker | destroyJoinable | destroyJoin | destroyed | released =>
      exact absurd (decide_eq_true hj) ha
    | signal | pollRequested | pollExit | decide | stop | stopped | leave | joinWatcher => exact absurd rfl ha

lemma Whole.main_steps (hs : Whole owner upstreams s) (hd : s.Down) (hj : ¬ s.pool.Joined)
    (h : Program.step owner upstreams s l = some t) (hl : l.party = some (.process .main)) :
    ∃ l' : ThreadPool.Step ℕ, l = .pool l' ∧ l'.isWork = false ∧ t.pool.stop = true := by
  cases step_moves h with
  | process l p ha hp =>
    exfalso
    cases Process.step_moves hp with
    | run l c hr | leave hr | joinWatcher hr => simp [Down, hr] at hd
    | destroyRunning hr | destroyChecker hr | destroyJoinable hr | destroyJoin hr =>
      rcases hr with hr | hr
      · simp [Down, hr] at hd
      · exact hj (of_decide_eq_true ha hr)
    | destroyed hr => simp [Down, hr] at hd
    | released hr => exact hj (of_decide_eq_true ha hr)
    | signal => cases hl
    | checker | pollRequested | pollExit | decide | stop | stopped =>
      simp [Label.party, Process.Label.party] at hl
  | wait n hm => simp [Down, hs.running hm] at hd
  | handle k he | enqueue fd k he => exact absurd hd (hs.not_down (by simp [he]))
  | pool l' p hl' ha hp =>
    cases ThreadPool.step_moves hp with
    | enqueue => cases hl'
    | notifyOne i hn | notifyNone i hn => exact absurd hd (hs.not_down (hs.pushing hn))
    | setStop => exact ⟨_, rfl, rfl, rfl⟩
    | notifyAll hstop => exact ⟨_, rfl, rfl, hstop⟩
    | join hn => exact ⟨_, rfl, rfl, (hs.pool.wakes.all hn).1⟩
    | spuriousWakeup | exit | block | take | work | finish =>
      simp [Label.party, ThreadPool.Step.party, ofPool] at hl
  | probe => simp [Label.party] at hl

lemma party_pool {l : ThreadPool.Step ℕ} {k : ThreadPool.Party} (h : l.party = some k) :
    (Label.pool l).party = some (ofPool k) := by
  cases l with
  | enqueue | setStop => cases h
  | notifyOne | spuriousWakeup | workerLoop | work | finish | notifyAll | join =>
    exact congrArg (Option.map ofPool) h

lemma pool_enabled {l : ThreadPool.Step ℕ} {k : ThreadPool.Party} (hd : s.Down) (h : l.party = some k)
    (hl : (s.pool.step l).isSome) : (Program.step owner upstreams s (.pool l)).isSome := by
  have ht : s.process.tail = .releasing ∨ s.process.tail = .ended := hd
  cases l with
  | enqueue => cases h
  | setStop | notifyAll | join => simpa [Program.step, poolAllows, ht] using hl
  | notifyOne | spuriousWakeup | workerLoop | work | finish => simpa [Program.step, poolAllows] using hl

lemma Whole.stopped_descends (hs : Whole owner upstreams s) (hd : s.Down) (hj : ¬ s.pool.Joined)
    (hstop : s.pool.stop = true) (h : Program.step owner upstreams s l = some t) :
    t.pool.stop = true ∧ (t.pool.stepsLeft < s.pool.stepsLeft ∨
      t.pool.stepsLeft = s.pool.stepsLeft ∧ ofPool t.pool.drainer = ofPool s.pool.drainer ∧
        l.party ≠ some (ofPool s.pool.drainer)) := by
  have hmain : ∀ k, l.party = some (.process k) → (∀ l', l ≠ .pool l') →
      l.party ≠ some (ofPool s.pool.drainer) := by
    intro k hk hl hp
    have hm : k = .main := by
      rw [hk] at hp
      cases hc : s.pool.drainer with
      | loop i | finish i => simp [hc, ofPool] at hp
      | notify | destructor =>
        rw [hc] at hp
        exact Party.process.inj (Option.some.inj hp)
    obtain ⟨l', hl', -⟩ := hs.main_steps hd hj h (hm ▸ hk)
    exact hl l' hl'
  cases step_moves h with
  | process l p =>
    refine ⟨hstop, Or.inr ⟨rfl, rfl, ?_⟩⟩
    cases hp : l.party with
    | none => simp [Label.party, hp]
    | some k => exact hmain k (by simp [Label.party, hp]) (by simp)
  | wait | handle => exact ⟨hstop, Or.inr ⟨rfl, rfl, hmain .main rfl (by simp)⟩⟩
  | enqueue fd k he => exact absurd hd (hs.not_down (by simp [he]))
  | pool l p hl ha hp =>
    obtain ⟨⟨hstop', -⟩, hle⟩ := ThreadPool.stopped_step hstop (fun _ => hl) hp
    refine ⟨hstop', ?_⟩
    cases hw : l.isWork with
    | false =>
      rw [hw] at hle
      exact Or.inl hle
    | true =>
      cases l with
      | work i =>
        rcases hle.lt_or_eq with hlt | he
        · exact Or.inl hlt
        · have hd' := congrArg ofPool (ThreadPool.drainer_work hp)
          exact Or.inr ⟨he, hd', by simp [Label.party, ThreadPool.Step.party]⟩
      | enqueue | notifyOne | spuriousWakeup | workerLoop | finish | setStop | notifyAll | join => cases hw
  | probe => exact ⟨hstop, Or.inr ⟨rfl, rfl, hmain .checker rfl (by simp)⟩⟩

lemma Whole.going_of_signal (hs : Whole owner upstreams s) (hr : s.process.stopRequested = false)
    (hc : s.process.core.Raised) (h : Program.step owner upstreams s (.process .signal) = some t) :
    Going owner upstreams t := by
  refine ⟨hs.step h, ?_⟩
  cases step_moves h with
  | process l p _ hp =>
    obtain rfl := Option.some.inj hp
    exact ⟨hs.process.step hp, hs.process.lowered_of_unrequested hr hc, Or.inl rfl⟩

section Runs

variable {numThreads : ℕ} {r : Run (step owner upstreams) (fun _ _ => True) (create numThreads)}

lemma run_whole (r : Run (step owner upstreams) (fun _ _ => True) (create numThreads)) (n : ℕ) :
    Whole owner upstreams (r.state n) :=
  (r.reachable n).invariant (create_whole owner upstreams numThreads) fun _ _ _ hs _ h => hs.step h

lemma going_mono {n m : ℕ} (h : n ≤ m) (hn : Going owner upstreams (r.state n)) :
    Going owner upstreams (r.state m) := Run.stays (fun n hs => hs.step (r.next n)) h hn

lemma down_mono {n m : ℕ} (h : n ≤ m) (hn : (r.state n).Down) : (r.state m).Down :=
  Run.stays (fun n hd => down_step (r.next n) hd) h hn

lemma joined_mono {n m : ℕ} (h : n ≤ m) (hn : (r.state n).pool.Joined) : (r.state m).pool.Joined :=
  Run.stays (P := fun s : Program => s.pool.Joined) (fun n hj => joined_step (r.next n) hj) h hn

lemma going_leadsTo (hf : ∀ k : Party, r.WeaklyFair fun l => l.party = some k) :
    r.LeadsTo (Going owner upstreams) Resting := by
  apply Run.leadsTo_of_helpful hf helpful (rank upstreams)
  · intro n hs
    by_cases hq : (r.state n).Resting
    · exact Or.inl hq
    · obtain ⟨hj, ht⟩ := not_resting hq
      exact Or.inr (hs.enabled hj ht)
  · intro n hs
    by_cases hq : (r.state n).Resting
    · exact Or.inl hq
    · obtain ⟨hj, ht⟩ := not_resting hq
      exact Or.inr ⟨hs.step (r.next n), hs.descends hj ht (r.next n)⟩

lemma down_leadsTo (hf : ∀ k : Party, r.WeaklyFair fun l => l.party = some k) :
    r.LeadsTo (fun s => Whole owner upstreams s ∧ s.Down ∧ s.pool.stop = false) fun s =>
      s.pool.stop = true := by
  apply Run.leadsTo_of_fair (hf (.process .main))
  · rintro n ⟨hs, hd, hstop⟩
    refine ⟨.pool .setStop, rfl, ?_⟩
    have ha : (r.state n).poolAllows .setStop = true := decide_eq_true hd
    simp [step, ha, ThreadPool.step, hstop]
  · rintro n ⟨hs, hd, hstop⟩
    cases ht : (r.state (n + 1)).pool.stop with
    | true => exact Or.inr rfl
    | false =>
      refine Or.inl ⟨⟨hs.step (r.next n), down_step (r.next n) hd, rfl⟩, ?_⟩
      have hn : (r.state n).pool.notifiedAll ≠ true := fun h => by
        simp [(hs.pool.wakes.all h).1] at hstop
      intro hl
      obtain ⟨-, -, -, h⟩ := hs.main_steps hd (fun hj => hn hj.1) (r.next n) hl
      simp [ht] at h

lemma stopped_leadsTo (hf : ∀ k : Party, r.WeaklyFair fun l => l.party = some k) :
    r.LeadsTo (fun s => Whole owner upstreams s ∧ s.Down ∧ s.pool.stop = true) fun s => s.pool.Joined := by
  apply Run.leadsTo_of_helpful hf (fun s => ofPool s.pool.drainer) fun s => s.pool.stepsLeft
  · rintro n ⟨hs, hd, hstop⟩
    by_cases hj : (r.state n).pool.Joined
    · exact Or.inl hj
    · obtain ⟨l, hl, hsome⟩ := hs.pool.enabled hstop hj
      exact Or.inr ⟨.pool l, party_pool hl, pool_enabled hd hl hsome⟩
  · rintro n ⟨hs, hd, hstop⟩
    by_cases hj : (r.state n).pool.Joined
    · exact Or.inl hj
    · obtain ⟨hstop', hdesc⟩ := hs.stopped_descends hd hj hstop (r.next n)
      exact Or.inr ⟨⟨hs.step (r.next n), down_step (r.next n) hd, hstop'⟩, hdesc⟩

end Runs

structure Over (owner : Owner) (upstreams : ℕ) (s : Program) : Prop where
  tail : s.process.tail = .ended
  thread : s.process.core.thread = false
  watcher : s.process.watcher = .exited
  checker : s.process.core.checker = .unborn ∨ s.process.core.checker = .exited
  joined : s.pool.Joined
  workers : ∀ w ∈ s.pool.workers, w = .exited
  finished : s.pool.finished.Perm s.pool.enqueued
  signals : ∀ l t, step owner upstreams s l = some t → l = .process .signal

lemma Whole.over (hs : Whole owner upstreams s) (ht : s.process.tail = .ended) (hj : s.pool.Joined) :
    Over owner upstreams s := by
  obtain ⟨hthread, hw, hc⟩ := hs.process.ended ht
  have hd : s.Down := Or.inr ht
  refine ⟨ht, hthread, hw, hc, hj, hs.pool.conserved.all_exited hj, hs.pool.drained hj, ?_⟩
  intro l t h
  cases step_moves h with
  | process l p _ hp => rw [hs.process.ended_moves ht hp]
  | wait n hm => simp [Down, hs.running hm] at hd
  | handle k he | enqueue fd k he => exact absurd hd (hs.not_down (by simp [he]))
  | pool l p hl _ hp =>
    rcases hs.pool.joined_step hj hp with he | ⟨i, rfl⟩
    · simp [hl] at he
    · cases ThreadPool.step_moves hp with
      | notifyOne i hn | notifyNone i hn => exact absurd hd (hs.not_down (hs.pushing hn))
  | probe hpr => rcases hc with hc | hc <;> simp [hc] at hpr

theorem program_ends (owner : Owner) (upstreams numThreads : ℕ)
    (r : Run (step owner upstreams) (fun _ _ => True) (create numThreads))
    (hf : ∀ k : Party, r.WeaklyFair fun l => l.party = some k) (n : ℕ)
    (h : (r.state n).process.core.main = .returned ∨ r.label n = .process .signal ∧
      (r.state n).process.stopRequested = false ∧ (r.state n).process.core.Raised) :
    ∃ m, n ≤ m ∧ Over owner upstreams (r.state m) := by
  have hwhole := run_whole r
  have hgo : ∃ k, n ≤ k ∧ Going owner upstreams (r.state k) := by
    rcases h with hm | ⟨hl, hs, hr⟩
    · have hi := (hwhole n).process
      exact ⟨n, le_rfl, hwhole n, hi, hi.flagged.lowered_of_returned hm, Or.inr hm⟩
    · exact ⟨n + 1, Nat.le_succ n, (hwhole n).going_of_signal hs hr (hl ▸ r.next n)⟩
  obtain ⟨k, hk, hg⟩ := hgo
  obtain ⟨a, ha, hq⟩ := going_leadsTo hf k hg
  have hd := hq.down
  have hstop : ∃ b, a ≤ b ∧ (r.state b).pool.stop = true := by
    cases hs : (r.state a).pool.stop with
    | true => exact ⟨a, le_rfl, hs⟩
    | false => exact down_leadsTo hf a ⟨hwhole a, hd, hs⟩
  obtain ⟨b, hb, hstop⟩ := hstop
  obtain ⟨c, hc, hj⟩ := stopped_leadsTo hf b ⟨hwhole b, down_mono hb hd, hstop⟩
  -- the pool once joined, what is left of `main` is the destructor of the health checker
  obtain ⟨d, hcd, ⟨-, hn⟩ | ht⟩ := going_leadsTo hf c (going_mono (ha.trans (hb.trans hc)) hg)
  · exact absurd (joined_mono hcd hj) hn
  · have hle : n ≤ d := hk.trans (ha.trans (hb.trans (hc.trans hcd)))
    exact ⟨d, hle, (hwhole d).over ht (joined_mono hcd hj)⟩

def thenSignal (labels : List Label) (n : ℕ) : Label := (labels[n]?).getD (.process .signal)

/-- A finite run to the end goes on as a fair one: after the end nothing is left to be fair to. -/
lemma exists_fair (owner : Owner) (upstreams numThreads : ℕ) (labels : List Label)
    (hs : ∀ n < labels.length + 1,
      (step owner upstreams (follow (step owner upstreams) (create numThreads) (thenSignal labels) n)
        (thenSignal labels n)).isSome)
    (he : (follow (step owner upstreams) (create numThreads) (thenSignal labels) labels.length).process.tail =
      .ended)
    (hj : (follow (step owner upstreams) (create numThreads) (thenSignal labels) labels.length).pool.Joined)
    (hc : follow (step owner upstreams) (create numThreads) (thenSignal labels) (labels.length + 1) =
      follow (step owner upstreams) (create numThreads) (thenSignal labels) labels.length) :
    ∃ r : Run (step owner upstreams) (fun _ _ => True) (create numThreads),
      (∀ k : Party, r.WeaklyFair fun l => l.party = some k) ∧ r.label = thenSignal labels ∧
        r.state = follow (step owner upstreams) (create numThreads) (thenSignal labels) := by
  have hsignal : ∀ n, labels.length ≤ n → thenSignal labels (n + 1) = thenSignal labels n := by
    intro n hn
    rw [thenSignal, thenSignal, List.getElem?_eq_none (hn.trans (Nat.le_succ n)), List.getElem?_eq_none hn]
  obtain ⟨r, hstate, hlabel, hrec⟩ := Run.exists_lasso (fun _ _ => True) labels.length 1 Nat.one_pos hsignal
    hc (fun _ _ => trivial) hs
  have hover : Over owner upstreams (r.state labels.length) :=
    (run_whole r labels.length).over (by rw [hstate, he]) (by rw [hstate]; exact hj)
  refine ⟨r, fun k => (hrec _ le_rfl).weaklyFair (Or.inr ?_), hlabel, hstate⟩
  intro l hl
  by_contra hsome
  obtain ⟨t, ht⟩ := Option.ne_none_iff_exists'.mp hsome
  rw [hover.signals l t ht] at hl
  cases hl

theorem program_ends_signalled :
    ∃ r : Run (step .loadBalancer 2) (fun _ _ => True) (create 2),
      (∀ k : Party, r.WeaklyFair fun l => l.party = some k) ∧ r.label 13 = .process .signal ∧
      (r.state 13).process.core.main = .iterating ∧ (r.state 13).probes = 1 ∧
      (r.state 13).pool.queue = [7] ∧ ∃ m, 13 ≤ m ∧ Over .loadBalancer 2 (r.state m) := by
  have hr := exists_fair .loadBalancer 2 2
    [.process (.run (.bind true)), .process (.run .startChecker), .process (.run .spawn),
      .process (.run .assign), .process (.run .raise), .process (.checker .checkerTest),
      .pool (.workerLoop 0), .process (.run .test), .probe, .wait 2, .pool (.enqueue 7),
      .process .pollRequested, .process .pollExit, .process .signal, .process .pollRequested,
      .process .decide, .process (.stop .stopRunning), .pool (.notifyOne 0), .handle,
      .process (.run .iterate), .process (.stop .stopChecker), .process (.run .test), .process .leave,
      .process (.stop .joinable), .probe, .process (.checker .sweep), .process (.checker .checkerTest),
      .process (.stop .join), .process .stopped, .process .joinWatcher, .process (.destroy .stopRunning),
      .process (.destroy .stopChecker), .process (.destroy .joinable), .process .destroyed, .pool .setStop,
      .pool (.workerLoop 1), .pool .notifyAll, .pool (.workerLoop 0), .pool .join, .pool (.work 1),
      .pool (.finish 1), .pool (.workerLoop 1), .pool .join, .process (.destroy .stopChecker),
      .process (.destroy .joinable), .process .destroyed]
    (by decide +kernel) (by decide +kernel) (by decide +kernel) (by decide +kernel)
  obtain ⟨r, hf, hl, hs⟩ := hr
  have hlabel : r.label 13 = .process .signal := by rw [hl]; rfl
  have hstate : r.state 13 =
      ⟨⟨⟨.iterating, true, true, .probing, true, .idle⟩, false, false, .polling, .running, .idle⟩,
        ⟨[.blocked, .awake], [7], false, 1, false, 0, [7], [], []⟩, some 1, 1⟩ := by
    rw [hs]
    decide +kernel
  have hend := program_ends .loadBalancer 2 2 r hf 13
    (Or.inr ⟨hlabel, by rw [hstate], by rw [hstate]; exact Or.inr (Or.inl rfl)⟩)
  exact ⟨r, hf, hlabel, by rw [hstate], by rw [hstate], by rw [hstate], hend⟩

end HttpBalancer.System.Program
