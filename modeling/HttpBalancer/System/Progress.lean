import HttpBalancer.Lib.Fairness
import HttpBalancer.System.Histories

/-! Along every fair run a connection that was handed to a worker comes back: it is watched again for
what it needs, or it is closed. -/

namespace HttpBalancer.System

open Net Server Balancer Lib

namespace State

lemma applyRearm_frame (st : State) (r : PendingRearm) :
    (st.applyRearm r).tasks = st.tasks ∧ (st.applyRearm r).running = st.running := by
  rw [applyRearm]
  cases st.connections r.task.fd with
  | none => exact ⟨rfl, rfl⟩
  | some e => cases r.action <;> exact ⟨rfl, rfl⟩

lemma dispatch_frame (st : State) (ev : IoEvent) :
    st.tasks <+: (st.dispatch ev).tasks ∧ (st.dispatch ev).running = st.running := by
  rw [dispatch]
  cases st.connections ev.fd with
  | none => exact ⟨List.prefix_rfl, rfl⟩
  | some e =>
    dsimp only
    split_ifs
    · exact ⟨List.prefix_rfl, rfl⟩
    · exact ⟨List.prefix_append _ _, rfl⟩

def Released (st : State) (t : Task) : Prop := st.idAt t.fd ≠ some t.conn ∨ st.mask t.fd ≠ 0

lemma released_applyRearm (st : State) (r : PendingRearm) : (st.applyRearm r).Released r.task := by
  rw [applyRearm]
  cases hc : st.connections r.task.fd with
  | none =>
    apply Or.inl
    rw [idAt, hc]
    simp
  | some e =>
    cases r.action with
    | waitReadable => exact Or.inr (by simp [EventType.readable])
    | waitWritable => exact Or.inr (by simp [EventType.writable])
    | close => exact Or.inl (by simp)

end State

section Steps

variable {S : Service} {setup : Setup} {st st' : State} {l : Label S}

lemma tasks_step (hi : Inv setup st) (hs : step S setup st l = some st') :
    (st.tasks <+: st'.tasks ∧ l ≠ .start) ∨
      ∃ task, l = .start ∧ st.tasks = task :: st'.tasks ∧ task ∈ st'.running.map Worker.task := by
  cases step_moves hs with
  | swapRearms | wait | listen | accept | acceptDone | finish =>
    exact Or.inl ⟨List.prefix_rfl, by simp⟩
  | applyRearm r rearms hp =>
    rw [← (st.applyRearm_frame r).1]
    exact Or.inl ⟨List.prefix_rfl, by simp⟩
  | dispatch ev events hp hl => exact Or.inl ⟨(st.dispatch_frame ev).1, by simp⟩
  | start task tasks ht hr =>
    have hl : task ∈ st.tokens := by simp [State.tokens, ht]
    obtain ⟨c, hc⟩ := State.idAt_eq_some_iff.mp (hi.live hl).1
    rw [State.start, hc]
    exact Or.inr ⟨task, rfl, ht, by simp⟩

lemma running_step (hs : step S setup st l = some st') :
    (st.running <+: st'.running ∧ (l = .start ∨ st'.running = st.running)) ∨
      ∃ i w, st.running[i]? = some w ∧ st'.running = st.running.eraseIdx i ∧
        w.task ∈ st'.pendingRearms.map PendingRearm.task := by
  cases step_moves hs with
  | swapRearms | wait | listen | accept | acceptDone => exact Or.inl ⟨List.prefix_rfl, Or.inr rfl⟩
  | applyRearm r rearms hp =>
    have hr : (st.applyRearm r).running = st.running := (st.applyRearm_frame r).2
    exact Or.inl ⟨hr ▸ List.prefix_rfl, Or.inr hr⟩
  | dispatch ev events hp hl =>
    have hr : (st.dispatch ev).running = st.running := (st.dispatch_frame ev).2
    exact Or.inl ⟨hr ▸ List.prefix_rfl, Or.inr hr⟩
  | start task tasks ht hr =>
    refine Or.inl ⟨?_, Or.inl rfl⟩
    rw [State.start]
    cases st.connections task.fd with
    | none => exact List.prefix_rfl
    | some e => exact List.prefix_append _ _
  | finish i env io w e hw he hf =>
    obtain ⟨log, a, hl, hn⟩ := S.handleEvent_rearm env io e.conn
    refine Or.inr ⟨i, w, hw, rfl, ?_⟩
    simp [State.finish, hl, rearms]

lemma pending_step (hs : step S setup st l = some st') :
    st.pendingRearms <+: st'.pendingRearms ∧ l ≠ .swapRearms ∨
      st'.phase.rearms = st.pendingRearms ∧ st'.pendingRearms = [] := by
  cases step_moves hs with
  | swapRearms hp => exact Or.inr ⟨rfl, rfl⟩
  | wait | listen | accept | acceptDone => exact Or.inl ⟨List.prefix_rfl, by simp⟩
  | applyRearm r rearms hp =>
    refine Or.inl ⟨?_, by simp⟩
    dsimp only
    rw [(st.applyRearm_keeps r).2.2.1]
  | dispatch ev events hp hl =>
    refine Or.inl ⟨?_, by simp⟩
    dsimp only
    rw [(st.dispatch_keeps ev).2.2]
  | start task tasks ht hr =>
    refine Or.inl ⟨?_, by simp⟩
    rw [(st.start_keeps task tasks).2.2.1]
  | finish i env io w e hw he hf => exact Or.inl ⟨List.prefix_append _ _, by simp⟩

lemma applying_step (hs : step S setup st l = some st') :
    st'.phase.rearms = st.phase.rearms ∨ (st.phase.rearms = [] ∧ l = .swapRearms) ∨
      ∃ r, st.phase.rearms = r :: st'.phase.rearms ∧ st'.Released r.task := by
  cases step_moves hs with
  | swapRearms hp => exact Or.inr (Or.inl ⟨by rw [hp]; rfl, rfl⟩)
  | applyRearm r rearms hp =>
    exact Or.inr (Or.inr ⟨r, by rw [hp]; rfl, st.released_applyRearm r⟩)
  | wait events hp | listen ev events hp | dispatch ev events hp | acceptDone events hp =>
    left
    rw [hp]
    rfl
  | accept | finish => exact Or.inl rfl
  | start task tasks ht hr =>
    left
    rw [(st.start_keeps task tasks).2.2.2]

lemma swap_applied (hs : step S setup st .swapRearms = some st') : st.phase.rearms = [] := by
  cases step_moves hs with
  | swapRearms hp =>
    rw [hp]
    rfl

lemma running_le (h : Reachable S setup (Heard setup) st) :
    st.running.length ≤ max setup.numThreads 1 := by
  refine Transitions.Reachable.invariant (P := fun st => st.running.length ≤ max setup.numThreads 1)
    (Nat.zero_le _) ?_ h
  intro s l t hs _ ht
  rcases running_step ht with ⟨-, hl | he⟩ | ⟨i, w, -, he, -⟩
  · subst hl
    cases step_moves ht with
    | start task tasks htk hr =>
      rw [State.start]
      cases s.connections task.fd with
      | none => exact hs
      | some e => simpa using hr
  · exact he ▸ hs
  · rw [he]
    exact (List.length_eraseIdx_le ..).trans hs

end Steps

/-- The reactor goes round again and again, every handler returns, and a worker that finds the queue
non-empty for good takes from it. -/
structure Fair {S : Service} {setup : Setup}
    (r : Transitions.Run (step S setup) (Heard setup) setup.initial) : Prop where
  iterates : ∀ n, ∃ m, n ≤ m ∧ r.label m = .swapRearms
  returns : ∀ n w, w ∈ (r.state n).running → ∃ m, n ≤ m ∧ w ∉ (r.state m).running
  serves : r.WeaklyFair (· = .start)

namespace Fair

variable {S : Service} {setup : Setup} {r : Transitions.Run (step S setup) (Heard setup) setup.initial}

lemma inv (n : ℕ) : Inv setup (r.state n) := heard_inv (r.reachable n)

lemma starts (h : Fair r) {n : ℕ} (hn : (r.state n).tasks ≠ []) : ∃ m, n ≤ m ∧ r.label m = .start := by
  by_contra hno
  push Not at hno
  have htasks : ∀ m, n ≤ m → (r.state m).tasks ≠ [] := by
    intro m hm
    induction m, hm using Nat.le_induction with
    | base => exact hn
    | succ m hm ih =>
      rcases tasks_step (inv m) (r.next m) with ⟨hp, -⟩ | ⟨task, hl, -⟩
      · exact fun hz => ih (List.prefix_nil.mp (hz ▸ hp))
      · exact absurd hl (hno m hm)
  -- without a start the workers only go away
  have hsub : ∀ m k, n ≤ m → m ≤ k → (r.state k).running.Sublist (r.state m).running := by
    intro m k hm hk
    induction k, hk using Nat.le_induction with
    | base => exact .refl _
    | succ k hk ih =>
      rcases running_step (r.next k) with ⟨-, hl | he⟩ | ⟨i, w, -, he, -⟩
      · exact absurd hl (hno k (hm.trans hk))
      · exact he ▸ ih
      · exact he ▸ (List.eraseIdx_sublist ..).trans ih
  have hroom : ∃ m, n ≤ m ∧ (r.state m).running.length < max setup.numThreads 1 := by
    cases hw : (r.state n).running with
    | nil =>
      refine ⟨n, le_rfl, ?_⟩
      rw [hw]
      exact lt_max_of_lt_right one_pos
    | cons w ws =>
      have hmem : w ∈ (r.state n).running := by simp [hw]
      obtain ⟨m, hm, hgone⟩ := h.returns n w hmem
      refine ⟨m, hm, lt_of_lt_of_le ?_ (running_le (r.reachable n))⟩
      apply lt_of_le_of_ne (hsub n m le_rfl hm).length_le
      intro he
      exact hgone ((hsub n m le_rfl hm).eq_of_length he ▸ hmem)
  obtain ⟨m, hm, hlt⟩ := hroom
  obtain ⟨k, hk, hl⟩ := h.serves m fun k hk => by
    obtain ⟨task, tasks, ht⟩ := List.exists_cons_of_ne_nil (htasks k (hm.trans hk))
    refine ⟨.start, rfl, ?_⟩
    simp only [step, ht, if_pos ((hsub m k hm hk).length_le.trans_lt hlt)]
    rfl
  exact hno k (hm.trans hk) hl

lemma queued_leadsTo (h : Fair r) (t : Task) :
    r.LeadsTo (fun st => t ∈ st.tasks) fun st => t ∈ st.running.map Worker.task := by
  -- `t` moves up in the queue with every start until it is the first
  have hmove : ∀ n, t ∈ (r.state n).tasks →
      (r.label n ≠ .start ∧ t ∈ (r.state (n + 1)).tasks ∧
        (r.state (n + 1)).tasks.idxOf t = (r.state n).tasks.idxOf t) ∨
      (t ∈ (r.state (n + 1)).tasks ∧ (r.state (n + 1)).tasks.idxOf t < (r.state n).tasks.idxOf t) ∨
      (t ∉ (r.state (n + 1)).tasks ∧ t ∈ (r.state (n + 1)).running.map Worker.task) := by
    intro n ht
    rcases tasks_step (inv n) (r.next n) with ⟨⟨l, hl⟩, hs⟩ | ⟨task, -, he, hw⟩
    · rw [← hl]
      exact Or.inl ⟨hs, List.mem_append_left _ ht, List.idxOf_append_of_mem ht⟩
    · by_cases htask : task = t
      · subst htask
        refine Or.inr (Or.inr ⟨fun hm => ?_, hw⟩)
        have hp : (r.state n).tokens.Perm (task :: ((r.state (n + 1)).tasks ++
            ((r.state n).running.map Worker.task ++
              ((r.state n).pendingRearms ++ (r.state n).phase.rearms).map PendingRearm.task))) := by
          rw [State.tokens, he, List.append_assoc]
          rfl
        exact (inv n).alone hp task (List.mem_append_left _ hm) rfl
      · rw [he] at ht ⊢
        refine Or.inr (Or.inl ⟨(List.mem_cons.mp ht).resolve_left (Ne.symm htask), ?_⟩)
        rw [List.idxOf_cons_ne _ htask]
        exact Nat.lt_succ_self _
  apply Transitions.Run.leadsTo_of_rank fun st => st.tasks.idxOf t
  intro k
  apply Transitions.Run.leadsTo_of_unless
  · rintro n ⟨ht, rfl⟩
    rcases hmove n ht with ⟨-, hm, he⟩ | hm | hm
    · exact Or.inl ⟨hm, he⟩
    · exact Or.inr (Or.inl hm)
    · exact Or.inr (Or.inr hm.2)
  · rintro n ⟨ht, -⟩
    obtain ⟨m, hm, hl⟩ := h.starts (List.ne_nil_of_mem ht)
    by_cases hp : t ∈ (r.state m).tasks ∧ (r.state m).tasks.idxOf t = k
    · refine ⟨m + 1, hm.trans (Nat.le_succ m), ?_⟩
      rintro ⟨hm', he'⟩
      rcases hmove m hp.1 with ⟨hs, -⟩ | ⟨-, hlt⟩ | ⟨hn, -⟩
      · exact hs hl
      · exact (he'.trans hp.2.symm ▸ hlt).ne rfl
      · exact hn hm'
    · exact ⟨m, hm, hp⟩

lemma working_leadsTo (h : Fair r) (t : Task) :
    r.LeadsTo (fun st => t ∈ st.running.map Worker.task)
      fun st => t ∈ st.pendingRearms.map PendingRearm.task := by
  have hw : ∀ n w, w ∈ (r.state n).running → w.task = t → w = ⟨t, t.conn⟩ := by
    rintro n ⟨task, found⟩ hw rfl
    have hf : found = task.conn := (inv n).found _ hw
    rw [hf]
  apply Transitions.Run.leadsTo_of_unless
  · intro n hn
    obtain ⟨w, hm, ht⟩ := List.mem_map.mp hn
    rcases running_step (r.next n) with ⟨hp, -⟩ | ⟨i, w', hi, he, hm'⟩
    · exact Or.inl (List.mem_map.mpr ⟨w, hp.subset hm, ht⟩)
    · by_cases hww : w'.task = t
      · exact Or.inr (hww ▸ hm')
      · refine Or.inl (List.mem_map.mpr ⟨w, ?_, ht⟩)
        obtain ⟨hlt, rfl⟩ := List.getElem?_eq_some_iff.mp hi
        have hc := (List.getElem_cons_eraseIdx_perm hlt).mem_iff.mpr hm
        rw [he]
        refine (List.mem_cons.mp hc).resolve_left ?_
        rintro rfl
        exact hww ht
  · intro n hn
    obtain ⟨w, hm, ht⟩ := List.mem_map.mp hn
    obtain ⟨m, hnm, hgone⟩ := h.returns n w hm
    refine ⟨m, hnm, fun hmem => ?_⟩
    obtain ⟨w', hm', ht'⟩ := List.mem_map.mp hmem
    rw [hw n w hm ht] at hgone
    exact hgone (hw m w' hm' ht' ▸ hm')

lemma posted_leadsTo (h : Fair r) (t : Task) :
    r.LeadsTo (fun st => t ∈ st.pendingRearms.map PendingRearm.task)
      fun st => t ∈ st.phase.rearms.map PendingRearm.task := by
  apply Transitions.Run.leadsTo_of_unless
  · intro n hn
    rcases pending_step (r.next n) with ⟨hp, -⟩ | ⟨he, -⟩
    · exact Or.inl (List.map_subset _ hp.subset hn)
    · exact Or.inr (he ▸ hn)
  · intro n _
    obtain ⟨m, hm, hl⟩ := h.iterates n
    refine ⟨m + 1, hm.trans (Nat.le_succ m), ?_⟩
    rcases pending_step (r.next m) with ⟨-, hs⟩ | ⟨-, he⟩
    · exact absurd hl hs
    · rw [he]
      exact List.not_mem_nil

lemma applying_leadsTo (h : Fair r) (t : Task) :
    r.LeadsTo (fun st => t ∈ st.phase.rearms.map PendingRearm.task) fun st => st.Released t := by
  apply Transitions.Run.leadsTo_of_unless
  · intro n hn
    rcases applying_step (r.next n) with he | ⟨hz, -⟩ | ⟨q, he, hr⟩
    · exact Or.inl (he ▸ hn)
    · rw [hz] at hn
      exact absurd hn List.not_mem_nil
    · rw [he, List.map_cons, List.mem_cons] at hn
      rcases hn with rfl | hn
      · exact Or.inr hr
      · exact Or.inl hn
  · intro n _
    obtain ⟨m, hm, hl⟩ := h.iterates n
    refine ⟨m, hm, ?_⟩
    rw [swap_applied (hl ▸ r.next m)]
    exact List.not_mem_nil

lemma token_leadsTo (h : Fair r) (t : Task) : r.LeadsTo (fun st => t ∈ st.tokens) fun st => st.Released t := by
  have h₄ := h.applying_leadsTo t
  have h₃ := (h.posted_leadsTo t).trans h₄
  have h₂ := (h.working_leadsTo t).trans h₃
  have h₁ := (h.queued_leadsTo t).trans h₂
  intro n hn
  apply ((h₁.or h₂).or (h₃.or h₄)) n
  simpa only [State.tokens, List.map_append, List.mem_append] using hn

lemma open_leadsTo (h : Fair r) (hS : ∀ c, S.rearm c ≠ .waitWritable) {n : ℕ} {fd : Fd} {i : ConnId} :
    ∃ m, n ≤ m ∧ ((r.state m).idAt fd ≠ some i ∨ ∃ c a, (r.state m).connections fd = some ⟨i, c⟩ ∧
      a ≠ .close ∧ (r.state m).mask fd = interestOf a ∧ Needs c a) := by
  -- it is enough to find the connection watched: it is then watched for what it needs
  have hwatched : ∀ m, n ≤ m → (r.state m).Released ⟨fd, i⟩ →
      ∃ m, n ≤ m ∧ ((r.state m).idAt fd ≠ some i ∨ ∃ c a, (r.state m).connections fd = some ⟨i, c⟩ ∧
        a ≠ .close ∧ (r.state m).mask fd = interestOf a ∧ Needs c a) := by
    intro m hm hr
    by_cases hi : (r.state m).idAt fd = some i
    · obtain ⟨c, hc⟩ := State.idAt_eq_some_iff.mp hi
      obtain ⟨a, ha, hk, hn⟩ := (heard_matched hS (r.reachable m)).2.watched fd _ hc
        (hr.resolve_left (not_not.mpr hi))
      exact ⟨m, hm, Or.inr ⟨c, a, hc, ha, hk, hn⟩⟩
    · exact ⟨m, hm, Or.inl hi⟩
  by_cases hi : (r.state n).idAt fd = some i
  · by_cases hm : (r.state n).mask fd = 0
    · have ht : (⟨fd, i⟩ : Task) ∈ (r.state n).tokens := by
        have hp := (inv (r := r) n).owned fd
        rw [State.due_disarmed hi hm] at hp
        exact (List.mem_filter.mp (hp.mem_iff.mpr (List.mem_singleton_self _))).1
      obtain ⟨m, hnm, hr⟩ := h.token_leadsTo ⟨fd, i⟩ n ht
      exact hwatched m hnm hr
    · exact hwatched n le_rfl (Or.inr hm)
  · exact ⟨n, le_rfl, Or.inl hi⟩

end Fair

/-- Along every fair run of the server or of the load balancer, from every moment on, each open
connection is at some later moment watched for what it needs, or closed. -/
theorem comes_back (setup : Setup) :
    (∀ router (r : Transitions.Run (step (httpServer router) setup) (Heard setup) setup.initial),
      Fair r → ∀ n fd i, (r.state n).idAt fd = some i →
        ∃ m, n ≤ m ∧ ((r.state m).idAt fd ≠ some i ∨ ∃ c a, (r.state m).connections fd = some ⟨i, c⟩ ∧
          a ≠ .close ∧ (r.state m).mask fd = interestOf a ∧ Needs c a)) ∧
    (∀ r : Transitions.Run (step loadBalancer setup) (Heard setup) setup.initial,
      Fair r → ∀ n fd i, (r.state n).idAt fd = some i →
        ∃ m, n ≤ m ∧ ((r.state m).idAt fd ≠ some i ∨ ∃ c a, (r.state m).connections fd = some ⟨i, c⟩ ∧
          a ≠ .close ∧ (r.state m).mask fd = interestOf a ∧ Needs c a)) :=
  ⟨fun router _ h _ _ _ _ => h.open_leadsTo (httpServer_rearm_ne router),
    fun _ h _ _ _ _ => h.open_leadsTo loadBalancer_rearm_ne⟩

def Idle (st : State) : Prop :=
  st.phase = .dispatching [] ∧ st.pendingRearms = [] ∧ st.tasks = [] ∧ st.running = []

instance : DecidablePred Idle := fun st =>
  inferInstanceAs (Decidable (st.phase = .dispatching [] ∧ st.pendingRearms = [] ∧ st.tasks = [] ∧
    st.running = []))

def thenPoll {S : Service} (labels : List (Label S)) (n : ℕ) : Label S :=
  (labels[n]?).getD (if (n - labels.length) % 2 = 0 then .swapRearms else .wait [])

def polled {S : Service} (setup : Setup) (labels : List (Label S)) : ℕ → State :=
  Transitions.follow (step S setup) setup.initial (thenPoll labels)

section Polling

variable {S : Service} {setup : Setup} {labels : List (Label S)}

lemma idle_polls {st : State} (h : Idle st) :
    step S setup st .swapRearms = some { st with phase := .applying [] } ∧
      step S setup { st with phase := .applying [] } (.wait []) = some st := by
  obtain ⟨hp, hq, -, -⟩ := h
  cases st
  subst hp hq
  simp [step]

lemma thenPoll_even (labels : List (Label S)) (j : ℕ) :
    thenPoll labels (labels.length + 2 * j) = .swapRearms := by
  simp [thenPoll]

lemma thenPoll_odd (labels : List (Label S)) (j : ℕ) :
    thenPoll labels (labels.length + 2 * j + 1) = .wait [] := by
  simp [thenPoll, Nat.add_assoc, Nat.add_mod]

lemma polled_succ {n : ℕ} {st : State}
    (h : step S setup (polled setup labels n) (thenPoll labels n) = some st) :
    polled setup labels (n + 1) = st := by
  change (step S setup (polled setup labels n) (thenPoll labels n)).getD _ = st
  rw [h]
  rfl

/-- Fairness asks nothing impossible: every finite run that leaves the system idle goes on as a fair
one. -/
lemma exists_fair (setup : Setup) (labels : List (Label S))
    (hok : ∀ n < labels.length, Heard setup (polled setup labels n) (thenPoll labels n))
    (hs : ∀ n < labels.length, (step S setup (polled setup labels n) (thenPoll labels n)).isSome)
    (hi : Idle (polled setup labels labels.length)) :
    ∃ r : Transitions.Run (step S setup) (Heard setup) setup.initial, Fair r ∧
      r.state = polled setup labels := by
  have hl0 : thenPoll labels labels.length = .swapRearms := thenPoll_even labels 0
  have hl1 : thenPoll labels (labels.length + 1) = .wait [] := thenPoll_odd labels 0
  obtain ⟨hswap, hwait⟩ : step S setup _ .swapRearms = _ ∧ _ := idle_polls hi
  rw [← hl0] at hswap
  rw [← hl1, ← polled_succ hswap] at hwait
  have hperiod : ∀ n, labels.length ≤ n → thenPoll labels (n + 2) = thenPoll labels n := by
    intro n hn
    rw [thenPoll, thenPoll, List.getElem?_eq_none (hn.trans (Nat.le_add_right n 2)), List.getElem?_eq_none hn,
      Nat.sub_add_comm hn, Nat.add_mod_right]
  have hall : ∀ n < labels.length + 2, Heard setup (polled setup labels n) (thenPoll labels n) ∧
      (step S setup (polled setup labels n) (thenPoll labels n)).isSome := by
    intro n hn
    obtain hlt | rfl | rfl : n < labels.length ∨ n = labels.length ∨ n = labels.length + 1 := by omega
    · exact ⟨hok n hlt, hs n hlt⟩
    · refine ⟨?_, Option.isSome_iff_exists.mpr ⟨_, hswap⟩⟩
      rw [hl0]
      exact Or.inr trivial
    · refine ⟨?_, Option.isSome_iff_exists.mpr ⟨_, hwait⟩⟩
      rw [hl1]
      exact Or.inr fun _ hev => absurd hev List.not_mem_nil
  obtain ⟨r, hstate, hlabel, hrec⟩ := Transitions.Run.exists_lasso (Heard setup) labels.length 2 Nat.two_pos
    hperiod (polled_succ hwait) (fun n hn => (hall n hn).1) fun n hn => (hall n hn).2
  have hidle : Idle (r.state labels.length) := hstate ▸ hi
  refine ⟨r, ⟨?_, ?_, ?_⟩, hstate⟩
  · intro n
    obtain ⟨m, hm, -, hl⟩ := hrec _ le_rfl n
    exact ⟨m, hm, by rw [hl, hlabel, hl0]⟩
  · intro n w _
    obtain ⟨m, hm, hst, -⟩ := hrec _ le_rfl n
    refine ⟨m, hm, ?_⟩
    rw [hst, hidle.2.2.2]
    exact List.not_mem_nil
  · apply (hrec _ le_rfl).weaklyFair
    refine Or.inr ?_
    rintro l rfl
    rw [step, hidle.2.2.1]

end Polling

theorem comes_back_halfway :
    ∃ r : Transitions.Run (step (httpServer (routes 8080)) ⟨.kqueue, 3, 4⟩) (Heard ⟨.kqueue, 3, 4⟩)
        (Setup.initial ⟨.kqueue, 3, 4⟩),
      Fair r ∧ (r.state 8).idAt 7 = some 0 ∧ (r.state 8).mask 7 = 0 ∧
      ∃ m, 8 ≤ m ∧ ((r.state m).idAt 7 ≠ some 0 ∨ ∃ c a, (r.state m).connections 7 = some ⟨0, c⟩ ∧
        a ≠ .close ∧ (r.state m).mask 7 = interestOf a ∧ Needs c a) := by
  have hr := exists_fair (S := httpServer (routes 8080)) ⟨.kqueue, 3, 4⟩
    [.swapRearms, .wait [⟨3, 1, false⟩], .dispatch, .accept 7, .acceptDone, .swapRearms,
      .wait [⟨7, 1, false⟩], .dispatch, .start,
      .finish 0 () ⟨.received (lit "GET / HTTP/1.1\r\n\r\n"), [.sent 5, .again]⟩, .swapRearms, .applyRearm,
      .wait []]
    (by decide +kernel) (by decide +kernel) (by decide +kernel)
  obtain ⟨r, hf, hs⟩ := hr
  have hi : (r.state 8).idAt 7 = some 0 := by
    rw [hs]
    decide +kernel
  have hm : (r.state 8).mask 7 = 0 := by
    rw [hs]
    decide +kernel
  exact ⟨r, hf, hi, hm, (comes_back ⟨.kqueue, 3, 4⟩).1 _ r hf 8 7 0 hi⟩

end HttpBalancer.System
