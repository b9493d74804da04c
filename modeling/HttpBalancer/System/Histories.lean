import HttpBalancer.Net.Requests
import HttpBalancer.System.Readiness

/-! The threads together do to a connection what one thread would that handles its events one at a
time: what was done on it is the sequential run of its own events, whatever happened on the others. -/

namespace HttpBalancer.System

open Net Server Balancer Lib

/-- The machine with a record, for each connection ever accepted, of the calls its handlers made and of
what they did. -/
structure Recorded (S : Service) where
  st : State
  history : ConnId → List (S.Env × ClientCalls)
  log : ConnId → List Action

namespace State

lemma connections_of_erase (st : State) (fd : Fd) (fd' : Fd) (e : Entry)
    (h : (st.erase fd).connections fd' = some e) : st.connections fd' = some e := by
  simp only [erase, Function.update_apply] at h
  split_ifs at h
  exact h

lemma applyRearm_keeps (st : State) (r : PendingRearm) :
    (∀ fd e, (st.applyRearm r).connections fd = some e → st.connections fd = some e) ∧
      (st.applyRearm r).nextConn = st.nextConn ∧ (st.applyRearm r).pendingRearms = st.pendingRearms ∧
      (r.action = .close → (st.applyRearm r).connections r.task.fd = none) := by
  rw [applyRearm]
  cases hc : st.connections r.task.fd with
  | none => exact ⟨fun _ _ he => he, rfl, rfl, fun _ => hc⟩
  | some e =>
    cases r.action with
    | waitReadable => exact ⟨fun _ _ he => he, rfl, rfl, fun h => by cases h⟩
    | waitWritable => exact ⟨fun _ _ he => he, rfl, rfl, fun h => by cases h⟩
    | close => exact ⟨st.connections_of_erase r.task.fd, rfl, rfl, fun _ => Function.update_self ..⟩

lemma dispatch_keeps (st : State) (ev : IoEvent) :
    (∀ fd e, (st.dispatch ev).connections fd = some e → st.connections fd = some e) ∧
      (st.dispatch ev).nextConn = st.nextConn ∧ (st.dispatch ev).pendingRearms = st.pendingRearms := by
  rw [dispatch]
  cases hc : st.connections ev.fd with
  | none => exact ⟨fun _ _ he => he, rfl, rfl⟩
  | some e =>
    dsimp only
    split_ifs
    · exact ⟨st.connections_of_erase ev.fd, rfl, rfl⟩
    · exact ⟨fun _ _ he => he, rfl, rfl⟩

lemma start_keeps (st : State) (task : Task) (tasks : List Task) :
    (st.start task tasks).connections = st.connections ∧
      (st.start task tasks).nextConn = st.nextConn ∧
      (st.start task tasks).pendingRearms = st.pendingRearms ∧
      (st.start task tasks).phase = st.phase := by
  rw [start]
  cases st.connections task.fd <;> exact ⟨rfl, rfl, rfl, rfl⟩

end State

namespace Recorded

variable {S : Service}

def initial (setup : Setup) : Recorded S := ⟨setup.initial, fun _ => [], fun _ => []⟩

def record (rec : Recorded S) (st : State) : Label S → Recorded S
  | .finish i env io =>
    match rec.st.running[i]?.bind fun w => rec.st.connections w.task.fd with
    | some e =>
      ⟨st, Function.update rec.history e.id (rec.history e.id ++ [(env, io)]),
        Function.update rec.log e.id (rec.log e.id ++ (S.handleEvent env io e.conn).2)⟩
    | none => { rec with st }
  | _ => { rec with st }

def step (setup : Setup) (rec : Recorded S) (l : Label S) : Option (Recorded S) :=
  (System.step S setup rec.st l).map fun st => rec.record st l

def Reachable (setup : Setup) : Recorded S → Prop :=
  Transitions.Reachable (step setup) (fun rec l => Heard setup rec.st l) (initial setup)

/-- Each connection's record is the sequential run of its history, and the run has not closed it unless
its close is posted. -/
structure Replays (rec : Recorded S) : Prop where
  numbered : ∀ fd i, rec.st.idAt fd = some i → i < rec.st.nextConn
  distinct : ∀ fd fd' i, rec.st.idAt fd = some i → rec.st.idAt fd' = some i → fd = fd'
  unborn : ∀ i, rec.st.nextConn ≤ i → rec.history i = []
  replayed : ∀ i, rec.log i = (S.run .fresh (rec.history i)).2
  current : ∀ fd e, rec.st.connections fd = some e → e.conn = (S.run .fresh (rec.history e.id)).1
  closing : ∀ fd i, rec.st.idAt fd = some i → .close ∈ rearms (rec.log i) →
    ∃ r ∈ rec.st.pendingRearms ++ rec.st.phase.rearms, r.task.fd = fd ∧ r.action = .close

lemma run_singleton (env : S.Env) (io : ClientCalls) (conn : Connection) :
    S.run conn [(env, io)] = S.handleEvent env io conn := by
  rw [Service.run]
  split_ifs
  · rfl
  · simp [Service.run]

lemma step_state {setup : Setup} {rec rec' : Recorded S} {l : Label S}
    (h : step setup rec l = some rec') : ∃ st, System.step S setup rec.st l = some st ∧
      rec' = rec.record st l := by
  obtain ⟨st, hs, rfl⟩ := Option.map_eq_some_iff.mp h
  exact ⟨st, hs, rfl⟩

namespace Replays

variable {setup : Setup} {rec : Recorded S} {st' : State}

lemma initial : Replays (initial setup : Recorded S) where
  numbered := by simp [Recorded.initial, Setup.initial, State.idAt]
  distinct := by simp [Recorded.initial, Setup.initial, State.idAt]
  unborn _ _ := rfl
  replayed _ := rfl
  current := by simp [Recorded.initial, Setup.initial]
  closing := by simp [Recorded.initial, Setup.initial, State.idAt]

lemma of_shrink (h : Replays rec) (hc : ∀ fd e, st'.connections fd = some e → rec.st.connections fd = some e)
    (hn : st'.nextConn = rec.st.nextConn)
    (hp : ∀ r ∈ rec.st.pendingRearms ++ rec.st.phase.rearms, r.action = .close →
      st'.connections r.task.fd ≠ none → r ∈ st'.pendingRearms ++ st'.phase.rearms) :
    Replays { rec with st := st' } := by
  have hi : ∀ fd i, st'.idAt fd = some i → rec.st.idAt fd = some i := by
    intro fd i hf
    obtain ⟨c, hf⟩ := State.idAt_eq_some_iff.mp hf
    exact State.idAt_eq_some_iff.mpr ⟨c, hc fd _ hf⟩
  refine ⟨?_, ?_, ?_, h.replayed, ?_, ?_⟩
  · intro fd i hf
    exact (h.numbered fd i (hi fd i hf)).trans_eq hn.symm
  · exact fun fd fd' i hf hf' => h.distinct fd fd' i (hi fd i hf) (hi fd' i hf')
  · exact fun i hle => h.unborn i (hn.symm.trans_le hle)
  · exact fun fd e he => h.current fd e (hc fd e he)
  · intro fd i hf hcl
    obtain ⟨r, hr, hrf, ha⟩ := h.closing fd i (hi fd i hf) hcl
    refine ⟨r, hp r hr ha ?_, hrf, ha⟩
    obtain ⟨c, hf⟩ := State.idAt_eq_some_iff.mp hf
    rw [hrf, hf]
    simp

lemma accept (h : Replays rec) (fd : Fd) : Replays { rec with st := rec.st.accept fd } := by
  have hnew : ∀ fd', (rec.st.accept fd).idAt fd' = if fd' = fd then some rec.st.nextConn else
      rec.st.idAt fd' := State.idAt_accept rec.st fd
  refine ⟨?_, ?_, ?_, h.replayed, ?_, ?_⟩
  · intro fd' i hf
    rw [hnew] at hf
    change i < rec.st.nextConn + 1
    split_ifs at hf with hfd
    · rw [← Option.some.inj hf]
      exact Nat.lt_succ_self _
    · exact Nat.lt_succ_of_lt (h.numbered fd' i hf)
  · intro fd₁ fd₂ i h₁ h₂
    rw [hnew] at h₁ h₂
    split_ifs at h₁ h₂ with e₁ e₂ e₂
    · exact e₁.trans e₂.symm
    · exact absurd (Option.some.inj h₁) (h.numbered fd₂ i h₂).ne'
    · exact absurd (Option.some.inj h₂) (h.numbered fd₁ i h₁).ne'
    · exact h.distinct fd₁ fd₂ i h₁ h₂
  · exact fun i hle => h.unborn i ((Nat.le_succ _).trans hle)
  · intro fd' e he
    simp only [State.accept, Function.update_apply] at he
    split_ifs at he with hf
    · obtain rfl := Option.some.inj he
      rw [h.unborn _ le_rfl]
      rfl
    · exact h.current fd' e he
  · intro fd' i hf hcl
    rw [hnew] at hf
    split_ifs at hf with hfd
    · obtain rfl := Option.some.inj hf
      rw [h.replayed, h.unborn _ le_rfl] at hcl
      simp [Service.run, rearms] at hcl
    · exact h.closing fd' i hf hcl

lemma finish (h : Replays rec) (hi : Inv setup rec.st) {i : ℕ} {w : Worker} {e : Entry} (env : S.Env)
    (io : ClientCalls) (hw : rec.st.running[i]? = some w) (hc : rec.st.connections w.task.fd = some e) :
    Replays ⟨rec.st.finish i w.task e (S.handleEvent env io e.conn),
      Function.update rec.history e.id (rec.history e.id ++ [(env, io)]),
      Function.update rec.log e.id (rec.log e.id ++ (S.handleEvent env io e.conn).2)⟩ := by
  have hid : rec.st.idAt w.task.fd = some e.id := by rw [State.idAt, hc]; rfl
  have hids : ∀ fd, (rec.st.finish i w.task e (S.handleEvent env io e.conn)).idAt fd = rec.st.idAt fd :=
    State.idAt_finish hc
  have hne : ∀ fd j, fd ≠ w.task.fd → rec.st.idAt fd = some j → j ≠ e.id := by
    rintro fd j hf hj rfl
    exact hf (h.distinct fd w.task.fd _ hj hid)
  -- a posted close would be a second token for the descriptor the worker holds
  have hopen : .close ∉ rearms (S.run .fresh (rec.history e.id)).2 := by
    intro hcl
    rw [← h.replayed] at hcl
    obtain ⟨r, hr, hf, -⟩ := h.closing _ _ hid hcl
    exact hi.alone (State.tokens_running hw) r.task (State.mem_tokens_posted hr) hf
  have hrun := Service.run_append (b := [(env, io)]) hopen
  rw [run_singleton, ← h.current _ e hc] at hrun
  refine ⟨?_, ?_, ?_, ?_, ?_, ?_⟩
  · intro fd j hf
    rw [hids] at hf
    exact h.numbered fd j hf
  · intro fd fd' j hf hf'
    rw [hids] at hf hf'
    exact h.distinct fd fd' j hf hf'
  · intro j hj
    have hlt : j ≠ e.id := ((h.numbered _ _ hid).trans_le hj).ne'
    dsimp only
    rw [Function.update_of_ne hlt]
    exact h.unborn j hj
  · intro j
    by_cases hj : j = e.id
    · subst hj
      dsimp only
      rw [Function.update_self, Function.update_self, hrun, h.replayed]
    · dsimp only
      rw [Function.update_of_ne hj, Function.update_of_ne hj]
      exact h.replayed j
  · intro fd e' he'
    simp only [State.finish, Function.update_apply] at he'
    split_ifs at he' with hf
    · obtain rfl := Option.some.inj he'
      dsimp only
      rw [Function.update_self, hrun]
    · have hj : e'.id ≠ e.id := hne fd e'.id hf (by rw [State.idAt, he']; rfl)
      dsimp only
      rw [Function.update_of_ne hj]
      exact h.current fd e' he'
  · intro fd j hj hcl
    rw [hids] at hj
    dsimp only at hcl
    by_cases hf : fd = w.task.fd
    · subst hf
      obtain rfl := Option.some.inj (hj.symm.trans hid)
      rw [Function.update_self, rearms_append, List.mem_append, h.replayed] at hcl
      refine ⟨⟨w.task, .close⟩, ?_, rfl, rfl⟩
      apply List.mem_append_left
      exact List.mem_append_right _ (List.mem_map.mpr ⟨.close, hcl.resolve_left hopen, rfl⟩)
    · rw [Function.update_of_ne (hne fd j hf hj)] at hcl
      obtain ⟨r, hr, hrf, ha⟩ := h.closing fd j hj hcl
      refine ⟨r, ?_, hrf, ha⟩
      rcases List.mem_append.mp hr with hr | hr
      · exact List.mem_append_left _ (List.mem_append_left _ hr)
      · exact List.mem_append_right _ hr

lemma served (h : Replays rec) {answers : HttpRequest → Bytes → Prop}
    (hS : ∀ env req, answers req (S.answer env req).data) (i : ConnId) : Served answers (rec.log i) := by
  rw [h.replayed]
  exact Service.run_served hS _ (Or.inr fresh_not_settled)

lemma conveyed (h : Replays rec) (hS : ∀ c, S.rearm c ≠ .waitWritable) (i : ConnId) :
    ∃ unsent, Conveyed (responses (rec.log i)) (output (rec.log i)) unsent
        (∀ e ∈ rec.history i, NoHardError e.2.sends) ∧
      (∀ fd c, rec.st.connections fd = some ⟨i, c⟩ → c.unsent = unsent) ∧
      (.close ∈ rearms (rec.log i) → unsent = []) := by
  rw [h.replayed]
  refine ⟨_, Service.run_conveyed _, fun fd c hc => ?_, fun hc => ?_⟩
  · exact congrArg Connection.unsent (h.current fd _ hc)
  · exact run_closes_flushed hS _ (Or.inr fresh_not_settled) hc

end Replays

lemma replays_step {setup : Setup} {rec rec' : Recorded S} {l : Label S} (hi : Inv setup rec.st)
    (h : Replays rec) (hs : step setup rec l = some rec') : Replays rec' := by
  obtain ⟨st', hm, rfl⟩ := step_state hs
  cases step_moves hm with
  | swapRearms hp =>
    refine h.of_shrink (fun _ _ he => he) rfl fun r hr _ _ => ?_
    simpa [hp, Phase.rearms] using hr
  | applyRearm r rearms hp =>
    obtain ⟨hc, hn, hq, hz⟩ := rec.st.applyRearm_keeps r
    refine h.of_shrink hc hn fun r' hr' ha hs => ?_
    rw [hp, Phase.rearms, List.mem_append, List.mem_cons] at hr'
    rw [List.mem_append]
    rcases hr' with hr' | rfl | hr'
    · exact Or.inl (hq ▸ hr')
    · exact absurd (hz ha) hs
    · exact Or.inr hr'
  | wait events hp hn hr =>
    refine h.of_shrink (fun _ _ he => he) rfl fun r hr _ _ => ?_
    simpa [hp, Phase.rearms] using hr
  | listen ev events hp hl =>
    refine h.of_shrink (fun _ _ he => he) rfl fun r hr _ _ => ?_
    simpa [hp, Phase.rearms] using hr
  | dispatch ev events hp hl =>
    obtain ⟨hc, hn, hq⟩ := rec.st.dispatch_keeps ev
    refine h.of_shrink hc hn fun r hr _ _ => ?_
    rw [hp] at hr
    exact hq ▸ hr
  | accept fd events hp hl hc => exact h.accept fd
  | acceptDone events hp =>
    refine h.of_shrink (fun _ _ he => he) rfl fun r hr _ _ => ?_
    simpa [hp, Phase.rearms] using hr
  | start task tasks ht hr =>
    obtain ⟨hc, hn, hq, hp⟩ := rec.st.start_keeps task tasks
    refine h.of_shrink (fun fd e he => hc ▸ he) hn fun r hr' _ _ => ?_
    rwa [hq, hp]
  | finish i env io w e hw he hf =>
    rw [record, hw, Option.bind_some, he]
    exact h.finish hi env io hw he

lemma reachable_replays {setup : Setup} {rec : Recorded S} (h : Reachable setup rec) :
    Inv setup rec.st ∧ Replays rec := by
  apply Transitions.Reachable.invariant ⟨Inv.initial, Replays.initial⟩ _ h
  intro s l t hs hq ht
  obtain ⟨st, hst, rfl⟩ := step_state ht
  refine ⟨?_, replays_step hs.1 hs.2 ht⟩
  have hi := inv_step hs.1 hq hst
  rw [record.eq_def]
  split
  · split <;> exact hi
  · exact hi

def Gone (rec : Recorded S) (i : ConnId) : Prop := i < rec.st.nextConn ∧ ∀ fd, rec.st.idAt fd ≠ some i

lemma gone_step {setup : Setup} {rec rec' : Recorded S} {l : Label S} {i : ConnId} (h : rec.Gone i)
    (hs : step setup rec l = some rec') :
    rec'.Gone i ∧ rec'.history i = rec.history i ∧ rec'.log i = rec.log i := by
  obtain ⟨st', hm, rfl⟩ := step_state hs
  have hshrink : (∀ fd e, st'.connections fd = some e → rec.st.connections fd = some e) →
      st'.nextConn = rec.st.nextConn → i < st'.nextConn ∧ ∀ fd, st'.idAt fd ≠ some i := by
    intro hc hn
    refine ⟨hn.symm ▸ h.1, fun fd hf => ?_⟩
    obtain ⟨c, hf⟩ := State.idAt_eq_some_iff.mp hf
    exact h.2 fd (State.idAt_eq_some_iff.mpr ⟨c, hc fd _ hf⟩)
  cases step_moves hm with
  | swapRearms | wait | listen | acceptDone => exact ⟨hshrink (fun _ _ he => he) rfl, rfl, rfl⟩
  | applyRearm r rearms hp =>
    obtain ⟨hc, hn, -⟩ := rec.st.applyRearm_keeps r
    exact ⟨hshrink hc hn, rfl, rfl⟩
  | dispatch ev events hp hl =>
    obtain ⟨hc, hn, -⟩ := rec.st.dispatch_keeps ev
    exact ⟨hshrink hc hn, rfl, rfl⟩
  | accept fd events hp hl hc =>
    refine ⟨⟨Nat.lt_succ_of_lt h.1, fun fd' hf => ?_⟩, rfl, rfl⟩
    have ha := (State.idAt_accept rec.st fd fd').symm.trans hf
    split_ifs at ha
    · exact h.1.ne' (Option.some.inj ha)
    · exact h.2 fd' ha
  | start task tasks ht hr =>
    obtain ⟨hc, hn, -⟩ := rec.st.start_keeps task tasks
    exact ⟨hshrink (fun fd e he => hc ▸ he) hn, rfl, rfl⟩
  | finish j env io w e hw he hf =>
    have hne : i ≠ e.id := by
      rintro rfl
      exact h.2 w.task.fd (by rw [State.idAt, he]; rfl)
    rw [record, hw, Option.bind_some, he]
    refine ⟨⟨h.1, fun fd hfd => ?_⟩, Function.update_of_ne hne _ _, Function.update_of_ne hne _ _⟩
    rw [State.idAt_finish he] at hfd
    exact h.2 fd hfd

lemma gone_of_close {setup : Setup} {rec rec' : Recorded S} {r : PendingRearm}
    {rearms : List PendingRearm} {i : ConnId} (h : Replays rec) (hp : rec.st.phase = .applying (r :: rearms))
    (ha : r.action = .close) (hi : rec.st.idAt r.task.fd = some i)
    (hs : step setup rec .applyRearm = some rec') : rec'.Gone i := by
  obtain ⟨st', hm, rfl⟩ := step_state hs
  rw [System.step, hp] at hm
  obtain rfl := Option.some.inj hm
  obtain ⟨hc, hn, -, hz⟩ := rec.st.applyRearm_keeps r
  refine ⟨(h.numbered _ _ hi).trans_eq hn.symm, fun fd hf => ?_⟩
  obtain ⟨c, hf⟩ := State.idAt_eq_some_iff.mp hf
  have hfd := h.distinct fd r.task.fd i (State.idAt_eq_some_iff.mpr ⟨c, hc fd _ hf⟩) hi
  subst hfd
  exact absurd (hf.symm.trans (hz ha)) (by simp)

/-- In every order of steps, what the handlers have done on a connection is the sequential run of that
connection's own events, an open connection is in the state that run leaves, and once a connection is
gone nothing more is done on it. -/
theorem handled_sequentially (setup : Setup) {rec : Recorded S} (h : Reachable setup rec) :
    (∀ i, rec.log i = (S.run .fresh (rec.history i)).2) ∧
    (∀ fd e, rec.st.connections fd = some e → e.conn = (S.run .fresh (rec.history e.id)).1) ∧
    (∀ i rec', rec.Gone i → Transitions.Reachable (step setup) (fun r l => Heard setup r.st l) rec rec' →
      rec'.Gone i ∧ rec'.history i = rec.history i ∧ rec'.log i = rec.log i) := by
  obtain ⟨-, hr⟩ := reachable_replays h
  refine ⟨hr.replayed, hr.current, fun i rec' hg hrun => ?_⟩
  apply Transitions.Reachable.invariant ⟨hg, rfl, rfl⟩ _ hrun
  rintro s l t ⟨hs, hh, hl⟩ - ht
  obtain ⟨hs', hh', hl'⟩ := gone_step hs ht
  exact ⟨hs', hh'.trans hh, hl'.trans hl⟩

theorem handled_sequentially_closed :
    ∃ rec rec' : Recorded (httpServer (routes 8080)), Reachable ⟨.kqueue, 3, 4⟩ rec ∧ rec.Gone 0 ∧
      (rec.log 0).length = 4 ∧ rec.log 0 = ((httpServer (routes 8080)).run .fresh (rec.history 0)).2 ∧
      step ⟨.kqueue, 3, 4⟩ rec (.wait []) = some rec' ∧ rec'.log 0 = rec.log 0 := by
  have hrun : ∃ rec : Recorded (httpServer (routes 8080)), Reachable ⟨.kqueue, 3, 4⟩ rec ∧
      rec.st.idAt 7 = some 0 ∧ rec.st.phase = .applying [⟨⟨7, 0⟩, .close⟩] ∧ (rec.log 0).length = 4 :=
    Transitions.exists_reachable [.swapRearms, .wait [⟨3, 1, false⟩], .dispatch, .accept 7, .acceptDone,
      .swapRearms, .wait [⟨7, 1, false⟩], .dispatch, .start,
      .finish 0 () ⟨.received (lit "GET\r\n"), [.sent 500]⟩, .swapRearms] (by decide +kernel)
  obtain ⟨rec, hr, hi, hp, hl⟩ := hrun
  have hs : step ⟨.kqueue, 3, 4⟩ rec .applyRearm = some { rec with
      st := { rec.st.applyRearm ⟨⟨7, 0⟩, .close⟩ with phase := .applying [] } } := by
    rw [step, System.step, hp]
    rfl
  have hg := gone_of_close (reachable_replays hr).2 hp rfl hi hs
  have hr' := Transitions.Reachable.step _ hr (Or.inl rfl) hs
  obtain ⟨hlog, -, hkept⟩ := handled_sequentially ⟨.kqueue, 3, 4⟩ hr'
  have hw : step ⟨.kqueue, 3, 4⟩ { rec with
      st := { rec.st.applyRearm ⟨⟨7, 0⟩, .close⟩ with phase := .applying [] } } (.wait []) = some { rec with
      st := { rec.st.applyRearm ⟨⟨7, 0⟩, .close⟩ with phase := .dispatching [] } } := by
    simp [step, System.step, record]
  exact ⟨_, _, hr', hg, hl, hlog 0, hw, (hkept 0 _ hg (.step _ .init (Or.inl rfl) hw)).2.2⟩

/-- On every connection each complete request gets its one response and each malformed one its 400, in
order and whatever the other threads do; the bytes sent and those left in the buffer are front pieces of
the responses, and the whole of them unless a send failed hard. -/
theorem served_in_every_order (setup : Setup) :
    (∀ router (rec : Recorded (httpServer router)), Reachable setup rec → ∀ i,
      Served (fun req data => data = (router.response req).serialize) (rec.log i) ∧
      ∃ unsent, Conveyed (responses (rec.log i)) (output (rec.log i)) unsent
          (∀ e ∈ rec.history i, NoHardError e.2.sends) ∧
        (∀ fd c, rec.st.connections fd = some ⟨i, c⟩ → c.unsent = unsent) ∧
        (.close ∈ rearms (rec.log i) → unsent = [])) ∧
    (∀ rec : Recorded loadBalancer, Reachable setup rec → ∀ i,
      Served (fun req data => ∃ upstream, data = (proxyRequest upstream req).1.data) (rec.log i) ∧
      ∃ unsent, Conveyed (responses (rec.log i)) (output (rec.log i)) unsent
          (∀ e ∈ rec.history i, NoHardError e.2.sends) ∧
        (∀ fd c, rec.st.connections fd = some ⟨i, c⟩ → c.unsent = unsent) ∧
        (.close ∈ rearms (rec.log i) → unsent = [])) := by
  refine ⟨fun router rec h i => ?_, fun rec h i => ?_⟩
  · obtain ⟨-, hr⟩ := reachable_replays h
    exact ⟨hr.served (fun _ _ => rfl) i, hr.conveyed (httpServer_rearm_ne router) i⟩
  · obtain ⟨-, hr⟩ := reachable_replays h
    exact ⟨hr.served (fun upstream _ => ⟨upstream, rfl⟩) i, hr.conveyed loadBalancer_rearm_ne i⟩

theorem served_in_every_order_interleaved :
    ∃ rec : Recorded (httpServer (routes 8080)), Reachable ⟨.kqueue, 3, 4⟩ rec ∧
      (responses (rec.log 0)).length = 1 ∧ (responses (rec.log 1)).length = 1 ∧
      (∃ c, rec.st.connections 7 = some ⟨0, c⟩ ∧ c.unsent ≠ [] ∧
        output (rec.log 0) ++ c.unsent = (responses (rec.log 0)).flatten) ∧
      rec.st.connections 8 = none ∧ output (rec.log 1) = (responses (rec.log 1)).flatten := by
  have hrun : ∃ rec : Recorded (httpServer (routes 8080)), Reachable ⟨.kqueue, 3, 4⟩ rec ∧
      (responses (rec.log 0)).length = 1 ∧ (responses (rec.log 1)).length = 1 ∧
      (∃ e ∈ rec.st.connections 7, e.id = 0 ∧ e.conn.unsent ≠ []) ∧ rec.st.idAt 8 = none ∧
      (∀ e ∈ rec.history 0, NoHardError e.2.sends) ∧ (∀ e ∈ rec.history 1, NoHardError e.2.sends) ∧
      .close ∈ rearms (rec.log 1) :=
    Transitions.exists_reachable [.swapRearms, .wait [⟨3, 1, false⟩], .dispatch, .accept 7, .accept 8,
      .acceptDone, .swapRearms, .wait [⟨8, 1, false⟩, ⟨7, 1, false⟩], .dispatch, .dispatch, .start, .start,
      .finish 1 () ⟨.received (lit "GET /health HTTP/1.1\r\n\r\n"), [.sent 20, .again]⟩,
      .finish 0 () ⟨.received (lit "GET\r\n"), [.sent 9, .sent 900]⟩, .swapRearms, .applyRearm, .applyRearm]
      (by decide +kernel)
  obtain ⟨rec, hr, h0, h1, ⟨⟨_, c⟩, hc, rfl, hu⟩, hn, hs0, hs1, hcl⟩ := hrun
  have hserved := (served_in_every_order ⟨.kqueue, 3, 4⟩).1 _ rec hr
  obtain ⟨-, _, ⟨_, -, ho, hp⟩, hopen, -⟩ := hserved 0
  obtain ⟨-, _, ⟨_, -, ho', hp'⟩, -, hclosed⟩ := hserved 1
  refine ⟨rec, hr, h0, h1, ⟨c, hc, hu, ?_⟩, by simpa [State.idAt] using hn, ?_⟩
  · rw [hopen 7 c hc, ho, hp hs0]
  · rw [← hp' hs1, ← ho', hclosed hcl, List.append_nil]

end Recorded

end HttpBalancer.System
