import HttpBalancer.Net.ConnectionRuns
import HttpBalancer.System.HangUps

/-! The reactor watches a connection for what it needs: writability while response bytes are unsent,
readability while its parser can take more. -/

namespace HttpBalancer.System

open Net Server Balancer Lib

def interestOf : RearmAction → UInt8
  | .waitReadable => EventType.readable
  | .waitWritable => EventType.writable
  | .close => 0

def Needs (c : Connection) : RearmAction → Prop
  | .waitReadable => c.unsent = [] ∧ ¬ c.parser.Settled
  | .waitWritable => c.unsent ≠ []
  | .close => c.unsent = []

lemma Needs.ready {c : Connection} {a : RearmAction} (h : Needs c a) (ha : a ≠ .close) : c.Ready := by
  cases a with
  | waitReadable => exact Or.inr h.2
  | waitWritable => exact Or.inl h
  | close => exact absurd rfl ha

lemma needs_fresh : Needs .fresh .waitReadable := ⟨rfl, fresh_not_settled⟩

lemma needs_next (c : Connection) (sends : List SendResult) {a : RearmAction} (ha : a ≠ .waitWritable) :
    Needs (c.flushWrite sends).next (if (c.flushWrite sends).flushed then a else .waitWritable) := by
  have hu := c.flush_pending sends
  rw [← Connection.Flush.unsent_next] at hu
  split_ifs with hf
  · cases a with
    | waitReadable =>
      refine ⟨hu.mp hf, ?_⟩
      rw [Connection.Flush.next, if_pos hf]
      exact fresh_not_settled
    | waitWritable => exact absurd rfl ha
    | close => exact hu.mp hf
  · exact fun hn => hf (hu.mpr hn)

lemma keepAliveAction_ne (b : Bool) : keepAliveAction b ≠ .waitWritable := by
  cases b <;> decide

lemma handleEvent_needs {S : Service} (hS : ∀ c, S.rearm c ≠ .waitWritable) (env : S.Env)
    (io : ClientCalls) {conn : Connection} (h : conn.Ready) :
    ∃ a, rearms (S.handleEvent env io conn).2 = [a] ∧ Needs (S.handleEvent env io conn).1 a := by
  by_cases hu : conn.unsent = []
  · have hs : ¬ conn.parser.Settled := h.resolve_left (not_not.mpr hu)
    cases hr : io.recv with
    | again =>
      rw [Service.handleEvent_again hu hr]
      exact ⟨.waitReadable, rfl, hu, hs⟩
    | failed =>
      rw [Service.handleEvent, conn.hasPendingWrite_eq_false.mpr hu, hr]
      exact ⟨.close, rfl, hu⟩
    | received data =>
      by_cases hd : data = []
      · rw [Service.handleEvent, conn.hasPendingWrite_eq_false.mpr hu, hr, hd]
        exact ⟨.close, rfl, hu⟩
      · rw [Service.handleEvent_read hu hr hd, Service.handleData]
        dsimp only
        cases hc : (conn.parser.consume data).2 with
        | needMoreData =>
          rw [Parser.consume_standing (fun he => hs (Or.inr he))] at hc
          exact ⟨.waitReadable, rfl, hu, Parser.standing_eq_needMoreData.mp hc⟩
        | error =>
          refine ⟨_, rfl, ?_⟩
          dsimp only [Service.handleError]
          split_ifs with hf
          · exact (Connection.flush_pending _ _).mp hf
          · exact fun hn => hf ((Connection.flush_pending _ _).mpr hn)
        | complete =>
          dsimp only
          rw [Service.handleComplete_eq env io rfl]
          exact ⟨_, rfl, needs_next _ _ (hS _)⟩
  · rw [Service.handleEvent_pending hu, Service.handlePending_eq]
    exact ⟨_, rfl, needs_next _ _ (keepAliveAction_ne _)⟩

lemma run_closes_flushed {S : Service} (hS : ∀ c, S.rearm c ≠ .waitWritable)
    (events : List (S.Env × ClientCalls)) {conn : Connection} (h : conn.Ready)
    (hc : .close ∈ rearms (S.run conn events).2) :
    (S.run conn events).1.unsent = [] := by
  induction events generalizing conn with
  | nil => simp [Service.run, rearms] at hc
  | cons e events ih =>
    obtain ⟨a, hr, hn⟩ := handleEvent_needs hS e.1 e.2 h
    rw [Service.run] at hc ⊢
    split_ifs at hc ⊢ with he
    · rw [hr, List.mem_singleton] at he
      exact (he ▸ hn : Needs _ .close)
    · rw [rearms_append, List.mem_append] at hc
      have hs := @Service.handleEvent_served S (fun _ _ => True) conn (fun _ _ => trivial) e.1 e.2 h
      exact ih (hs.2 he) (hc.resolve_left he)

/-- A watched connection is watched for what it needs, a posted re-arm asks for what its connection
needs, and a worker gets a connection it can do something for. -/
structure Matched (st : State) : Prop where
  watched : ∀ fd e, st.connections fd = some e → st.mask fd ≠ 0 →
    ∃ a, a ≠ .close ∧ st.mask fd = interestOf a ∧ Needs e.conn a
  posted : ∀ r ∈ st.pendingRearms ++ st.phase.rearms, ∀ e, st.connections r.task.fd = some e →
    Needs e.conn r.action
  held : ∀ t ∈ st.tasks ++ st.running.map Worker.task, ∀ e, st.connections t.fd = some e → e.conn.Ready

lemma Inv.alone {setup : Setup} {st : State} (h : Inv setup st) {t : Task} {rest : List Task}
    (hp : st.tokens.Perm (t :: rest)) : ∀ u ∈ rest, u.fd ≠ t.fd := by
  intro u hu hf
  obtain ⟨hi, hm⟩ := h.live (hp.mem_iff.mpr List.mem_cons_self)
  have hh := (hp.filter fun v : Task => v.fd = t.fd).symm.trans (h.owned t.fd)
  rw [State.due_disarmed hi hm, List.filter_cons_of_pos (by simp), List.perm_singleton] at hh
  have hn : rest.filter (fun v : Task => v.fd = t.fd) = [] := (List.cons.inj hh).2
  exact List.filter_eq_nil_iff.mp hn u hu (by simpa using hf)

namespace Matched

variable {setup : Setup} {st : State}

lemma initial : Matched setup.initial where
  watched := by simp [Setup.initial]
  posted := by simp [Setup.initial, Phase.rearms]
  held := by simp [Setup.initial]

lemma of_phase (h : Matched st) {p : Phase} (hr : p.rearms = st.phase.rearms) :
    Matched { st with phase := p } where
  watched := h.watched
  posted := by
    change ∀ r ∈ st.pendingRearms ++ p.rearms, _
    rw [hr]
    exact h.posted
  held := h.held

lemma swapRearms (h : Matched st) :
    Matched { st with phase := .applying st.pendingRearms, pendingRearms := [] } where
  watched := h.watched
  posted r hr := h.posted r (List.mem_append_left _ (by simpa [Phase.rearms] using hr))
  held := h.held

lemma of_local (h : Matched st) {st' : State} (fd : Fd)
    (hc : ∀ fd', fd' ≠ fd → st'.connections fd' = st.connections fd')
    (hm : ∀ fd', fd' ≠ fd → st'.mask fd' = st.mask fd')
    (hw : ∀ e, st'.connections fd = some e → st'.mask fd ≠ 0 →
      ∃ a, a ≠ .close ∧ st'.mask fd = interestOf a ∧ Needs e.conn a)
    (hp : ∀ r ∈ st'.pendingRearms ++ st'.phase.rearms,
      (r ∈ st.pendingRearms ++ st.phase.rearms ∧ r.task.fd ≠ fd) ∨
        ∀ e, st'.connections r.task.fd = some e → Needs e.conn r.action)
    (ht : ∀ t ∈ st'.tasks ++ st'.running.map Worker.task,
      (t ∈ st.tasks ++ st.running.map Worker.task ∧ t.fd ≠ fd) ∨
        ∀ e, st'.connections t.fd = some e → e.conn.Ready) : Matched st' where
  watched fd' e he hk := by
    by_cases hf : fd' = fd
    · subst hf
      exact hw e he hk
    · rw [hm fd' hf] at hk ⊢
      exact h.watched fd' e (hc fd' hf ▸ he) hk
  posted r hr e he := by
    rcases hp r hr with ⟨hr, hf⟩ | hn
    · exact h.posted r hr e (hc _ hf ▸ he)
    · exact hn e he
  held t hr e he := by
    rcases ht t hr with ⟨hr, hf⟩ | hn
    · exact h.held t hr e (hc _ hf ▸ he)
    · exact hn e he

lemma erase (h : Matched st) (fd : Fd) {p : Phase} (hr : p.rearms ⊆ st.phase.rearms) :
    Matched { st.erase fd with phase := p } := by
  have hn : (st.erase fd).connections fd = none := Function.update_self ..
  refine h.of_local fd ?_ ?_ ?_ ?_ ?_
  · exact fun fd' hf => Function.update_of_ne hf _ _
  · exact fun fd' hf => (State.mask_erase st fd fd').trans (if_neg hf)
  · exact fun e he => absurd (hn.symm.trans he) (by simp)
  · intro r hr'
    by_cases hf : r.task.fd = fd
    · exact Or.inr fun e he => absurd (hn.symm.trans (hf ▸ he)) (by simp)
    · exact Or.inl ⟨List.mem_append.mpr ((List.mem_append.mp hr').imp_right fun hm => hr hm), hf⟩
  · intro t ht
    by_cases hf : t.fd = fd
    · exact Or.inr fun e he => absurd (hn.symm.trans (hf ▸ he)) (by simp)
    · exact Or.inl ⟨ht, hf⟩

lemma applyRearm (h : Matched st) (hi : Inv setup st) {r : PendingRearm} {rearms : List PendingRearm}
    (hs : st.phase = .applying (r :: rearms)) :
    Matched { st.applyRearm r with phase := .applying rearms } := by
  have hp := State.tokens_applying hs
  have hr : r ∈ st.pendingRearms ++ st.phase.rearms := by simp [hs, Phase.rearms]
  have hsub : ∀ r' ∈ st.pendingRearms ++ rearms, r' ∈ st.pendingRearms ++ st.phase.rearms := by
    intro r' hr'
    rw [hs]
    exact List.mem_append.mpr ((List.mem_append.mp hr').imp_right fun hm => List.mem_cons_of_mem _ hm)
  -- no other token is for this descriptor, so only the entry's own interest changes
  have hmod : ∀ e, st.connections r.task.fd = some e → r.action ≠ .close →
      Matched { st.modify r.task.fd (interestOf r.action) with phase := .applying rearms } := by
    intro e he ha
    have hk := State.mask_modify st r.task.fd
    refine h.of_local r.task.fd (fun _ _ => rfl) ?_ ?_ ?_ ?_
    · exact fun fd' hf => (hk fd' _).trans (if_neg hf)
    · intro e' he' _
      exact ⟨r.action, ha, (hk _ _).trans (if_pos rfl), h.posted r hr e' he'⟩
    · intro r' hr'
      exact Or.inl ⟨hsub r' hr', hi.alone hp _ (State.mem_tokens_posted hr')⟩
    · intro t ht
      exact Or.inl ⟨ht, hi.alone hp _ (State.mem_tokens_held ht)⟩
  rw [State.applyRearm]
  cases hc : st.connections r.task.fd with
  | none =>
    refine h.of_local r.task.fd (fun _ _ => rfl) (fun _ _ => rfl) ?_ ?_ ?_
    · exact fun e he => absurd (hc.symm.trans he) (by simp)
    · exact fun r' hr' => Or.inl ⟨hsub r' hr', hi.alone hp _ (State.mem_tokens_posted hr')⟩
    · exact fun t ht => Or.inl ⟨ht, hi.alone hp _ (State.mem_tokens_held ht)⟩
  | some e =>
    cases ha : r.action with
    | waitReadable =>
      have hh := hmod e hc (by simp [ha])
      rwa [ha] at hh
    | waitWritable =>
      have hh := hmod e hc (by simp [ha])
      rwa [ha] at hh
    | close =>
      apply h.erase
      rw [hs]
      exact List.subset_cons_self _ _

lemma dispatch (h : Matched st) (hi : Inv setup st) {ev : IoEvent} {events : List IoEvent}
    (hs : st.phase = .dispatching (ev :: events)) (hl : ev.fd ≠ setup.listenFd) :
    Matched { st.dispatch ev with phase := .dispatching events } := by
  rw [State.dispatch]
  cases hc : st.connections ev.fd with
  | none =>
    apply h.of_phase
    rw [hs]
    rfl
  | some e =>
    dsimp only
    split_ifs with he
    · exact h.erase ev.fd (List.nil_subset _)
    · have hm : st.mask ev.fd ≠ 0 := by
        apply hi.watched ev _ hl
        · rw [State.idAt, hc]
          simp
        · simp [hs, Phase.events]
      obtain ⟨a, ha, -, hn⟩ := h.watched ev.fd e hc hm
      have hz := (State.mask_modify st ev.fd ev.fd 0).trans (if_pos rfl)
      refine h.of_local ev.fd (fun _ _ => rfl) ?_ ?_ ?_ ?_
      · exact fun fd' hf => (State.mask_modify st ev.fd fd' 0).trans (if_neg hf)
      · exact fun e' _ hk => absurd hz hk
      · intro r hr
        have hr' : r ∈ st.pendingRearms ++ st.phase.rearms := by
          rw [hs]
          exact hr
        refine Or.inr fun e' he' => h.posted r hr' e' he'
      · intro t ht
        refine Or.inr fun e' he' => ?_
        rw [List.append_assoc, List.mem_append, List.mem_append, List.mem_singleton] at ht
        rcases ht with ht | rfl | ht
        · exact h.held t (List.mem_append_left _ ht) e' he'
        · obtain rfl : e' = e := Option.some.inj (he'.symm.trans hc)
          exact hn.ready ha
        · exact h.held t (List.mem_append_right _ ht) e' he'

lemma accept (h : Matched st) (hi : Inv setup st) {fd : Fd} (hc : st.connections fd = none) :
    Matched (st.accept fd) := by
  have hfree : ∀ t ∈ st.tokens, t.fd ≠ fd := by
    rintro t ht rfl
    have hl := (hi.live ht).1
    rw [State.idAt, hc] at hl
    exact Option.some_ne_none _ hl.symm
  refine h.of_local fd ?_ ?_ ?_ ?_ ?_
  · exact fun fd' hf => Function.update_of_ne hf _ _
  · exact fun fd' hf => (State.mask_accept st fd fd').trans (if_neg hf)
  · intro e he _
    obtain rfl := Option.some.inj (he.symm.trans (Function.update_self ..))
    exact ⟨.waitReadable, by decide, (State.mask_accept st fd fd).trans (if_pos rfl), needs_fresh⟩
  · exact fun r hr => Or.inl ⟨hr, hfree _ (State.mem_tokens_posted hr)⟩
  · exact fun t ht => Or.inl ⟨ht, hfree _ (State.mem_tokens_held ht)⟩

lemma start (h : Matched st) {task : Task} {tasks : List Task} (hs : st.tasks = task :: tasks) :
    Matched (st.start task tasks) := by
  have hsub : ∀ t ∈ tasks ++ st.running.map Worker.task, t ∈ st.tasks ++ st.running.map Worker.task := by
    intro t ht
    rw [hs]
    exact List.mem_cons_of_mem _ ht
  rw [State.start]
  cases hc : st.connections task.fd with
  | none => exact ⟨h.watched, h.posted, fun t ht => h.held t (hsub t ht)⟩
  | some e =>
    refine ⟨h.watched, h.posted, fun t ht => ?_⟩
    rw [List.map_append, ← List.append_assoc, List.mem_append] at ht
    rcases ht with ht | ht
    · exact h.held t (hsub t ht)
    · rw [List.mem_singleton.mp ht]
      exact h.held task (by simp [hs])

lemma finish (h : Matched st) (hi : Inv setup st) {S : Service} (hS : ∀ c, S.rearm c ≠ .waitWritable)
    {i : ℕ} {w : Worker} {e : Entry} (env : S.Env) (io : ClientCalls) (hw : st.running[i]? = some w)
    (hc : st.connections w.task.fd = some e) :
    Matched (st.finish i w.task e (S.handleEvent env io e.conn)) := by
  have hp := State.tokens_running hw
  have hwm : w.task ∈ st.tasks ++ st.running.map Worker.task :=
    List.mem_append_right _ (List.mem_map_of_mem (List.mem_of_getElem? hw))
  obtain ⟨a, hr, hn⟩ := handleEvent_needs hS env io (h.held w.task hwm e hc)
  have hself : (st.finish i w.task e (S.handleEvent env io e.conn)).connections w.task.fd =
      some ⟨e.id, (S.handleEvent env io e.conn).1⟩ := Function.update_self ..
  refine h.of_local w.task.fd ?_ (fun _ _ => rfl) ?_ ?_ ?_
  · exact fun fd' hf => Function.update_of_ne hf _ _
  · intro e' _ hk
    exact absurd (hi.live (State.mem_tokens_held hwm)).2 hk
  · intro r hr'
    simp only [State.finish, hr, List.map_cons, List.map_nil, List.append_assoc, List.mem_append,
      List.mem_singleton] at hr'
    rcases hr' with hm | rfl | hm
    · exact Or.inl ⟨List.mem_append_left _ hm,
        hi.alone hp _ (State.mem_tokens_posted (List.mem_append_left _ hm))⟩
    · refine Or.inr fun e' he' => ?_
      obtain rfl := Option.some.inj (he'.symm.trans hself)
      exact hn
    · exact Or.inl ⟨List.mem_append_right _ hm,
        hi.alone hp _ (State.mem_tokens_posted (List.mem_append_right _ hm))⟩
  · intro t ht
    refine Or.inl ⟨?_, hi.alone hp _ (State.mem_tokens_held ht)⟩
    rcases List.mem_append.mp ht with hm | hm
    · exact List.mem_append_left _ hm
    · exact List.mem_append_right _ (List.map_subset _ (List.eraseIdx_subset) hm)

end Matched

/-- Under kqueue a hangup is only reported on a watched descriptor; under epoll this is asked. -/
def Heard {S : Service} (setup : Setup) (st : State) (l : Label S) : Prop :=
  setup.backend = .kqueue ∨ Quiet st l

instance {S : Service} (setup : Setup) (st : State) : DecidablePred (Heard (S := S) setup st) := fun l =>
  inferInstanceAs (Decidable (setup.backend = .kqueue ∨ Quiet st l))

lemma heard_inv {S : Service} {setup : Setup} {st : State} (h : Reachable S setup (Heard setup) st) :
    Inv setup st :=
  Transitions.Reachable.invariant Inv.initial (fun _ _ _ hi hq hs => inv_step hi hq hs) h

lemma matched_step {S : Service} (hS : ∀ c, S.rearm c ≠ .waitWritable) {setup : Setup} {st st' : State}
    {l : Label S} (hi : Inv setup st) (h : Matched st) (hs : step S setup st l = some st') :
    Matched st' := by
  cases step_moves hs with
  | swapRearms hp => exact h.swapRearms
  | applyRearm r rearms hp => exact h.applyRearm hi hp
  | wait events hp hn hr =>
    apply h.of_phase
    rw [hp]
    rfl
  | listen ev events hp hl =>
    apply h.of_phase
    rw [hp]
    rfl
  | dispatch ev events hp hl => exact h.dispatch hi hp hl
  | accept fd events hp hl hc => exact h.accept hi hc
  | acceptDone events hp =>
    apply h.of_phase
    rw [hp]
    rfl
  | start task tasks ht hr => exact h.start ht
  | finish i env io w e hw he hf => exact h.finish hi hS env io hw he

lemma heard_matched {S : Service} (hS : ∀ c, S.rearm c ≠ .waitWritable) {setup : Setup} {st : State}
    (h : Reachable S setup (Heard setup) st) : Inv setup st ∧ Matched st := by
  apply Transitions.Reachable.invariant ⟨Inv.initial, Matched.initial⟩ _ h
  intro s l t hi hq hs
  exact ⟨inv_step hi.1 hq hs, matched_step hS hi.1 hi.2 hs⟩

/-- Where an open connection can be: watched for what it needs and free, in the hands of one task or
worker that can do something for it, or waiting for the re-arm it needs. -/
inductive Situation (st : State) (fd : Fd) (c : Connection) : Prop
  | reading : st.mask fd = EventType.readable → st.owners fd = 0 → c.unsent = [] → ¬ c.parser.Settled →
      Situation st fd c
  | writing : st.mask fd = EventType.writable → st.owners fd = 0 → c.unsent ≠ [] → Situation st fd c
  | held (t : Task) : st.mask fd = 0 → st.owners fd = 1 → t ∈ st.tasks ++ st.running.map Worker.task →
      t.fd = fd → c.Ready → Situation st fd c
  | posted (r : PendingRearm) : st.mask fd = 0 → st.owners fd = 1 →
      r ∈ st.pendingRearms ++ st.phase.rearms → r.task.fd = fd → Needs c r.action → Situation st fd c

lemma Matched.situation {setup : Setup} {st : State} (h : Matched st) (hi : Inv setup st) {fd : Fd}
    {e : Entry} (he : st.connections fd = some e) : Situation st fd e.conn := by
  rcases hi.exclusive fd (by simp [he]) with ⟨hm, ho⟩ | ⟨hm, ho⟩
  · obtain ⟨a, ha, hk, hn⟩ := h.watched fd e he hm
    cases a with
    | waitReadable => exact .reading hk ho hn.1 hn.2
    | waitWritable => exact .writing hk ho hn
    | close => exact absurd rfl ha
  · obtain ⟨t, ht, hf⟩ := List.countP_pos_iff.mp (by rw [← State.owners, ho]; exact one_pos)
    obtain rfl : t.fd = fd := by simpa using hf
    rcases List.mem_append.mp ht with ht | ht
    · exact .held t hm ho ht rfl (h.held t ht e he)
    · obtain ⟨r, hr, rfl⟩ := List.mem_map.mp ht
      exact .posted r hm ho hr rfl (h.posted r hr e he)

lemma httpServer_rearm_ne (router : Router) (c : Connection) :
    (httpServer router).rearm c ≠ .waitWritable :=
  keepAliveAction_ne _

lemma loadBalancer_rearm_ne (c : Connection) : loadBalancer.rearm c ≠ .waitWritable :=
  keepAliveAction_ne _

theorem watched_as_needed (setup : Setup) :
    (∀ router st fd e, Reachable (httpServer router) setup (Heard setup) st →
      st.connections fd = some e → Situation st fd e.conn) ∧
    (∀ st fd e, Reachable loadBalancer setup (Heard setup) st →
      st.connections fd = some e → Situation st fd e.conn) := by
  refine ⟨fun router st fd e h he => ?_, fun st fd e h he => ?_⟩
  · obtain ⟨hi, hm⟩ := heard_matched (httpServer_rearm_ne router) h
    exact hm.situation hi he
  · obtain ⟨hi, hm⟩ := heard_matched loadBalancer_rearm_ne h
    exact hm.situation hi he

theorem watched_as_needed_writing :
    ∃ st e, Reachable (httpServer (routes 8080)) ⟨.epoll, 3, 4⟩ (Heard ⟨.epoll, 3, 4⟩) st ∧
      st.connections 7 = some e ∧ st.mask 7 = EventType.writable ∧ Situation st 7 e.conn := by
  obtain ⟨st, hr, hc, hm⟩ : ∃ st,
      Reachable (httpServer (routes 8080)) ⟨.epoll, 3, 4⟩ (Heard ⟨.epoll, 3, 4⟩) st ∧
        (st.connections 7).isSome ∧ st.mask 7 = EventType.writable :=
    Transitions.exists_reachable [.swapRearms, .wait [⟨3, 1, false⟩], .dispatch, .accept 7, .acceptDone,
      .swapRearms, .wait [⟨7, 1, false⟩], .dispatch, .start,
      .finish 0 () ⟨.received (lit "GET / HTTP/1.1\r\n\r\n"), [.sent 5, .again]⟩, .swapRearms,
      .applyRearm] (by decide +kernel)
  obtain ⟨e, he⟩ := Option.isSome_iff_exists.mp hc
  exact ⟨st, e, hr, he, hm, (watched_as_needed ⟨.epoll, 3, 4⟩).1 _ st 7 e hr he⟩

end HttpBalancer.System
