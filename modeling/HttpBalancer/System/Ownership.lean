import HttpBalancer.Balancer.LoadBalancer
import HttpBalancer.Server.HttpServer
import HttpBalancer.System.Reactor

/-! A connection is watched by the reactor or owned by one task, worker or re-arm, as long as the
reactor only hears of descriptors it watches. -/

namespace HttpBalancer.System

open Net Server Balancer Lib

namespace State

def due (st : State) (fd : Fd) : List Task :=
  match st.idAt fd with
  | some i => if st.mask fd = 0 then [⟨fd, i⟩] else []
  | none => []

def tokensAt (st : State) (fd : Fd) : List Task := st.tokens.filter fun t => t.fd = fd

lemma tokensAt_congr {st st' : State} (h : st'.tokens.Perm st.tokens) (fd : Fd) :
    (st'.tokensAt fd).Perm (st.tokensAt fd) :=
  h.filter _

lemma tokensAt_of_ne {st st' : State} {t : Task} (h : st.tokens.Perm (t :: st'.tokens)) {fd : Fd}
    (hf : fd ≠ t.fd) : (st.tokensAt fd).Perm (st'.tokensAt fd) := by
  have hh := h.filter fun u => u.fd = fd
  rwa [List.filter_cons_of_neg (by simpa using hf.symm)] at hh

lemma tokensAt_self {st st' : State} {t : Task} (h : st.tokens.Perm (t :: st'.tokens)) :
    (st.tokensAt t.fd).Perm (t :: st'.tokensAt t.fd) := by
  have hh := h.filter fun u => u.fd = t.fd
  rwa [List.filter_cons_of_pos (by simp)] at hh

lemma tokens_phase {st : State} {p : Phase} (h : p.rearms = st.phase.rearms) :
    tokens { st with phase := p } = st.tokens := by
  simp only [tokens, h]

lemma due_congr {st st' : State} {fd : Fd} (hi : st'.idAt fd = st.idAt fd)
    (hm : st'.mask fd = st.mask fd) : st'.due fd = st.due fd := by
  simp only [due, hi, hm]

lemma due_armed {st : State} {fd : Fd} (h : st.mask fd ≠ 0) : st.due fd = [] := by
  simp only [due, h, if_false]
  split <;> rfl

lemma due_closed {st : State} {fd : Fd} (h : st.idAt fd = none) : st.due fd = [] := by
  simp only [due, h]

lemma due_disarmed {st : State} {fd : Fd} {i : ConnId} (hi : st.idAt fd = some i)
    (hm : st.mask fd = 0) : st.due fd = [⟨fd, i⟩] := by
  simp only [due, hi, hm, if_true]

lemma mem_due {st : State} {fd : Fd} {t : Task} (h : t ∈ st.due fd) :
    t.fd = fd ∧ st.idAt fd = some t.conn ∧ st.mask fd = 0 := by
  cases hi : st.idAt fd with
  | none => simp [due_closed hi] at h
  | some i =>
    by_cases hm : st.mask fd = 0
    · rw [due_disarmed hi hm, List.mem_singleton] at h
      subst h
      exact ⟨rfl, rfl, hm⟩
    · simp [due_armed hm] at h

lemma tokens_applying {st : State} {r : PendingRearm} {rearms : List PendingRearm}
    (h : st.phase = .applying (r :: rearms)) :
    st.tokens.Perm (r.task :: tokens { st with phase := .applying rearms }) := by
  simp only [tokens, h, Phase.rearms, List.map_append, List.map_cons, ← List.append_assoc]
  exact List.perm_middle

lemma tokens_running {st : State} {i : ℕ} {w : Worker} (h : st.running[i]? = some w) :
    st.tokens.Perm (w.task :: tokens { st with running := st.running.eraseIdx i }) := by
  obtain ⟨hi, rfl⟩ := List.getElem?_eq_some_iff.mp h
  have hp := (List.getElem_cons_eraseIdx_perm hi).map Worker.task
  apply List.perm_iff_count.mpr
  intro t
  have hh := hp.count_eq t
  simp only [tokens, List.map_cons, List.count_append, List.count_cons] at hh ⊢
  omega

lemma mem_tokens_posted {st : State} {r : PendingRearm}
    (h : r ∈ st.pendingRearms ++ st.phase.rearms) : r.task ∈ st.tokens :=
  List.mem_append_right _ (List.mem_map_of_mem h)

lemma mem_tokens_held {st : State} {t : Task} (h : t ∈ st.tasks ++ st.running.map Worker.task) :
    t ∈ st.tokens :=
  List.mem_append_left _ h

lemma tokens_start {st : State} {task : Task} {tasks : List Task} {e : Entry} (ht : st.tasks = task :: tasks)
    (hc : st.connections task.fd = some e) : (st.start task tasks).tokens.Perm st.tokens := by
  rw [start, hc]
  simp only [tokens, ht, List.map_append, List.map_cons, List.map_nil, List.cons_append,
    List.append_assoc, List.nil_append]
  rw [← List.append_assoc, ← List.append_assoc tasks]
  exact List.perm_middle

-- the worker's token becomes the one re-arm its call has posted
lemma tokens_finish {st : State} {S : Service} {i : ℕ} {w : Worker} (e : Entry) (env : S.Env) (io : ClientCalls)
    (hw : st.running[i]? = some w) :
    (st.finish i w.task e (S.handleEvent env io e.conn)).tokens.Perm st.tokens := by
  obtain ⟨log, a, hl, hn⟩ := S.handleEvent_rearm env io e.conn
  have hr : rearms (S.handleEvent env io e.conn).2 = [a] := by
    rw [hl, rearms_append, hn]
    rfl
  apply List.perm_iff_count.mpr
  intro t
  have hh := (tokens_running hw).count_eq t
  simp only [tokens, finish, hr, List.map_append, List.map_cons, List.map_nil, List.count_append,
    List.count_cons, List.count_nil] at hh ⊢
  omega

lemma tokens_dispatched {st : State} {ev : IoEvent} {events : List IoEvent} {e : Entry}
    (hs : st.phase = .dispatching (ev :: events)) :
    (tokens { st.modify ev.fd 0 with
      tasks := st.tasks ++ [⟨ev.fd, e.id⟩], phase := .dispatching events }).Perm
      (⟨ev.fd, e.id⟩ :: st.tokens) := by
  simp only [tokens, modify, Phase.rearms, hs, List.append_assoc]
  exact List.perm_middle

end State

/-- Every descriptor is referred to by what is due and by nothing else. A batch names each descriptor
once, and only watched ones. -/
structure Inv (setup : Setup) (st : State) : Prop where
  owned : ∀ fd, (st.tokensAt fd).Perm (st.due fd)
  found : ∀ w ∈ st.running, w.found = w.task.conn
  batch : (st.phase.events.map IoEvent.fd).Nodup
  watched : ∀ ev ∈ st.phase.events, ev.fd ≠ setup.listenFd → st.idAt ev.fd ≠ none → st.mask ev.fd ≠ 0

namespace Inv

variable {setup : Setup} {st st' : State}

lemma live (h : Inv setup st) {t : Task} (ht : t ∈ st.tokens) :
    st.idAt t.fd = some t.conn ∧ st.mask t.fd = 0 := by
  have hm : t ∈ st.tokensAt t.fd := List.mem_filter.mpr ⟨ht, by simp⟩
  exact (State.mem_due ((h.owned t.fd).mem_iff.mp hm)).2

lemma initial : Inv setup setup.initial where
  owned _ := .nil
  found := by simp [Setup.initial]
  batch := .nil
  watched := by simp [Setup.initial, Phase.events]

lemma of_perm (h : Inv setup st) (hp : st'.tokens.Perm st.tokens)
    (hi : ∀ fd, st'.idAt fd = st.idAt fd) (hm : ∀ fd, st'.mask fd = st.mask fd)
    (hw : ∀ w ∈ st'.running, w.found = w.task.conn)
    (he : st'.phase.events.Sublist st.phase.events) : Inv setup st' where
  owned fd := by
    rw [State.due_congr (hi fd) (hm fd)]
    exact (hp.filter _).trans (h.owned fd)
  found := hw
  batch := h.batch.sublist (he.map IoEvent.fd)
  watched ev hev := by
    rw [hi, hm]
    exact h.watched ev (he.subset hev)

lemma of_phase (h : Inv setup st) {p : Phase} (hr : p.rearms = st.phase.rearms)
    (he : p.events.Sublist st.phase.events) : Inv setup { st with phase := p } :=
  h.of_perm (.of_eq (State.tokens_phase hr)) (fun _ => rfl) (fun _ => rfl) h.found he

lemma of_local (h : Inv setup st) (fd : Fd) (hp : (st'.tokensAt fd).Perm (st'.due fd))
    (ht : ∀ fd', fd' ≠ fd → (st'.tokensAt fd').Perm (st.tokensAt fd'))
    (hi : ∀ fd', fd' ≠ fd → st'.idAt fd' = st.idAt fd')
    (hm : ∀ fd', fd' ≠ fd → st'.mask fd' = st.mask fd') (hr : st'.running = st.running)
    (he : st'.phase.events.Sublist st.phase.events)
    (hev : ∀ ev ∈ st'.phase.events, ev.fd = fd → st'.idAt fd ≠ none → st'.mask fd ≠ 0) :
    Inv setup st' where
  owned fd' := by
    by_cases hf : fd' = fd
    · exact hf ▸ hp
    · rw [State.due_congr (hi fd' hf) (hm fd' hf)]
      exact (ht fd' hf).trans (h.owned fd')
  found := hr ▸ h.found
  batch := h.batch.sublist (he.map IoEvent.fd)
  watched ev hv hl := by
    by_cases hf : ev.fd = fd
    · rw [hf]
      exact hev ev hv hf
    · rw [hi _ hf, hm _ hf]
      exact h.watched ev (he.subset hv) hl

lemma given_up (h : Inv setup st) {t : Task} (hp : st.tokens.Perm (t :: st'.tokens)) :
    st'.tokensAt t.fd = [] := by
  obtain ⟨hi, hm⟩ := h.live (hp.mem_iff.mpr List.mem_cons_self)
  have hh := (State.tokensAt_self hp).symm.trans (h.owned t.fd)
  rw [State.due_disarmed hi hm, List.perm_singleton] at hh
  exact (List.cons.inj hh).2

lemma swapRearms (h : Inv setup st) (hs : st.phase = .dispatching []) :
    Inv setup { st with phase := .applying st.pendingRearms, pendingRearms := [] } := by
  refine h.of_perm ?_ (fun _ => rfl) (fun _ => rfl) h.found (List.nil_sublist _)
  simp [State.tokens, hs, Phase.rearms]

lemma released (h : Inv setup st) {fd : Fd} {p : Phase}
    (hn : State.tokensAt { st with phase := p } fd = [])
    (ht : ∀ fd', fd' ≠ fd → (State.tokensAt { st with phase := p } fd').Perm (st.tokensAt fd'))
    (he : p.events.Sublist st.phase.events) :
    Inv setup { st.erase fd with phase := p } ∧
      ∀ m, m ≠ 0 → Inv setup { st.modify fd m with phase := p } := by
  refine ⟨h.of_local fd ?_ ht ?_ ?_ rfl he ?_, fun m hm => h.of_local fd ?_ ht ?_ ?_ rfl he ?_⟩
  · have hd : State.due { st.erase fd with phase := p } fd = [] :=
      State.due_closed ((State.idAt_erase st fd fd).trans (if_pos rfl))
    rw [hd]
    exact .of_eq hn
  · exact fun fd' hf => (State.idAt_erase st fd fd').trans (if_neg hf)
  · exact fun fd' hf => (State.mask_erase st fd fd').trans (if_neg hf)
  · intro ev _ _ hi
    exact absurd ((State.idAt_erase st fd fd).trans (if_pos rfl)) hi
  · -- watched again: nothing is due on a descriptor with interest
    have hk : State.mask { st.modify fd m with phase := p } fd ≠ 0 :=
      ((State.mask_modify st fd fd m).trans (if_pos rfl)).trans_ne hm
    rw [State.due_armed hk]
    exact .of_eq hn
  · exact fun fd' _ => rfl
  · exact fun fd' hf => (State.mask_modify st fd fd' m).trans (if_neg hf)
  · intro ev _ _ _
    exact ((State.mask_modify st fd fd m).trans (if_pos rfl)).trans_ne hm

lemma applyRearm (h : Inv setup st) {r : PendingRearm} {rearms : List PendingRearm}
    (hs : st.phase = .applying (r :: rearms)) :
    Inv setup { st.applyRearm r with phase := .applying rearms } := by
  have hp := State.tokens_applying hs
  have hr := h.released (h.given_up hp) (fun fd hf => (State.tokensAt_of_ne hp hf).symm)
    (List.nil_sublist _)
  obtain ⟨c, hc⟩ := State.idAt_eq_some_iff.mp (h.live (hp.mem_iff.mpr List.mem_cons_self)).1
  rw [State.applyRearm, hc]
  cases r.action with
  | waitReadable => exact hr.2 _ (by decide)
  | waitWritable => exact hr.2 _ (by decide)
  | close => exact hr.1

lemma wait (h : Inv setup st) {events : List IoEvent} (hn : (events.map IoEvent.fd).Nodup)
    (hm : ∀ ev ∈ events, st.mask ev.fd ≠ 0) (hs : st.phase = .applying []) :
    Inv setup { st with phase := .dispatching events } where
  owned fd := by
    have hp : State.tokens { st with phase := .dispatching events } = st.tokens :=
      State.tokens_phase (by rw [hs]; rfl)
    rw [State.tokensAt, hp]
    exact h.owned fd
  found := h.found
  batch := hn
  watched ev hev _ _ := hm ev hev

lemma dispatch (h : Inv setup st) {ev : IoEvent} {events : List IoEvent}
    (hs : st.phase = .dispatching (ev :: events)) (hl : ev.fd ≠ setup.listenFd) :
    Inv setup { st.dispatch ev with phase := .dispatching events } := by
  have ht : State.tokens { st with phase := .dispatching events } = st.tokens :=
    State.tokens_phase (by rw [hs]; rfl)
  have he : (Phase.dispatching events).events.Sublist st.phase.events := by
    rw [hs]
    exact List.sublist_cons_self ev events
  rw [State.dispatch]
  cases hc : st.connections ev.fd with
  | none => exact h.of_phase (by rw [hs]; rfl) he
  | some e =>
    have hi : st.idAt ev.fd = some e.id := by rw [State.idAt, hc]; rfl
    have hm : st.mask ev.fd ≠ 0 := h.watched ev (by simp [hs, Phase.events]) hl (by simp [hi])
    have hn : st.tokensAt ev.fd = [] := by
      have hh := h.owned ev.fd
      rwa [State.due_armed hm, List.perm_nil] at hh
    dsimp only
    split_ifs
    · have hn' : State.tokensAt { st with phase := .dispatching events } ev.fd = [] := by
        rwa [State.tokensAt, ht]
      exact (h.released hn' (fun fd _ => State.tokensAt_congr (.of_eq ht) fd) he).1
    · have hp := State.tokens_dispatched (e := e) hs
      refine h.of_local ev.fd ?_ (fun fd hf => State.tokensAt_of_ne hp hf) (fun _ _ => rfl) ?_ rfl he ?_
      · have hh := State.tokensAt_self hp
        rw [hn] at hh
        apply hh.trans
        apply List.Perm.of_eq
        symm
        exact State.due_disarmed hi ((State.mask_modify st ev.fd ev.fd 0).trans (if_pos rfl))
      · exact fun fd hf => (State.mask_modify st ev.fd fd 0).trans (if_neg hf)
      · -- a batch names each descriptor once, so none of its other events is for this one
        intro ev' hev' hf
        have hb := h.batch
        rw [hs] at hb
        exact absurd (List.mem_map.mpr ⟨ev', hev', hf⟩) (List.nodup_cons.mp hb).1

lemma accept (h : Inv setup st) {fd : Fd} (hc : st.idAt fd = none) : Inv setup (st.accept fd) := by
  have hm : (st.accept fd).mask fd ≠ 0 := by simp [EventType.readable]
  refine h.of_local fd ?_ (fun _ _ => .refl _) ?_ ?_ rfl (.refl _) (fun _ _ _ _ => hm)
  · have hh := h.owned fd
    rw [State.due_closed hc] at hh
    rw [State.due_armed hm]
    exact hh
  · intro fd' hf
    simp [hf]
  · intro fd' hf
    simp [hf]

lemma start (h : Inv setup st) {task : Task} {tasks : List Task} (hs : st.tasks = task :: tasks) :
    Inv setup (st.start task tasks) := by
  have ht : task ∈ st.tokens := by simp [State.tokens, hs]
  obtain ⟨c, hc⟩ := State.idAt_eq_some_iff.mp (h.live ht).1
  have hp := State.tokens_start hs hc
  rw [State.start, hc] at hp ⊢
  refine h.of_perm hp (fun _ => rfl) (fun _ => rfl) ?_ (.refl _)
  intro w hw
  rcases List.mem_append.mp hw with hw | hw
  · exact h.found w hw
  · obtain rfl := List.mem_singleton.mp hw
    rfl

lemma finish (h : Inv setup st) {S : Service} {i : ℕ} {w : Worker} {e : Entry} (env : S.Env)
    (io : ClientCalls) (hw : st.running[i]? = some w) (hc : st.connections w.task.fd = some e) :
    Inv setup (st.finish i w.task e (S.handleEvent env io e.conn)) := by
  refine h.of_perm (State.tokens_finish e env io hw) (State.idAt_finish hc) (fun _ => rfl) ?_ (.refl _)
  intro w' hw'
  exact h.found w' (List.mem_of_mem_eraseIdx hw')

end Inv

def Quiet {S : Service} (st : State) : Label S → Prop
  | .wait events => ∀ ev ∈ events, ev.error = true → st.mask ev.fd ≠ 0
  | _ => True

lemma reports_watched {b : Backend} {st : State} {ev : IoEvent} (h : b.Reports st ev)
    (hq : b = .kqueue ∨ (ev.error = true → st.mask ev.fd ≠ 0)) : st.mask ev.fd ≠ 0 := by
  cases b with
  | kqueue => exact h.2
  | epoll =>
    obtain ⟨hm, -, he⟩ := h
    rcases he with he | he
    · intro hz
      rw [hz, UInt8.and_zero] at hm
      exact he hm.symm
    · exact (hq.resolve_left (by decide)) he

lemma inv_step {S : Service} {setup : Setup} {st st' : State} {l : Label S} (h : Inv setup st)
    (hq : setup.backend = .kqueue ∨ Quiet st l) (hs : step S setup st l = some st') : Inv setup st' := by
  cases step_moves hs with
  | swapRearms hp => exact h.swapRearms hp
  | applyRearm r rearms hp => exact h.applyRearm hp
  | wait events hp hn hr =>
    apply h.wait hn _ hp
    intro ev hev
    exact reports_watched (hr ev hev) (hq.imp_right fun hq => hq ev hev)
  | listen ev events hp hl =>
    apply h.of_phase
    · rw [hp]
      rfl
    · rw [hp]
      exact List.sublist_cons_self ev events
  | dispatch ev events hp hl => exact h.dispatch hp hl
  | accept fd events hp hl hc =>
    apply h.accept
    rw [State.idAt, hc]
    rfl
  | acceptDone events hp =>
    apply h.of_phase
    · rw [hp]
      rfl
    · rw [hp]
      exact .refl _
  | start task tasks ht hr => exact h.start ht
  | finish i env io w e hw he hf => exact h.finish env io hw he

def Exclusive (st : State) : Prop :=
  ∀ fd, st.connections fd ≠ none →
    (st.mask fd ≠ 0 ∧ st.owners fd = 0) ∨ (st.mask fd = 0 ∧ st.owners fd = 1)

def Live (st : State) : Prop :=
  (∀ t ∈ st.tokens, st.idAt t.fd = some t.conn) ∧ ∀ w ∈ st.running, w.found = w.task.conn

lemma Inv.exclusive {setup : Setup} {st : State} (h : Inv setup st) : Exclusive st := by
  intro fd hc
  have hl : st.owners fd = (st.due fd).length := by
    rw [State.owners, List.countP_eq_length_filter]
    exact (h.owned fd).length_eq
  obtain ⟨e, he⟩ := Option.ne_none_iff_exists'.mp hc
  have hi : st.idAt fd = some e.id := by rw [State.idAt, he]; rfl
  by_cases hm : st.mask fd = 0
  · rw [State.due_disarmed hi hm] at hl
    exact Or.inr ⟨hm, hl⟩
  · rw [State.due_armed hm] at hl
    exact Or.inl ⟨hm, hl⟩

lemma Inv.alive {setup : Setup} {st : State} (h : Inv setup st) : Live st :=
  ⟨fun _ ht => (h.live ht).1, h.found⟩

lemma kqueue_inv {S : Service} {listenFd : Fd} {numThreads : ℕ} {st : State}
    (h : Reachable S ⟨.kqueue, listenFd, numThreads⟩ (fun _ _ => True) st) :
    Inv ⟨.kqueue, listenFd, numThreads⟩ st :=
  Transitions.Reachable.invariant Inv.initial (fun _ _ _ hi _ hs => inv_step hi (Or.inl rfl) hs) h

/-- In every order of accepts, events, worker steps and re-arms, a connection of the server or of the
load balancer is watched and free or unwatched and owned once, and no owner outlives it. -/
theorem owned_once (listenFd : Fd) (numThreads : ℕ) :
    (∀ router st, Reachable (httpServer router) ⟨.kqueue, listenFd, numThreads⟩ (fun _ _ => True) st →
      Exclusive st ∧ Live st) ∧
    (∀ st, Reachable loadBalancer ⟨.kqueue, listenFd, numThreads⟩ (fun _ _ => True) st →
      Exclusive st ∧ Live st) :=
  ⟨fun _ _ h => ⟨(kqueue_inv h).exclusive, (kqueue_inv h).alive⟩,
    fun _ h => ⟨(kqueue_inv h).exclusive, (kqueue_inv h).alive⟩⟩

theorem owned_once_running :
    ∃ st, Reachable (httpServer (routes 8080)) ⟨.kqueue, 3, 4⟩ (fun _ _ => True) st ∧
      st.running = [⟨⟨7, 0⟩, 0⟩] ∧ Exclusive st ∧ Live st := by
  obtain ⟨st, hr, hw⟩ : ∃ st, Reachable (httpServer (routes 8080)) ⟨.kqueue, 3, 4⟩ (fun _ _ => True) st ∧
      st.running = [⟨⟨7, 0⟩, 0⟩] :=
    Transitions.exists_reachable [.swapRearms, .wait [⟨3, 1, false⟩], .dispatch, .accept 7, .acceptDone,
      .swapRearms, .wait [⟨7, 1, false⟩], .dispatch, .start] (by decide +kernel)
  exact ⟨st, hr, hw, (owned_once 3 4).1 _ st hr⟩

end HttpBalancer.System
