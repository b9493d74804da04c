import HttpBalancer.Lib.Simulation
import HttpBalancer.Net.ThreadPoolRuns
import HttpBalancer.System.Readiness

/-! The machine of the threads over the thread pool itself. A worker takes a task under the pool's
mutex, looks the connection up under the table's, works on it without a lock and posts the re-arm, each
a step of its own; together they are the steps `start` and `finish`. -/

namespace HttpBalancer.System

open Net Server Balancer Lib

/-- `core` is the reactor's part of the state; its own `tasks` and `running` stay empty. `found` and
`log` are the locals of the workers: the connection the lookup gave, and what was done on it. -/
structure Pooled where
  core : State
  pool : ThreadPool Task
  found : ℕ → ConnId
  log : ℕ → List Action

inductive PoolLabel (S : Service)
  | reactor (l : Label S)
  | pool (l : ThreadPool.Step Task)
  | lookup (i : ℕ)
  | handle (i : ℕ) (env : S.Env) (io : ClientCalls)
  | post (i : ℕ)
  | leave (i : ℕ)

lemma Moves.step {S : Service} {setup : Setup} {st st' : State} {l : Label S}
    (h : Moves S setup st l st') : step S setup st l = some st' := by
  cases h with
  | swapRearms hp | applyRearm r rearms hp | acceptDone events hp => simp only [System.step, hp]
  | wait events hp hn hr => simp only [System.step, hp, if_pos (And.intro hn hr)]
  | listen ev events hp hl => simp only [System.step, hp, if_pos hl]
  | dispatch ev events hp hl => simp only [System.step, hp, if_neg hl]
  | accept fd events hp hl hc => simp [System.step, hp, hl, hc]
  | start task tasks ht hr => simp only [System.step, ht, if_pos hr]
  | finish i env io w e hw he hf => simp only [System.step, hw, he, if_pos hf]

namespace Pooled

variable {S : Service}

def create (setup : Setup) : Pooled := ⟨setup.initial, .create setup.numThreads, fun _ => 0, fun _ => []⟩

def lookup (s : Pooled) (i : ℕ) (t : Task) : Option Pooled :=
  match s.core.connections t.fd with
  -- the handler returns at once
  | none => (s.pool.step (.finish i)).map fun pool => { s with pool }
  | some e => (s.pool.step (.work i)).map fun pool =>
      { s with pool, found := Function.update s.found i e.id }

def handle (s : Pooled) (i : ℕ) (t : Task) (env : S.Env) (io : ClientCalls) : Option Pooled :=
  match s.core.connections t.fd with
  | none => none
  | some e =>
    let r := S.handleEvent env io e.conn
    if e.id = s.found i then
      (s.pool.step (.work i)).map fun pool => { s with
        pool
        core := { s.core with connections := Function.update s.core.connections t.fd (some ⟨e.id, r.1⟩) }
        log := Function.update s.log i r.2 }
    else none

def post (s : Pooled) (i : ℕ) (t : Task) : Option Pooled :=
  (s.pool.step (.work i)).map fun pool => { s with
    pool
    core := { s.core with
      pendingRearms := s.core.pendingRearms ++ (rearms (s.log i)).map fun a => ⟨t, a⟩ } }

def reactor (s : Pooled) (core : State) : Pooled :=
  { s with core := { core with tasks := [] }, pool := core.tasks.foldl ThreadPool.push s.pool }

def step (setup : Setup) (s : Pooled) : PoolLabel S → Option Pooled
  | .reactor l =>
    match l with
    | .start | .finish _ _ _ => none
    | l => (System.step S setup s.core l).map s.reactor
  | .pool l =>
    match l with
    | .notifyOne _ | .spuriousWakeup _ | .workerLoop _ => (s.pool.step l).map fun pool => { s with pool }
    | _ => none
  | .lookup i =>
    match s.pool.workers[i]? with
    | some (.running t 0) => s.lookup i t
    | _ => none
  | .handle i env io =>
    match s.pool.workers[i]? with
    | some (.running t 1) => s.handle i t env io
    | _ => none
  | .post i =>
    match s.pool.workers[i]? with
    | some (.running t 2) => s.post i t
    | _ => none
  | .leave i =>
    match s.pool.workers[i]? with
    | some (.running _ 3) => (s.pool.step (.finish i)).map fun pool => { s with pool }
    | _ => none

def Allowed (setup : Setup) (s : Pooled) : PoolLabel S → Prop
  | .reactor l => Heard setup s.core l
  | _ => True

def holding : Net.Worker Task → List Worker
  | .running t k => if k < 3 then [⟨t, t.conn⟩] else []
  | _ => []

def At (s : Pooled) (i : ℕ) (t : Task) (k : ℕ) : Prop := s.pool.workers[i]? = some (.running t k)

/-- The state of the machine of the threads that the pool shows. The entry of a connection is behind the
table's as long as a worker has handled its event and not posted the re-arm. -/
structure Shows (S : Service) (setup : Setup) (s : Pooled) (st : State) : Prop where
  interest : st.interest = s.core.interest
  pendingRearms : st.pendingRearms = s.core.pendingRearms
  phase : st.phase = s.core.phase
  nextConn : st.nextConn = s.core.nextConn
  tasks : st.tasks = s.pool.queue
  running : st.running.Perm (s.pool.workers.flatMap holding)
  bare : s.core.tasks = [] ∧ s.core.running = []
  unstopped : s.pool.stop = false
  crew : s.pool.workers.length = max setup.numThreads 1
  found : ∀ i t k, s.At i t k → 1 ≤ k → k < 3 → s.found i = t.conn
  table : ∀ fd, (∀ i t, s.At i t 2 → t.fd ≠ fd) → st.connections fd = s.core.connections fd
  ahead : ∀ i t, s.At i t 2 → ∃ e env io, st.connections t.fd = some e ∧
    s.core.connections t.fd = some ⟨e.id, (S.handleEvent env io e.conn).1⟩ ∧
    s.log i = (S.handleEvent env io e.conn).2

namespace Shows

variable {setup : Setup} {s : Pooled} {st : State}

lemma initial (setup : Setup) : Shows S setup (create setup) setup.initial where
  interest := rfl
  pendingRearms := rfl
  phase := rfl
  nextConn := rfl
  tasks := rfl
  running := by simp [create, ThreadPool.create, Setup.initial, holding]
  bare := ⟨rfl, rfl⟩
  unstopped := rfl
  crew := by
    simp only [create, ThreadPool.create, List.length_replicate]
    split_ifs <;> omega
  found i t k h := by
    simp only [At, create, ThreadPool.create, List.getElem?_replicate] at h
    split_ifs at h <;> simp at h
  table _ _ := rfl
  ahead i t h := by
    simp only [At, create, ThreadPool.create, List.getElem?_replicate] at h
    split_ifs at h <;> simp at h

lemma split (h : Shows S setup s st) {i k : ℕ} {t : Task} (ha : s.At i t k) (hk : k < 3) :
    st.running.Perm (⟨t, t.conn⟩ :: (s.pool.workers.set i .awake).flatMap holding) := by
  have hp := Threads.flatMap_set_perm holding (b := .awake) ha
  have hh : holding (.running t k) = [⟨t, t.conn⟩] := if_pos hk
  rw [hh] at hp
  exact h.running.trans hp.symm

lemma mem_running (h : Shows S setup s st) {i k : ℕ} {t : Task} (ha : s.At i t k) (hk : k < 3) :
    (⟨t, t.conn⟩ : Worker) ∈ st.running :=
  (h.split ha hk).mem_iff.mpr List.mem_cons_self

lemma token (h : Shows S setup s st) {i k : ℕ} {t : Task} (ha : s.At i t k) (hk : k < 3) :
    t ∈ st.tokens :=
  State.mem_tokens_held (List.mem_append_right _ (List.mem_map.mpr ⟨_, h.mem_running ha hk, rfl⟩))

lemma alone (h : Shows S setup s st) (hi : Inv setup st) {i j k l : ℕ} {t u : Task} (ha : s.At i t k)
    (hk : k < 3) (hb : s.At j u l) (hl : l < 3) (hj : j ≠ i) : u.fd ≠ t.fd := by
  have hp : st.tokens.Perm (t :: (st.tasks ++ ((s.pool.workers.set i .awake).flatMap holding).map Worker.task ++
      (st.pendingRearms ++ st.phase.rearms).map PendingRearm.task)) := by
    have hm := (h.split ha hk).map Worker.task
    apply List.perm_iff_count.mpr
    intro v
    have hc := hm.count_eq v
    simp only [State.tokens, List.count_append, List.map_cons, List.count_cons] at hc ⊢
    omega
  apply hi.alone hp
  apply List.mem_append_left
  apply List.mem_append_right
  refine List.mem_map.mpr ⟨⟨u, u.conn⟩, List.mem_flatMap.mpr ⟨.running u l, ?_, ?_⟩, rfl⟩
  · apply List.mem_of_getElem? (i := j)
    rw [List.getElem?_set_ne hj.symm]
    exact hb
  · simp [holding, hl]

lemma live (h : Shows S setup s st) (hi : Inv setup st) {i k : ℕ} {t : Task} (ha : s.At i t k)
    (hk : k < 3) : ∃ c, s.core.connections t.fd = some ⟨t.conn, c⟩ := by
  obtain ⟨c, hc⟩ := State.idAt_eq_some_iff.mp (hi.live (h.token ha hk)).1
  by_cases h2 : k = 2
  · subst h2
    obtain ⟨e, env, io, he, hco, -⟩ := h.ahead i t ha
    obtain rfl := Option.some.inj (he.symm.trans hc)
    exact ⟨_, hco⟩
  · refine ⟨c, ?_⟩
    rw [← hc]
    refine (h.table t.fd fun j u hu => ?_).symm
    have hj : j ≠ i := by
      rintro rfl
      have he := hu.symm.trans ha
      simp only [Option.some.injEq, Net.Worker.running.injEq] at he
      exact h2 he.2.symm
    exact h.alone hi ha hk hu (by decide) hj

lemma foldl_push (p : ThreadPool Task) (tasks : List Task) :
    (tasks.foldl ThreadPool.push p).workers = p.workers ∧
      (tasks.foldl ThreadPool.push p).queue = p.queue ++ tasks ∧
      (tasks.foldl ThreadPool.push p).stop = p.stop := by
  induction tasks generalizing p with
  | nil => exact ⟨rfl, (List.append_nil _).symm, rfl⟩
  | cons t tasks ih =>
    obtain ⟨hw, hq, hs⟩ := ih (p.push t)
    refine ⟨hw, hq.trans ?_, hs⟩
    simp [ThreadPool.push]

lemma of_reactor (h : Shows S setup s st) {core' st' : State} (hi : st'.interest = core'.interest)
    (hp : st'.pendingRearms = core'.pendingRearms) (hph : st'.phase = core'.phase)
    (hn : st'.nextConn = core'.nextConn) (ht : st'.tasks = st.tasks ++ core'.tasks)
    (hr : st'.running = st.running) (hr' : core'.running = [])
    (hc : ∀ fd, (st'.connections fd = st.connections fd ∧ core'.connections fd = s.core.connections fd) ∨
      (st'.connections fd = core'.connections fd ∧ ∀ i t, s.At i t 2 → t.fd ≠ fd)) :
    Shows S setup (s.reactor core') st' := by
  obtain ⟨hw, hq, hs⟩ := foldl_push s.pool core'.tasks
  have hat : ∀ i t k, (s.reactor core').At i t k → s.At i t k := by
    intro i t k ha
    rwa [At, reactor, hw] at ha
  refine ⟨hi, hp, hph, hn, ?_, ?_, ⟨rfl, hr'⟩, ?_, ?_, ?_, ?_, ?_⟩
  · rw [ht, h.tasks, reactor, hq]
  · rw [hr, reactor, hw]
    exact h.running
  · exact hs.trans h.unstopped
  · rw [reactor, hw]
    exact h.crew
  · exact fun i t k ha => h.found i t k (hat i t k ha)
  · intro fd hno
    have hno' : ∀ i t, s.At i t 2 → t.fd ≠ fd := by
      intro i t ha
      apply hno i t
      rwa [At, reactor, hw]
    rcases hc fd with ⟨h₁, h₂⟩ | ⟨h₁, -⟩
    · exact h₁.trans ((h.table fd hno').trans h₂.symm)
    · exact h₁
  · intro i t ha
    obtain ⟨e, env, io, he, hco, hl⟩ := h.ahead i t (hat i t 2 ha)
    rcases hc t.fd with ⟨h₁, h₂⟩ | ⟨-, hno⟩
    · exact ⟨e, env, io, h₁.trans he, h₂.trans hco, hl⟩
    · exact absurd rfl (hno i t (hat i t 2 ha))

lemma mask (h : Shows S setup s st) (fd : Fd) : st.mask fd = s.core.mask fd := by
  rw [State.mask, h.interest, State.mask]

lemma not_ahead (h : Shows S setup s st) (hi : Inv setup st) {fd : Fd}
    (hf : st.mask fd ≠ 0 ∨ st.idAt fd = none) {i : ℕ} {t : Task} (ha : s.At i t 2) : t.fd ≠ fd := by
  rintro rfl
  obtain ⟨hid, hm⟩ := hi.live (h.token ha (by decide))
  rcases hf with hf | hf
  · exact hf hm
  · rw [hid] at hf
    exact Option.some_ne_none _ hf

lemma update_same {fd : Fd} (h : ∀ i t, s.At i t 2 → t.fd ≠ fd) (e : Option Entry) (fd' : Fd) :
    (Function.update st.connections fd e fd' = st.connections fd' ∧
      Function.update s.core.connections fd e fd' = s.core.connections fd') ∨
    (Function.update st.connections fd e fd' = Function.update s.core.connections fd e fd' ∧
      ∀ i t, s.At i t 2 → t.fd ≠ fd') := by
  by_cases hf : fd' = fd
  · subst hf
    rw [Function.update_self, Function.update_self]
    exact Or.inr ⟨rfl, h⟩
  · rw [Function.update_of_ne hf, Function.update_of_ne hf]
    exact Or.inl ⟨rfl, rfl⟩

lemma applyRearm (h : Shows S setup s st) (hi : Inv setup st) {r : PendingRearm}
    {rearms : List PendingRearm} (hp : s.core.phase = .applying (r :: rearms)) :
    Shows S setup (s.reactor { s.core.applyRearm r with phase := .applying rearms })
      { st.applyRearm r with phase := .applying rearms } := by
  have hno : ∀ i t, s.At i t 2 → t.fd ≠ r.task.fd := by
    intro i t ha
    apply hi.alone (State.tokens_applying (h.phase.trans hp))
    exact State.mem_tokens_held (List.mem_append_right _
      (List.mem_map.mpr ⟨_, h.mem_running ha (by decide), rfl⟩))
  have hc := h.table r.task.fd hno
  have hb := h.bare
  rw [State.applyRearm, State.applyRearm, hc]
  cases hcc : s.core.connections r.task.fd with
  | none =>
    exact h.of_reactor h.interest h.pendingRearms rfl h.nextConn (by simp [hb.1]) rfl hb.2
      fun _ => Or.inl ⟨rfl, rfl⟩
  | some e =>
    cases r.action with
    | waitReadable | waitWritable =>
      refine h.of_reactor ?_ h.pendingRearms rfl h.nextConn (by simp [State.modify, hb.1]) rfl hb.2
        fun _ => Or.inl ⟨rfl, rfl⟩
      simp only [State.modify, h.interest]
    | close =>
      refine h.of_reactor ?_ h.pendingRearms rfl h.nextConn (by simp [State.erase, hb.1]) rfl hb.2
        (update_same hno none)
      simp only [State.erase, h.interest]

lemma dispatch (h : Shows S setup s st) (hi : Inv setup st) {ev : IoEvent} {events : List IoEvent}
    (hp : s.core.phase = .dispatching (ev :: events)) (hl : ev.fd ≠ setup.listenFd) :
    Shows S setup (s.reactor { s.core.dispatch ev with phase := .dispatching events })
      { st.dispatch ev with phase := .dispatching events } := by
  have hno : ∀ i t, s.At i t 2 → t.fd ≠ ev.fd := by
    intro i t ha
    apply h.not_ahead hi _ ha
    by_cases hid : st.idAt ev.fd = none
    · exact Or.inr hid
    · exact Or.inl (hi.watched ev (by rw [h.phase, hp]; exact List.mem_cons_self) hl hid)
  have hc := h.table ev.fd hno
  have hb := h.bare
  rw [State.dispatch, State.dispatch, hc]
  cases hcc : s.core.connections ev.fd with
  | none =>
    exact h.of_reactor h.interest h.pendingRearms rfl h.nextConn (by simp [hb.1]) rfl hb.2
      fun _ => Or.inl ⟨rfl, rfl⟩
  | some e =>
    dsimp only
    split_ifs
    · refine h.of_reactor ?_ h.pendingRearms rfl h.nextConn (by simp [State.erase, hb.1]) rfl hb.2
        (update_same hno none)
      simp only [State.erase, h.interest]
    · refine h.of_reactor ?_ h.pendingRearms rfl h.nextConn (by simp [hb.1]) rfl hb.2
        fun _ => Or.inl ⟨rfl, rfl⟩
      simp only [State.modify, h.interest]

lemma closed (h : Shows S setup s st) {fd : Fd} (hc : s.core.connections fd = none) :
    st.connections fd = none := by
  rw [← hc]
  apply h.table
  rintro i t ha rfl
  obtain ⟨e, env, io, -, hco, -⟩ := h.ahead i t ha
  rw [hc] at hco
  exact Option.some_ne_none _ hco.symm

lemma accept (h : Shows S setup s st) (hi : Inv setup st) {fd : Fd} (hc : s.core.connections fd = none) :
    Shows S setup (s.reactor (s.core.accept fd)) (st.accept fd) := by
  have hid : st.idAt fd = none := by rw [State.idAt, h.closed hc]; rfl
  have hno : ∀ i t, s.At i t 2 → t.fd ≠ fd := fun i t ha => h.not_ahead hi (Or.inr hid) ha
  have hb := h.bare
  refine h.of_reactor ?_ h.pendingRearms h.phase ?_ (by simp [State.accept, hb.1]) rfl hb.2 ?_
  · simp only [State.accept, h.interest]
  · simp only [State.accept, h.nextConn]
  · simp only [State.accept, h.nextConn]
    exact update_same hno _

lemma reactor_step (h : Shows S setup s st) (hi : Inv setup st) {l : Label S} {core' : State}
    (hr : l ≠ .start) (hf : ∀ i env io, l ≠ .finish i env io)
    (hs : System.step S setup s.core l = some core') :
    ∃ st', System.step S setup st l = some st' ∧ Shows S setup (s.reactor core') st' := by
  have hb := h.bare
  have hsame : ∀ fd, (st.connections fd = st.connections fd ∧
      s.core.connections fd = s.core.connections fd) ∨
      (st.connections fd = s.core.connections fd ∧ ∀ i t, s.At i t 2 → t.fd ≠ fd) :=
    fun _ => Or.inl ⟨rfl, rfl⟩
  have ht : st.tasks = st.tasks ++ s.core.tasks := by rw [hb.1, List.append_nil]
  cases step_moves hs with
  | swapRearms hp =>
    exact ⟨_, (Moves.swapRearms (h.phase.trans hp)).step,
      h.of_reactor h.interest rfl (by rw [h.pendingRearms]) h.nextConn ht rfl hb.2 hsame⟩
  | applyRearm r rearms hp =>
    exact ⟨_, (Moves.applyRearm r rearms (h.phase.trans hp)).step, h.applyRearm hi hp⟩
  | wait events hp hn hev =>
    have hrep : ∀ ev ∈ events, setup.backend.Reports st ev := by
      intro ev hm
      have hh := hev ev hm
      rw [Backend.Reports.eq_def] at hh ⊢
      rwa [h.mask, h.interest]
    exact ⟨_, (Moves.wait events (h.phase.trans hp) hn hrep).step,
      h.of_reactor h.interest h.pendingRearms rfl h.nextConn ht rfl hb.2 hsame⟩
  | listen ev events hp hl =>
    exact ⟨_, (Moves.listen ev events (h.phase.trans hp) hl).step,
      h.of_reactor h.interest h.pendingRearms rfl h.nextConn ht rfl hb.2 hsame⟩
  | dispatch ev events hp hl =>
    exact ⟨_, (Moves.dispatch ev events (h.phase.trans hp) hl).step, h.dispatch hi hp hl⟩
  | accept fd events hp hl hc =>
    exact ⟨_, (Moves.accept fd events (h.phase.trans hp) hl (h.closed hc)).step, h.accept hi hc⟩
  | acceptDone events hp =>
    exact ⟨_, (Moves.acceptDone events (h.phase.trans hp)).step,
      h.of_reactor h.interest h.pendingRearms rfl h.nextConn ht rfl hb.2 hsame⟩
  | start => exact absurd rfl hr
  | finish i env io => exact absurd rfl (hf i env io)

lemma at_of_set {s' : Pooled} {i : ℕ} {w : Net.Worker Task}
    (hs : s'.pool.workers = s.pool.workers.set i w) {j k : ℕ} {t : Task} (ha : s'.At j t k) :
    (j ≠ i ∧ s.At j t k) ∨ (j = i ∧ w = .running t k) := by
  rw [At, hs, List.getElem?_set] at ha
  split_ifs at ha with hj hlt
  · exact Or.inr ⟨hj.symm, Option.some.inj ha⟩
  · exact Or.inl ⟨Ne.symm hj, ha⟩

lemma at_set_of_ne {s' : Pooled} {i : ℕ} {w : Net.Worker Task}
    (hs : s'.pool.workers = s.pool.workers.set i w) {j k : ℕ} {t : Task} (hj : j ≠ i) (ha : s.At j t k) :
    s'.At j t k := by
  rw [At, hs, List.getElem?_set_ne hj.symm]
  exact ha

lemma at_set_self {s' : Pooled} {i : ℕ} {v w : Net.Worker Task} (hv : s.pool.workers[i]? = some v)
    (hs : s'.pool.workers = s.pool.workers.set i w) : s'.pool.workers[i]? = some w := by
  obtain ⟨hi, -⟩ := List.getElem?_eq_some_iff.mp hv
  rw [hs, List.getElem?_set_self hi]

lemma of_worker (h : Shows S setup s st) {s' : Pooled} {i : ℕ} {w w' : Net.Worker Task}
    (hw : s.pool.workers[i]? = some w) (hs : s'.pool.workers = s.pool.workers.set i w')
    (hq : s'.pool.queue = s.pool.queue) (hst : s'.pool.stop = s.pool.stop) (hc : s'.core = s.core)
    (hl : s'.log = s.log) (hh : holding w' = holding w) (hn : ∀ t, w ≠ .running t 2)
    (hn' : ∀ t, w' ≠ .running t 2) (hf : ∀ j, j ≠ i → s'.found j = s.found j)
    (hfi : ∀ t k, w' = .running t k → 1 ≤ k → k < 3 → s'.found i = t.conn) : Shows S setup s' st := by
  have hat : ∀ j t, s.At j t 2 → s'.At j t 2 := by
    intro j t ha
    refine at_set_of_ne hs ?_ ha
    rintro rfl
    exact hn t (Option.some.inj (hw.symm.trans ha))
  have hat' : ∀ j t, s'.At j t 2 → s.At j t 2 := by
    intro j t ha
    rcases at_of_set hs ha with ⟨-, ha⟩ | ⟨-, he⟩
    · exact ha
    · exact absurd he (hn' t)
  refine ⟨hc ▸ h.interest, hc ▸ h.pendingRearms, hc ▸ h.phase, hc ▸ h.nextConn, ?_, ?_, hc ▸ h.bare, ?_, ?_,
    ?_, ?_, ?_⟩
  · rw [hq]
    exact h.tasks
  · have hp := Threads.flatMap_set_perm holding (b := w') hw
    rw [hh, List.perm_append_left_iff] at hp
    rw [hs]
    exact h.running.trans hp.symm
  · exact hst.trans h.unstopped
  · rw [hs, List.length_set]
    exact h.crew
  · intro j t k ha h1 h3
    rcases at_of_set hs ha with ⟨hj, ha⟩ | ⟨rfl, he⟩
    · exact (hf j hj).trans (h.found j t k ha h1 h3)
    · exact hfi t k he h1 h3
  · intro fd hno
    rw [hc]
    exact h.table fd fun j t ha => hno j t (hat j t ha)
  · intro j t ha
    rw [hc, hl]
    exact h.ahead j t (hat' j t ha)

lemma room (h : Shows S setup s st) {i : ℕ} (hw : s.pool.workers[i]? = some .awake) :
    st.running.length < max setup.numThreads 1 := by
  obtain ⟨hi, he⟩ := List.getElem?_eq_some_iff.mp hw
  have hle : ∀ ws : List (Net.Worker Task), (ws.flatMap holding).length ≤ ws.countP fun w => !w.isAwake := by
    intro ws
    induction ws with
    | nil => exact le_rfl
    | cons w ws ih =>
      rw [List.flatMap_cons, List.length_append, List.countP_cons, Nat.add_comm]
      apply Nat.add_le_add ih
      cases w with
      | awake | blocked | exited => simp [holding]
      | running t k =>
        simp only [holding, Net.Worker.isAwake]
        split_ifs <;> simp
  rw [← h.crew, h.running.length_eq]
  apply (hle _).trans_lt
  apply List.countP_lt_length_iff.mpr
  exact ⟨.awake, he ▸ List.getElem_mem hi, by simp [Net.Worker.isAwake]⟩

lemma take (h : Shows S setup s st) (hi : Inv setup st) (s' : Pooled) {i : ℕ} {t : Task} {queue : List Task}
    (hw : s.pool.workers[i]? = some .awake) (hq : s.pool.queue = t :: queue)
    (hs : s'.pool.workers = s.pool.workers.set i (.running t 0)) (hq' : s'.pool.queue = queue)
    (hst : s'.pool.stop = s.pool.stop) (hc : s'.core = s.core) (hf : s'.found = s.found)
    (hl : s'.log = s.log) :
    ∃ st', System.step S setup st .start = some st' ∧ Shows S setup s' st' := by
  have htasks : st.tasks = t :: queue := h.tasks.trans hq
  have hlive := (hi.live (show t ∈ st.tokens by simp [State.tokens, htasks])).1
  obtain ⟨c, hcc⟩ := State.idAt_eq_some_iff.mp hlive
  have hstart : st.start t queue = { st with tasks := queue, running := st.running ++ [⟨t, t.conn⟩] } := by
    rw [State.start, hcc]
  have hat : ∀ j u k, s'.At j u k → k ≠ 0 → s.At j u k := by
    intro j u k ha hk
    rcases at_of_set hs ha with ⟨-, ha⟩ | ⟨-, he⟩
    · exact ha
    · simp only [Net.Worker.running.injEq] at he
      exact absurd he.2.symm hk
  refine ⟨_, (Moves.start t queue htasks (h.room hw)).step, ?_⟩
  rw [hstart]
  refine ⟨hc ▸ h.interest, hc ▸ h.pendingRearms, hc ▸ h.phase, hc ▸ h.nextConn, hq'.symm, ?_, hc ▸ h.bare,
    hst.trans h.unstopped, ?_, ?_, ?_, ?_⟩
  · have hp := Threads.flatMap_set_perm holding (b := .running t 0) hw
    rw [hs]
    exact ((h.running.append_right _).trans List.perm_append_comm).trans hp.symm
  · rw [hs, List.length_set]
    exact h.crew
  · intro j u k ha h1 h3
    rw [hf]
    exact h.found j u k (hat j u k ha (by omega)) h1 h3
  · intro fd hno
    rw [hc]
    refine h.table fd fun j u ha => hno j u (at_set_of_ne hs ?_ ha)
    rintro rfl
    simp [At, hw] at ha
  · intro j u ha
    rw [hc, hl]
    exact h.ahead j u (hat j u 2 ha (by decide))

lemma handle (h : Shows S setup s st) (hi : Inv setup st) {s' : Pooled} {i : ℕ} {t : Task} {e : Entry}
    {env : S.Env} {io : ClientCalls} (ha : s.At i t 1) (he : s.core.connections t.fd = some e)
    (hs : s'.pool.workers = s.pool.workers.set i (.running t 2)) (hq : s'.pool.queue = s.pool.queue)
    (hst : s'.pool.stop = s.pool.stop)
    (hc : s'.core = { s.core with
      connections :=
        Function.update s.core.connections t.fd (some ⟨e.id, (S.handleEvent env io e.conn).1⟩) })
    (hf : s'.found = s.found)
    (hl : s'.log = Function.update s.log i (S.handleEvent env io e.conn).2) : Shows S setup s' st := by
  have hself : s'.At i t 2 := at_set_self ha hs
  -- no other worker is at this descriptor, so the entry is still the table's
  have hother : ∀ j u, s.At j u 2 → u.fd ≠ t.fd := by
    intro j u hu
    refine h.alone hi ha (by decide) hu (by decide) ?_
    rintro rfl
    simpa using hu.symm.trans ha
  have hst' : st.connections t.fd = some e := (h.table t.fd hother).trans he
  have hco : s'.core.connections = Function.update s.core.connections t.fd
      (some ⟨e.id, (S.handleEvent env io e.conn).1⟩) := by rw [hc]
  refine ⟨by rw [hc]; exact h.interest, by rw [hc]; exact h.pendingRearms, by rw [hc]; exact h.phase,
    by rw [hc]; exact h.nextConn, hq ▸ h.tasks, ?_, by rw [hc]; exact h.bare, hst.trans h.unstopped, ?_, ?_,
    ?_, ?_⟩
  · have hp := Threads.flatMap_set_perm holding (b := .running t 2) ha
    have hh : holding (.running t 2) = holding (.running t 1) := rfl
    rw [hh, List.perm_append_left_iff] at hp
    rw [hs]
    exact h.running.trans hp.symm
  · rw [hs, List.length_set]
    exact h.crew
  · intro j u k hu h1 h3
    rw [hf]
    rcases at_of_set hs hu with ⟨-, hu⟩ | ⟨rfl, hk⟩
    · exact h.found j u k hu h1 h3
    · obtain ⟨rfl, rfl⟩ : t = u ∧ 2 = k := by simpa using hk
      exact h.found j t 1 ha le_rfl (by decide)
  · intro fd hno
    have hne : fd ≠ t.fd := (hno i t hself).symm
    rw [hco, Function.update_of_ne hne]
    refine h.table fd fun j u hu => hno j u (at_set_of_ne hs ?_ hu)
    rintro rfl
    simpa using hu.symm.trans ha
  · intro j u hu
    rcases at_of_set hs hu with ⟨hj, hu⟩ | ⟨rfl, hk⟩
    · rw [hco, hl, Function.update_of_ne (hother j u hu), Function.update_of_ne hj]
      exact h.ahead j u hu
    · obtain rfl : t = u := by simpa using hk
      refine ⟨e, env, io, hst', ?_, ?_⟩
      · rw [hco, Function.update_self]
      · rw [hl, Function.update_self]

lemma post (h : Shows S setup s st) (hi : Inv setup st) (s' : Pooled) {i : ℕ} {t : Task}
    (ha : s.At i t 2) (hs : s'.pool.workers = s.pool.workers.set i (.running t 3))
    (hq : s'.pool.queue = s.pool.queue) (hst : s'.pool.stop = s.pool.stop)
    (hc : s'.core = { s.core with
      pendingRearms := s.core.pendingRearms ++ (rearms (s.log i)).map fun a => ⟨t, a⟩ })
    (hf : s'.found = s.found) (hl : s'.log = s.log) :
    ∃ j env io st', System.step S setup st (.finish j env io) = some st' ∧ Shows S setup s' st' := by
  obtain ⟨e, env, io, he, hco, hlog⟩ := h.ahead i t ha
  obtain ⟨j, hj, hw⟩ := List.getElem_of_mem (h.mem_running ha (by decide))
  have hj' : st.running[j]? = some ⟨t, t.conn⟩ := by rw [List.getElem?_eq_getElem hj, hw]
  have hid : e.id = t.conn := by
    have hlive := (hi.live (h.token ha (by decide))).1
    rw [State.idAt, he] at hlive
    exact Option.some.inj hlive
  have hother : ∀ k u, k ≠ i → s.At k u 2 → u.fd ≠ t.fd := fun k u hk hu =>
    h.alone hi ha (by decide) hu (by decide) hk
  have hat : ∀ k u l, s'.At k u l → l < 3 → k ≠ i ∧ s.At k u l := by
    intro k u l hu hlt
    rcases at_of_set hs hu with hu | ⟨-, hk⟩
    · exact hu
    · simp only [Net.Worker.running.injEq] at hk
      omega
  refine ⟨j, env, io, _, (Moves.finish j env io _ e hj' he hid).step, ?_⟩
  refine ⟨by rw [hc]; exact h.interest, ?_, by rw [hc]; exact h.phase, by rw [hc]; exact h.nextConn,
    hq ▸ h.tasks, ?_, by rw [hc]; exact h.bare, hst.trans h.unstopped, ?_, ?_, ?_, ?_⟩
  · rw [hc, State.finish, hlog, h.pendingRearms]
  · have hp := Threads.flatMap_set_perm holding (b := .running t 3) ha
    have hr := List.getElem_cons_eraseIdx_perm hj
    rw [hw] at hr
    rw [hs]
    exact (hr.trans (h.running.trans hp.symm)).cons_inv
  · rw [hs, List.length_set]
    exact h.crew
  · intro k u l hu h1 h3
    rw [hf]
    exact h.found k u l (hat k u l hu h3).2 h1 h3
  · intro fd hno
    rw [hc]
    by_cases hfd : fd = t.fd
    · subst hfd
      exact (Function.update_self ..).trans hco.symm
    · refine (Function.update_of_ne hfd _ _).trans (h.table fd fun k u hu => ?_)
      by_cases hk : k = i
      · subst hk
        obtain rfl : t = u := by simpa using ha.symm.trans hu
        exact Ne.symm hfd
      · exact hno k u (at_set_of_ne hs hk hu)
  · intro k u hu
    obtain ⟨hk, hu⟩ := hat k u 2 hu (by decide)
    obtain ⟨e', env', io', he', hco', hlog'⟩ := h.ahead k u hu
    refine ⟨e', env', io', (Function.update_of_ne (hother k u hk hu) _ _).trans he', ?_, ?_⟩
    · rw [hc]
      exact hco'
    · rw [hl]
      exact hlog'

lemma heard (h : Shows S setup s st) {l : Label S} (hl : Heard setup s.core l) : Heard setup st l := by
  refine hl.imp_right fun hq => ?_
  cases l with
  | wait events =>
    intro ev hev he
    rw [h.mask]
    exact hq ev hev he
  | swapRearms | applyRearm | dispatch | accept | acceptDone | start | finish => trivial

/-- The step of the pool is none of the machine of the threads, or it is one of its steps. -/
def Matches (S : Service) (setup : Setup) (st : State) (t : Pooled) : Prop :=
  Shows S setup t st ∨ ∃ (l : Label S) (st' : State), Heard setup st l ∧
    System.step S setup st l = some st' ∧ Shows S setup t st'

lemma pool_step (h : Shows S setup s st) (hi : Inv setup st) {l : ThreadPool.Step Task} {pool : ThreadPool Task}
    (hl : (∃ i, l = .notifyOne i) ∨ (∃ i, l = .spuriousWakeup i) ∨ ∃ i, l = .workerLoop i)
    (hs : s.pool.step l = some pool) : Matches S setup st { s with pool } := by
  cases ThreadPool.step_moves hs with
  | notifyOne i hn hw | spuriousWakeup i hw =>
    exact Or.inl (h.of_worker hw rfl rfl rfl rfl rfl rfl (by simp) (by simp) (fun _ _ => rfl) (by simp))
  | notifyNone i hn hz =>
    exact Or.inl ⟨h.interest, h.pendingRearms, h.phase, h.nextConn, h.tasks, h.running, h.bare, h.unstopped,
      h.crew, h.found, h.table, h.ahead⟩
  | exit i hw hst hq => exact absurd (hst.symm.trans h.unstopped) (by simp)
  | block i hw hst hq =>
    exact Or.inl (h.of_worker hw rfl rfl rfl rfl rfl rfl (by simp) (by simp) (fun _ _ => rfl) (by simp))
  | take i t queue hw hq =>
    obtain ⟨st', hst, hsh⟩ := h.take hi { s with
      pool := { s.pool.move i (.running t 0) with queue := queue, taken := s.pool.taken ++ [t] } } hw hq
      rfl rfl rfl rfl rfl rfl
    exact Or.inr ⟨.start, st', Or.inr trivial, hst, hsh⟩
  | enqueue | work | finish | setStop | notifyAll | join => simp at hl

lemma worked {i k : ℕ} {t : Task} (ha : s.At i t k) :
    s.pool.step (.work i) = some (s.pool.move i (.running t (k + 1))) := by
  simp only [ThreadPool.step, show s.pool.workers[i]? = _ from ha]

lemma matches_step (h : Shows S setup s st) (hi : Inv setup st) {l : PoolLabel S} {t : Pooled}
    (ho : Allowed setup s l) (hs : Pooled.step setup s l = some t) : Matches S setup st t := by
  cases l with
  | reactor l =>
    have hb : l ≠ .start ∧ (∀ i env io, l ≠ .finish i env io) ∧
        (System.step S setup s.core l).map s.reactor = some t := by
      cases l with
      | start | finish => cases hs
      | swapRearms | applyRearm | wait | dispatch | accept | acceptDone => exact ⟨by simp, by simp, hs⟩
    obtain ⟨hn, hf, hm⟩ := hb
    obtain ⟨core', hcore, rfl⟩ := Option.map_eq_some_iff.mp hm
    obtain ⟨st', hst, hsh⟩ := h.reactor_step hi hn hf hcore
    exact Or.inr ⟨l, st', h.heard ho, hst, hsh⟩
  | pool l =>
    have hb : ((∃ i, l = .notifyOne i) ∨ (∃ i, l = .spuriousWakeup i) ∨ ∃ i, l = .workerLoop i) ∧
        (s.pool.step l).map (fun pool => { s with pool }) = some t := by
      cases l with
      | notifyOne | spuriousWakeup | workerLoop => exact ⟨by simp, hs⟩
      | enqueue | work | finish | setStop | notifyAll | join => cases hs
    obtain ⟨hl, hm⟩ := hb
    obtain ⟨pool, hp, rfl⟩ := Option.map_eq_some_iff.mp hm
    exact h.pool_step hi hl hp
  | lookup i =>
    rw [Pooled.step] at hs
    split at hs
    · next u hw =>
      have ha : s.At i u 0 := hw
      obtain ⟨c, hc⟩ := h.live hi ha (by decide)
      rw [Pooled.lookup, hc] at hs
      simp only [worked ha, Option.map_some, Option.some.injEq] at hs
      subst hs
      refine Or.inl (h.of_worker hw rfl rfl rfl rfl rfl rfl (by simp) (by simp) ?_ ?_)
      · exact fun j hj => Function.update_of_ne hj _ _
      · intro v k hv _ _
        obtain rfl : u = v := (Net.Worker.running.inj hv).1
        exact Function.update_self ..
    · cases hs
  | handle i env io =>
    rw [Pooled.step] at hs
    split at hs
    · next u hw =>
      have ha : s.At i u 1 := hw
      obtain ⟨c, hc⟩ := h.live hi ha (by decide)
      rw [Pooled.handle, hc] at hs
      simp only [worked ha] at hs
      split_ifs at hs
      obtain rfl := Option.some.inj hs
      exact Or.inl (h.handle hi ha hc rfl rfl rfl rfl rfl rfl)
    · cases hs
  | post i =>
    rw [Pooled.step] at hs
    split at hs
    · next u hw =>
      have ha : s.At i u 2 := hw
      rw [Pooled.post, worked ha] at hs
      obtain rfl := Option.some.inj hs
      obtain ⟨j, env, io, st', hst, hsh⟩ := h.post hi { s with
        pool := s.pool.move i (.running u 3)
        core := { s.core with
          pendingRearms := s.core.pendingRearms ++ (rearms (s.log i)).map fun a => ⟨u, a⟩ } } ha
        rfl rfl rfl rfl rfl rfl
      exact Or.inr ⟨.finish j env io, st', Or.inr trivial, hst, hsh⟩
    · cases hs
  | leave i =>
    rw [Pooled.step] at hs
    split at hs
    · next u hw =>
      simp only [ThreadPool.step, hw, Option.map_some, Option.some.injEq] at hs
      subst hs
      exact Or.inl (h.of_worker hw rfl rfl rfl rfl rfl rfl (by simp) (by simp) (fun _ _ => rfl) (by simp))
    · cases hs

end Shows

lemma pool_reachable {setup : Setup} {s t : Pooled} {l : PoolLabel S} (hs : step setup s l = some t) :
    Transitions.Reachable ThreadPool.step (fun _ _ => True) s.pool t.pool := by
  have hpush : ∀ tasks : List Task, Transitions.Reachable ThreadPool.step (fun _ _ => True) s.pool
      (tasks.foldl ThreadPool.push s.pool) := by
    intro tasks
    induction tasks using List.reverseRecOn with
    | nil => exact .init
    | append_singleton tasks u ih =>
      rw [List.foldl_append]
      exact ih.step (.enqueue u) trivial rfl
  have hmap : ∀ (l : ThreadPool.Step Task) (f : ThreadPool Task → Pooled), (∀ p, (f p).pool = p) →
      (s.pool.step l).map f = some t →
        Transitions.Reachable ThreadPool.step (fun _ _ => True) s.pool t.pool := by
    intro l f hf hm
    obtain ⟨p, hp, rfl⟩ := Option.map_eq_some_iff.mp hm
    rw [hf]
    exact .single trivial hp
  cases l with
  | reactor l =>
    have hm : ∃ core, t = s.reactor core := by
      cases l with
      | start | finish => cases hs
      | swapRearms | applyRearm | wait | dispatch | accept | acceptDone =>
        obtain ⟨core, -, rfl⟩ := Option.map_eq_some_iff.mp hs
        exact ⟨core, rfl⟩
    obtain ⟨core, rfl⟩ := hm
    exact hpush core.tasks
  | pool l =>
    cases l with
    | notifyOne | spuriousWakeup | workerLoop => exact hmap _ _ (fun _ => rfl) hs
    | enqueue | work | finish | setStop | notifyAll | join => cases hs
  | lookup i =>
    rw [step] at hs
    split at hs
    · rw [lookup] at hs
      split at hs
      · exact hmap _ _ (fun _ => rfl) hs
      · exact hmap _ _ (fun _ => rfl) hs
    · cases hs
  | handle i env io =>
    rw [step] at hs
    split at hs
    · rw [handle] at hs
      split at hs
      · cases hs
      · dsimp only at hs
        split_ifs at hs
        exact hmap _ _ (fun _ => rfl) hs
    · cases hs
  | post i =>
    rw [step] at hs
    split at hs
    · exact hmap _ _ (fun _ => rfl) hs
    · cases hs
  | leave i =>
    rw [step] at hs
    split at hs
    · exact hmap _ _ (fun _ => rfl) hs
    · cases hs

/-- With the pool's mutex and condition variable, and with lookup, work and re-arm as separate steps, the
threads show only states of the machine in which taking a task and finishing one are single steps. A
worker's lookup always finds the connection its task was made for, and until it has posted the re-arm
that connection stays in the table and no other worker is on its descriptor. -/
theorem pool_shows_threads (setup : Setup) {s : Pooled}
    (h : Transitions.Reachable (step (S := S) setup) (Allowed setup) (create setup) s) :
    (∃ st, Reachable S setup (Heard setup) st ∧ Shows S setup s st) ∧
    Transitions.Reachable ThreadPool.step (fun _ _ => True) (.create setup.numThreads) s.pool ∧
    (∀ i t k, s.At i t k → k < 3 →
      (∃ c, s.core.connections t.fd = some ⟨t.conn, c⟩) ∧ (1 ≤ k → s.found i = t.conn) ∧
      ∀ j u l, s.At j u l → l < 3 → j ≠ i → u.fd ≠ t.fd) := by
  have hsim : ∃ st, Reachable S setup (Heard setup) st ∧ Inv setup st ∧ Shows S setup s st := by
    refine Transitions.Reachable.simulated (R := fun s st => Inv setup st ∧ Shows S setup s st)
      ⟨Inv.initial, Shows.initial setup⟩ ?_ h
    rintro s l t st ⟨hi, hsh⟩ ho hs
    rcases hsh.matches_step hi ho hs with hsh' | ⟨l', st', hl', hst, hsh'⟩
    · exact ⟨st, .init, hi, hsh'⟩
    · exact ⟨st', .single hl' hst, inv_step hi hl' hst, hsh'⟩
  have hpool : Transitions.Reachable ThreadPool.step (fun _ _ => True) (.create setup.numThreads) s.pool :=
    h.invariant (P := fun s => Transitions.Reachable ThreadPool.step (fun _ _ => True)
      (.create setup.numThreads) s.pool) .init fun _ _ _ hp _ hs => hp.trans (pool_reachable hs)
  obtain ⟨st, hr, hi, hsh⟩ := hsim
  refine ⟨⟨st, hr, hsh⟩, hpool, fun i t k ha hk => ⟨hsh.live hi ha hk, ?_, ?_⟩⟩
  · exact fun h1 => hsh.found i t k ha h1 hk
  · exact fun j u l hb hl hj => hsh.alone hi ha hk hb hl hj

instance (setup : Setup) (s : Pooled) : DecidablePred (Allowed (S := S) setup s)
  | .reactor l => inferInstanceAs (Decidable (Heard setup s.core l))
  | .pool _ | .lookup _ | .handle _ _ _ | .post _ | .leave _ => inferInstanceAs (Decidable True)

theorem pool_shows_threads_halfway :
    ∃ s : Pooled, Transitions.Reachable (step (S := httpServer (routes 8080)) ⟨.epoll, 3, 2⟩)
        (Allowed ⟨.epoll, 3, 2⟩) (create ⟨.epoll, 3, 2⟩) s ∧ s.At 1 ⟨7, 0⟩ 2 ∧ s.At 0 ⟨8, 1⟩ 1 ∧
      (∃ c, s.core.connections 7 = some ⟨0, c⟩) ∧ s.found 0 = 1 ∧
      ∃ st, Reachable (httpServer (routes 8080)) ⟨.epoll, 3, 2⟩ (Heard ⟨.epoll, 3, 2⟩) st ∧
        Shows (httpServer (routes 8080)) ⟨.epoll, 3, 2⟩ s st := by
  have hrun : ∃ s : Pooled, Transitions.Reachable (step (S := httpServer (routes 8080)) ⟨.epoll, 3, 2⟩)
      (Allowed ⟨.epoll, 3, 2⟩) (create ⟨.epoll, 3, 2⟩) s ∧
      s.pool.workers = [.running ⟨8, 1⟩ 1, .running ⟨7, 0⟩ 2] :=
    Transitions.exists_reachable [.pool (.workerLoop 0), .reactor .swapRearms, .reactor (.wait [⟨3, 1, false⟩]),
      .reactor .dispatch, .reactor (.accept 7), .reactor (.accept 8), .reactor .acceptDone,
      .reactor .swapRearms, .reactor (.wait [⟨7, 1, false⟩, ⟨8, 1, false⟩]), .reactor .dispatch,
      .reactor .dispatch, .pool (.workerLoop 1), .pool (.notifyOne 0), .lookup 1, .pool (.workerLoop 0),
      .handle 1 () ⟨.received (lit "GET / HTTP/1.1\r\n\r\n"), [.sent 5, .again]⟩, .reactor .swapRearms,
      .lookup 0] (by decide +kernel)
  obtain ⟨s, hr, hw⟩ := hrun
  have h7 : s.At 1 ⟨7, 0⟩ 2 := by rw [At, hw]; rfl
  have h8 : s.At 0 ⟨8, 1⟩ 1 := by rw [At, hw]; rfl
  obtain ⟨hst, -, hall⟩ := pool_shows_threads ⟨.epoll, 3, 2⟩ hr
  exact ⟨s, hr, h7, h8, (hall 1 _ 2 h7 (by decide)).1, (hall 0 _ 1 h8 (by decide)).2.1 le_rfl, hst⟩

end Pooled

end HttpBalancer.System
