import HttpBalancer.Lib.Transitions
import HttpBalancer.Net.Service
import HttpBalancer.System.EventLoop

/-! The reactor thread, the task queue, the workers and the pending re-arms of a server or a load
balancer, as one machine that takes the steps of all its threads in any order. -/

namespace HttpBalancer.System

open Net Lib

/-- Connections are numbered in the order they were accepted, so that one can be told from a later
one on the same descriptor. The source has only the descriptor. -/
abbrev ConnId := ℕ

inductive Backend
  | kqueue
  | epoll
  deriving DecidableEq

structure Task where
  fd : Fd
  conn : ConnId
  deriving DecidableEq

structure Worker where
  task : Task
  found : ConnId
  deriving DecidableEq

structure PendingRearm where
  task : Task
  action : RearmAction
  deriving DecidableEq

structure Entry where
  id : ConnId
  conn : Connection

/-- Where the reactor thread is: applying the re-arms it has swapped out (and then about to wait),
going through a batch (and then back to the top), or in the loop of `handleAccept`. -/
inductive Phase
  | applying (rearms : List PendingRearm)
  | dispatching (events : List IoEvent)
  | accepting (events : List IoEvent)
  deriving DecidableEq

structure State where
  interest : Fd → Option UInt8
  connections : Fd → Option Entry
  tasks : List Task
  running : List Worker
  pendingRearms : List PendingRearm
  phase : Phase
  nextConn : ConnId

structure Setup where
  backend : Backend
  listenFd : Fd
  numThreads : ℕ

def Setup.initial (setup : Setup) : State where
  interest := Function.update (fun _ => none) setup.listenFd (some EventType.readable)
  connections := fun _ => none
  tasks := []
  running := []
  pendingRearms := []
  phase := .dispatching []
  nextConn := 0

namespace State

def mask (st : State) (fd : Fd) : UInt8 := (st.interest fd).getD 0

def modify (st : State) (fd : Fd) (mask : UInt8) : State :=
  { st with interest := Function.update st.interest fd (some mask) }

-- erasing the connection also closes the descriptor
def erase (st : State) (fd : Fd) : State := { st with
  interest := Function.update st.interest fd none
  connections := Function.update st.connections fd none }

def applyRearm (st : State) (r : PendingRearm) : State :=
  match st.connections r.task.fd with
  | none => st
  | some _ =>
    match r.action with
    | .waitReadable => st.modify r.task.fd EventType.readable
    | .waitWritable => st.modify r.task.fd EventType.writable
    | .close => st.erase r.task.fd

def dispatch (st : State) (ev : IoEvent) : State :=
  match st.connections ev.fd with
  | none => st
  | some e =>
    if ev.error then st.erase ev.fd
    else { st.modify ev.fd 0 with tasks := st.tasks ++ [⟨ev.fd, e.id⟩] }

def accept (st : State) (fd : Fd) : State := { st with
  connections := Function.update st.connections fd (some ⟨st.nextConn, .fresh⟩)
  interest := Function.update st.interest fd (some EventType.readable)
  nextConn := st.nextConn + 1 }

end State

/-- What a backend may report: kqueue has no filters left on a descriptor with mask 0, epoll reports
errors and hangups on every registered one. -/
def Backend.Reports (b : Backend) (st : State) (ev : IoEvent) : Prop :=
  ev.mask &&& st.mask ev.fd = ev.mask ∧
    match b with
    | .kqueue => st.mask ev.fd ≠ 0
    | .epoll => st.interest ev.fd ≠ none ∧ (ev.mask ≠ 0 ∨ ev.error = true)

instance (b : Backend) (st : State) : DecidablePred (b.Reports st) := fun ev =>
  match b with
  | .kqueue => inferInstanceAs (Decidable (ev.mask &&& st.mask ev.fd = ev.mask ∧ st.mask ev.fd ≠ 0))
  | .epoll => inferInstanceAs (Decidable (ev.mask &&& st.mask ev.fd = ev.mask ∧
      st.interest ev.fd ≠ none ∧ (ev.mask ≠ 0 ∨ ev.error = true)))

inductive Label (S : Service)
  | swapRearms
  | applyRearm
  | wait (events : List IoEvent)
  | dispatch
  | accept (fd : Fd)
  | acceptDone
  | start
  | finish (i : ℕ) (env : S.Env) (io : ClientCalls)

variable (S : Service)

def State.start (st : State) (task : Task) (tasks : List Task) : State :=
  match st.connections task.fd with
  -- the worker returns at once and posts nothing
  | none => { st with tasks := tasks }
  | some e => { st with tasks := tasks, running := st.running ++ [⟨task, e.id⟩] }

def State.finish (st : State) (i : ℕ) (task : Task) (e : Entry) (r : Connection × List Action) : State :=
  { st with
    running := st.running.eraseIdx i
    connections := Function.update st.connections task.fd (some ⟨e.id, r.1⟩)
    pendingRearms := st.pendingRearms ++ (rearms r.2).map fun a => ⟨task, a⟩ }

def step (setup : Setup) (st : State) : Label S → Option State
  | .swapRearms =>
    match st.phase with
    | .dispatching [] => some { st with phase := .applying st.pendingRearms, pendingRearms := [] }
    | _ => none
  | .applyRearm =>
    match st.phase with
    | .applying (r :: rearms) => some { st.applyRearm r with phase := .applying rearms }
    | _ => none
  | .wait events =>
    match st.phase with
    | .applying [] =>
      if (events.map IoEvent.fd).Nodup ∧ ∀ ev ∈ events, setup.backend.Reports st ev then
        some { st with phase := .dispatching events }
      else none
    | _ => none
  | .dispatch =>
    match st.phase with
    | .dispatching (ev :: events) =>
      if ev.fd = setup.listenFd then some { st with phase := .accepting events }
      else some { st.dispatch ev with phase := .dispatching events }
    | _ => none
  | .accept fd =>
    -- the kernel hands out a descriptor that is not open
    match st.phase with
    | .accepting _ =>
      if fd ≠ setup.listenFd ∧ (st.connections fd).isNone then some (st.accept fd) else none
    | _ => none
  | .acceptDone =>
    match st.phase with
    | .accepting events => some { st with phase := .dispatching events }
    | _ => none
  | .start =>
    match st.tasks with
    | task :: tasks =>
      if st.running.length < max setup.numThreads 1 then some (st.start task tasks) else none
    | [] => none
  | .finish i env io =>
    match st.running[i]? with
    | none => none
    | some w =>
      -- a worker whose connection was freed under it has no defined behaviour, and no step here
      match st.connections w.task.fd with
      | none => none
      | some e =>
        if e.id = w.found then some (st.finish i w.task e (S.handleEvent env io e.conn)) else none

inductive Moves (setup : Setup) (st : State) : Label S → State → Prop
  | swapRearms : st.phase = .dispatching [] →
      Moves setup st .swapRearms { st with phase := .applying st.pendingRearms, pendingRearms := [] }
  | applyRearm (r : PendingRearm) (rearms : List PendingRearm) : st.phase = .applying (r :: rearms) →
      Moves setup st .applyRearm { st.applyRearm r with phase := .applying rearms }
  | wait (events : List IoEvent) : st.phase = .applying [] → (events.map IoEvent.fd).Nodup →
      (∀ ev ∈ events, setup.backend.Reports st ev) →
      Moves setup st (.wait events) { st with phase := .dispatching events }
  | listen (ev : IoEvent) (events : List IoEvent) : st.phase = .dispatching (ev :: events) →
      ev.fd = setup.listenFd → Moves setup st .dispatch { st with phase := .accepting events }
  | dispatch (ev : IoEvent) (events : List IoEvent) : st.phase = .dispatching (ev :: events) →
      ev.fd ≠ setup.listenFd →
      Moves setup st .dispatch { st.dispatch ev with phase := .dispatching events }
  | accept (fd : Fd) (events : List IoEvent) : st.phase = .accepting events → fd ≠ setup.listenFd →
      st.connections fd = none → Moves setup st (.accept fd) (st.accept fd)
  | acceptDone (events : List IoEvent) : st.phase = .accepting events →
      Moves setup st .acceptDone { st with phase := .dispatching events }
  | start (task : Task) (tasks : List Task) : st.tasks = task :: tasks →
      st.running.length < max setup.numThreads 1 → Moves setup st .start (st.start task tasks)
  | finish (i : ℕ) (env : S.Env) (io : ClientCalls) (w : Worker) (e : Entry) :
      st.running[i]? = some w → st.connections w.task.fd = some e → e.id = w.found →
      Moves setup st (.finish i env io) (st.finish i w.task e (S.handleEvent env io e.conn))

lemma step_moves {S : Service} {setup : Setup} {st st' : State} {l : Label S}
    (h : step S setup st l = some st') : Moves S setup st l st' := by
  cases l with
  | swapRearms =>
    simp only [step] at h
    split at h
    · next hp =>
      obtain rfl := Option.some.inj h
      exact .swapRearms hp
    · cases h
  | applyRearm =>
    simp only [step] at h
    split at h
    · next r rearms hp =>
      obtain rfl := Option.some.inj h
      exact .applyRearm r rearms hp
    · cases h
  | wait events =>
    simp only [step] at h
    split at h
    · next hp =>
      split_ifs at h with hr
      obtain rfl := Option.some.inj h
      exact .wait events hp hr.1 hr.2
    · cases h
  | dispatch =>
    simp only [step] at h
    split at h
    · next ev events hp =>
      split_ifs at h with hl
      · obtain rfl := Option.some.inj h
        exact .listen ev events hp hl
      · obtain rfl := Option.some.inj h
        exact .dispatch ev events hp hl
    · cases h
  | accept fd =>
    simp only [step] at h
    split at h
    · next events hp =>
      split_ifs at h with hc
      obtain rfl := Option.some.inj h
      exact .accept fd events hp hc.1 (Option.isNone_iff_eq_none.mp hc.2)
    · cases h
  | acceptDone =>
    simp only [step] at h
    split at h
    · next events hp =>
      obtain rfl := Option.some.inj h
      exact .acceptDone events hp
    · cases h
  | start =>
    simp only [step] at h
    split at h
    · next task tasks ht =>
      split_ifs at h with hr
      obtain rfl := Option.some.inj h
      exact .start task tasks ht hr
    · cases h
  | finish i env io =>
    simp only [step] at h
    split at h
    · cases h
    · next w hw =>
      split at h
      · cases h
      · next e he =>
        split_ifs at h with hf
        obtain rfl := Option.some.inj h
        exact .finish i env io w e hw he hf

def Reachable (setup : Setup) (ok : State → Label S → Prop) : State → Prop :=
  Transitions.Reachable (step S setup) ok setup.initial

def Phase.rearms : Phase → List PendingRearm
  | .applying rearms => rearms
  | _ => []

def Phase.events : Phase → List IoEvent
  | .applying _ => []
  | .dispatching events => events
  | .accepting events => events

namespace State

def tokens (st : State) : List Task :=
  st.tasks ++ st.running.map Worker.task ++ (st.pendingRearms ++ st.phase.rearms).map PendingRearm.task

def owners (st : State) (fd : Fd) : ℕ := st.tokens.countP fun t => t.fd = fd

def idAt (st : State) (fd : Fd) : Option ConnId := (st.connections fd).map Entry.id

lemma idAt_eq_some_iff {st : State} {fd : Fd} {i : ConnId} :
    st.idAt fd = some i ↔ ∃ c, st.connections fd = some ⟨i, c⟩ := by
  rw [idAt, Option.map_eq_some_iff]
  constructor
  · rintro ⟨⟨j, c⟩, he, rfl⟩
    exact ⟨c, he⟩
  · rintro ⟨c, hc⟩
    exact ⟨_, hc, rfl⟩

lemma mask_update (st : State) (fd fd' : Fd) (m : Option UInt8) :
    (Function.update st.interest fd m fd').getD 0 = if fd' = fd then m.getD 0 else st.mask fd' := by
  rw [Function.update_apply]
  split_ifs <;> rfl

lemma idAt_update (st : State) (fd fd' : Fd) (e : Option Entry) :
    (Function.update st.connections fd e fd').map Entry.id =
      if fd' = fd then e.map Entry.id else st.idAt fd' := by
  rw [Function.update_apply]
  split_ifs <;> rfl

lemma idAt_finish {st : State} {task : Task} {e : Entry} (h : st.connections task.fd = some e) {i : ℕ}
    {r : Connection × List Action} (fd : Fd) : (st.finish i task e r).idAt fd = st.idAt fd := by
  apply (idAt_update st task.fd fd _).trans
  split_ifs with hf
  · rw [hf, idAt, h]
    rfl
  · rfl

@[simp] lemma mask_modify (st : State) (fd fd' : Fd) (m : UInt8) :
    (st.modify fd m).mask fd' = if fd' = fd then m else st.mask fd' := mask_update st fd fd' (some m)

@[simp] lemma mask_erase (st : State) (fd fd' : Fd) :
    (st.erase fd).mask fd' = if fd' = fd then 0 else st.mask fd' := mask_update st fd fd' none

@[simp] lemma idAt_erase (st : State) (fd fd' : Fd) :
    (st.erase fd).idAt fd' = if fd' = fd then none else st.idAt fd' := idAt_update st fd fd' none

@[simp] lemma mask_accept (st : State) (fd fd' : Fd) :
    (st.accept fd).mask fd' = if fd' = fd then EventType.readable else st.mask fd' :=
  mask_update st fd fd' (some EventType.readable)

@[simp] lemma idAt_accept (st : State) (fd fd' : Fd) :
    (st.accept fd).idAt fd' = if fd' = fd then some st.nextConn else st.idAt fd' :=
  idAt_update st fd fd' (some ⟨st.nextConn, .fresh⟩)

lemma idAt_applyRearm (st : State) {r : PendingRearm} {fd : Fd}
    (h : ¬ (r.task.fd = fd ∧ r.action = .close)) : (st.applyRearm r).idAt fd = st.idAt fd := by
  rw [applyRearm]
  cases hc : st.connections r.task.fd with
  | none => rfl
  | some e =>
    cases ha : r.action with
    | waitReadable | waitWritable => rfl
    | close =>
      apply (idAt_erase st r.task.fd fd).trans
      rw [if_neg]
      rintro rfl
      exact h ⟨rfl, ha⟩

lemma idAt_start (st : State) (task : Task) (tasks : List Task) (fd : Fd) :
    (st.start task tasks).idAt fd = st.idAt fd := by
  rw [start]
  cases hc : st.connections task.fd <;> rfl

end State

end HttpBalancer.System
