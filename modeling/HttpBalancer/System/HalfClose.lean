import HttpBalancer.System.Histories
import HttpBalancer.System.Reports

/-! The threads with their clients and with the kernel reports their batches are made from. A client that
has shut down its sending side can still receive a response. -/

namespace HttpBalancer.System

open Net Server Lib

inductive Peer
  | connected
  | halfClosed
  | gone
  deriving DecidableEq

/-- `EV_EOF` is on the read filter as soon as the peer has shut down its sending side, and on the write
filter once it can receive no more. `EPOLLHUP` needs both directions closed and `EPOLLERR` a socket error. -/
def Report.Tells (peerAt : Fd → Option Peer) : Report → Prop
  | .kevents ks _ => ∀ k ∈ ks, ∀ p ∈ peerAt k.ident,
      (k.filter = .read → (k.evEof = true ↔ p ≠ .connected)) ∧
        (k.filter = .write → k.evEof = true → p = .gone) ∧ (k.evError = true → p = .gone)
  | .epollEvents es => ∀ e ∈ es,
      e.2 &&& (Epoll.epollerr ||| Epoll.epollhup) ≠ 0 → ∀ p ∈ peerAt e.1, p = .gone

/-- What `recv` can return once `got` has been read of the bytes that have arrived. -/
def Peer.Receives (p : Peer) (got arrived : Bytes) : RecvResult → Prop
  | .received [] => p = .gone ∨ p = .halfClosed ∧ got = arrived
  | .received (b :: bs) => got ++ b :: bs <+: arrived
  | .again => p = .gone ∨ p = .connected ∧ got = arrived
  | .failed => p = .gone

/-- The threads, where the client of each connection is, and the bytes of it that have arrived. -/
structure Clients (S : Service) where
  threads : Recorded S
  peer : ConnId → Peer
  arrived : ConnId → Bytes

namespace Clients

inductive Move (S : Service)
  | system (l : Label S)
  | poll (report : Report)
  | arrive (c : ConnId) (data : Bytes)
  | halfClose (c : ConnId)
  | hangUp (c : ConnId)

variable {S : Service}

def create (setup : Setup) : Clients S := ⟨.initial setup, fun _ => .connected, fun _ => []⟩

abbrev st (s : Clients S) : State := s.threads.st

def got (s : Clients S) (i : ConnId) : Bytes := (received (s.threads.log i)).flatten

def peerAt (s : Clients S) (fd : Fd) : Option Peer := (s.st.idAt fd).map s.peer

def step (setup : Setup) (s : Clients S) : Move S → Option (Clients S)
  | .system l => (Recorded.step setup s.threads l).map fun threads => { s with threads }
  | .poll report => (Recorded.step setup s.threads (.wait report.events)).map fun threads => { s with threads }
  | .arrive c data => some { s with arrived := Function.update s.arrived c (s.arrived c ++ data) }
  | .halfClose c => some { s with peer := Function.update s.peer c .halfClosed }
  | .hangUp c => some { s with peer := Function.update s.peer c .gone }

/-- What the kernel and the clients can do. A handler's `recv` and the batch of a `wait` are theirs. -/
def Allows (setup : Setup) (s : Clients S) : Move S → Prop
  | .system (.wait _) => False
  | .system (.finish j _ io) => ∀ w ∈ s.st.running[j]?, ∀ e ∈ s.st.connections w.task.fd,
      e.conn.unsent = [] → (s.peer e.id).Receives (s.got e.id) (s.arrived e.id) io.recv
  | .system _ | .hangUp _ => True
  | .poll report => report.Possible (fun fd => wants (s.st.mask fd))
      (fun fd => (s.st.interest fd).map toEpollEvents) setup.backend ∧ report.Tells s.peerAt
  | .arrive c _ | .halfClose c => s.peer c = .connected

def Reachable (setup : Setup) : Clients S → Prop :=
  Transitions.Reachable (step setup) (Allows setup) (create setup)

/-- kqueue is not asked while it watches the connection of a half-closed client for reading, and epoll's
reactor is given no descriptor that something still refers to. -/
def Spared (setup : Setup) (s : Clients S) : Move S → Prop
  | .poll _ => setup.backend = .kqueue → ∀ fd i, s.st.idAt fd = some i → s.peer i = .halfClosed →
      wants (s.st.mask fd) .read = false
  | .system (.accept fd) => setup.backend = .epoll → ∀ t ∈ s.st.tokens, t.fd ≠ fd
  | _ => True

def Answered (s : Clients S) (i : ConnId) : Prop :=
  ∃ data, [Action.accepted data, .rearmed .close] <:+: s.threads.log i

/-- An event of a half-closed connection goes to a worker; the connection is watched or in the hands of a
worker as long as it is open; a worker that reads gets bytes as long as there are any; and the connection
stays until a `close` for it is applied, whose worker has read everything or answered for the last time. -/
structure HalfClosedServed (setup : Setup) (s : Clients S) : Prop where
  handed : ∀ ev events e, s.st.phase = .dispatching (ev :: events) → ev.fd ≠ setup.listenFd →
    s.st.connections ev.fd = some e → s.peer e.id = .halfClosed →
    ev.error = false ∧ (s.st.dispatch ev).tasks = s.st.tasks ++ [⟨ev.fd, e.id⟩]
  held : ∀ fd i, s.st.idAt fd = some i → s.peer i = .halfClosed → s.st.mask fd ≠ 0 ∨ ⟨fd, i⟩ ∈ s.st.tokens
  read : ∀ j w e, s.st.running[j]? = some w → s.st.connections w.task.fd = some e →
    s.peer e.id = .halfClosed → e.conn.unsent = [] → s.got e.id ≠ s.arrived e.id →
    ∀ env io, s.Allows setup (.system (.finish j env io)) →
      ∃ t data, step setup s (.system (.finish j env io)) = some t ∧ data ≠ [] ∧
        t.got e.id = s.got e.id ++ data ∧ t.got e.id <+: s.arrived e.id
  kept : ∀ (m : Move S) t fd i, s.st.idAt fd = some i → s.peer i = .halfClosed → s.Allows setup m →
    step setup s m = some t → t.st.idAt fd = some i ∨ ∃ rearms, m = .system .applyRearm ∧
      s.st.phase = .applying (⟨⟨fd, i⟩, .close⟩ :: rearms) ∧ (s.got i = s.arrived i ∨ s.Answered i)

end Clients

structure Faithful (setup : Setup) (peer : ConnId → Peer) (st : State) : Prop where
  batch : (st.phase.events.map IoEvent.fd).Nodup
  watched : ∀ fd, st.interest fd ≠ none → fd = setup.listenFd ∨ st.idAt fd ≠ none
  told : ∀ ev ∈ st.phase.events, ev.fd ≠ setup.listenFd →
    ∃ i, st.idAt ev.fd = some i ∧ (ev.error = true → peer i = .gone)

namespace Faithful

variable {S : Service} {setup : Setup} {peer : ConnId → Peer} {st st' : State}

lemma initial : Faithful setup peer setup.initial where
  batch := .nil
  watched fd hi := by
    left
    by_contra hf
    apply hi
    simp [Setup.initial, hf]
  told := by simp [Setup.initial, Phase.events]

lemma of_local (h : Faithful setup peer st) (fd : Fd)
    (hi : ∀ fd', fd' ≠ fd → st'.interest fd' = st.interest fd')
    (hc : ∀ fd', fd' ≠ fd → st'.idAt fd' = st.idAt fd')
    (hw : st'.interest fd ≠ none → fd = setup.listenFd ∨ st'.idAt fd ≠ none)
    (he : st'.phase.events.Sublist st.phase.events)
    (hev : ∀ ev ∈ st'.phase.events, ev.fd = fd → fd ≠ setup.listenFd → st'.idAt fd = st.idAt fd) :
    Faithful setup peer st' where
  batch := h.batch.sublist (he.map IoEvent.fd)
  watched fd' hn := by
    by_cases hf : fd' = fd
    · subst hf
      exact hw hn
    · rw [hi fd' hf] at hn
      rw [hc fd' hf]
      exact h.watched fd' hn
  told ev hm hl := by
    obtain ⟨i, ht, hg⟩ := h.told ev (he.subset hm) hl
    refine ⟨i, ?_, hg⟩
    by_cases hf : ev.fd = fd
    · subst hf
      exact (hev ev hm rfl hl).trans ht
    · exact (hc ev.fd hf).trans ht

lemma of_same (h : Faithful setup peer st) (hi : ∀ fd, st'.interest fd = st.interest fd)
    (hc : ∀ fd, st'.idAt fd = st.idAt fd) (he : st'.phase.events.Sublist st.phase.events) :
    Faithful setup peer st' := by
  refine h.of_local setup.listenFd (fun fd _ => hi fd) (fun fd _ => hc fd) (fun _ => Or.inl rfl) he ?_
  intro ev _ _ _
  exact hc _

lemma erase (h : Faithful setup peer st) (fd : Fd) {p : Phase} (he : p.events.Sublist st.phase.events)
    (hev : ∀ ev ∈ p.events, ev.fd ≠ fd) : Faithful setup peer { st.erase fd with phase := p } := by
  refine h.of_local fd ?_ ?_ ?_ he ?_
  · exact fun fd' hf => Function.update_of_ne hf _ _
  · exact fun fd' hf => (State.idAt_erase st fd fd').trans (if_neg hf)
  · exact fun hn => absurd (Function.update_self _ _ _) hn
  · exact fun ev hm hf => absurd hf (hev ev hm)

lemma modify (h : Faithful setup peer st) {fd : Fd} (hc : st.idAt fd ≠ none) (m : UInt8)
    {tasks : List Task} {p : Phase} (he : p.events.Sublist st.phase.events) :
    Faithful setup peer { st.modify fd m with tasks := tasks, phase := p } :=
  h.of_local fd (fun _ hf => Function.update_of_ne hf _ _) (fun _ _ => rfl) (fun _ => Or.inr hc) he
    (fun _ _ _ _ => rfl)

lemma applyRearm (h : Faithful setup peer st) (r : PendingRearm) (rearms : List PendingRearm) :
    Faithful setup peer { st.applyRearm r with phase := .applying rearms } := by
  have he : (Phase.applying rearms).events.Sublist st.phase.events := List.nil_sublist _
  rw [State.applyRearm]
  cases hc : st.connections r.task.fd with
  | none => exact h.of_same (fun _ => rfl) (fun _ => rfl) he
  | some e =>
    have hi : st.idAt r.task.fd ≠ none := by simp [State.idAt, hc]
    cases r.action with
    | waitReadable => exact h.modify hi _ he
    | waitWritable => exact h.modify hi _ he
    | close => exact h.erase _ he (by simp [Phase.events])

lemma dispatch (h : Faithful setup peer st) {ev : IoEvent} {events : List IoEvent}
    (hp : st.phase = .dispatching (ev :: events)) :
    Faithful setup peer { st.dispatch ev with phase := .dispatching events } := by
  have he : (Phase.dispatching events).events.Sublist st.phase.events := by
    rw [hp]
    exact List.sublist_cons_self ev events
  have hb := h.batch
  rw [hp] at hb
  have hn := (List.nodup_cons.mp hb).1
  rw [State.dispatch]
  cases hc : st.connections ev.fd with
  | none => exact h.of_same (fun _ => rfl) (fun _ => rfl) he
  | some e =>
    dsimp only
    split_ifs
    · exact h.erase _ he fun ev' hm hf => hn (List.mem_map.mpr ⟨ev', hm, hf⟩)
    · exact h.modify (by simp [State.idAt, hc]) 0 he

lemma accept (h : Faithful setup peer st) {fd : Fd} (hl : fd ≠ setup.listenFd)
    (hc : st.connections fd = none) : Faithful setup peer (st.accept fd) := by
  refine h.of_local fd ?_ ?_ ?_ (.refl _) ?_
  · exact fun fd' hf => Function.update_of_ne hf _ _
  · exact fun fd' hf => (State.idAt_accept st fd fd').trans (if_neg hf)
  · exact fun _ => Or.inr (by simp)
  · -- an event of the batch names an open connection, and this descriptor has none
    intro ev hm hf hn
    obtain ⟨i, hi, -⟩ := h.told ev hm (hf ▸ hl)
    rw [hf, State.idAt, hc] at hi
    cases hi

lemma wait (h : Faithful setup peer st) {events : List IoEvent} (hn : (events.map IoEvent.fd).Nodup)
    (hw : ∀ ev ∈ events, st.interest ev.fd ≠ none)
    (hg : ∀ ev ∈ events, ev.error = true → ∀ i, st.idAt ev.fd = some i → peer i = .gone) :
    Faithful setup peer { st with phase := .dispatching events } where
  batch := hn
  watched := h.watched
  told ev hm hl := by
    obtain ⟨i, hi⟩ := Option.ne_none_iff_exists'.mp ((h.watched ev.fd (hw ev hm)).resolve_left hl)
    exact ⟨i, hi, fun he => hg ev hm he i hi⟩

lemma of_peer (h : Faithful setup peer st) {peer' : ConnId → Peer}
    (hg : ∀ i, peer i = .gone → peer' i = .gone) : Faithful setup peer' st where
  batch := h.batch
  watched := h.watched
  told ev hm hl := by
    obtain ⟨i, hi, he⟩ := h.told ev hm hl
    exact ⟨i, hi, fun herr => hg i (he herr)⟩

lemma step {l : Label S} (h : Faithful setup peer st) (hn : ∀ events, l ≠ .wait events)
    (hs : System.step S setup st l = some st') : Faithful setup peer st' := by
  cases step_moves hs with
  | swapRearms hp => exact h.of_same (fun _ => rfl) (fun _ => rfl) (List.nil_sublist _)
  | applyRearm r rearms hp => exact h.applyRearm r rearms
  | wait events => exact absurd rfl (hn events)
  | listen ev events hp =>
    refine h.of_same (fun _ => rfl) (fun _ => rfl) ?_
    rw [hp]
    exact List.sublist_cons_self ev events
  | dispatch ev events hp => exact h.dispatch hp
  | accept fd events hp hf hc => exact h.accept hf hc
  | acceptDone events hp =>
    refine h.of_same (fun _ => rfl) (fun _ => rfl) ?_
    rw [hp]
    exact .refl _
  | start task tasks ht =>
    rw [State.start]
    split
    · exact h.of_same (fun _ => rfl) (fun _ => rfl) (.refl _)
    · exact h.of_same (fun _ => rfl) (fun _ => rfl) (.refl _)
  | finish i env io w e hw he => exact h.of_same (fun _ => rfl) (State.idAt_finish he) (.refl _)

lemma error (h : Faithful setup peer st) {ev : IoEvent} {events : List IoEvent} {i : ConnId}
    (hp : st.phase = .dispatching (ev :: events)) (hl : ev.fd ≠ setup.listenFd)
    (hi : st.idAt ev.fd = some i) (hg : peer i ≠ .gone) : ev.error = false := by
  obtain ⟨j, hj, he⟩ := h.told ev (by simp [hp, Phase.events]) hl
  obtain rfl : i = j := Option.some.inj (hi.symm.trans hj)
  exact Bool.not_eq_true _ ▸ fun hh => hg (he hh)

lemma idAt_dispatch (h : Faithful setup peer st) {ev : IoEvent} {events : List IoEvent} {fd : Fd}
    {i : ConnId} (hp : st.phase = .dispatching (ev :: events)) (hl : ev.fd ≠ setup.listenFd)
    (hi : st.idAt fd = some i) (hg : peer i ≠ .gone) : (st.dispatch ev).idAt fd = some i := by
  rw [State.dispatch]
  split
  · exact hi
  · split_ifs with he
    · rw [State.idAt_erase, if_neg, hi]
      rintro rfl
      exact Bool.noConfusion ((h.error hp hl hi hg).symm.trans he)
    · exact hi

end Faithful

/-- What refers to a descriptor refers to the connection that is open on it, and an open connection is
watched or referred to. -/
structure Named (st : State) : Prop where
  named : ∀ t ∈ st.tokens, ∀ i, st.idAt t.fd = some i → t.conn = i
  found : ∀ w ∈ st.running, w.found = w.task.conn
  held : ∀ fd i, st.idAt fd = some i → st.mask fd ≠ 0 ∨ ⟨fd, i⟩ ∈ st.tokens

namespace Named

variable {S : Service} {setup : Setup} {st st' : State}

lemma initial : Named setup.initial where
  named := by simp [Setup.initial, State.idAt]
  found := by simp [Setup.initial]
  held := by simp [Setup.initial, State.idAt]

lemma of_perm (h : Named st) (hp : st'.tokens.Perm st.tokens) (hi : ∀ fd, st'.idAt fd = st.idAt fd)
    (hm : ∀ fd, st'.mask fd = st.mask fd) (hw : ∀ w ∈ st'.running, w.found = w.task.conn) : Named st' where
  named t ht := by
    rw [hi]
    exact h.named t (hp.mem_iff.mp ht)
  found := hw
  held fd i hf := by
    rw [hm, hp.mem_iff]
    exact h.held fd i (hi fd ▸ hf)

lemma of_local (h : Named st) (fd : Fd) (hi : ∀ fd', fd' ≠ fd → st'.idAt fd' = st.idAt fd')
    (hm : ∀ fd', fd' ≠ fd → st'.mask fd' = st.mask fd') (hr : st'.running = st.running)
    (ht : ∀ t, t.fd ≠ fd → (t ∈ st'.tokens ↔ t ∈ st.tokens))
    (hn : ∀ t ∈ st'.tokens, t.fd = fd → ∀ i, st'.idAt fd = some i → t.conn = i)
    (hh : ∀ i, st'.idAt fd = some i → st'.mask fd ≠ 0 ∨ ⟨fd, i⟩ ∈ st'.tokens) : Named st' where
  named t hmem := by
    by_cases hf : t.fd = fd
    · rw [hf]
      exact hn t hmem hf
    · rw [hi _ hf]
      exact h.named t ((ht t hf).mp hmem)
  found := hr ▸ h.found
  held fd' i hf' := by
    by_cases hf : fd' = fd
    · subst hf
      exact hh i hf'
    · rw [hm _ hf, ht ⟨fd', i⟩ hf]
      exact h.held fd' i (hi fd' hf ▸ hf')

lemma applyRearm (h : Named st) {r : PendingRearm} {rearms : List PendingRearm}
    (hs : st.phase = .applying (r :: rearms)) : Named { st.applyRearm r with phase := .applying rearms } := by
  have hp := State.tokens_applying hs
  have ht : ∀ t : Task, t.fd ≠ r.task.fd →
      (t ∈ State.tokens { st with phase := .applying rearms } ↔ t ∈ st.tokens) := by
    intro t hf
    rw [hp.mem_iff, List.mem_cons, or_iff_right]
    rintro rfl
    exact hf rfl
  have hn : ∀ t ∈ State.tokens { st with phase := .applying rearms }, t.fd = r.task.fd →
      ∀ i, st.idAt r.task.fd = some i → t.conn = i :=
    fun t hmem hf i hi => h.named t (hp.mem_iff.mpr (List.mem_cons_of_mem _ hmem)) i (hf ▸ hi)
  have hmod : ∀ m, m ≠ 0 → Named { st.modify r.task.fd m with phase := .applying rearms } := by
    intro m hm
    refine h.of_local r.task.fd (fun _ _ => rfl) ?_ rfl ht hn fun _ _ => Or.inl ?_
    · exact fun fd' hf => (State.mask_modify st r.task.fd fd' m).trans (if_neg hf)
    · exact ((State.mask_modify st r.task.fd r.task.fd m).trans (if_pos rfl)).trans_ne hm
  rw [State.applyRearm]
  cases hc : st.connections r.task.fd with
  | none =>
    refine h.of_local r.task.fd (fun _ _ => rfl) (fun _ _ => rfl) rfl ht hn fun i hi => ?_
    change (st.connections r.task.fd).map Entry.id = some i at hi
    rw [hc] at hi
    cases hi
  | some e =>
    cases r.action with
    | waitReadable => exact hmod _ (by decide)
    | waitWritable => exact hmod _ (by decide)
    | close =>
      have hclosed : ∀ i, (st.erase r.task.fd).idAt r.task.fd ≠ some i := by simp
      refine h.of_local r.task.fd ?_ ?_ rfl ht ?_ ?_
      · exact fun fd' hf => (State.idAt_erase st r.task.fd fd').trans (if_neg hf)
      · exact fun fd' hf => (State.mask_erase st r.task.fd fd').trans (if_neg hf)
      · exact fun t _ _ i hi => absurd hi (hclosed i)
      · exact fun i hi => absurd hi (hclosed i)

lemma dispatch (h : Named st) {ev : IoEvent} {events : List IoEvent}
    (hs : st.phase = .dispatching (ev :: events)) :
    Named { st.dispatch ev with phase := .dispatching events } := by
  have ht : State.tokens { st with phase := .dispatching events } = st.tokens :=
    State.tokens_phase (by rw [hs]; rfl)
  rw [State.dispatch]
  cases hc : st.connections ev.fd with
  | none => exact h.of_perm (.of_eq ht) (fun _ => rfl) (fun _ => rfl) h.found
  | some e =>
    have hid : st.idAt ev.fd = some e.id := by rw [State.idAt, hc]; rfl
    dsimp only
    split_ifs
    · have hclosed : ∀ i, (st.erase ev.fd).idAt ev.fd ≠ some i := by simp
      refine h.of_local ev.fd ?_ ?_ rfl ?_ ?_ ?_
      · exact fun fd' hf => (State.idAt_erase st ev.fd fd').trans (if_neg hf)
      · exact fun fd' hf => (State.mask_erase st ev.fd fd').trans (if_neg hf)
      · exact fun t _ => iff_of_eq (congrArg (t ∈ ·) ht)
      · exact fun t _ _ i hi => absurd hi (hclosed i)
      · exact fun i hi => absurd hi (hclosed i)
    · have hp := State.tokens_dispatched (e := e) hs
      refine h.of_local ev.fd (fun _ _ => rfl) ?_ rfl ?_ ?_ ?_
      · exact fun fd' hf => (State.mask_modify st ev.fd fd' 0).trans (if_neg hf)
      · intro t hf
        rw [hp.mem_iff, List.mem_cons, or_iff_right]
        rintro rfl
        exact hf rfl
      · intro t hmem hf i hi
        rcases List.mem_cons.mp (hp.mem_iff.mp hmem) with rfl | hmem
        · exact Option.some.inj (hid.symm.trans hi)
        · exact h.named t hmem i (hf ▸ hi)
      · intro i hi
        obtain rfl : e.id = i := Option.some.inj (hid.symm.trans hi)
        exact Or.inr (hp.mem_iff.mpr List.mem_cons_self)

lemma accept (h : Named st) {fd : Fd} (hf : ∀ t ∈ st.tokens, t.fd ≠ fd) : Named (st.accept fd) := by
  refine h.of_local fd ?_ ?_ rfl (fun _ _ => Iff.rfl) ?_ fun _ _ => Or.inl ?_
  · exact fun fd' hne => (State.idAt_accept st fd fd').trans (if_neg hne)
  · exact fun fd' hne => (State.mask_accept st fd fd').trans (if_neg hne)
  · exact fun t ht he => absurd he (hf t ht)
  · exact ((State.mask_accept st fd fd).trans (if_pos rfl)).trans_ne (by decide)

lemma start (h : Named st) {task : Task} {tasks : List Task} (hs : st.tasks = task :: tasks) :
    Named (st.start task tasks) := by
  have htask : task ∈ st.tokens := by simp [State.tokens, hs]
  cases hc : st.connections task.fd with
  | none =>
    have hp : st.tokens = task :: State.tokens { st with tasks := tasks } := by simp [State.tokens, hs]
    rw [State.start, hc]
    refine ⟨fun t ht => h.named t (hp ▸ List.mem_cons_of_mem _ ht), h.found, fun fd i hi => ?_⟩
    refine (h.held fd i hi).imp_right fun hmem => ?_
    rw [hp, List.mem_cons] at hmem
    refine hmem.resolve_left ?_
    rintro rfl
    obtain ⟨c, hi⟩ := State.idAt_eq_some_iff.mp hi
    exact Option.some_ne_none _ (hi.symm.trans hc)
  | some e =>
    have hid : st.idAt task.fd = some e.id := by rw [State.idAt, hc]; rfl
    have hp := State.tokens_start hs hc
    rw [State.start, hc] at hp ⊢
    refine h.of_perm hp (fun _ => rfl) (fun _ => rfl) fun w hw => ?_
    rcases List.mem_append.mp hw with hw | hw
    · exact h.found w hw
    · rw [List.mem_singleton.mp hw]
      exact (h.named task htask e.id hid).symm

lemma finish (h : Named st) {i : ℕ} {w : Worker} {e : Entry} (env : S.Env) (io : ClientCalls)
    (hw : st.running[i]? = some w) (hc : st.connections w.task.fd = some e) :
    Named (st.finish i w.task e (S.handleEvent env io e.conn)) := by
  refine h.of_perm (State.tokens_finish e env io hw) (State.idAt_finish hc) (fun _ => rfl) fun w' hw' => ?_
  exact h.found w' (List.mem_of_mem_eraseIdx hw')

lemma step {l : Label S} (h : Named st) (ha : ∀ fd, l = .accept fd → ∀ t ∈ st.tokens, t.fd ≠ fd)
    (hs : System.step S setup st l = some st') : Named st' := by
  have hphase : ∀ {p : Phase}, p.rearms = st.phase.rearms → Named { st with phase := p } := fun hp =>
    h.of_perm (.of_eq (State.tokens_phase hp)) (fun _ => rfl) (fun _ => rfl) h.found
  cases step_moves hs with
  | swapRearms hp =>
    refine h.of_perm (.of_eq ?_) (fun _ => rfl) (fun _ => rfl) h.found
    simp [State.tokens, hp, Phase.rearms]
  | applyRearm r rearms hp => exact h.applyRearm hp
  | wait events hp => exact hphase (by rw [hp]; rfl)
  | listen ev events hp => exact hphase (by rw [hp]; rfl)
  | dispatch ev events hp => exact h.dispatch hp
  | accept fd events hp hf hc => exact h.accept (ha fd rfl)
  | acceptDone events hp => exact hphase (by rw [hp]; rfl)
  | start task tasks ht => exact h.start ht
  | finish i env io w e hw he => exact h.finish env io hw he

end Named

section Handlers

variable {S : Service} {env : S.Env} {io : ClientCalls} {conn : Connection}

lemma received_of_read {data : Bytes} (hu : conn.unsent = []) (hr : io.recv = .received data) :
    (received (S.handleEvent env io conn).2).flatten = data := by
  by_cases hd : data = []
  · rw [Service.handleEvent, conn.hasPendingWrite_eq_false.mpr hu, hr, hd]
    rfl
  · rw [Service.handleEvent_read hu hr hd, Service.handleData]
    dsimp only
    cases (conn.parser.consume data).2 with
    | needMoreData | error => simp [received, Service.handleError]
    | complete =>
      dsimp only
      rw [Service.handleComplete_eq env io rfl]
      simp [received]

lemma received_of_silence (h : conn.unsent ≠ [] ∨ io.recv = .again ∨ io.recv = .failed) :
    (received (S.handleEvent env io conn).2).flatten = [] := by
  by_cases hu : conn.unsent = []
  · rcases h.resolve_left (not_not.mpr hu) with hr | hr
    · rw [Service.handleEvent_again hu hr]
      rfl
    · rw [Service.handleEvent, conn.hasPendingWrite_eq_false.mpr hu, hr]
      rfl
  · rw [Service.handleEvent_pending hu, Service.handlePending_eq]
    rfl

lemma handleEvent_closes (h : .close ∈ rearms (S.handleEvent env io conn).2) :
    (conn.unsent = [] ∧ (io.recv = .received [] ∨ io.recv = .failed)) ∨
      ∃ data, [Action.accepted data, .rearmed .close] <:+: (S.handleEvent env io conn).2 := by
  by_cases hu : conn.unsent = []
  · cases hr : io.recv with
    | again =>
      rw [Service.handleEvent_again hu hr] at h
      simp [rearms] at h
    | failed => exact Or.inl ⟨hu, Or.inr rfl⟩
    | received data =>
      by_cases hd : data = []
      · exact Or.inl ⟨hu, Or.inl (hd ▸ rfl)⟩
      · right
        rw [Service.handleEvent_read hu hr hd, Service.handleData] at h ⊢
        dsimp only at h ⊢
        cases hc : (conn.parser.consume data).2 with
        | needMoreData => simp [hc, rearms] at h
        | error =>
          simp only [hc, Service.handleError, rearms, List.filterMap_cons, List.filterMap_nil,
            List.mem_singleton] at h ⊢
          rw [← h]
          exact ⟨_, [_, _], [], rfl⟩
        | complete =>
          simp only [hc] at h ⊢
          rw [Service.handleComplete_eq env io rfl] at h ⊢
          simp only [rearms, List.filterMap_cons, List.filterMap_nil, List.mem_singleton] at h
          rw [← h]
          exact ⟨_, [_, _, _], [], rfl⟩
  · right
    rw [Service.handleEvent_pending hu, Service.handlePending_eq] at h ⊢
    simp only [rearms, List.filterMap_cons, List.filterMap_nil, List.mem_singleton] at h
    rw [← h]
    exact ⟨_, [], [], rfl⟩

end Handlers

namespace Clients

variable {S : Service} {setup : Setup} {s t : Clients S} {m : Move S}

def Done (s : Clients S) (i : ConnId) : Prop :=
  s.peer i = .gone ∨ (s.peer i ≠ .connected ∧ s.got i = s.arrived i) ∨ s.Answered i

structure Accounted (s : Clients S) : Prop where
  taken : ∀ i, s.got i <+: s.arrived i
  closes : ∀ r ∈ s.st.pendingRearms ++ s.st.phase.rearms, r.action = .close → s.Done r.task.conn

lemma Answered.mono {s t : Clients S} {i : ConnId} (h : s.Answered i)
    (hl : s.threads.log i <+: t.threads.log i) : t.Answered i :=
  h.imp fun _ hd => hd.trans hl.isInfix

lemma Done.mono {s t : Clients S} {i : ConnId} (h : s.Done i) (hp : t.peer i = s.peer i)
    (ha : t.arrived i = s.arrived i) (hl : s.threads.log i <+: t.threads.log i)
    (ht : t.got i <+: t.arrived i) : t.Done i := by
  rcases h with hg | ⟨hc, hg⟩ | hd
  · exact Or.inl (hp.trans hg)
  · refine Or.inr (Or.inl ⟨hp.trans_ne hc, ?_⟩)
    obtain ⟨more, hl⟩ := hl
    have hgot : t.got i = s.got i ++ (received more).flatten := by
      rw [got, got, ← hl, received_append, List.flatten_append]
    rw [ha, ← hg, hgot] at ht ⊢
    have hn := ht.length_le
    rw [List.length_append] at hn
    rw [List.length_eq_zero_iff.mp (by omega : (received more).flatten.length = 0), List.append_nil]
  · exact Or.inr (Or.inr (hd.mono hl))

namespace Accounted

lemma create : Accounted (Clients.create setup : Clients S) where
  taken _ := List.nil_prefix
  closes := by simp [Clients.create, Recorded.initial, Setup.initial, Phase.rearms]

lemma of_log (h : Accounted s) {st : State}
    (hr : ∀ r ∈ st.pendingRearms ++ st.phase.rearms, r ∈ s.st.pendingRearms ++ s.st.phase.rearms) :
    Accounted { s with threads := { s.threads with st } } where
  taken := h.taken
  closes r hm ha := h.closes r (hr r hm) ha

lemma received_taken {env : S.Env} {io : ClientCalls} {conn : Connection} {p : Peer} {got arrived : Bytes}
    (h : got <+: arrived) (hr : conn.unsent = [] → p.Receives got arrived io.recv) :
    got ++ (received (S.handleEvent env io conn).2).flatten <+: arrived := by
  by_cases hu : conn.unsent = []
  · have hrecv := hr hu
    cases hio : io.recv with
    | received data =>
      rw [received_of_read hu hio]
      cases data with
      | nil => rwa [List.append_nil]
      | cons b bs =>
        rw [hio] at hrecv
        exact hrecv
    | again => rwa [received_of_silence (Or.inr (Or.inl hio)), List.append_nil]
    | failed => rwa [received_of_silence (Or.inr (Or.inr hio)), List.append_nil]
  · rwa [received_of_silence (Or.inl hu), List.append_nil]

lemma finish (h : Accounted s) (hn : Named s.st) {j : ℕ} {w : Worker} {e : Entry} {env : S.Env}
    {io : ClientCalls} (hw : s.st.running[j]? = some w) (hc : s.st.connections w.task.fd = some e)
    (hr : e.conn.unsent = [] → (s.peer e.id).Receives (s.got e.id) (s.arrived e.id) io.recv)
    (hs : t.peer = s.peer) (ha : t.arrived = s.arrived)
    (hst : t.st = s.st.finish j w.task e (S.handleEvent env io e.conn))
    (hlog : t.threads.log = Function.update s.threads.log e.id
      (s.threads.log e.id ++ (S.handleEvent env io e.conn).2)) : Accounted t := by
  have hself : t.threads.log e.id = s.threads.log e.id ++ (S.handleEvent env io e.conn).2 := by
    rw [hlog, Function.update_self]
  have hmore : ∀ i, s.threads.log i <+: t.threads.log i := by
    intro i
    by_cases hi : i = e.id
    · rw [hi, hself]
      exact List.prefix_append _ _
    · rw [hlog, Function.update_of_ne hi]
  have hgot : t.got e.id = s.got e.id ++ (received (S.handleEvent env io e.conn).2).flatten := by
    rw [got, hself, received_append, List.flatten_append, ← got]
  have htaken : ∀ i, t.got i <+: t.arrived i := by
    intro i
    by_cases hi : i = e.id
    · rw [hi, hgot, ha]
      exact received_taken (h.taken e.id) hr
    · rw [got, hlog, Function.update_of_ne hi, ha]
      exact h.taken i
  refine ⟨htaken, fun r hm hcl => ?_⟩
  rw [hst, State.finish] at hm
  simp only [List.append_assoc, List.mem_append, List.mem_map] at hm
  have hold : ∀ r ∈ s.st.pendingRearms ++ s.st.phase.rearms, r.action = .close → t.Done r.task.conn :=
    fun r hr hcl => (h.closes r hr hcl).mono (by rw [hs]) (by rw [ha]) (hmore _) (htaken _)
  rcases hm with hm | ⟨a, hm, rfl⟩ | hm
  · exact hold r (List.mem_append_left _ hm) hcl
  · have hid : w.task.conn = e.id := by
      refine hn.named w.task (State.mem_tokens_held ?_) e.id (by rw [State.idAt, hc]; rfl)
      exact List.mem_append_right _ (List.mem_map_of_mem (List.mem_of_getElem? hw))
    dsimp only at hcl ⊢
    subst hcl
    rw [hid]
    rcases handleEvent_closes hm with ⟨hu, hio | hio⟩ | ⟨data, hd⟩
    · have hrecv := hr hu
      rw [hio] at hrecv
      rcases hrecv with hg | ⟨hp, hg⟩
      · exact Or.inl (hs ▸ hg)
      · refine Or.inr (Or.inl ⟨by rw [hs, hp]; decide, ?_⟩)
        rw [hgot, received_of_read hu hio, List.append_nil, hg, ha]
    · have hrecv := hr hu
      rw [hio] at hrecv
      exact Or.inl (hs ▸ hrecv)
    · exact Or.inr (Or.inr ⟨data, hd.trans (hself ▸ (List.suffix_append _ _).isInfix)⟩)
  · exact hold r (List.mem_append_right _ hm) hcl

lemma arrive (h : Accounted s) {c : ConnId} (hc : s.peer c = .connected) (data : Bytes) :
    Accounted { s with arrived := Function.update s.arrived c (s.arrived c ++ data) } := by
  have hne : ∀ i, s.arrived i <+: Function.update s.arrived c (s.arrived c ++ data) i := by
    intro i
    rw [Function.update_apply]
    split_ifs with hi
    · exact hi ▸ List.prefix_append _ _
    · exact List.prefix_rfl
  refine ⟨fun i => (h.taken i).trans (hne i), fun r hr hcl => ?_⟩
  rcases h.closes r hr hcl with hg | ⟨hp, hg⟩ | hd
  · exact Or.inl hg
  · refine Or.inr (Or.inl ⟨hp, ?_⟩)
    have hi : r.task.conn ≠ c := by
      rintro rfl
      exact hp hc
    exact hg.trans (Function.update_of_ne hi _ _).symm
  · exact Or.inr (Or.inr hd)

lemma of_peer (h : Accounted s) {peer : ConnId → Peer} (hg : ∀ i, s.peer i = .gone → peer i = .gone)
    (hc : ∀ i, s.peer i ≠ .connected → peer i ≠ .connected) : Accounted { s with peer } where
  taken := h.taken
  closes r hr hcl :=
    (h.closes r hr hcl).imp (hg _) fun hd => hd.imp_left fun hh => ⟨hc _ hh.1, hh.2⟩

end Accounted

lemma poll_events (hp : ∀ fd i, setup.backend = .kqueue → s.st.idAt fd = some i → s.peer i = .halfClosed →
      wants (s.st.mask fd) .read = false)
    {report : Report} (h : s.Allows setup (.poll report)) :
    ∀ ev ∈ report.events, ev.error = true → ∀ i, s.st.idAt ev.fd = some i → s.peer i = .gone := by
  obtain ⟨hr, ht⟩ := h
  intro ev hev he i hi
  have hpeer : s.peerAt ev.fd = some (s.peer i) := by rw [peerAt, hi]; rfl
  cases hb : setup.backend with
  | kqueue =>
    rw [hb] at hr
    cases report with
    | kevents ks out =>
      obtain ⟨k, hm, hk, herr⟩ := (KqueueReactor.mem_wait_iff.mp (hr.1.mem_iff.mp hev)).1.error.mp he
      have hwant := hr.2 k hm
      rw [hk] at hwant
      obtain ⟨hread, hwrite, hgone⟩ := ht k hm (s.peer i) (hk ▸ hpeer)
      rcases herr with herr | herr
      · exact hgone herr
      · cases hf : k.filter with
        | read =>
          have hn := (hread hf).mp herr
          rw [hf] at hwant
          cases hs : s.peer i with
          | connected => exact absurd hs hn
          | halfClosed => exact absurd (hwant.symm.trans (hp ev.fd i hb hi hs)) (by decide)
          | gone => rfl
        | write => exact hwrite hf herr
    | epollEvents es => exact hr.elim
  | epoll =>
    rw [hb] at hr
    cases report with
    | kevents ks out => exact hr.elim
    | epollEvents es =>
      obtain ⟨e, hm, rfl⟩ := List.mem_map.mp hev
      exact ht e hm (by simpa using he) (s.peer i) hpeer

structure Kept (setup : Setup) (s : Clients S) : Prop where
  faithful : Faithful setup s.peer s.st
  named : Named s.st
  owned : setup.backend = .kqueue → Inv setup s.st
  accounted : Accounted s

lemma Kept.create : Kept setup (Clients.create setup : Clients S) where
  faithful := Faithful.initial
  named := Named.initial
  owned _ := Inv.initial
  accounted := Accounted.create

lemma Kept.fresh (h : Kept setup s) {fd : Fd} (hc : s.st.connections fd = none)
    (hp : setup.backend = .epoll → ∀ t ∈ s.st.tokens, t.fd ≠ fd) : ∀ t ∈ s.st.tokens, t.fd ≠ fd := by
  cases hb : setup.backend with
  | kqueue =>
    -- under kqueue nothing outlives a connection
    rintro t ht rfl
    have hl := ((h.owned hb).live ht).1
    rw [State.idAt, hc] at hl
    exact Option.some_ne_none _ hl.symm
  | epoll => exact hp hb

lemma reports_registered {b : Backend} {st : State} {ev : IoEvent} (h : b.Reports st ev) :
    st.interest ev.fd ≠ none := by
  cases b with
  | kqueue =>
    intro hn
    exact h.2 (by rw [State.mask, hn]; rfl)
  | epoll => exact h.2.1

lemma record_st (rec : Recorded S) (st : State) (l : Label S) : (rec.record st l).st = st := by
  rw [Recorded.record.eq_def]
  split
  · split <;> rfl
  · rfl

lemma step_threads {l : Label S} {threads : Recorded S} (hs : Recorded.step setup s.threads l = some threads) :
    ∃ st, System.step S setup s.st l = some st ∧ threads.st = st := by
  obtain ⟨st, hst, rfl⟩ := Recorded.step_state hs
  exact ⟨st, hst, record_st _ _ _⟩

lemma Kept.accounted_step (h : Kept setup s) {l : Label S} (ha : ∀ j env io, l = .finish j env io →
      s.Allows setup (.system (.finish j env io)))
    {threads : Recorded S} (hs : Recorded.step setup s.threads l = some threads) :
    Accounted { s with threads } := by
  obtain ⟨st, hst, rfl⟩ := Recorded.step_state hs
  have hb := h.accounted
  cases step_moves hst with
  | swapRearms hp | wait events hp | listen ev events hp | acceptDone events hp =>
    refine hb.of_log fun r hr => ?_
    simpa [hp, Phase.rearms] using hr
  | applyRearm r rearms hp =>
    refine hb.of_log fun r' hr => ?_
    rw [(s.st.applyRearm_keeps r).2.2.1] at hr
    rw [hp]
    exact List.mem_append.mpr ((List.mem_append.mp hr).imp_right fun hm => List.mem_cons_of_mem _ hm)
  | dispatch ev events hp =>
    refine hb.of_log fun r hr => ?_
    rw [(s.st.dispatch_keeps ev).2.2] at hr
    rw [hp]
    exact hr
  | accept fd => exact hb.of_log fun _ hr => hr
  | start task tasks ht =>
    obtain ⟨-, -, hq, hp⟩ := s.st.start_keeps task tasks
    refine hb.of_log fun r hr => ?_
    rwa [hq, hp] at hr
  | finish j env io w e hw hc =>
    refine hb.finish h.named hw hc (ha j env io rfl w hw e hc) rfl rfl (record_st _ _ _) ?_
    rw [Recorded.record, hw, Option.bind_some, hc]

lemma Kept.of_threads {threads : Recorded S} {st : State} (he : threads.st = st)
    (hf : Faithful setup s.peer st) (hn : Named st) (ho : setup.backend = .kqueue → Inv setup st)
    (ha : Accounted { s with threads }) : Kept setup { s with threads } := by
  subst he
  exact ⟨hf, hn, ho, ha⟩

lemma Kept.step (h : Kept setup s) (ha : s.Allows setup m) (hp : s.Spared setup m)
    (hs : step setup s m = some t) : Kept setup t := by
  cases m with
  | system l =>
    obtain ⟨threads, hth, rfl⟩ := Option.map_eq_some_iff.mp hs
    obtain ⟨st, hst, he⟩ := step_threads hth
    refine .of_threads he (h.faithful.step ?_ hst) (h.named.step ?_ hst)
      (fun hb => inv_step (h.owned hb) (Or.inl hb) hst) (h.accounted_step ?_ hth)
    · rintro events rfl
      exact ha
    · rintro fd rfl
      cases step_moves hst with
      | accept _ events _ _ hc => exact h.fresh hc hp
    · rintro j env io rfl
      exact ha
  | poll report =>
    obtain ⟨threads, hth, rfl⟩ := Option.map_eq_some_iff.mp hs
    obtain ⟨st, hst, he⟩ := step_threads hth
    have hg := poll_events (fun fd i hb => hp hb fd i) ha
    refine .of_threads he ?_ (h.named.step ?_ hst) (fun hb => inv_step (h.owned hb) (Or.inl hb) hst)
      (h.accounted_step ?_ hth)
    · cases step_moves hst with
      | wait _ hphase hnodup hrep =>
        exact h.faithful.wait hnodup (fun ev hev => reports_registered (hrep ev hev)) hg
    · rintro fd ⟨⟩
    · rintro j env io ⟨⟩
  | arrive c data =>
    obtain rfl := Option.some.inj hs
    exact ⟨h.faithful, h.named, h.owned, h.accounted.arrive ha data⟩
  | halfClose c =>
    obtain rfl := Option.some.inj hs
    have hg : ∀ i, s.peer i = .gone → Function.update s.peer c .halfClosed i = .gone := by
      intro i hi
      rw [Function.update_of_ne, hi]
      rintro rfl
      exact Peer.noConfusion (hi.symm.trans ha)
    refine ⟨h.faithful.of_peer hg, h.named, h.owned, h.accounted.of_peer hg fun i hi => ?_⟩
    rw [Function.update_apply]
    split_ifs
    · decide
    · exact hi
  | hangUp c =>
    obtain rfl := Option.some.inj hs
    have hg : ∀ i, s.peer i = .gone → Function.update s.peer c .gone i = .gone := by
      intro i hi
      rw [Function.update_apply]
      split_ifs
      · rfl
      · exact hi
    refine ⟨h.faithful.of_peer hg, h.named, h.owned, h.accounted.of_peer hg fun i hi => ?_⟩
    rw [Function.update_apply]
    split_ifs
    · decide
    · exact hi

lemma Kept.read (h : Kept setup s) {j : ℕ} {w : Worker} {e : Entry} (hw : s.st.running[j]? = some w)
    (hc : s.st.connections w.task.fd = some e) (hp : s.peer e.id = .halfClosed) (hu : e.conn.unsent = [])
    (hg : s.got e.id ≠ s.arrived e.id) {env : S.Env} {io : ClientCalls}
    (ha : s.Allows setup (.system (.finish j env io))) :
    ∃ t data, Clients.step setup s (.system (.finish j env io)) = some t ∧ data ≠ [] ∧
      t.got e.id = s.got e.id ++ data ∧ t.got e.id <+: s.arrived e.id := by
  have hfound : e.id = w.found := by
    have hid : s.st.idAt w.task.fd = some e.id := by rw [State.idAt, hc]; rfl
    have hmem := List.mem_of_getElem? hw
    rw [h.named.found w hmem]
    refine (h.named.named w.task (State.mem_tokens_held ?_) e.id hid).symm
    exact List.mem_append_right _ (List.mem_map_of_mem hmem)
  have hrecv := ha w hw e hc hu
  rw [hp] at hrecv
  obtain ⟨b, bs, hio⟩ : ∃ b bs, io.recv = .received (b :: bs) := by
    cases hio : io.recv with
    | received data =>
      cases data with
      | nil => simp_all [Peer.Receives]
      | cons b bs => exact ⟨b, bs, rfl⟩
    | again | failed => simp_all [Peer.Receives]
  let st := s.st.finish j w.task e (S.handleEvent env io e.conn)
  have hs : System.step S setup s.st (.finish j env io) = some st := by
    simp only [System.step, hw, hc, if_pos hfound, st]
  have hlog : (s.threads.record st (.finish j env io)).log e.id =
      s.threads.log e.id ++ (S.handleEvent env io e.conn).2 := by
    rw [Recorded.record, hw, Option.bind_some, hc]
    exact Function.update_self ..
  have hgot : got { s with threads := s.threads.record st (.finish j env io) } e.id =
      s.got e.id ++ b :: bs := by
    rw [got, hlog, received_append, List.flatten_append, received_of_read hu hio, ← got]
  refine ⟨_, b :: bs, by rw [Clients.step, Recorded.step, hs]; rfl, by simp, hgot, ?_⟩
  rw [hgot]
  rw [hio] at hrecv
  exact hrecv

lemma Kept.idAt_step (h : Kept setup s) {l : Label S} {st : State} (hs : System.step S setup s.st l = some st)
    {fd : Fd} {i : ConnId} (hi : s.st.idAt fd = some i) (hp : s.peer i = .halfClosed) :
    st.idAt fd = some i ∨ ∃ rearms, l = .applyRearm ∧
      s.st.phase = .applying (⟨⟨fd, i⟩, .close⟩ :: rearms) ∧ (s.got i = s.arrived i ∨ s.Answered i) := by
  cases step_moves hs with
  | swapRearms | wait | listen | acceptDone => exact Or.inl hi
  | applyRearm r rearms hr =>
    by_cases hcl : r.task.fd = fd ∧ r.action = .close
    · right
      obtain ⟨⟨fd', conn⟩, action⟩ := r
      obtain ⟨rfl, rfl⟩ := hcl
      have hm : (⟨⟨fd', conn⟩, .close⟩ : PendingRearm) ∈ s.st.pendingRearms ++ s.st.phase.rearms := by
        simp [hr, Phase.rearms]
      obtain rfl : conn = i := h.named.named _ (State.mem_tokens_posted hm) i hi
      refine ⟨rearms, rfl, hr, ?_⟩
      rcases h.accounted.closes _ hm rfl with hd | ⟨-, hd⟩ | hd
      · exact Peer.noConfusion (hp.symm.trans hd)
      · exact Or.inl hd
      · exact Or.inr hd
    · exact Or.inl ((s.st.idAt_applyRearm hcl).trans hi)
  | dispatch ev events hr hl => exact Or.inl (h.faithful.idAt_dispatch hr hl hi (by simp [hp]))
  | accept fd' events hr hl hc =>
    left
    rw [State.idAt_accept, if_neg, hi]
    rintro rfl
    simp [State.idAt, hc] at hi
  | start task tasks ht => exact Or.inl ((s.st.idAt_start task tasks fd).trans hi)
  | finish j env io w e hw he => exact Or.inl ((State.idAt_finish he fd).trans hi)

lemma Kept.served (h : Kept setup s) : HalfClosedServed setup s where
  handed ev events e hp hl hc hh := by
    have he := h.faithful.error (i := e.id) hp hl (by simp [State.idAt, hc]) (by simp [hh])
    exact ⟨he, by simp [State.dispatch, hc, he]⟩
  held fd i hi _ := h.named.held fd i hi
  read j w e hw hc hp hu hg env io ha := h.read hw hc hp hu hg ha
  kept m t fd i hi hp ha hs := by
    cases m with
    | system l =>
      obtain ⟨threads, hth, rfl⟩ := Option.map_eq_some_iff.mp hs
      obtain ⟨st, hst, he⟩ := step_threads hth
      rw [← he] at hst
      rcases h.idAt_step hst hi hp with hk | ⟨rearms, hl, hr⟩
      · exact Or.inl hk
      · exact Or.inr ⟨rearms, hl ▸ rfl, hr⟩
    | poll report =>
      obtain ⟨threads, hth, rfl⟩ := Option.map_eq_some_iff.mp hs
      obtain ⟨st, hst, he⟩ := step_threads hth
      rw [← he] at hst
      rcases h.idAt_step hst hi hp with hk | ⟨rearms, hl, -⟩
      · exact Or.inl hk
      · cases hl
    | arrive c data | halfClose c | hangUp c =>
      obtain rfl := Option.some.inj hs
      exact Or.inl hi

def endOfInput (fd : Fd) : Report :=
  .kevents [⟨fd, .read, false, true⟩] [⟨fd, EventType.readable, true⟩]

lemma watched_dropped (hb : setup.backend = .kqueue) {fd : Fd} {i : ConnId} (hp : s.st.phase = .applying [])
    (hl : fd ≠ setup.listenFd) (hi : s.st.idAt fd = some i) (hh : s.peer i = .halfClosed)
    (hw : wants (s.st.mask fd) .read = true) :
    s.Allows setup (.poll (endOfInput fd)) ∧ ∃ t u, step setup s (.poll (endOfInput fd)) = some t ∧
      step setup t (.system .dispatch) = some u ∧ u.st.idAt fd = none ∧ u.got i = s.got i := by
  obtain ⟨c, hc⟩ := State.idAt_eq_some_iff.mp hi
  have ha : s.Allows setup (.poll (endOfInput fd)) := by
    refine ⟨?_, ?_⟩
    · rw [hb]
      refine ⟨.of_eq ?_, by simpa using hw⟩
      simp [KqueueReactor.wait, KqueueReactor.merge, KqueueReactor.absorb, Filter.eventType]
    · simp [endOfInput, Report.Tells, peerAt, hi, hh]
  have hs : System.step S setup s.st (.wait (endOfInput fd).events) =
      some { s.st with phase := .dispatching (endOfInput fd).events } := by
    simp only [System.step, hp]
    exact if_pos (ha.1.reports (fun _ _ => rfl) fun _ => rfl)
  refine ⟨ha,
    { s with threads := { s.threads with st := { s.st with phase := .dispatching (endOfInput fd).events } } },
    { s with threads := { s.threads with st := { s.st.erase fd with phase := .dispatching [] } } },
    ?_, ?_, ?_, rfl⟩
  · rw [step, Recorded.step, hs]
    rfl
  · simp [step, Recorded.step, System.step, State.dispatch, State.erase, Recorded.record, endOfInput,
      Report.events, hl, hc]
  · exact (State.idAt_erase s.st fd fd).trans (if_pos rfl)

/-- In every run that spares them, the half-closed clients of both backends are served. Where kqueue comes
to watch one for reading, the report the kernel then has for it erases its connection. -/
theorem half_closed_served (setup : Setup) {s : Clients S}
    (h : Transitions.Reachable (step setup) (fun s m => s.Allows setup m ∧ s.Spared setup m) (create setup) s) :
    HalfClosedServed setup s ∧
      (setup.backend = .kqueue → ∀ fd i, s.st.phase = .applying [] → fd ≠ setup.listenFd →
        s.st.idAt fd = some i → s.peer i = .halfClosed → wants (s.st.mask fd) .read = true →
        s.Allows setup (.poll (endOfInput fd)) ∧ ∃ t u, step setup s (.poll (endOfInput fd)) = some t ∧
          step setup t (.system .dispatch) = some u ∧ u.st.idAt fd = none ∧ u.got i = s.got i) := by
  have hk : Kept setup s := h.invariant Kept.create fun _ _ _ hi hok hs => hi.step hok.1 hok.2 hs
  exact ⟨hk.served, fun hb fd i hp hl hi hh hw => watched_dropped hb hp hl hi hh hw⟩

instance (p : Peer) (got arrived : Bytes) : DecidablePred (p.Receives got arrived)
  | .received [] => inferInstanceAs (Decidable (p = .gone ∨ p = .halfClosed ∧ got = arrived))
  | .received (b :: bs) => inferInstanceAs (Decidable (got ++ b :: bs <+: arrived))
  | .again => inferInstanceAs (Decidable (p = .gone ∨ p = .connected ∧ got = arrived))
  | .failed => inferInstanceAs (Decidable (p = .gone))

instance (peerAt : Fd → Option Peer) : DecidablePred (Report.Tells peerAt)
  | .kevents ks _ => inferInstanceAs (Decidable (∀ k ∈ ks, ∀ p ∈ peerAt k.ident,
      (k.filter = .read → (k.evEof = true ↔ p ≠ .connected)) ∧
        (k.filter = .write → k.evEof = true → p = .gone) ∧ (k.evError = true → p = .gone)))
  | .epollEvents es => inferInstanceAs (Decidable (∀ e ∈ es,
      e.2 &&& (Epoll.epollerr ||| Epoll.epollhup) ≠ 0 → ∀ p ∈ peerAt e.1, p = .gone))

instance (setup : Setup) (s : Clients S) : DecidablePred (s.Allows setup)
  | .system (.wait _) => inferInstanceAs (Decidable False)
  | .system (.finish j _ io) => inferInstanceAs (Decidable (∀ w ∈ s.st.running[j]?,
      ∀ e ∈ s.st.connections w.task.fd, e.conn.unsent = [] →
        (s.peer e.id).Receives (s.got e.id) (s.arrived e.id) io.recv))
  | .system .swapRearms | .system .applyRearm | .system .dispatch | .system (.accept _)
  | .system .acceptDone | .system .start | .hangUp _ => inferInstanceAs (Decidable True)
  | .poll report => inferInstanceAs (Decidable (report.Possible (fun fd => wants (s.st.mask fd))
      (fun fd => (s.st.interest fd).map toEpollEvents) setup.backend ∧ report.Tells s.peerAt))
  | .arrive c _ | .halfClose c => inferInstanceAs (Decidable (s.peer c = .connected))

instance (listenFd : Fd) (numThreads : ℕ) (s : Clients S) :
    DecidablePred (s.Spared ⟨.epoll, listenFd, numThreads⟩)
  | .poll _ => isTrue fun hb => nomatch hb
  | .system (.accept fd) =>
    inferInstanceAs (Decidable (Backend.epoll = .epoll → ∀ t ∈ s.st.tokens, t.fd ≠ fd))
  | .system .swapRearms | .system .applyRearm | .system .dispatch | .system (.wait _) | .system .acceptDone
  | .system .start | .system (.finish _ _ _) | .arrive _ _ | .halfClose _ | .hangUp _ =>
    inferInstanceAs (Decidable True)

theorem half_closed_served_epoll : ∃ s : Clients (httpServer (routes 8080)),
    s.st.running = [⟨⟨7, 0⟩, 0⟩] ∧ s.peer 0 = .halfClosed ∧ s.got 0 = lit "GET / HT" ∧
    s.arrived 0 = lit "GET / HTTP/1.1\r\n\r\n" ∧ HalfClosedServed ⟨.epoll, 3, 4⟩ s := by
  obtain ⟨s, hr, hw, hp, hg, ha⟩ : ∃ s : Clients (httpServer (routes 8080)),
      Transitions.Reachable (step ⟨.epoll, 3, 4⟩)
        (fun s m => s.Allows ⟨.epoll, 3, 4⟩ m ∧ s.Spared ⟨.epoll, 3, 4⟩ m) (create ⟨.epoll, 3, 4⟩) s ∧
      s.st.running = [⟨⟨7, 0⟩, 0⟩] ∧ s.peer 0 = .halfClosed ∧ s.got 0 = lit "GET / HT" ∧
      s.arrived 0 = lit "GET / HTTP/1.1\r\n\r\n" :=
    Transitions.exists_reachable [.system .swapRearms, .poll (.epollEvents [(3, 1)]), .system .dispatch,
      .system (.accept 7), .system .acceptDone, .arrive 0 (lit "GET / HT"), .system .swapRearms,
      .poll (.epollEvents [(7, 1)]), .system .dispatch, .arrive 0 (lit "TP/1.1\r\n\r\n"), .halfClose 0,
      .system .start, .system (.finish 0 () ⟨.received (lit "GET / HT"), []⟩), .system .swapRearms,
      .system .applyRearm, .poll (.epollEvents [(7, 1)]), .system .dispatch, .system .start]
      (by decide +kernel)
  exact ⟨s, hw, hp, hg, ha, (half_closed_served ⟨.epoll, 3, 4⟩ hr).1⟩

/-- Under kqueue the client sent its request and shut down its sending side before the reactor looked
again. Under epoll it got the descriptor of a connection whose `close` was still to be applied. -/
theorem half_closed_dropped :
    (∃ s t : Clients (httpServer (routes 8080)), Reachable ⟨.kqueue, 3, 4⟩ s ∧
      s.st.phase = .dispatching [⟨7, 1, true⟩] ∧ s.st.idAt 7 = some 0 ∧ s.peer 0 = .halfClosed ∧
      s.arrived 0 = lit "GET / HTTP/1.1\r\n\r\n" ∧ step ⟨.kqueue, 3, 4⟩ s (.system .dispatch) = some t ∧
      t.st.idAt 7 = none ∧ t.st.tokens = [] ∧ t.got 0 = []) ∧
    (∃ s t : Clients (httpServer (routes 8080)), Reachable ⟨.epoll, 3, 4⟩ s ∧
      s.st.phase = .applying [⟨⟨7, 0⟩, .close⟩] ∧ s.st.idAt 7 = some 1 ∧ s.peer 1 = .halfClosed ∧
      s.arrived 1 = lit "GET / HTTP/1.1\r\n\r\n" ∧ step ⟨.epoll, 3, 4⟩ s (.system .applyRearm) = some t ∧
      t.st.idAt 7 = none ∧ t.st.tokens = [] ∧ t.got 1 = []) := by
  refine ⟨?_, ?_⟩
  · obtain ⟨s, hr, hp, hi, hh, ha, ht⟩ : ∃ s : Clients (httpServer (routes 8080)),
        Reachable ⟨.kqueue, 3, 4⟩ s ∧
        s.st.phase = .dispatching [⟨7, 1, true⟩] ∧ s.st.idAt 7 = some 0 ∧ s.peer 0 = .halfClosed ∧
        s.arrived 0 = lit "GET / HTTP/1.1\r\n\r\n" ∧
        (step ⟨.kqueue, 3, 4⟩ s (.system .dispatch)).any
          (fun t => t.st.idAt 7 = none ∧ t.st.tokens = [] ∧ t.got 0 = []) = true :=
      Transitions.exists_reachable [.system .swapRearms,
        .poll (.kevents [⟨3, .read, false, false⟩] [⟨3, 1, false⟩]), .system .dispatch, .system (.accept 7),
        .system .acceptDone, .arrive 0 (lit "GET / HTTP/1.1\r\n\r\n"), .halfClose 0, .system .swapRearms,
        .poll (endOfInput 7)] (by decide +kernel)
    obtain ⟨t, hs, hd⟩ := (Option.any_eq_true _ _).mp ht
    exact ⟨s, t, hr, hp, hi, hh, ha, hs, of_decide_eq_true hd⟩
  · obtain ⟨s, hr, hp, hi, hh, ha, ht⟩ : ∃ s : Clients (httpServer (routes 8080)),
        Reachable ⟨.epoll, 3, 4⟩ s ∧
        s.st.phase = .applying [⟨⟨7, 0⟩, .close⟩] ∧ s.st.idAt 7 = some 1 ∧ s.peer 1 = .halfClosed ∧
        s.arrived 1 = lit "GET / HTTP/1.1\r\n\r\n" ∧
        (step ⟨.epoll, 3, 4⟩ s (.system .applyRearm)).any
          (fun t => t.st.idAt 7 = none ∧ t.st.tokens = [] ∧ t.got 1 = []) = true :=
      Transitions.exists_reachable [.system .swapRearms, .poll (.epollEvents [(3, 1)]), .system .dispatch,
        .system (.accept 7), .system .acceptDone, .arrive 0 (lit "GET\r\n"), .system .swapRearms,
        .poll (.epollEvents [(7, 1)]), .system .dispatch, .system .start, .system .swapRearms,
        .system (.finish 0 () ⟨.received (lit "GET\r\n"), [.sent 500]⟩), .hangUp 0,
        .poll (.epollEvents [(7, 16), (3, 1)]), .system .dispatch, .system .dispatch, .system (.accept 7),
        .system .acceptDone, .arrive 1 (lit "GET / HTTP/1.1\r\n\r\n"), .halfClose 1, .system .swapRearms]
        (by decide +kernel)
    obtain ⟨t, hs, hd⟩ := (Option.any_eq_true _ _).mp ht
    exact ⟨s, t, hr, hp, hi, hh, ha, hs, of_decide_eq_true hd⟩

end Clients

end HttpBalancer.System
