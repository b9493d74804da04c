import HttpBalancer.Lib.Simulation
import HttpBalancer.System.HangUps
import HttpBalancer.System.Interests
import HttpBalancer.System.Reports

/-! The reactor over the event loops themselves: its calls of `add`, `modify` and `remove` keep the
kernel's registrations equal to the interest the machine of the threads keeps, and what `wait` makes of
the kernel's reports is what that machine allows. -/

namespace HttpBalancer.System

open Net Server Balancer Lib

def Call.entry : Call → Option UInt8
  | .add _ m | .modify _ m => some m
  | .remove _ => none

def Call.fd : Call → Fd
  | .add fd _ | .modify fd _ | .remove fd => fd

/-- The call a step makes on the event loop, if any. -/
def State.call {S : Service} (setup : Setup) (st : State) : Label S → Option Call
  | .applyRearm =>
    match st.phase with
    | .applying (r :: _) =>
      match st.connections r.task.fd with
      | none => none
      | some _ =>
        match r.action with
        | .waitReadable => some (.modify r.task.fd EventType.readable)
        | .waitWritable => some (.modify r.task.fd EventType.writable)
        | .close => some (.remove r.task.fd)
    | _ => none
  | .dispatch =>
    match st.phase with
    | .dispatching (ev :: _) =>
      if ev.fd = setup.listenFd then none
      else
        match st.connections ev.fd with
        | none => none
        | some _ => if ev.error then some (.remove ev.fd) else some (.modify ev.fd 0)
    | _ => none
  | .accept fd => some (.add fd EventType.readable)
  | _ => none

lemma Backends.Agree.after {s t : Backends} (h : s.Agree) {c : Call} (hc : s.Disciplined c)
    (ht : s.step c = some t) : t.Agree ∧
      (∀ fd, t.added fd = if fd = c.fd then c.entry.isSome else s.added fd) ∧
      ∀ fd, t.kqueue.prev fd = if fd = c.fd then c.entry.getD 0 else s.kqueue.prev fd := by
  refine ⟨(h.call hc).2.2 t ht, ?_, ?_⟩
  · obtain rfl := Option.some.inj ht
    intro fd
    cases c with
    | add fd' m | remove fd' => exact Function.update_apply ..
    | modify fd' m =>
      change s.added fd = if fd = fd' then true else s.added fd
      split_ifs with hf
      · rw [hf]
        exact hc.2
      · rfl
  · obtain rfl := Option.some.inj ht
    intro fd
    cases c with
    | add fd' m | modify fd' m =>
      simp only [KqueueReactor.call, KqueueReactor.add, h.sync.modify_none, KqueueReactor.prev_update,
        KqueueReactor.entry_getD]
      rfl
    | remove fd' =>
      simp only [KqueueReactor.call, KqueueReactor.remove_sent (h.sync fd'), KqueueReactor.prev_update]
      rfl

structure Asked (st st' : State) (c : Call) : Prop where
  interest : st'.interest = Function.update st.interest c.fd c.entry
  opened : ∀ fd, st'.connections fd ≠ none →
    (fd = c.fd ∧ c.entry ≠ none) ∨ (fd ≠ c.fd ∧ st.connections fd ≠ none)
  known : c = .add c.fd EventType.readable ∨ st.connections c.fd ≠ none ∧
    (c = .remove c.fd ∨ ∃ m ∈ EventType.masks, c = .modify c.fd m)

lemma asked_modify {st : State} {fd : Fd} {m : UInt8} (hc : st.connections fd ≠ none)
    (hm : m ∈ EventType.masks) : Asked st (st.modify fd m) (.modify fd m) where
  interest := rfl
  opened fd' hf := by
    by_cases he : fd' = fd
    · exact Or.inl ⟨he, by simp [Call.entry]⟩
    · exact Or.inr ⟨he, hf⟩
  known := Or.inr ⟨hc, Or.inr ⟨m, hm, rfl⟩⟩

lemma asked_erase {st : State} {fd : Fd} (hc : st.connections fd ≠ none) :
    Asked st (st.erase fd) (.remove fd) where
  interest := rfl
  opened fd' hf := by
    have he : fd' ≠ fd := by
      rintro rfl
      exact hf (Function.update_self ..)
    exact Or.inr ⟨he, (Function.update_of_ne he _ _).symm.trans_ne hf⟩
  known := Or.inr ⟨hc, Or.inl rfl⟩

lemma asked_accept (st : State) (fd : Fd) : Asked st (st.accept fd) (.add fd EventType.readable) where
  interest := rfl
  opened fd' hf := by
    by_cases he : fd' = fd
    · exact Or.inl ⟨he, by simp [Call.entry]⟩
    · exact Or.inr ⟨he, (Function.update_of_ne he _ _).symm.trans_ne hf⟩
  known := Or.inl rfl

lemma Asked.of_eq {st st' st'' : State} {c : Call} (h : Asked st st' c) (hi : st''.interest = st'.interest)
    (hc : st''.connections = st'.connections) : Asked st st'' c :=
  ⟨hi.trans h.interest, hc ▸ h.opened, h.known⟩

lemma call_step {S : Service} {setup : Setup} {st st' : State} {l : Label S}
    (hs : step S setup st l = some st') :
    (st.call setup l = none ∧ st'.interest = st.interest ∧
      ∀ fd, st'.connections fd ≠ none → st.connections fd ≠ none) ∨
    ∃ c, st.call setup l = some c ∧ Asked st st' c := by
  cases step_moves hs with
  | swapRearms | wait | acceptDone => exact Or.inl ⟨rfl, rfl, fun _ h => h⟩
  | applyRearm r rearms hp =>
    simp only [State.call, State.applyRearm, hp]
    cases hc : st.connections r.task.fd with
    | none => exact Or.inl ⟨rfl, rfl, fun _ h => h⟩
    | some e =>
      have hn : st.connections r.task.fd ≠ none := by simp [hc]
      cases r.action with
      | waitReadable => exact Or.inr ⟨_, rfl, (asked_modify hn (by decide)).of_eq rfl rfl⟩
      | waitWritable => exact Or.inr ⟨_, rfl, (asked_modify hn (by decide)).of_eq rfl rfl⟩
      | close => exact Or.inr ⟨_, rfl, (asked_erase hn).of_eq rfl rfl⟩
  | listen ev events hp hl =>
    refine Or.inl ⟨?_, rfl, fun _ h => h⟩
    simp only [State.call, hp, if_pos hl]
  | dispatch ev events hp hl =>
    simp only [State.call, State.dispatch, hp, if_neg hl]
    cases hc : st.connections ev.fd with
    | none => exact Or.inl ⟨rfl, rfl, fun _ h => h⟩
    | some e =>
      have hn : st.connections ev.fd ≠ none := by simp [hc]
      dsimp only
      split_ifs
      · exact Or.inr ⟨_, rfl, (asked_erase hn).of_eq rfl rfl⟩
      · exact Or.inr ⟨_, rfl, (asked_modify hn (by decide)).of_eq rfl rfl⟩
  | accept fd events hp hl hc => exact Or.inr ⟨_, rfl, asked_accept st fd⟩
  | start task tasks ht hr =>
    refine Or.inl ⟨rfl, ?_⟩
    rw [State.start]
    cases st.connections task.fd <;> exact ⟨rfl, fun _ h => h⟩
  | finish i env io w e hw he hf =>
    refine Or.inl ⟨rfl, rfl, fun fd h hn => h ?_⟩
    have hne : fd ≠ w.task.fd := by
      rintro rfl
      exact Option.some_ne_none e (he.symm.trans hn)
    exact (Function.update_of_ne hne _ _).trans hn

/-- The machine of the threads and the event loops, which get the same calls; the platform's one is
polled. No step reads `interest`: it says what the loops should hold. -/
structure Polled where
  st : State
  loops : Backends

inductive PollLabel (S : Service)
  | poll (report : Report)
  | move (l : Label S)

namespace Polled

variable {S : Service}

def initial (setup : Setup) : Polled :=
  ⟨setup.initial, (Backends.create.step (.add setup.listenFd EventType.readable)).getD .create⟩

def step (setup : Setup) (s : Polled) : PollLabel S → Option Polled
  | .poll report =>
    match s.st.phase with
    | .applying [] => some { s with st := { s.st with phase := .dispatching report.events } }
    | _ => none
  | .move (.wait _) => none
  | .move l =>
    (System.step S setup s.st l).bind fun st =>
      ((s.st.call setup l).elim (some s.loops) s.loops.step).map fun loops => ⟨st, loops⟩

def Allowed (setup : Setup) (s : Polled) : PollLabel S → Prop
  | .poll report => report.Possible s.loops.kqueue.kq.registered s.loops.epoll.registered setup.backend
  | .move _ => True

instance (setup : Setup) (s : Polled) : DecidablePred (Allowed (S := S) setup s)
  | .poll report => inferInstanceAs (Decidable
      (report.Possible s.loops.kqueue.kq.registered s.loops.epoll.registered setup.backend))
  | .move _ => inferInstanceAs (Decidable True)

structure Tracks (s : Polled) : Prop where
  agree : s.loops.Agree
  added : ∀ fd, s.loops.added fd = (s.st.interest fd).isSome
  mask : ∀ fd, s.loops.kqueue.prev fd = s.st.mask fd
  registered : ∀ fd, s.st.connections fd ≠ none → s.st.interest fd ≠ none

lemma Tracks.disciplined {s : Polled} (h : Tracks s) {st' : State} {c : Call} (hc : Asked s.st st' c) :
    s.loops.Disciplined c := by
  have hadded : s.st.connections c.fd ≠ none → s.loops.added c.fd = true := by
    intro hn
    rw [h.added]
    exact Option.isSome_iff_ne_none.mpr (h.registered _ hn)
  obtain he | ⟨hn, he | ⟨m, hm, he⟩⟩ := hc.known
  · rw [he]
    exact show EventType.readable ∈ EventType.masks by decide
  · have ha := hadded hn
    rw [he]
    exact ha
  · have ha := hadded hn
    rw [he]
    exact ⟨hm, ha⟩

lemma Tracks.asked {s : Polled} (h : Tracks s) {st' : State} {c : Call} (hc : Asked s.st st' c)
    {loops : Backends} (hl : s.loops.step c = some loops) : Tracks ⟨st', loops⟩ := by
  obtain ⟨ha, hadd, hprev⟩ := h.agree.after (h.disciplined hc) hl
  refine ⟨ha, ?_, ?_, ?_⟩
  · intro fd
    dsimp only
    rw [hadd, hc.interest, Function.update_apply]
    split_ifs
    · rfl
    · exact h.added fd
  · intro fd
    dsimp only
    rw [hprev, State.mask, hc.interest, Function.update_apply]
    split_ifs
    · rfl
    · exact h.mask fd
  · intro fd hn
    dsimp only
    rw [hc.interest, Function.update_apply]
    rcases hc.opened fd hn with ⟨hf, he⟩ | ⟨hf, hn'⟩
    · rwa [if_pos hf]
    · rw [if_neg hf]
      exact h.registered fd hn'

lemma Tracks.initial (setup : Setup) : Tracks (initial setup) := by
  have hbase : Tracks ⟨{ setup.initial with interest := fun _ => none }, .create⟩ :=
    ⟨Backends.create_agree, fun _ => rfl, fun _ => rfl, fun _ h => absurd rfl h⟩
  have hadd : Asked { setup.initial with interest := fun _ => none } setup.initial
      (.add setup.listenFd EventType.readable) :=
    ⟨rfl, fun _ h => absurd rfl h, Or.inl rfl⟩
  exact hbase.asked hadd rfl

lemma Tracks.mask_mem {s : Polled} (h : Tracks s) (fd : Fd) : s.st.mask fd ∈ EventType.masks :=
  h.mask fd ▸ h.agree.mask fd

lemma Tracks.registered_epoll {s : Polled} (h : Tracks s) (fd : Fd) :
    s.loops.epoll.registered fd = (s.st.interest fd).map toEpollEvents := by
  rw [h.agree.epoll, h.added, h.mask, State.mask]
  cases s.st.interest fd <;> rfl

lemma Tracks.reports {s : Polled} (h : Tracks s) {b : Backend} {report : Report}
    (hr : report.Possible s.loops.kqueue.kq.registered s.loops.epoll.registered b) :
    (report.events.map IoEvent.fd).Nodup ∧ ∀ ev ∈ report.events, b.Reports s.st ev :=
  hr.reports (fun fd f => by rw [h.agree.sync, h.mask]) h.registered_epoll

lemma Tracks.step {setup : Setup} {s t : Polled} {l : PollLabel S} (h : Tracks s)
    (ho : Allowed setup s l) (hs : step setup s l = some t) :
    Tracks t ∧ ∃ l', System.step S setup s.st l' = some t.st := by
  cases l with
  | poll report =>
    obtain ⟨hn, hr⟩ := h.reports ho
    rw [Polled.step] at hs
    split at hs
    · next hp =>
      obtain rfl := Option.some.inj hs
      refine ⟨⟨h.agree, h.added, h.mask, h.registered⟩, .wait report.events, ?_⟩
      simp only [System.step, hp, if_pos (And.intro hn hr)]
    · cases hs
  | move l =>
    have hb : ∃ st loops, System.step S setup s.st l = some st ∧
        (s.st.call setup l).elim (some s.loops) s.loops.step = some loops ∧ t = ⟨st, loops⟩ := by
      rw [Polled.step.eq_def] at hs
      split at hs
      · next he => cases he
      · cases hs
      · next l' hl he =>
        obtain rfl : l = l' := by cases he; rfl
        obtain ⟨st, hst, hs⟩ := Option.bind_eq_some_iff.mp hs
        obtain ⟨loops, hl, rfl⟩ := Option.map_eq_some_iff.mp hs
        exact ⟨st, loops, hst, hl, rfl⟩
    obtain ⟨st, loops, hst, hl, rfl⟩ := hb
    refine ⟨?_, l, hst⟩
    rcases call_step hst with ⟨hc, hi, hn⟩ | ⟨c, hc, ha⟩
    · rw [hc] at hl
      obtain rfl := Option.some.inj hl
      refine ⟨h.agree, fun fd => ?_, fun fd => ?_, fun fd hf => ?_⟩
      · rw [h.added, hi]
      · rw [h.mask, State.mask, State.mask, hi]
      · rw [hi]
        exact h.registered fd (hn fd hf)
    · rw [hc] at hl
      exact h.asked ha hl

/-- Over the real event loops, whatever the kernel reports, the threads only do what the machine with
its own map of interests does; both loops then hold exactly that map, and no call the reactor makes is
refused. -/
theorem loops_hold_interest (setup : Setup) {s : Polled}
    (h : Transitions.Reachable (step (S := S) setup) (Allowed setup) (initial setup) s) :
    Reachable S setup (fun _ _ => True) s.st ∧
    (∀ fd, s.loops.kqueue.kq.registered.mask fd = s.st.mask fd ∧ s.loops.epoll.mask fd = s.st.mask fd) ∧
    (∀ (l : Label S) st' c, System.step S setup s.st l = some st' → s.st.call setup l = some c →
      (s.loops.kqueue.call none c).2 = true ∧ (s.loops.epoll.call c).2 = true) ∧
    (setup.backend = .kqueue → Exclusive s.st ∧ Live s.st) := by
  have hsim : ∃ st, Reachable S setup (fun _ _ => True) st ∧ (st = s.st ∧ Tracks s) := by
    refine Transitions.Reachable.simulated (R := fun (s : Polled) st => st = s.st ∧ Tracks s)
      ⟨rfl, Tracks.initial setup⟩ ?_ h
    rintro s l t _ ⟨rfl, ht⟩ ho hs
    obtain ⟨ht', l', hl'⟩ := ht.step ho hs
    exact ⟨t.st, .single trivial hl', rfl, ht'⟩
  obtain ⟨_, hr, rfl, ht⟩ := hsim
  refine ⟨hr, fun fd => ?_, fun l st' c hs hc => ?_, fun hb => ?_⟩
  · refine ⟨Backends.mask_of_wants (ht.mask_mem fd) fun f => by rw [ht.agree.sync, ht.mask], ?_⟩
    rw [EpollReactor.mask, ht.agree.epoll, ht.mask]
    cases hd : s.loops.added fd with
    | true => exact EpollReactor.fromEpollEvents_toEpollEvents (ht.mask_mem fd)
    | false =>
      rw [← ht.mask, ht.agree.absent fd hd]
      rfl
  · rcases call_step hs with ⟨hn, -⟩ | ⟨c', hc', ha⟩
    · exact absurd (hn.symm.trans hc) (by simp)
    · obtain rfl := Option.some.inj (hc'.symm.trans hc)
      obtain ⟨hk, he, -⟩ := ht.agree.call (ht.disciplined ha)
      exact ⟨hk, he⟩
  · have hi : Inv setup s.st :=
      Transitions.Reachable.invariant Inv.initial (fun _ _ _ hi _ hs => inv_step hi (Or.inl hb) hs) hr
    exact ⟨hi.exclusive, hi.alive⟩

theorem loops_hold_interest_dispatched :
    ∃ s : Polled, Transitions.Reachable (step (S := httpServer (routes 8080)) ⟨.kqueue, 3, 4⟩)
        (Allowed ⟨.kqueue, 3, 4⟩) (initial ⟨.kqueue, 3, 4⟩) s ∧
      s.st.tasks = [⟨7, 0⟩] ∧ s.loops.kqueue.kq.registered.mask 7 = 0 ∧ s.st.mask 8 = EventType.writable ∧
      s.loops.kqueue.kq.registered.mask 8 = s.st.mask 8 ∧ Exclusive s.st ∧ Live s.st := by
  have hrun : ∃ s : Polled, Transitions.Reachable (step (S := httpServer (routes 8080)) ⟨.kqueue, 3, 4⟩)
      (Allowed ⟨.kqueue, 3, 4⟩) (initial ⟨.kqueue, 3, 4⟩) s ∧
      s.st.tasks = [⟨7, 0⟩] ∧ s.loops.kqueue.kq.registered.mask 7 = 0 ∧ s.st.mask 8 = EventType.writable :=
    Transitions.exists_reachable [.move .swapRearms,
      .poll (.kevents [⟨3, .read, false, false⟩] [⟨3, 1, false⟩]), .move .dispatch, .move (.accept 7),
      .move (.accept 8), .move .acceptDone, .move .swapRearms,
      .poll (.kevents [⟨8, .read, false, false⟩] [⟨8, 1, false⟩]), .move .dispatch, .move .start,
      .move (.finish 0 () ⟨.received (lit "GET / HTTP/1.1\r\n\r\n"), [.sent 5, .again]⟩),
      .move .swapRearms, .move .applyRearm, .poll (.kevents [⟨7, .read, false, false⟩] [⟨7, 1, false⟩]),
      .move .dispatch] (by decide +kernel)
  obtain ⟨s, hr, ht, h7, h8⟩ := hrun
  obtain ⟨-, hm, -, ho⟩ := loops_hold_interest ⟨.kqueue, 3, 4⟩ hr
  exact ⟨s, hr, ht, h7, h8, (hm 8).1, ho rfl⟩

end Polled

end HttpBalancer.System
