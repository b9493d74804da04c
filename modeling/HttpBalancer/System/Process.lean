import HttpBalancer.Lib.Fairness
import HttpBalancer.System.Shutdown

/-! `main` of both programs: the signal handler, the watcher thread, `run` in the main thread and the
destructor that follows it, in every interleaving. -/

namespace HttpBalancer.System

open Lib

namespace Shutdown

variable {owner : Owner} {s t : Shutdown} {l : Step}

inductive Role
  | run
  | checker
  | stop
  deriving DecidableEq

def Step.role : Step → Role
  | .bind _ | .startChecker | .spawn | .assign | .raise | .test | .iterate => .run
  | .checkerTest | .sweep => .checker
  | .stopRunning | .stopChecker | .joinable | .join => .stop

structure Threaded (s : Shutdown) : Prop where
  unborn : s.main = .binding ∨ s.main = .starting ∨ s.main = .spawning → s.checker = .unborn
  unassigned : s.main = .binding ∨ s.main = .starting ∨ s.main = .spawning ∨ s.main = .assigning →
    s.thread = false
  born : s.thread = true ∨ s.main = .assigning → s.checker ≠ .unborn
  alive : s.checker = .testing ∨ s.checker = .probing → s.thread = true ∨ s.main = .assigning
  joining : s.stop = .joining → s.thread = true

lemma Threaded.of_main (hs : Threaded s) {m : Main} {b : Bool} (hm : s.main = .raising ∨ s.Raised)
    (h : m = .raising ∨ m = .testing ∨ m = .iterating ∨ m = .returned) :
    Threaded { s with main := m, running := b } := by
  have hne : s.main ≠ .assigning := by
    intro h
    simp [h, Raised] at hm
  refine ⟨?_, ?_, ?_, fun hc => Or.inl ((hs.alive hc).resolve_right hne), hs.joining⟩
  · rcases h with rfl | rfl | rfl | rfl <;> simp
  · rcases h with rfl | rfl | rfl | rfl <;> simp
  · rcases h with rfl | rfl | rfl | rfl <;> simpa using fun h => hs.born (Or.inl h)

lemma Threaded.of_checker (hs : Threaded s) {c : Checker} (h : s.checker = .testing ∨ s.checker = .probing)
    (hc : c ≠ .unborn) : Threaded { s with checker := c } := by
  have hne : s.checker ≠ .unborn := by rcases h with h | h <;> simp [h]
  exact ⟨fun hm => absurd (hs.unborn hm) hne, hs.unassigned, fun _ => hc, fun _ => hs.alive h, hs.joining⟩

lemma Threaded.of_stop (hs : Threaded s) {c : Stop} {b b' : Bool} (h : c = .joining → s.thread = true) :
    Threaded { s with stop := c, running := b, checkerRunning := b' } :=
  ⟨hs.unborn, hs.unassigned, hs.born, hs.alive, h⟩

lemma Threaded.step (hs : Threaded s) (h : s.step owner l = some t) : Threaded t := by
  obtain ⟨he, rfl⟩ := step_eq h
  cases l with
  | bind valid =>
    have hm : s.main = .binding := by simpa [enabled] using he
    have hf := hs.unassigned (Or.inl hm)
    have hc := hs.unborn (Or.inl hm)
    refine ⟨fun _ => hc, fun _ => hf, ?_, by simp [effect, hc], hs.joining⟩
    cases valid <;> cases owner <;> simp [effect, afterBind, hf]
  | startChecker =>
    have hm : s.main = .starting := by simpa [enabled] using he
    have hf := hs.unassigned (Or.inr (Or.inl hm))
    have hc := hs.unborn (Or.inr (Or.inl hm))
    exact ⟨fun _ => hc, fun _ => hf, by simp [effect, hf], by simp [effect, hc], hs.joining⟩
  | spawn =>
    have hm : s.main = .spawning := by simpa [enabled] using he
    have hf := hs.unassigned (Or.inr (Or.inr (Or.inl hm)))
    exact ⟨by simp [effect], fun _ => hf, by simp [effect], fun _ => Or.inr rfl, hs.joining⟩
  | assign =>
    have hm : s.main = .assigning := by simpa [enabled] using he
    exact ⟨by simp [effect], by simp [effect], fun _ => hs.born (Or.inr hm), fun _ => Or.inl rfl, fun _ => rfl⟩
  | raise => exact hs.of_main (by simp_all [enabled]) (by simp)
  | test =>
    refine hs.of_main (by simp_all [enabled, Raised]) ?_
    split <;> simp
  | iterate => exact hs.of_main (by simp_all [enabled, Raised]) (by simp)
  | checkerTest =>
    refine hs.of_checker (by simp_all [enabled]) ?_
    split <;> simp
  | sweep => exact hs.of_checker (by simp_all [enabled]) (by simp)
  | stopRunning => exact hs.of_stop (by cases owner <;> simp [afterClear])
  | stopChecker => exact hs.of_stop (by simp)
  | joinable => exact hs.of_stop (by cases s.thread <;> simp)
  | join =>
    have hx : s.checker = .exited := by simp_all [enabled]
    exact ⟨hs.unborn, fun _ => rfl, by simp [effect, hx], by simp [effect, hx], by simp [effect]⟩

/-- A `run` that came back, or goes on with its flag down, was stopped in its loop or never had a port. -/
structure Flagged (owner : Owner) (s : Shutdown) : Prop where
  early : s.main = .binding ∨ s.main = .starting → s.checkerRunning = false
  unraised : ¬ s.Raised → s.running = false
  returned : s.main = .returned → s.running = false
  unstopped : s.Raised → s.running = false → s.stop = .idle → s.main = .returned
  lowered : s.Raised → s.running = false → s.stop ≠ .cleared → s.checkerRunning = false
  own : owner = .httpServer → s.checkerRunning = false ∧ s.thread = false ∧ s.main ≠ .starting ∧
    s.main ≠ .spawning ∧ s.main ≠ .assigning

lemma Flagged.step (hs : Flagged owner s) (h : s.step owner l = some t) : Flagged owner t := by
  obtain ⟨he, rfl⟩ := step_eq h
  obtain ⟨hy, hu, hr, hi, hl, ho⟩ := hs
  cases l with
  | bind valid =>
    have hm : s.main = .binding := by simpa [enabled] using he
    have hd : s.running = false := hu (by simp [Raised, hm])
    have hc : s.checkerRunning = false := hy (Or.inl hm)
    refine ⟨fun _ => hc, fun _ => hd, fun _ => hd, ?_, fun _ _ _ => hc, fun ho' => ⟨hc, (ho ho').2.1, ?_⟩⟩
    · cases valid <;> cases owner <;> simp [effect, afterBind, Raised]
    · cases valid <;> simp [effect, afterBind, ho']
  | startChecker =>
    have hm : s.main = .starting := by simpa [enabled] using he
    have hd : s.running = false := hu (by simp [Raised, hm])
    exact ⟨by simp [effect], fun _ => hd, fun _ => hd, by simp [effect, Raised], by simp [effect, Raised],
      fun h => absurd hm (ho h).2.2.1⟩
  | spawn =>
    have hm : s.main = .spawning := by simpa [enabled] using he
    have hd : s.running = false := hu (by simp [Raised, hm])
    exact ⟨by simp [effect], fun _ => hd, fun _ => hd, by simp [effect, Raised], by simp [effect, Raised],
      fun h => absurd hm (ho h).2.2.2.1⟩
  | assign =>
    have hm : s.main = .assigning := by simpa [enabled] using he
    have hd : s.running = false := hu (by simp [Raised, hm])
    exact ⟨by simp [effect], fun _ => hd, fun _ => hd, by simp [effect, Raised], by simp [effect, Raised],
      fun h => absurd hm (ho h).2.2.2.2⟩
  | raise =>
    exact ⟨by simp [effect], by simp [effect, Raised], by simp [effect], by simp [effect], by simp [effect],
      fun h => ⟨(ho h).1, (ho h).2.1, by simp [effect]⟩⟩
  | test =>
    have hm : s.Raised := Or.inl (by simpa [enabled] using he)
    cases hb : s.running with
    | false =>
      simp only [effect, hb, Bool.false_eq_true, if_false]
      exact ⟨by simp, by simp [Raised], fun _ => rfl, fun _ _ _ => rfl, fun _ _ => hl hm hb,
        fun h => ⟨(ho h).1, (ho h).2.1, by simp⟩⟩
    | true =>
      simp only [effect, hb, if_true]
      exact ⟨by simp, by simp [Raised], by simp, by simp, by simp,
        fun h => ⟨(ho h).1, (ho h).2.1, by simp⟩⟩
  | iterate =>
    have hm : s.main = .iterating := by simpa [enabled] using he
    have hd : s.Raised := Or.inr (Or.inl hm)
    exact ⟨by simp [effect], by simp [effect, Raised], by simp [effect],
      fun _ h h' => absurd (hi hd h h') (by simp [hm]), fun _ => hl hd,
      fun h => ⟨(ho h).1, (ho h).2.1, by simp [effect]⟩⟩
  | checkerTest | sweep => exact ⟨hy, hu, hr, hi, hl, ho⟩
  | stopRunning =>
    refine ⟨hy, fun _ => rfl, fun _ => rfl, ?_, ?_, ho⟩
    · cases owner <;> simp [effect, afterClear]
    · cases owner with
      | httpServer => exact fun _ _ _ => (ho rfl).1
      | loadBalancer => exact fun _ _ h => absurd rfl h
  | stopChecker =>
    exact ⟨fun _ => rfl, hu, hr, by simp [effect], fun _ _ _ => rfl, fun h => ⟨rfl, (ho h).2⟩⟩
  | joinable =>
    have hs : s.stop ≠ .cleared := by simp_all [enabled]
    refine ⟨hy, hu, hr, ?_, fun h h' _ => hl h h' hs, ho⟩
    cases hb : s.thread <;> simp [effect, hb]
  | join =>
    have hs : s.stop ≠ .cleared := by simp_all [enabled]
    exact ⟨hy, hu, hr, by simp [effect], fun h h' _ => hl h h' hs, fun h => ⟨(ho h).1, rfl, (ho h).2.2⟩⟩

lemma Flagged.lowered_of_returned (hs : Flagged owner s) (h : s.main = .returned) : Lowered owner s :=
  have hr : s.Raised := Or.inr (Or.inr h)
  ⟨hr, fun _ => hs.returned h, fun _ => hs.lowered hr (hs.returned h), fun ho => (hs.own ho).1⟩

end Shutdown

namespace Process

open Shutdown (Step Stop)

/-- The reads of the watcher's loop condition, its read after the loop, and its call of `stop`. -/
inductive Watcher
  | polling
  | pollingExit
  | deciding
  | stopping
  | exited
  deriving DecidableEq

/-- Where `main` is: in `run`, at the join of the watcher, in the destructor of the server or balancer, in
that of its health checker, at its end. -/
inductive Tail
  | running
  | told
  | destroying
  | releasing
  | ended
  deriving DecidableEq

inductive Party
  | main
  | watcher
  | checker
  deriving DecidableEq

inductive Label
  | signal
  | run (l : Step)
  | checker (l : Step)
  | pollRequested
  | pollExit
  | decide
  | stop (l : Step)
  | stopped
  | leave
  | joinWatcher
  | destroy (l : Step)
  | destroyed
  deriving DecidableEq

def Label.party : Label → Option Party
  | .signal => none
  | .run _ | .leave | .joinWatcher | .destroy _ | .destroyed => some .main
  | .pollRequested | .pollExit | .decide | .stop _ | .stopped => some .watcher
  | .checker _ => some .checker

end Process

/-- `core.stop` is the watcher's call of `stop`, `own` the one `main` makes in a destructor. -/
structure Process where
  core : Shutdown
  stopRequested : Bool
  watcherShouldExit : Bool
  watcher : Process.Watcher
  tail : Process.Tail
  own : Shutdown.Stop
  deriving DecidableEq

namespace Process

open Shutdown (Step Stop Role Lowered)

def create : Process := ⟨Shutdown.create, false, false, .polling, .running, .idle⟩

/-- The health checker is a member of the load balancer; its destructor stops it once more. -/
def afterDestroy (p : Process) : Owner → Process
  | .httpServer => { p with tail := .ended }
  | .loadBalancer => { p with tail := .releasing, own := .cleared }

def step (owner : Owner) (p : Process) : Label → Option Process
  | .signal => some { p with stopRequested := true }
  | .run l =>
    if p.tail = .running ∧ l.role = .run then (p.core.step owner l).map fun c => { p with core := c }
    else none
  | .checker l =>
    if l.role = .checker then (p.core.step owner l).map fun c => { p with core := c } else none
  | .pollRequested =>
    if p.watcher = .polling then
      some { p with watcher := if p.stopRequested then .deciding else .pollingExit }
    else none
  | .pollExit =>
    if p.watcher = .pollingExit then
      some { p with watcher := if p.watcherShouldExit then .deciding else .polling }
    else none
  | .decide =>
    if p.watcher = .deciding then
      some { p with watcher := if p.stopRequested then .stopping else .exited }
    else none
  | .stop l =>
    if p.watcher = .stopping ∧ l.role = .stop then
      (p.core.step owner l).map fun c => { p with core := c }
    else none
  | .stopped =>
    if p.watcher = .stopping ∧ p.core.stop = .returned then some { p with watcher := .exited } else none
  | .leave =>
    if p.tail = .running ∧ p.core.main = .returned then
      some { p with tail := .told, watcherShouldExit := true }
    else none
  | .joinWatcher =>
    if p.tail = .told ∧ p.watcher = .exited then some { p with tail := .destroying } else none
  | .destroy l =>
    if (p.tail = .destroying ∨ p.tail = .releasing) ∧ l.role = .stop then
      (({ p.core with stop := p.own } : Shutdown).step owner l).map fun c =>
        { p with core := { c with stop := p.core.stop }, own := c.stop }
    else none
  | .destroyed =>
    if p.own = .returned then
      match p.tail with
      | .destroying => some (p.afterDestroy owner)
      | .releasing => some { p with tail := .ended }
      | _ => none
    else none

inductive Moves (owner : Owner) (p : Process) : Label → Process → Prop
  | signal : Moves owner p .signal { p with stopRequested := true }
  | run (l : Step) (c : Shutdown) : p.tail = .running → l.role = .run → p.core.step owner l = some c →
      Moves owner p (.run l) { p with core := c }
  | checker (l : Step) (c : Shutdown) : l.role = .checker → p.core.step owner l = some c →
      Moves owner p (.checker l) { p with core := c }
  | pollRequested : p.watcher = .polling → Moves owner p .pollRequested
      { p with watcher := if p.stopRequested then .deciding else .pollingExit }
  | pollExit : p.watcher = .pollingExit → Moves owner p .pollExit
      { p with watcher := if p.watcherShouldExit then .deciding else .polling }
  | decide : p.watcher = .deciding → Moves owner p .decide
      { p with watcher := if p.stopRequested then .stopping else .exited }
  | stop (l : Step) (c : Shutdown) : p.watcher = .stopping → l.role = .stop →
      p.core.step owner l = some c → Moves owner p (.stop l) { p with core := c }
  | stopped : p.watcher = .stopping → p.core.stop = .returned →
      Moves owner p .stopped { p with watcher := .exited }
  | leave : p.tail = .running → p.core.main = .returned →
      Moves owner p .leave { p with tail := .told, watcherShouldExit := true }
  | joinWatcher : p.tail = .told → p.watcher = .exited →
      Moves owner p .joinWatcher { p with tail := .destroying }
  | destroyRunning : p.tail = .destroying ∨ p.tail = .releasing → p.own = .idle →
      Moves owner p (.destroy .stopRunning)
        { p with core := { p.core with running := false }, own := Shutdown.afterClear owner }
  | destroyChecker : p.tail = .destroying ∨ p.tail = .releasing → p.own = .cleared →
      Moves owner p (.destroy .stopChecker)
        { p with core := { p.core with checkerRunning := false }, own := .checkerCleared }
  | destroyJoinable : p.tail = .destroying ∨ p.tail = .releasing → p.own = .checkerCleared →
      Moves owner p (.destroy .joinable) { p with own := if p.core.thread then .joining else .returned }
  | destroyJoin : p.tail = .destroying ∨ p.tail = .releasing → p.own = .joining →
      p.core.checker = .exited →
      Moves owner p (.destroy .join) { p with core := { p.core with thread := false }, own := .returned }
  | destroyed : p.tail = .destroying → p.own = .returned →
      Moves owner p .destroyed (p.afterDestroy owner)
  | released : p.tail = .releasing → p.own = .returned → Moves owner p .destroyed { p with tail := .ended }

variable {owner : Owner} {p q : Process} {l : Label}

lemma step_moves (h : step owner p l = some q) : Moves owner p l q := by
  cases l with
  | signal =>
    cases h
    exact .signal
  | run l =>
    simp only [step] at h
    split_ifs at h with hp
    obtain ⟨c, hc, rfl⟩ := Option.map_eq_some_iff.mp h
    exact .run l c hp.1 hp.2 hc
  | checker l =>
    simp only [step] at h
    split_ifs at h with hp
    obtain ⟨c, hc, rfl⟩ := Option.map_eq_some_iff.mp h
    exact .checker l c hp hc
  | pollRequested =>
    obtain ⟨hp, ⟨⟩⟩ := Option.ite_none_right_eq_some.mp h
    exact .pollRequested hp
  | pollExit =>
    obtain ⟨hp, ⟨⟩⟩ := Option.ite_none_right_eq_some.mp h
    exact .pollExit hp
  | decide =>
    obtain ⟨hp, ⟨⟩⟩ := Option.ite_none_right_eq_some.mp h
    exact .decide hp
  | stop l =>
    simp only [step] at h
    split_ifs at h with hp
    obtain ⟨c, hc, rfl⟩ := Option.map_eq_some_iff.mp h
    exact .stop l c hp.1 hp.2 hc
  | stopped =>
    obtain ⟨hp, ⟨⟩⟩ := Option.ite_none_right_eq_some.mp h
    exact .stopped hp.1 hp.2
  | leave =>
    obtain ⟨hp, ⟨⟩⟩ := Option.ite_none_right_eq_some.mp h
    exact .leave hp.1 hp.2
  | joinWatcher =>
    obtain ⟨hp, ⟨⟩⟩ := Option.ite_none_right_eq_some.mp h
    exact .joinWatcher hp.1 hp.2
  | destroy l =>
    simp only [step] at h
    split_ifs at h with hp
    obtain ⟨c, hc, rfl⟩ := Option.map_eq_some_iff.mp h
    obtain ⟨he, rfl⟩ := Shutdown.step_eq hc
    obtain ⟨ht, hr⟩ := hp
    cases l with
    | bind _ | startChecker | spawn | assign | raise | test | iterate | checkerTest | sweep => cases hr
    | stopRunning => exact .destroyRunning ht (of_decide_eq_true he)
    | stopChecker => exact .destroyChecker ht (of_decide_eq_true he)
    | joinable => exact .destroyJoinable ht (of_decide_eq_true he)
    | join => exact .destroyJoin ht (of_decide_eq_true he).1 (of_decide_eq_true he).2
  | destroyed =>
    simp only [step] at h
    split_ifs at h with hp
    split at h
    · cases h
      exact .destroyed ‹_› hp
    · cases h
      exact .released ‹_› hp
    · cases h

structure Inv (owner : Owner) (p : Process) : Prop where
  threaded : p.core.Threaded
  flagged : p.core.Flagged owner
  polling : p.watcher ≠ .polling → p.watcher ≠ .pollingExit →
    p.stopRequested = true ∨ p.watcherShouldExit = true
  stopping : p.core.stop ≠ .idle → p.watcher = .stopping ∨ p.watcher = .exited
  exited : p.watcher = .exited → p.core.stop = .returned ∨ p.core.stop = .idle ∧ p.watcherShouldExit = true
  told : p.watcherShouldExit = true ↔ p.tail ≠ .running
  left : p.tail ≠ .running → p.core.main = .returned
  joined : p.tail = .running ∨ p.tail = .told ∨ p.watcher = .exited
  own : p.tail = .running ∨ p.tail = .told → p.own = .idle
  owned : p.own = .joining → p.core.thread = true
  gone : p.own = .returned ∨ p.tail = .releasing ∨ p.tail = .ended → p.core.thread = false

section Frames

variable {s t : Shutdown} {l : Step}

lemma run_frame (hl : l.role = .run) (h : s.step owner l = some t) : t.stop = s.stop := by
  obtain ⟨-, rfl⟩ := Shutdown.step_eq h
  cases l with
  | bind _ | startChecker | spawn | assign | raise | test | iterate => rfl
  | checkerTest | sweep | stopRunning | stopChecker | joinable | join => cases hl

lemma checker_frame (hl : l.role = .checker) (h : s.step owner l = some t) :
    t.stop = s.stop ∧ t.main = s.main ∧ t.thread = s.thread := by
  obtain ⟨-, rfl⟩ := Shutdown.step_eq h
  cases l with
  | bind _ | startChecker | spawn | assign | raise | test | iterate => cases hl
  | checkerTest | sweep => exact ⟨rfl, rfl, rfl⟩
  | stopRunning | stopChecker | joinable | join => cases hl

lemma stop_frame (hl : l.role = .stop) (h : s.step owner l = some t) :
    t.stop ≠ .idle ∧ t.main = s.main := by
  obtain ⟨-, rfl⟩ := Shutdown.step_eq h
  cases l with
  | bind _ | startChecker | spawn | assign | raise | test | iterate | checkerTest | sweep => cases hl
  | stopRunning => cases owner <;> simp [Shutdown.effect, Shutdown.afterClear]
  | stopChecker | join => simp [Shutdown.effect]
  | joinable =>
    refine ⟨?_, rfl⟩
    simp only [Shutdown.effect]
    split <;> simp

end Frames

namespace Inv

lemma create : Inv owner create := by
  refine ⟨?_, ?_, ?_, ?_, ?_, ?_, ?_, Or.inl rfl, fun _ => rfl, ?_, fun _ => rfl⟩
  · constructor <;> simp [Process.create, Shutdown.create]
  · constructor <;> simp [Process.create, Shutdown.create, Shutdown.Raised]
  all_goals simp [Process.create, Shutdown.create]

lemma present (hi : Inv owner p) (hw : p.watcher ≠ .exited) : p.tail = .running ∨ p.tail = .told := by
  rcases hi.joined with h | h | h
  · exact Or.inl h
  · exact Or.inr h
  · exact absurd h hw

lemma absent (hi : Inv owner p) (ht : p.tail = .destroying ∨ p.tail = .releasing) : p.watcher = .exited := by
  by_contra hw
  rcases hi.present hw with h | h <;> simp [h] at ht

lemma idle (hi : Inv owner p) (hs : p.watcher ≠ .stopping) (he : p.watcher ≠ .exited) :
    p.core.stop = .idle := by
  by_contra hn
  exact (hi.stopping hn).elim hs he

lemma watches (hi : Inv owner p) (hs : p.watcher ≠ .stopping) (hw : p.watcher ≠ .exited) (w : Watcher)
    (hp : w ≠ .polling → w ≠ .pollingExit → p.stopRequested = true ∨ p.watcherShouldExit = true)
    (he : w = .exited → p.watcherShouldExit = true) : Inv owner { p with watcher := w } :=
  { hi with
    polling := hp
    stopping := fun hn => absurd (hi.idle hs hw) hn
    exited := fun hx => Or.inr ⟨hi.idle hs hw, he hx⟩
    joined := (hi.present hw).imp_right Or.inl }

lemma destroys (hi : Inv owner p) (ht : p.tail = .destroying ∨ p.tail = .releasing) (r k t : Bool) (o : Stop)
    (hr : r = true → p.core.running = true) (hk : k = true → p.core.checkerRunning = true)
    (hth : t = p.core.thread ∨ t = false ∧ p.core.checker = .exited)
    (ho : o = .joining → t = true) (hg : o = .returned → t = false) :
    Inv owner { p with core := { p.core with running := r, checkerRunning := k, thread := t }, own := o } := by
  have hne : p.tail ≠ .running ∧ p.tail ≠ .told ∧ p.tail ≠ .ended := by
    rcases ht with ht | ht <;> simp [ht]
  have hmain := hi.left hne.1
  have hstop : p.core.stop ≠ .joining := by
    rcases hi.exited (hi.absent ht) with h | h <;> simp [h]
  have hlower : ∀ {b c : Bool}, (b = true → c = true) → c = false → b = false := by decide
  have hthread : t = true → p.core.thread = true := by
    rcases hth with h | h <;> simp [h]
  obtain ⟨hb, ha⟩ := And.intro hi.threaded.born hi.threaded.alive
  obtain ⟨-, -, hret, -, hlow, hown⟩ := hi.flagged
  have hr' : r = false := hlower hr (hret hmain)
  refine { hi with
    threaded := ⟨?_, ?_, ?_, ?_, ?_⟩, flagged := ⟨?_, ?_, ?_, ?_, ?_, ?_⟩
    own := by simp [hne], owned := ho, gone := ?_ }
  · simp [hmain]
  · simp [hmain]
  · exact fun h => hb (h.imp_left hthread)
  · intro h
    rcases hth with ht | ⟨-, he⟩
    · exact ht ▸ ha h
    · simp [he] at h
  · exact fun h => absurd h hstop
  · simp [hmain]
  · exact fun _ => hr'
  · exact fun _ => hr'
  · exact fun _ _ _ => hmain
  · exact fun hra _ hc => hlower hk (hlow hra (hret hmain) hc)
  · exact fun h => ⟨hlower hk (hown h).1, hlower hthread (hown h).2.1, (hown h).2.2⟩
  · intro h
    simp only [hne, or_false] at h
    exact h.elim hg fun h => hlower hthread (hi.gone (Or.inr (Or.inl h)))

lemma step (hi : Inv owner p) (h : step owner p l = some q) : Inv owner q := by
  cases step_moves h with
  | signal => exact { hi with polling := fun _ _ => Or.inl rfl }
  | run l c ht hl hc =>
    have hown := hi.own (Or.inl ht)
    have hstop := run_frame hl hc
    exact { hi with
      threaded := hi.threaded.step hc, flagged := hi.flagged.step hc
      stopping := by rw [hstop]; exact hi.stopping
      exited := by rw [hstop]; exact hi.exited
      left := fun hn => absurd ht hn, owned := by simp [hown], gone := by simp [hown, ht] }
  | checker l c hl hc =>
    obtain ⟨hstop, hmain, hthread⟩ := checker_frame hl hc
    exact { hi with
      threaded := hi.threaded.step hc, flagged := hi.flagged.step hc
      stopping := by rw [hstop]; exact hi.stopping
      exited := by rw [hstop]; exact hi.exited
      left := by rw [hmain]; exact hi.left
      owned := by rw [hthread]; exact hi.owned
      gone := by rw [hthread]; exact hi.gone }
  | pollRequested hw =>
    apply hi.watches (by simp [hw]) (by simp [hw])
    · cases hq : p.stopRequested <;> simp
    · cases hq : p.stopRequested <;> simp
  | pollExit hw =>
    apply hi.watches (by simp [hw]) (by simp [hw])
    · cases hq : p.watcherShouldExit <;> simp
    · cases hq : p.watcherShouldExit <;> simp
  | decide hw =>
    have hp := hi.polling (by simp [hw]) (by simp [hw])
    apply hi.watches (by simp [hw]) (by simp [hw])
    · exact fun _ _ => hp
    · cases hq : p.stopRequested with
      | true => simp
      | false => exact fun _ => hp.resolve_left (by simp [hq])
  | stop l c hw hl hc =>
    obtain ⟨hstop, hmain⟩ := stop_frame hl hc
    have hpres := hi.present (by simp [hw])
    have hown := hi.own hpres
    exact { hi with
      threaded := hi.threaded.step hc, flagged := hi.flagged.step hc
      stopping := fun _ => Or.inl hw
      exited := by simp [hw]
      left := by rw [hmain]; exact hi.left
      owned := by simp [hown]
      gone := by rcases hpres with ht | ht <;> simp [hown, ht] }
  | stopped hw hr =>
    exact { hi with
      polling := fun _ _ => hi.polling (by simp [hw]) (by simp [hw])
      stopping := fun _ => Or.inr rfl
      exited := fun _ => Or.inl hr
      joined := Or.inr (Or.inr rfl) }
  | leave ht hm =>
    have hown := hi.own (Or.inl ht)
    exact { hi with
      polling := fun _ _ => Or.inr rfl
      exited := fun hw => (hi.exited hw).imp_right fun h => ⟨h.1, rfl⟩
      told := by simp
      left := fun _ => hm
      joined := Or.inr (Or.inl rfl)
      own := fun _ => hown
      gone := by simp [hown] }
  | joinWatcher ht hw =>
    have hown := hi.own (Or.inr ht)
    exact { hi with
      told := by simpa [ht] using hi.told
      left := fun _ => hi.left (by simp [ht])
      joined := Or.inr (Or.inr hw)
      own := by simp
      gone := by simp [hown] }
  | destroyRunning ht ho =>
    apply hi.destroys ht false p.core.checkerRunning p.core.thread
    · simp
    · exact id
    · exact Or.inl rfl
    · cases owner <;> simp [Shutdown.afterClear]
    · cases owner with
      | httpServer => exact fun _ => (hi.flagged.own rfl).2.1
      | loadBalancer => simp [Shutdown.afterClear]
  | destroyChecker ht ho =>
    exact hi.destroys ht p.core.running false p.core.thread _ id (by simp) (Or.inl rfl) (by simp) (by simp)
  | destroyJoinable ht ho =>
    apply hi.destroys ht p.core.running p.core.checkerRunning p.core.thread _ id id (Or.inl rfl)
    · cases p.core.thread <;> simp
    · cases p.core.thread <;> simp
  | destroyJoin ht ho hc =>
    exact hi.destroys ht p.core.running p.core.checkerRunning false _ id id (Or.inr ⟨rfl, hc⟩) (by simp)
      fun _ => rfl
  | destroyed ht ho =>
    have hw := hi.absent (Or.inl ht)
    cases owner with
    | httpServer =>
      exact { hi with
        told := by simpa [ht, afterDestroy] using hi.told
        left := fun _ => hi.left (by simp [ht])
        joined := Or.inr (Or.inr hw)
        own := by simp [afterDestroy]
        gone := fun _ => hi.gone (Or.inl ho) }
    | loadBalancer =>
      exact { hi with
        told := by simpa [ht, afterDestroy] using hi.told
        left := fun _ => hi.left (by simp [ht])
        joined := Or.inr (Or.inr hw)
        own := by simp [afterDestroy]
        owned := by simp [afterDestroy]
        gone := fun _ => hi.gone (Or.inl ho) }
  | released ht ho =>
    exact { hi with
      told := by simpa [ht] using hi.told
      left := fun _ => hi.left (by simp [ht])
      joined := Or.inr (Or.inr (hi.absent (Or.inr ht)))
      own := by simp
      gone := fun _ => hi.gone (Or.inl ho) }

end Inv

abbrev Reached (owner : Owner) : Process → Prop := Transitions.Reachable (step owner) (fun _ _ => True) create

lemma reached_inv (h : Reached owner p) : Inv owner p :=
  Transitions.Reachable.invariant Inv.create (fun _ _ _ hi _ hs => hi.step hs) h

lemma Inv.ended (hi : Inv owner p) (ht : p.tail = .ended) :
    p.core.thread = false ∧ p.watcher = .exited ∧ (p.core.checker = .unborn ∨ p.core.checker = .exited) := by
  have hthread := hi.gone (Or.inr (Or.inr ht))
  have hmain := hi.left (by simp [ht])
  refine ⟨hthread, by simpa [ht] using hi.joined, ?_⟩
  cases hc : p.core.checker with
  | unborn => exact Or.inl rfl
  | exited => exact Or.inr rfl
  | testing => simpa [hthread, hmain] using hi.threaded.alive (Or.inl hc)
  | probing => simpa [hthread, hmain] using hi.threaded.alive (Or.inr hc)

lemma Inv.ended_moves (hi : Inv owner p) (ht : p.tail = .ended) (h : p.step owner l = some q) :
    l = .signal := by
  obtain ⟨-, hw, hc⟩ := hi.ended ht
  cases step_moves h with
  | signal => rfl
  | checker l c hl hs =>
    obtain ⟨he, -⟩ := Shutdown.step_eq hs
    cases l with
    | checkerTest | sweep => rcases hc with hc | hc <;> simp [Shutdown.enabled, hc] at he
    | bind _ | startChecker | spawn | assign | raise | test | iterate => cases hl
    | stopRunning | stopChecker | joinable | join => cases hl
  | run | leave | joinWatcher | destroyRunning | destroyChecker | destroyJoinable | destroyJoin | destroyed
    | released => simp_all
  | pollRequested | pollExit | decide | stop | stopped => simp_all

theorem torn_down_once (owner : Owner) (p : Process)
    (h : Transitions.Reachable (step owner) (fun _ _ => True) create p) :
    (p.watcher = .stopping → p.tail = .running ∨ p.tail = .told) ∧
    (p.core.main = .assigning → p.core.thread = false) ∧
    (p.core.stop = .joining ∨ p.own = .joining → p.core.thread = true ∧ p.core.checker ≠ .unborn) ∧
    (p.tail = .ended → p.core.thread = false ∧ p.watcher = .exited ∧
      (p.core.checker = .unborn ∨ p.core.checker = .exited) ∧
      ∀ l q, step owner p l = some q → l = .signal) := by
  have hi := reached_inv h
  refine ⟨fun hw => hi.present (by simp [hw]), fun hm => hi.threaded.unassigned (by simp [hm]), ?_, ?_⟩
  · intro hj
    have ht : p.core.thread = true := hj.elim hi.threaded.joining hi.owned
    exact ⟨ht, hi.threaded.born (Or.inl ht)⟩
  · intro ht
    obtain ⟨hthread, hw, hc⟩ := hi.ended ht
    exact ⟨hthread, hw, hc, fun l q hs => hi.ended_moves ht hs⟩

theorem torn_down_once_signalled_late :
    ∃ p : Process, Transitions.Reachable (step .loadBalancer) (fun _ _ => True) create p ∧
      p.tail = .ended ∧ p.stopRequested = true ∧ p.core.thread = false ∧ p.watcher = .exited ∧
      (p.core.checker = .unborn ∨ p.core.checker = .exited) ∧
      ∀ l q, step .loadBalancer p l = some q → l = .signal := by
  -- the port cannot be bound, and the signal falls between the watcher's last two reads
  have h : ∃ p : Process, Transitions.Reachable (step .loadBalancer) (fun _ _ => True) create p ∧
      p.tail = .ended ∧ p.stopRequested = true :=
    Transitions.exists_reachable [.pollRequested, .run (.bind false), .leave, .pollExit, .signal, .decide,
      .stop .stopRunning, .stop .stopChecker, .stop .joinable, .stopped, .joinWatcher, .destroy .stopRunning,
      .destroy .stopChecker, .destroy .joinable, .destroyed, .destroy .stopChecker, .destroy .joinable,
      .destroyed] (by decide)
  obtain ⟨p, hp, ht, hs⟩ := h
  exact ⟨p, hp, ht, hs, (torn_down_once .loadBalancer p hp).2.2.2 ht⟩

end Process

end HttpBalancer.System
