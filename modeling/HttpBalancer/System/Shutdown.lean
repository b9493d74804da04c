import HttpBalancer.System.Teardown

/-! `run` in the main thread against one `stop` in the watcher thread, store by store. `run` raises the
flags that `stop` lowers, and nothing tells it that a stop came first. -/

namespace HttpBalancer.System

open Lib

namespace Shutdown

/-- Where `run` is. `starting`, `spawning` and `assigning` are the steps of the checker's `start`, which
only the load balancer takes. -/
inductive Main
  | binding
  | starting
  | spawning
  | assigning
  | raising
  | testing
  | iterating
  | returned
  deriving DecidableEq

inductive Checker
  | unborn
  | testing
  | probing
  | exited
  deriving DecidableEq

inductive Stop
  | idle
  | cleared
  | checkerCleared
  | joining
  | returned
  deriving DecidableEq

inductive Step
  | bind (valid : Bool)
  | startChecker
  | spawn
  | assign
  | raise
  | test
  | iterate
  | checkerTest
  | sweep
  | stopRunning
  | stopChecker
  | joinable
  | join
  deriving DecidableEq

end Shutdown

structure Shutdown where
  main : Shutdown.Main
  running : Bool
  checkerRunning : Bool
  checker : Shutdown.Checker
  thread : Bool
  stop : Shutdown.Stop
  deriving DecidableEq

namespace Shutdown

def create : Shutdown := ⟨.binding, false, false, .unborn, false, .idle⟩

def afterBind : Owner → Main
  | .httpServer => .raising
  | .loadBalancer => .starting

def afterClear : Owner → Stop
  | .httpServer => .returned
  | .loadBalancer => .cleared

def enabled (s : Shutdown) : Step → Bool
  | .bind _ => s.main = .binding
  | .startChecker => s.main = .starting
  | .spawn => s.main = .spawning
  | .assign => s.main = .assigning
  | .raise => s.main = .raising
  | .test => s.main = .testing
  | .iterate => s.main = .iterating
  | .checkerTest => s.checker = .testing
  | .sweep => s.checker = .probing
  | .stopRunning => s.stop = .idle
  | .stopChecker => s.stop = .cleared
  | .joinable => s.stop = .checkerCleared
  | .join => s.stop = .joining ∧ s.checker = .exited

def effect (owner : Owner) (s : Shutdown) : Step → Shutdown
  | .bind valid => { s with main := if valid then afterBind owner else .returned }
  | .startChecker => { s with main := .spawning, checkerRunning := true }
  | .spawn => { s with main := .assigning, checker := .testing }
  | .assign => { s with main := .raising, thread := true }
  | .raise => { s with main := .testing, running := true }
  | .test => { s with main := if s.running then .iterating else .returned }
  | .iterate => { s with main := .testing }
  | .checkerTest => { s with checker := if s.checkerRunning then .probing else .exited }
  | .sweep => { s with checker := .testing }
  | .stopRunning => { s with stop := afterClear owner, running := false }
  | .stopChecker => { s with stop := .checkerCleared, checkerRunning := false }
  | .joinable => { s with stop := if s.thread then .joining else .returned }
  | .join => { s with stop := .returned, thread := false }

def step (owner : Owner) (s : Shutdown) (l : Step) : Option Shutdown :=
  if s.enabled l then some (s.effect owner l) else none

def Unstopped (_ : Shutdown) (l : Step) : Prop := l ≠ .stopRunning

instance (s : Shutdown) : DecidablePred s.Unstopped := fun l =>
  inferInstanceAs (Decidable (l ≠ .stopRunning))

def Halted (owner : Owner) (s : Shutdown) : Prop :=
  s.running = false ∧ s.checkerRunning = false ∧
    (∀ t, s.step owner .test = some t → t.main = .returned) ∧
    ∀ t, s.step owner .checkerTest = some t → t.checker = .exited

def Raised (s : Shutdown) : Prop := s.main = .testing ∨ s.main = .iterating ∨ s.main = .returned

variable {owner : Owner} {s t : Shutdown} {l : Step}

lemma step_eq (h : s.step owner l = some t) : s.enabled l = true ∧ t = s.effect owner l := by
  rw [step] at h
  split_ifs at h with he
  exact ⟨he, (Option.some.inj h).symm⟩

lemma halted_of_flags (hr : s.running = false) (hc : s.checkerRunning = false) : Halted owner s := by
  refine ⟨hr, hc, ?_, ?_⟩
  · intro t h
    obtain ⟨-, rfl⟩ := step_eq h
    simp [effect, hr]
  · intro t h
    obtain ⟨-, rfl⟩ := step_eq h
    simp [effect, hc]

structure Lowered (owner : Owner) (s : Shutdown) : Prop where
  raised : s.Raised
  running : s.stop ≠ .idle → s.running = false
  checkerRunning : s.stop ≠ .idle → s.stop ≠ .cleared → s.checkerRunning = false
  own : owner = .httpServer → s.checkerRunning = false

lemma Lowered.step (hs : Lowered owner s) (h : s.step owner l = some t) : Lowered owner t := by
  obtain ⟨he, rfl⟩ := step_eq h
  obtain ⟨hm, hr, hc, ho⟩ := hs
  cases l with
  | bind _ | startChecker | spawn | assign | raise => simp_all [enabled, Raised]
  | test =>
    refine ⟨?_, hr, hc, ho⟩
    cases hb : s.running <;> simp [effect, Raised, hb]
  | iterate => exact ⟨Or.inl rfl, hr, hc, ho⟩
  | checkerTest | sweep => exact ⟨hm, hr, hc, ho⟩
  | stopRunning =>
    refine ⟨hm, fun _ => rfl, ?_, ho⟩
    cases owner with
    | httpServer => exact fun _ _ => ho rfl
    | loadBalancer => exact fun _ hn => absurd rfl hn
  | stopChecker =>
    have hs : s.stop = .cleared := by simpa [enabled] using he
    exact ⟨hm, fun _ => hr (by simp [hs]), fun _ _ => rfl, fun _ => rfl⟩
  | joinable =>
    have hs : s.stop = .checkerCleared := by simpa [enabled] using he
    exact ⟨hm, fun _ => hr (by simp [hs]), fun _ _ => hc (by simp [hs]) (by simp [hs]), ho⟩
  | join =>
    have hs : s.stop = .joining := by simp_all [enabled]
    exact ⟨hm, fun _ => hr (by simp [hs]), fun _ _ => hc (by simp [hs]) (by simp [hs]), ho⟩

lemma Lowered.halted (hs : Lowered owner s) (h : s.stop = .returned) : Halted owner s :=
  halted_of_flags (hs.running (by simp [h])) (hs.checkerRunning (by simp [h]) (by simp [h]))

structure Serving (owner : Owner) (s : Shutdown) : Prop where
  stop : s.stop = .idle
  checker : s.thread = true → s.checker ≠ .unborn
  assigning : s.main = .assigning → s.checker ≠ .unborn
  own : owner = .httpServer → s.checkerRunning = false ∧ s.main ≠ .starting

lemma Serving.step (hs : Serving owner s) (hl : s.Unstopped l) (h : s.step owner l = some t) :
    Serving owner t := by
  obtain ⟨he, rfl⟩ := step_eq h
  obtain ⟨hi, hc, ha, ho⟩ := hs
  have hown : owner = .httpServer → s.checkerRunning = false := fun h => (ho h).1
  cases l with
  | stopRunning => exact absurd rfl hl
  | stopChecker | joinable | join => simp_all [enabled]
  | bind valid =>
    refine ⟨hi, hc, ?_, ?_⟩ <;> cases valid <;> cases owner <;> simp_all [effect, afterBind]
  | startChecker =>
    refine ⟨hi, hc, by simp [effect], ?_⟩
    intro h
    exact absurd (by simpa [enabled] using he) (ho h).2
  | spawn => exact ⟨hi, by simp [effect], by simp [effect], by simpa [effect] using hown⟩
  | assign =>
    have hm : s.main = .assigning := by simpa [enabled] using he
    exact ⟨hi, fun _ => ha hm, by simp [effect], by simpa [effect] using hown⟩
  | raise | iterate => exact ⟨hi, hc, by simp [effect], by simpa [effect] using hown⟩
  | test =>
    refine ⟨hi, hc, ?_, ?_⟩ <;> cases hb : s.running <;> simp [effect, hb] <;> exact hown
  | checkerTest =>
    refine ⟨hi, ?_, ?_, ho⟩ <;> cases hb : s.checkerRunning <;> simp [effect, hb]
  | sweep => exact ⟨hi, by simp [effect], by simp [effect], ho⟩

lemma reachable_serving (h : Transitions.Reachable (step owner) Unstopped create s) :
    Serving owner s :=
  h.invariant ⟨rfl, by simp [create], by simp [create], fun _ => ⟨rfl, by simp [create]⟩⟩
    fun _ _ _ hs hl ht => hs.step hl ht

abbrev Leads (owner : Owner) (s : Shutdown) : Shutdown → Prop :=
  Transitions.Reachable (step owner) (fun _ _ => True) s

lemma leads_effect (h : Leads owner s t) (l : Step) (he : t.enabled l = true) :
    Leads owner s (t.effect owner l) :=
  h.step l trivial (if_pos he)

lemma checker_exits (h : Leads owner s t) (hr : t.checkerRunning = false) (hc : t.checker ≠ .unborn) :
    Leads owner s { t with checker := .exited } := by
  have htest : ∀ u : Shutdown, Leads owner s u → u.checkerRunning = false → u.checker = .testing →
      Leads owner s { u with checker := .exited } := by
    intro u hu hru hcu
    have hh := leads_effect hu .checkerTest (by simp [enabled, hcu])
    simpa [effect, hru] using hh
  cases hk : t.checker with
  | unborn => exact absurd hk hc
  | testing => exact htest t h hr hk
  | probing =>
    have hh := htest _ (leads_effect h .sweep (by simp [enabled, hk])) hr rfl
    exact hh
  | exited => rwa [← hk]

lemma Serving.stop_returns (hs : Serving owner s) :
    ∃ t, Leads owner s t ∧ t.stop = .returned ∧ t.main = s.main := by
  have h0 : Leads owner s s := .init
  have h1 := leads_effect h0 .stopRunning (by simp [enabled, hs.stop])
  cases owner with
  | httpServer => exact ⟨_, h1, rfl, rfl⟩
  | loadBalancer =>
    have h2 := leads_effect h1 .stopChecker rfl
    have h3 := leads_effect h2 .joinable rfl
    cases ht : s.thread with
    | false => exact ⟨_, h3, by simp [effect, ht], rfl⟩
    | true =>
      have h4 := checker_exits h3 rfl (hs.checker ht)
      have h5 := leads_effect h4 .join (by simp [enabled, effect, ht])
      exact ⟨_, h5, rfl, rfl⟩

def Reraised (owner : Owner) (t : Shutdown) : Prop :=
  ∃ u, Leads owner t u ∧ u.stop = t.stop ∧ u.running = true

lemma Reraised.of_effect (h : Reraised owner (t.effect owner l)) (he : t.enabled l = true)
    (hs : (t.effect owner l).stop = t.stop) : Reraised owner t := by
  obtain ⟨u, hu, hstop, hr⟩ := h
  exact ⟨u, (leads_effect .init l he).trans hu, hstop.trans hs, hr⟩

lemma reraised_raising (hm : t.main = .raising) : Reraised owner t :=
  ⟨_, leads_effect .init .raise (by simp [enabled, hm]), rfl, rfl⟩

lemma reraised_assigning (hm : t.main = .assigning) : Reraised owner t :=
  .of_effect (l := .assign) (reraised_raising rfl) (by simp [enabled, hm]) rfl

lemma reraised_spawning (hm : t.main = .spawning) : Reraised owner t :=
  .of_effect (l := .spawn) (reraised_assigning rfl) (by simp [enabled, hm]) rfl

lemma reraised_starting (hm : t.main = .starting) : Reraised owner t :=
  .of_effect (l := .startChecker) (reraised_spawning rfl) (by simp [enabled, hm]) rfl

lemma reraised (hn : ¬ t.Raised) : Reraised owner t := by
  cases hm : t.main with
  | binding =>
    refine .of_effect (l := .bind true) ?_ (by simp [enabled, hm]) rfl
    cases owner with
    | httpServer => exact reraised_raising rfl
    | loadBalancer => exact reraised_starting rfl
  | starting => exact reraised_starting hm
  | spawning => exact reraised_spawning hm
  | assigning => exact reraised_assigning hm
  | raising => exact reraised_raising hm
  | testing | iterating | returned => simp [Raised, hm] at hn

theorem stop_never_lost_iff (owner : Owner) (s : Shutdown)
    (h : Transitions.Reachable (step owner) Unstopped create s) :
    (∀ t, Transitions.Reachable (step owner) (fun _ _ => True) s t → t.stop = .returned →
      Halted owner t) ↔ s.main = .testing ∨ s.main = .iterating ∨ s.main = .returned := by
  have hs := reachable_serving h
  constructor
  · intro hall
    by_contra hn
    obtain ⟨t, ht, hr, hm⟩ := hs.stop_returns
    have hl : Reraised owner t := reraised (by rwa [Raised, hm])
    obtain ⟨u, hu, hstop, hrun⟩ := hl
    have hh := (hall u (ht.trans hu) (hstop.trans hr)).1
    simp [hrun] at hh
  · intro hm t ht hr
    have hi : Lowered owner s :=
      ⟨hm, fun hn => absurd hs.stop hn, fun hn => absurd hs.stop hn, fun ho => (hs.own ho).1⟩
    have hl : Lowered owner t := ht.invariant hi fun _ _ _ hi _ hstep => hi.step hstep
    exact hl.halted hr

theorem stop_never_lost_iterating : ∃ s : Shutdown,
    Transitions.Reachable (step .loadBalancer) Unstopped create s ∧ s.main = .iterating ∧
      s.checker = .probing ∧ ∀ t, Transitions.Reachable (step .loadBalancer) (fun _ _ => True) s t →
        t.stop = .returned → Halted .loadBalancer t := by
  have h : ∃ s : Shutdown, Transitions.Reachable (step .loadBalancer) Unstopped create s ∧
      s.main = .iterating ∧ s.checker = .probing :=
    Transitions.exists_reachable [.bind true, .startChecker, .spawn, .checkerTest, .assign, .raise, .test]
      (by decide)
  obtain ⟨s, hs, hm, hc⟩ := h
  exact ⟨s, hs, hm, hc, (stop_never_lost_iff .loadBalancer s hs).mpr (Or.inr (Or.inl hm))⟩

/-- A stop that comes while `run` is still binding the port: both loops run on, and nobody stops them
again. -/
theorem stop_lost :
    (∃ s : Shutdown, Transitions.Reachable (step .httpServer) (fun _ _ => True) create s ∧
      s.stop = .returned ∧ s.running = true ∧ s.main = .iterating) ∧
    (∃ s : Shutdown, Transitions.Reachable (step .loadBalancer) (fun _ _ => True) create s ∧
      s.stop = .returned ∧ s.running = true ∧ s.main = .iterating ∧ s.checkerRunning = true ∧
      s.checker = .probing) :=
  ⟨Transitions.exists_reachable [.stopRunning, .bind true, .raise, .test] (by decide),
    Transitions.exists_reachable [.stopRunning, .stopChecker, .joinable, .bind true, .startChecker, .spawn,
      .checkerTest, .assign, .raise, .test] (by decide)⟩

end Shutdown

end HttpBalancer.System
