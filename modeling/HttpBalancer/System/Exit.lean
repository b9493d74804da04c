import HttpBalancer.System.Process

/-! What is still to be done once a stop is on its way: who is waited for, and a rank that their steps
lower. -/

namespace HttpBalancer.System.Process

open Lib
open Shutdown (Step Stop Lowered)

variable {owner : Owner} {p q : Process} {l : Label}

def helpful (p : Process) : Party :=
  if (p.core.stop = .joining ∨ p.own = .joining) ∧ p.core.checker ≠ .exited then .checker
  else if p.watcher = .exited ∨ p.stopRequested = false ∧ p.watcherShouldExit = false then .main
  else .watcher

def mainRank (s : Shutdown) : ℕ :=
  if s.running then 3 else
    match s.main with
    | .iterating => 2
    | .testing => 1
    | _ => 0

def checkerRank (s : Shutdown) : ℕ :=
  if s.checkerRunning then 3 else
    match s.checker with
    | .probing => 2
    | .testing => 1
    | _ => 0

def stopRank : Stop → ℕ
  | .idle => 4
  | .cleared => 3
  | .checkerCleared => 2
  | .joining => 1
  | .returned => 0

/-- The watcher goes round between its two reads until one of the flags is up. -/
def watcherRank (p : Process) : ℕ :=
  match p.watcher with
  | .polling => if p.stopRequested then 8 else if p.watcherShouldExit then 10 else 11
  | .pollingExit => if p.stopRequested || p.watcherShouldExit then 9 else 11
  | .deciding => 7
  | .stopping => 1 + stopRank p.core.stop
  | .exited => 0

def tailRank (p : Process) : ℕ :=
  match p.tail with
  | .running => 12
  | .told => 11
  | .destroying => 6 + stopRank p.own
  | .releasing => 1 + stopRank p.own
  | .ended => 0

def rank (p : Process) : ℕ := mainRank p.core + checkerRank p.core + watcherRank p + tailRank p

/-- A stop is on its way, or `run` has come back without one. -/
structure Doomed (owner : Owner) (p : Process) : Prop where
  inv : Inv owner p
  lowered : Lowered owner p.core
  due : p.stopRequested = true ∨ p.core.main = .returned

/-- The flags stay, and a loop whose flag is down is where it was. -/
structure Idles (s t : Shutdown) : Prop where
  running : t.running = s.running
  checkerRunning : t.checkerRunning = s.checkerRunning
  main : s.running = false → t.main = s.main
  checker : s.checkerRunning = false → t.checker = s.checker

lemma Idles.refl (s : Shutdown) : Idles s s := ⟨rfl, rfl, fun _ => rfl, fun _ => rfl⟩

def Descends (p : Process) (l : Label) (q : Process) : Prop :=
  rank q < rank p ∨
    rank q = rank p ∧ helpful q = helpful p ∧ l.party ≠ some (helpful p) ∧ Idles p.core q.core

lemma Doomed.step (hd : Doomed owner p) (h : p.step owner l = some q) : Doomed owner q := by
  have hi := hd.inv.step h
  obtain ⟨-, hl, hdue⟩ := hd
  cases step_moves h with
  | signal => exact ⟨hi, hl, Or.inl rfl⟩
  | run l c ht hr hc =>
    refine ⟨hi, hl.step hc, hdue.imp_right fun hm => ?_⟩
    obtain ⟨he, -⟩ := Shutdown.step_eq hc
    cases l with
    | bind _ | startChecker | spawn | assign | raise | test | iterate => simp [Shutdown.enabled, hm] at he
    | checkerTest | sweep | stopRunning | stopChecker | joinable | join => cases hr
  | checker l c hr hc => exact ⟨hi, hl.step hc, hdue.imp_right (checker_frame hr hc).2.1.trans⟩
  | stop l c hw hr hc => exact ⟨hi, hl.step hc, hdue.imp_right (stop_frame hr hc).2.trans⟩
  | pollRequested | pollExit | decide | stopped | leave | joinWatcher => exact ⟨hi, hl, hdue⟩
  | destroyRunning ht | destroyChecker ht | destroyJoinable ht | destroyJoin ht =>
    have hm := hi.left (by rcases ht with ht | ht <;> simp [ht])
    exact ⟨hi, hi.flagged.lowered_of_returned hm, Or.inr hm⟩
  | destroyed | released => cases owner <;> exact ⟨hi, hl, hdue⟩

section Parts

variable {s t : Shutdown} {l : Step}

lemma mainRank_le (hm : t.main = s.main) (hr : t.running = true → s.running = true) :
    mainRank t ≤ mainRank s := by
  unfold mainRank
  rw [hm]
  cases ht : t.running with
  | true => simp [hr ht]
  | false => cases s.running <;> cases s.main <;> simp

lemma checkerRank_le (hm : t.checker = s.checker) (hr : t.checkerRunning = true → s.checkerRunning = true) :
    checkerRank t ≤ checkerRank s := by
  unfold checkerRank
  rw [hm]
  cases ht : t.checkerRunning with
  | true => simp [hr ht]
  | false => cases s.checkerRunning <;> cases s.checker <;> simp

lemma stopRank_le (o : Stop) : stopRank o ≤ 4 := by cases o <;> decide

lemma stopRank_afterClear : stopRank (Shutdown.afterClear owner) < stopRank .idle := by
  cases owner <;> decide

lemma run_descends (hs : s.Raised) (hl : l.role = .run) (h : s.step owner l = some t) :
    checkerRank t = checkerRank s ∧ t.checker = s.checker ∧
      (s.running = true ∧ mainRank t = mainRank s ∧ Idles s t ∨ mainRank t < mainRank s) := by
  obtain ⟨he, rfl⟩ := Shutdown.step_eq h
  cases l with
  | bind _ | startChecker | spawn | assign | raise =>
    rcases hs with hm | hm | hm <;> simp [Shutdown.enabled, hm] at he
  | test =>
    have hm : s.main = .testing := by simpa [Shutdown.enabled] using he
    refine ⟨rfl, rfl, ?_⟩
    cases hr : s.running with
    | false => exact Or.inr (by simp [mainRank, Shutdown.effect, hr, hm])
    | true => exact Or.inl ⟨rfl, by simp [mainRank, Shutdown.effect, hr], rfl, rfl, by simp [hr], fun _ => rfl⟩
  | iterate =>
    have hm : s.main = .iterating := by simpa [Shutdown.enabled] using he
    refine ⟨rfl, rfl, ?_⟩
    cases hr : s.running with
    | false => exact Or.inr (by simp [mainRank, Shutdown.effect, hr, hm])
    | true => exact Or.inl ⟨rfl, by simp [mainRank, Shutdown.effect, hr], rfl, rfl, by simp [hr], fun _ => rfl⟩
  | checkerTest | sweep | stopRunning | stopChecker | joinable | join => cases hl

lemma checker_descends (hl : l.role = .checker) (h : s.step owner l = some t) :
    mainRank t = mainRank s ∧
      (s.checkerRunning = true ∧ s.checker ≠ .exited ∧ t.checker ≠ .exited ∧
          checkerRank t = checkerRank s ∧ Idles s t ∨
        checkerRank t < checkerRank s) := by
  obtain ⟨he, rfl⟩ := Shutdown.step_eq h
  cases l with
  | checkerTest =>
    have hm : s.checker = .testing := by simpa [Shutdown.enabled] using he
    refine ⟨rfl, ?_⟩
    cases hr : s.checkerRunning with
    | false => exact Or.inr (by simp [checkerRank, Shutdown.effect, hr, hm])
    | true =>
      refine Or.inl ⟨rfl, by simp [hm], by simp [Shutdown.effect, hr], ?_, rfl, rfl, fun _ => rfl, by simp [hr]⟩
      simp [checkerRank, Shutdown.effect, hr]
  | sweep =>
    have hm : s.checker = .probing := by simpa [Shutdown.enabled] using he
    refine ⟨rfl, ?_⟩
    cases hr : s.checkerRunning with
    | false => exact Or.inr (by simp [checkerRank, Shutdown.effect, hr, hm])
    | true =>
      refine Or.inl ⟨rfl, by simp [hm], by simp [Shutdown.effect, hr], ?_, rfl, rfl, fun _ => rfl, by simp [hr]⟩
      simp [checkerRank, Shutdown.effect, hr]
  | bind _ | startChecker | spawn | assign | raise | test | iterate => cases hl
  | stopRunning | stopChecker | joinable | join => cases hl

lemma stop_descends (hl : l.role = .stop) (h : s.step owner l = some t) :
    mainRank t ≤ mainRank s ∧ checkerRank t ≤ checkerRank s ∧ stopRank t.stop < stopRank s.stop := by
  obtain ⟨he, rfl⟩ := Shutdown.step_eq h
  cases l with
  | stopRunning =>
    have hs : s.stop = .idle := by simpa [Shutdown.enabled] using he
    exact ⟨mainRank_le rfl (by simp [Shutdown.effect]), le_rfl, hs ▸ stopRank_afterClear⟩
  | stopChecker =>
    have hs : s.stop = .cleared := by simpa [Shutdown.enabled] using he
    exact ⟨le_rfl, checkerRank_le rfl (by simp [Shutdown.effect]), by simp [Shutdown.effect, stopRank, hs]⟩
  | joinable =>
    have hs : s.stop = .checkerCleared := by simpa [Shutdown.enabled] using he
    exact ⟨le_rfl, le_rfl, by cases ht : s.thread <;> simp [Shutdown.effect, stopRank, hs, ht]⟩
  | join =>
    have hs : s.stop = .joining := by simp_all [Shutdown.enabled]
    exact ⟨le_rfl, le_rfl, by simp [Shutdown.effect, stopRank, hs]⟩
  | bind _ | startChecker | spawn | assign | raise | test | iterate => cases hl
  | checkerTest | sweep => cases hl

end Parts

lemma Inv.own_joining (hi : Inv owner p) (h : p.own = .joining) :
    p.watcher = .exited ∧ p.core.main = .returned ∧ p.core.checkerRunning = false := by
  have ht : p.tail ≠ .running ∧ p.tail ≠ .told := by
    constructor <;> intro ht <;> simpa [h] using hi.own (by simp [ht])
  have hw : p.watcher = .exited := by simpa [ht] using hi.joined
  have hm := hi.left ht.1
  refine ⟨hw, hm, hi.flagged.lowered (Or.inr (Or.inr hm)) (hi.flagged.returned hm) ?_⟩
  rcases hi.exited hw with hs | hs <;> simp [hs]

lemma Doomed.helpful_ne_main (hd : Doomed owner p) (ht : p.tail = .running) (hr : p.core.running = true) :
    helpful p ≠ .main := by
  have hm : p.core.main ≠ .returned := fun hm => by simp [hd.inv.flagged.returned hm] at hr
  have hs : p.stopRequested = true := hd.due.resolve_right hm
  have hw : p.watcher ≠ .exited := by
    intro hw
    rcases hd.inv.exited hw with h | ⟨-, h⟩
    · simp [hd.lowered.running (by simp [h])] at hr
    · exact hd.inv.told.mp h ht
  unfold helpful
  split_ifs <;> simp_all

lemma Doomed.helpful_ne_checker (hd : Doomed owner p) (hr : p.core.checkerRunning = true) :
    helpful p ≠ .checker := by
  have hs : p.core.stop ≠ .joining := by
    intro hs
    simp [hd.lowered.checkerRunning (by simp [hs]) (by simp [hs])] at hr
  have ho : p.own ≠ .joining := by
    intro ho
    simp [(hd.inv.own_joining ho).2.2] at hr
  unfold helpful
  split_ifs <;> simp_all

lemma rank_lt_of_tail (hm : mainRank q.core ≤ mainRank p.core) (hk : checkerRank q.core ≤ checkerRank p.core)
    (hw : watcherRank q ≤ watcherRank p) (ht : tailRank q < tailRank p) : Descends p l q :=
  Or.inl (Nat.add_lt_add_of_le_of_lt (Nat.add_le_add (Nat.add_le_add hm hk) hw) ht)

lemma rank_lt_of_watcher (hm : mainRank q.core ≤ mainRank p.core)
    (hk : checkerRank q.core ≤ checkerRank p.core) (hw : watcherRank q < watcherRank p)
    (ht : tailRank q = tailRank p) : Descends p l q :=
  Or.inl (Nat.add_lt_add_of_lt_of_le (Nat.add_lt_add_of_le_of_lt (Nat.add_le_add hm hk) hw) ht.le)

lemma watcherRank_flags (p : Process) (a b : Bool) (ha : p.stopRequested = true → a = true)
    (hb : p.watcherShouldExit = true → b = true) :
    watcherRank { p with stopRequested := a, watcherShouldExit := b } ≤ watcherRank p := by
  obtain ⟨core, requested, shouldExit, watcher, tail, own⟩ := p
  cases watcher with
  | polling =>
    revert ha hb
    cases requested <;> cases shouldExit <;> cases a <;> cases b <;> simp [watcherRank]
  | pollingExit =>
    revert ha hb
    cases requested <;> cases shouldExit <;> cases a <;> cases b <;> simp [watcherRank]
  | deciding | stopping | exited => exact le_rfl

lemma Doomed.signal_descends (hd : Doomed owner p) : Descends p .signal { p with stopRequested := true } := by
  rcases (watcherRank_flags p true p.watcherShouldExit (fun _ => rfl) id).lt_or_eq with hlt | he
  · exact rank_lt_of_watcher le_rfl le_rfl hlt rfl
  · refine Or.inr ⟨by simp only [rank, tailRank, he], ?_, by simp [Label.party], .refl _⟩
    have hflags : p.watcher ≠ .exited → p.stopRequested = true ∨ p.watcherShouldExit = true := by
      intro hw
      cases hs : p.watcher with
      | polling =>
        cases h₁ : p.stopRequested <;> cases h₂ : p.watcherShouldExit <;> simp_all [watcherRank]
      | pollingExit =>
        cases h₁ : p.stopRequested <;> cases h₂ : p.watcherShouldExit <;> simp_all [watcherRank]
      | deciding | stopping => exact hd.inv.polling (by simp [hs]) (by simp [hs])
      | exited => exact absurd hs hw
    unfold helpful
    by_cases hw : p.watcher = .exited
    · simp [hw]
    · rcases hflags hw with h | h <;> simp [h, hw]

lemma Doomed.descends (hd : Doomed owner p) (h : p.step owner l = some q) : Descends p l q := by
  have hi := hd.inv
  cases step_moves h with
  | signal => exact hd.signal_descends
  | run l c ht hr hc =>
    have hstop := run_frame hr hc
    obtain ⟨hk, hkc, ⟨hrun, he, hidle⟩ | hlt⟩ := run_descends hd.lowered.raised hr hc
    · refine Or.inr ⟨?_, ?_, ?_, hidle⟩
      · simp only [rank, watcherRank, tailRank, hk, he, hstop]
      · simp only [helpful, hkc, hstop]
      · exact fun hp => hd.helpful_ne_main ht hrun (Option.some.inj hp).symm
    · left
      simp only [rank, watcherRank, tailRank, hk, hstop]
      omega
  | checker l c hr hc =>
    have hstop := (checker_frame hr hc).1
    obtain ⟨hk, ⟨hrun, hn, hn', he, hidle⟩ | hlt⟩ := checker_descends hr hc
    · refine Or.inr ⟨?_, ?_, ?_, hidle⟩
      · simp only [rank, watcherRank, tailRank, hk, he, hstop]
      · simp [helpful, hstop, hn, hn']
      · exact fun hp => hd.helpful_ne_checker hrun (Option.some.inj hp).symm
    · left
      simp only [rank, watcherRank, tailRank, hk, hstop]
      omega
  | pollRequested hw =>
    cases hs : p.stopRequested with
    | true => exact rank_lt_of_watcher le_rfl le_rfl (by simp [watcherRank, hw, hs]) rfl
    | false =>
      cases hx : p.watcherShouldExit with
      | true => exact rank_lt_of_watcher le_rfl le_rfl (by simp [watcherRank, hw, hs, hx]) rfl
      | false =>
        refine Or.inr ⟨?_, ?_, ?_, .refl _⟩
        · simp [rank, tailRank, watcherRank, hw, hs, hx]
        · simp [helpful, hs, hx]
        · unfold helpful
          split_ifs <;> simp_all [Label.party]
  | pollExit hw =>
    cases hx : p.watcherShouldExit with
    | true => exact rank_lt_of_watcher le_rfl le_rfl (by simp [watcherRank, hw, hx]) rfl
    | false =>
      cases hs : p.stopRequested with
      | true => exact rank_lt_of_watcher le_rfl le_rfl (by simp [watcherRank, hw, hs, hx]) rfl
      | false =>
        refine Or.inr ⟨?_, ?_, ?_, .refl _⟩
        · simp [rank, tailRank, watcherRank, hw, hs, hx]
        · simp [helpful, hs, hx]
        · unfold helpful
          split_ifs <;> simp_all [Label.party]
  | decide hw =>
    have hle := stopRank_le p.core.stop
    refine rank_lt_of_watcher le_rfl le_rfl ?_ rfl
    cases hs : p.stopRequested <;> simp only [watcherRank, hw, reduceIte, Bool.false_eq_true] <;> omega
  | stop l c hw hr hc =>
    obtain ⟨hm, hk, hs⟩ := stop_descends hr hc
    refine rank_lt_of_watcher hm hk ?_ rfl
    simpa only [watcherRank, hw] using Nat.add_lt_add_left hs 1
  | stopped hw hr => exact rank_lt_of_watcher le_rfl le_rfl (by simp [watcherRank, hw]) rfl
  | leave ht hm =>
    exact rank_lt_of_tail le_rfl le_rfl (watcherRank_flags p _ true id fun _ => rfl) (by simp [tailRank, ht])
  | joinWatcher ht hw =>
    have hle := stopRank_le p.own
    refine rank_lt_of_tail le_rfl le_rfl le_rfl ?_
    simp only [tailRank, ht]
    omega
  | destroyRunning ht ho =>
    refine rank_lt_of_tail (mainRank_le rfl (by simp)) le_rfl le_rfl ?_
    have hlt : stopRank (Shutdown.afterClear owner) < stopRank .idle := stopRank_afterClear
    rcases ht with ht | ht <;> simp only [tailRank, ht, ho] <;> omega
  | destroyChecker ht ho =>
    refine rank_lt_of_tail le_rfl (checkerRank_le rfl (by simp)) le_rfl ?_
    rcases ht with ht | ht <;> simp [tailRank, ht, ho, stopRank]
  | destroyJoinable ht ho =>
    refine rank_lt_of_tail le_rfl le_rfl le_rfl ?_
    rcases ht with ht | ht <;> cases p.core.thread <;> simp [tailRank, ht, ho, stopRank]
  | destroyJoin ht ho hc =>
    refine rank_lt_of_tail le_rfl le_rfl le_rfl ?_
    rcases ht with ht | ht <;> simp [tailRank, ht, ho, stopRank]
  | destroyed ht ho =>
    cases owner with
    | httpServer => exact rank_lt_of_tail le_rfl le_rfl le_rfl (by simp [afterDestroy, tailRank, ht])
    | loadBalancer =>
      exact rank_lt_of_tail le_rfl le_rfl le_rfl (by simp [afterDestroy, tailRank, ht, ho, stopRank])
  | released ht ho => exact rank_lt_of_tail le_rfl le_rfl le_rfl (by simp [tailRank, ht])

section Enabled

variable {s : Shutdown}

lemma run_enabled (hs : s.Raised) (hm : s.main ≠ .returned) :
    ∃ l : Step, l.role = .run ∧ (s.step owner l).isSome := by
  rcases hs with h | h | h
  · exact ⟨.test, rfl, by simp [Shutdown.step, Shutdown.enabled, h]⟩
  · exact ⟨.iterate, rfl, by simp [Shutdown.step, Shutdown.enabled, h]⟩
  · exact absurd h hm

lemma checker_enabled (hb : s.checker ≠ .unborn) (he : s.checker ≠ .exited) :
    ∃ l : Step, l.role = .checker ∧ (s.step owner l).isSome := by
  cases hc : s.checker with
  | unborn => exact absurd hc hb
  | testing => exact ⟨.checkerTest, rfl, by simp [Shutdown.step, Shutdown.enabled, hc]⟩
  | probing => exact ⟨.sweep, rfl, by simp [Shutdown.step, Shutdown.enabled, hc]⟩
  | exited => exact absurd hc he

lemma stop_enabled (hr : s.stop ≠ .returned) (hj : s.stop = .joining → s.checker = .exited) :
    ∃ l : Step, l.role = .stop ∧ (s.step owner l).isSome := by
  cases hs : s.stop with
  | idle => exact ⟨.stopRunning, rfl, by simp [Shutdown.step, Shutdown.enabled, hs]⟩
  | cleared => exact ⟨.stopChecker, rfl, by simp [Shutdown.step, Shutdown.enabled, hs]⟩
  | checkerCleared => exact ⟨.joinable, rfl, by simp [Shutdown.step, Shutdown.enabled, hs]⟩
  | joining => exact ⟨.join, rfl, by simp [Shutdown.step, Shutdown.enabled, hs, hj hs]⟩
  | returned => exact absurd hs hr

end Enabled

lemma Doomed.main_enabled (hd : Doomed owner p) (ht : p.tail ≠ .ended) (hw : p.watcher = .exited)
    (hj : p.own = .joining → p.core.checker = .exited) :
    ∃ l : Label, l.party = some .main ∧ (p.step owner l).isSome := by
  have hstop : p.own ≠ .returned → ∃ l : Step, l.role = .stop ∧
      (({ p.core with stop := p.own } : Shutdown).step owner l).isSome := fun hr => stop_enabled hr hj
  cases htail : p.tail with
  | running =>
    by_cases hm : p.core.main = .returned
    · exact ⟨.leave, rfl, by simp [Process.step, htail, hm]⟩
    · obtain ⟨l, hl, hs⟩ : ∃ l : Step, l.role = .run ∧ (p.core.step owner l).isSome :=
        run_enabled hd.lowered.raised hm
      exact ⟨.run l, rfl, by simpa [Process.step, htail, hl] using hs⟩
  | told => exact ⟨.joinWatcher, rfl, by simp [Process.step, htail, hw]⟩
  | destroying | releasing =>
    by_cases hr : p.own = .returned
    · exact ⟨.destroyed, rfl, by simp [Process.step, htail, hr]⟩
    · obtain ⟨l, hl, hs⟩ := hstop hr
      exact ⟨.destroy l, rfl, by simpa [Process.step, htail, hl] using hs⟩
  | ended => exact absurd htail ht

lemma watcher_enabled (hw : p.watcher ≠ .exited)
    (hj : p.core.stop = .joining → p.core.checker = .exited) :
    ∃ l : Label, l.party = some .watcher ∧ (p.step owner l).isSome := by
  cases hs : p.watcher with
  | polling => exact ⟨.pollRequested, rfl, by simp [Process.step, hs]⟩
  | pollingExit => exact ⟨.pollExit, rfl, by simp [Process.step, hs]⟩
  | deciding => exact ⟨.decide, rfl, by simp [Process.step, hs]⟩
  | stopping =>
    by_cases hr : p.core.stop = .returned
    · exact ⟨.stopped, rfl, by simp [Process.step, hs, hr]⟩
    · obtain ⟨l, hl, hss⟩ : ∃ l : Step, l.role = .stop ∧ (p.core.step owner l).isSome := stop_enabled hr hj
      exact ⟨.stop l, rfl, by simpa [Process.step, hs, hl] using hss⟩
  | exited => exact absurd hs hw

lemma Doomed.enabled (hd : Doomed owner p) (ht : p.tail ≠ .ended) :
    ∃ l : Label, l.party = some (helpful p) ∧ (p.step owner l).isSome := by
  unfold helpful
  split_ifs with h₁ h₂
  · obtain ⟨hj, hx⟩ := h₁
    have hb := hd.inv.threaded.born (Or.inl (hj.elim hd.inv.threaded.joining hd.inv.owned))
    obtain ⟨l, hl, hs⟩ : ∃ l : Step, l.role = .checker ∧ (p.core.step owner l).isSome := checker_enabled hb hx
    exact ⟨.checker l, rfl, by simpa [Process.step, hl] using hs⟩
  · by_cases hw : p.watcher = .exited
    · exact hd.main_enabled ht hw fun hj => by simpa [hj] using h₁
    · obtain ⟨hs, hx⟩ := h₂.resolve_left hw
      have hm : p.core.main = .returned := hd.due.resolve_left (by simp [hs])
      have hrun : p.tail = .running := by
        by_contra hn
        simp [hd.inv.told.mpr hn] at hx
      exact ⟨.leave, rfl, by simp [Process.step, hrun, hm]⟩
  · push Not at h₂
    exact watcher_enabled h₂.1 fun hj => by simpa [hj] using h₁

lemma Inv.lowered_of_unrequested (hi : Inv owner p) (hs : p.stopRequested = false) (hr : p.core.Raised) :
    Lowered owner p.core := by
  by_cases hx : p.watcherShouldExit = true
  · exact hi.flagged.lowered_of_returned (hi.left (hi.told.mp hx))
  · have hw : p.watcher = .polling ∨ p.watcher = .pollingExit := by
      by_contra hno
      push Not at hno
      simpa [hs, hx] using hi.polling hno.1 hno.2
    have hidle : p.core.stop = .idle := by
      rcases hw with hw | hw <;> exact hi.idle (by simp [hw]) (by simp [hw])
    exact ⟨hr, fun hn => absurd hidle hn, fun hn => absurd hidle hn, fun ho => (hi.flagged.own ho).1⟩

end HttpBalancer.System.Process
