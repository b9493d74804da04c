import Mathlib.Tactic

/-! Systems that move by labelled steps. A step function says what each label does where it is
enabled; `ok` restricts the labels an environment may choose. -/

namespace HttpBalancer.Lib.Transitions

variable {σ ι : Type}

inductive Reachable (step : σ → ι → Option σ) (ok : σ → ι → Prop) (init : σ) : σ → Prop
  | init : Reachable step ok init init
  | step {s t : σ} (i : ι) : Reachable step ok init s → ok s i → step s i = some t →
      Reachable step ok init t

def run (step : σ → ι → Option σ) (ok : σ → ι → Prop) [∀ s, DecidablePred (ok s)] :
    σ → List ι → Option σ
  | s, [] => some s
  | s, i :: is => if ok s i then (step s i).bind fun t => run step ok t is else none

variable {step : σ → ι → Option σ} {ok : σ → ι → Prop} {init : σ}

lemma Reachable.invariant {P : σ → Prop} (hi : P init)
    (hs : ∀ s i t, P s → ok s i → step s i = some t → P t) {s : σ}
    (h : Reachable step ok init s) : P s := by
  induction h with
  | init => exact hi
  | step i _ ho ht ih => exact hs _ i _ ih ho ht

lemma Reachable.trans {s t : σ} (hs : Reachable step ok init s) (h : Reachable step ok s t) :
    Reachable step ok init t := by
  induction h with
  | init => exact hs
  | step i _ ho ht ih => exact ih.step i ho ht

lemma run_reachable [∀ s, DecidablePred (ok s)] {s t : σ} {is : List ι}
    (hs : Reachable step ok init s) (h : run step ok s is = some t) : Reachable step ok init t := by
  induction is generalizing s with
  | nil =>
    obtain rfl := Option.some.inj h
    exact hs
  | cons i is ih =>
    rw [run] at h
    split_ifs at h with ho
    obtain ⟨u, hu, hr⟩ := Option.bind_eq_some_iff.mp h
    exact ih (hs.step i ho hu) hr

lemma exists_reachable [∀ s, DecidablePred (ok s)] {P : σ → Prop} [DecidablePred P] (is : List ι)
    (h : (run step ok init is).any (fun s => P s) = true) : ∃ s, Reachable step ok init s ∧ P s := by
  obtain ⟨s, hs, hp⟩ := (Option.any_eq_true _ _).mp h
  exact ⟨s, run_reachable .init hs, of_decide_eq_true hp⟩

end HttpBalancer.Lib.Transitions
