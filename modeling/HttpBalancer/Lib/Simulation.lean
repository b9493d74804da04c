import HttpBalancer.Lib.Transitions

/-! One system that moves by labelled steps does nothing that another one cannot do. -/

namespace HttpBalancer.Lib.Transitions

variable {σ ι σ' ι' : Type} {step : σ → ι → Option σ} {ok : σ → ι → Prop} {init : σ}
  {step' : σ' → ι' → Option σ'} {ok' : σ' → ι' → Prop} {init' : σ'}

/-- Every step from related states is matched by steps of the other system, possibly none, to related
states again. -/
lemma Reachable.simulated {R : σ → σ' → Prop} (hi : R init init')
    (hs : ∀ s i t s', R s s' → ok s i → step s i = some t → ∃ t', Reachable step' ok' s' t' ∧ R t t')
    {s : σ} (h : Reachable step ok init s) : ∃ s', Reachable step' ok' init' s' ∧ R s s' := by
  induction h with
  | init => exact ⟨init', .init, hi⟩
  | step i _ ho ht ih =>
    obtain ⟨s', hr, hR⟩ := ih
    obtain ⟨t', hr', hR'⟩ := hs _ i _ s' hR ho ht
    exact ⟨t', hr.trans hr', hR'⟩

lemma Reachable.single {s t : σ} {i : ι} (ho : ok s i) (h : step s i = some t) : Reachable step ok s t :=
  .step i .init ho h

end HttpBalancer.Lib.Transitions
