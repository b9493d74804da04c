import HttpBalancer.Lib.Transitions

/-! Infinite runs of a system that moves by labelled steps, and what must come to pass along them.
Fairness is a hypothesis about the labels of the run, never part of the step function. -/

namespace HttpBalancer.Lib.Transitions

variable {σ ι : Type} {step : σ → ι → Option σ} {ok : σ → ι → Prop} {init : σ}

structure Run (step : σ → ι → Option σ) (ok : σ → ι → Prop) (init : σ) where
  state : ℕ → σ
  label : ℕ → ι
  start : state 0 = init
  allowed : ∀ n, ok (state n) (label n)
  next : ∀ n, step (state n) (label n) = some (state (n + 1))

/-- The states a sequence of labels leads through; a label that is not enabled leaves the state. -/
def follow (step : σ → ι → Option σ) (init : σ) (label : ℕ → ι) : ℕ → σ
  | 0 => init
  | n + 1 => (step (follow step init label n) (label n)).getD (follow step init label n)

namespace Run

def of_follow (label : ℕ → ι) (hok : ∀ n, ok (follow step init label n) (label n))
    (hs : ∀ n, (step (follow step init label n) (label n)).isSome) : Run step ok init where
  state := follow step init label
  label := label
  start := rfl
  allowed := hok
  next n := by
    obtain ⟨t, ht⟩ := Option.isSome_iff_exists.mp (hs n)
    rw [follow, ht]
    rfl

variable (r : Run step ok init) {P Q R : σ → Prop}

def drop (k : ℕ) : Run step ok (r.state k) where
  state n := r.state (k + n)
  label n := r.label (k + n)
  start := rfl
  allowed n := r.allowed (k + n)
  next n := r.next (k + n)

lemma reachable (n : ℕ) : Reachable step ok init (r.state n) := by
  induction n with
  | zero =>
    rw [r.start]
    exact .init
  | succ n ih => exact ih.step _ (r.allowed n) (r.next n)

/-- The labels of `A` are not passed over for ever while one of them is enabled all the time. -/
def WeaklyFair (A : ι → Prop) : Prop :=
  ∀ n, (∀ m, n ≤ m → ∃ l, A l ∧ (step (r.state m) l).isSome) → ∃ m, n ≤ m ∧ A (r.label m)

def LeadsTo (P Q : σ → Prop) : Prop := ∀ n, P (r.state n) → ∃ m, n ≤ m ∧ Q (r.state m)

variable {r}

lemma WeaklyFair.drop {A : ι → Prop} (h : r.WeaklyFair A) (k : ℕ) : (r.drop k).WeaklyFair A := by
  intro n he
  obtain ⟨m, hm, ha⟩ := h (k + n) fun m hm => by
    obtain ⟨d, rfl⟩ := Nat.exists_eq_add_of_le (le_trans (Nat.le_add_right k n) hm)
    exact he d (Nat.le_of_add_le_add_left hm)
  obtain ⟨d, rfl⟩ := Nat.exists_eq_add_of_le (le_trans (Nat.le_add_right k n) hm)
  exact ⟨d, Nat.le_of_add_le_add_left hm, ha⟩

lemma stays (hs : ∀ n, P (r.state n) → P (r.state (n + 1))) {n m : ℕ} (h : n ≤ m) (hn : P (r.state n)) :
    P (r.state m) := by
  induction m, h using Nat.le_induction with
  | base => exact hn
  | succ m _ ih => exact hs m ih

lemma LeadsTo.trans (h : r.LeadsTo P Q) (h' : r.LeadsTo Q R) : r.LeadsTo P R := by
  intro n hn
  obtain ⟨m, hm, hq⟩ := h n hn
  obtain ⟨k, hk, hr⟩ := h' m hq
  exact ⟨k, hm.trans hk, hr⟩

lemma LeadsTo.or (h : r.LeadsTo P R) (h' : r.LeadsTo Q R) : r.LeadsTo (fun s => P s ∨ Q s) R := by
  intro n hn
  rcases hn with hn | hn
  · exact h n hn
  · exact h' n hn

lemma LeadsTo.refl : r.LeadsTo P P := fun n hn => ⟨n, le_rfl, hn⟩

lemma leadsTo_of_unless (hu : ∀ n, P (r.state n) → P (r.state (n + 1)) ∨ Q (r.state (n + 1)))
    (hl : ∀ n, P (r.state n) → ∃ m, n ≤ m ∧ ¬ P (r.state m)) : r.LeadsTo P Q := by
  intro n hn
  obtain ⟨m, hm, hp⟩ := hl n hn
  by_contra hq
  push Not at hq
  -- without `Q` on the way, `P` is handed on from `n` to `m`
  have hall : ∀ k, n ≤ k → P (r.state k) := by
    intro k hk
    induction k, hk using Nat.le_induction with
    | base => exact hn
    | succ k hk ih => exact (hu k ih).resolve_right (hq (k + 1) (hk.trans (Nat.le_succ k)))
  exact hp (hall m hm)

lemma exists_until {A : ι → Prop} {P Q : ℕ → Prop} (hf : r.WeaklyFair A)
    (he : ∀ n, P n → ∃ l, A l ∧ (step (r.state n) l).isSome)
    (hs : ∀ n, P n → P (n + 1) ∧ ¬ A (r.label n) ∨ Q n) (n : ℕ) (hn : P n) :
    ∃ m, n ≤ m ∧ Q m ∧ ∀ k, n ≤ k → k ≤ m → P k := by
  classical
  have hkept : ∀ m, n ≤ m → (∀ k, n ≤ k → k < m → ¬ Q k) → ∀ k, n ≤ k → k ≤ m → P k := by
    intro m _ hq k hk hkm
    induction k, hk using Nat.le_induction with
    | base => exact hn
    | succ k hk ih =>
      have hp := ih (Nat.le_of_succ_le hkm)
      exact ((hs k hp).resolve_right (hq k hk (Nat.lt_of_succ_le hkm))).1
  have hex : ∃ m, n ≤ m ∧ Q m := by
    by_contra hno
    push Not at hno
    have hall : ∀ m, n ≤ m → P m := fun m hm => hkept m hm (fun k hk _ => hno k hk) m hm le_rfl
    obtain ⟨m, hm, ha⟩ := hf n fun m hm => he m (hall m hm)
    exact ((hs m (hall m hm)).resolve_right (hno m hm)).2 ha
  obtain ⟨hm, hq⟩ := Nat.find_spec hex
  exact ⟨Nat.find hex, hm, hq, hkept _ hm fun k hk hlt hqk => Nat.find_min hex hlt ⟨hk, hqk⟩⟩

lemma leadsTo_of_fair {A : ι → Prop} (hf : r.WeaklyFair A)
    (he : ∀ n, P (r.state n) → ∃ l, A l ∧ (step (r.state n) l).isSome)
    (hs : ∀ n, P (r.state n) → P (r.state (n + 1)) ∧ ¬ A (r.label n) ∨ Q (r.state (n + 1))) :
    r.LeadsTo P Q := by
  intro n hn
  obtain ⟨m, hm, hq, -⟩ := exists_until hf he hs n hn
  exact ⟨m + 1, hm.trans (Nat.le_succ m), hq⟩

lemma leadsTo_of_rank (rank : σ → ℕ)
    (h : ∀ k, r.LeadsTo (fun s => P s ∧ rank s = k) fun s => (P s ∧ rank s < k) ∨ Q s) :
    r.LeadsTo P Q := by
  have hall : ∀ k n, P (r.state n) → rank (r.state n) = k → ∃ m, n ≤ m ∧ Q (r.state m) := by
    intro k
    induction k using Nat.strong_induction_on with
    | h k ih =>
      intro n hn hk
      obtain ⟨m, hm, ⟨hp, hlt⟩ | hq⟩ := h k n ⟨hn, hk⟩
      · obtain ⟨j, hj, hq⟩ := ih _ hlt m hp rfl
        exact ⟨j, hm.trans hj, hq⟩
      · exact ⟨m, hm, hq⟩
  exact fun n hn => hall _ n hn rfl

/-- In every state some party can help; a step of that party lowers the rank, and no other step raises it
or changes who can help without lowering it. -/
lemma leadsTo_of_helpful {κ : Type} {A : κ → ι → Prop} (hf : ∀ k, r.WeaklyFair (A k)) (helpful : σ → κ)
    (rank : σ → ℕ)
    (he : ∀ n, P (r.state n) → Q (r.state n) ∨
      ∃ l, A (helpful (r.state n)) l ∧ (step (r.state n) l).isSome)
    (hs : ∀ n, P (r.state n) → Q (r.state n) ∨ P (r.state (n + 1)) ∧
      (rank (r.state (n + 1)) < rank (r.state n) ∨
        rank (r.state (n + 1)) = rank (r.state n) ∧ helpful (r.state (n + 1)) = helpful (r.state n) ∧
          ¬ A (helpful (r.state n)) (r.label n))) : r.LeadsTo P Q := by
  apply leadsTo_of_rank rank
  rintro k n ⟨hp, hk⟩
  by_contra hno
  push Not at hno
  have hmove : ∀ m, n ≤ m → P (r.state m) → rank (r.state m) = k →
      P (r.state (m + 1)) ∧ rank (r.state (m + 1)) = k ∧
        helpful (r.state (m + 1)) = helpful (r.state m) ∧ ¬ A (helpful (r.state m)) (r.label m) := by
    intro m hm hpm hkm
    obtain ⟨hp', hlt | ⟨hr, hh, ha⟩⟩ := (hs m hpm).resolve_left (hno m hm).2
    · exact absurd (hkm ▸ hlt) (Nat.not_lt.mpr ((hno (m + 1) (hm.trans (Nat.le_succ m))).1 hp'))
    · exact ⟨hp', hr.trans hkm, hh, ha⟩
  have hall : ∀ m, n ≤ m → P (r.state m) ∧ rank (r.state m) = k ∧
      helpful (r.state m) = helpful (r.state n) := by
    intro m hm
    induction m, hm using Nat.le_induction with
    | base => exact ⟨hp, hk, rfl⟩
    | succ m hm ih =>
      obtain ⟨hp', hk', hh, -⟩ := hmove m hm ih.1 ih.2.1
      exact ⟨hp', hk', hh.trans ih.2.2⟩
  obtain ⟨m, hm, ha⟩ := hf (helpful (r.state n)) n fun m hm => by
    obtain ⟨hpm, -, hh⟩ := hall m hm
    rw [← hh]
    exact (he m hpm).resolve_left (hno m hm).2
  obtain ⟨hpm, hkm, hh⟩ := hall m hm
  exact (hmove m hm hpm hkm).2.2.2 (hh ▸ ha)

def Recurs (r : Run step ok init) (m : ℕ) : Prop :=
  ∀ n, ∃ k, n ≤ k ∧ r.state k = r.state m ∧ r.label k = r.label m

lemma Recurs.weaklyFair {A : ι → Prop} {m : ℕ} (h : r.Recurs m)
    (hA : A (r.label m) ∨ ∀ l, A l → step (r.state m) l = none) : r.WeaklyFair A := by
  intro n he
  obtain ⟨k, hk, hs, hl⟩ := h n
  rcases hA with hA | hA
  · refine ⟨k, hk, ?_⟩
    rw [hl]
    exact hA
  · obtain ⟨l, hAl, hsome⟩ := he k hk
    rw [hs, hA l hAl] at hsome
    cases hsome

/-- A stem of `a` labels and a cycle of `b` that leads back to where it began. -/
lemma exists_lasso (ok : σ → ι → Prop) {label : ℕ → ι} (a b : ℕ) (hb : 0 < b)
    (hl : ∀ n, a ≤ n → label (n + b) = label n)
    (hc : follow step init label (a + b) = follow step init label a)
    (hok : ∀ n < a + b, ok (follow step init label n) (label n))
    (hs : ∀ n < a + b, (step (follow step init label n) (label n)).isSome) :
    ∃ r : Run step ok init, r.state = follow step init label ∧ r.label = label ∧ ∀ m, a ≤ m → r.Recurs m := by
  have hper : ∀ n, a ≤ n → follow step init label (n + b) = follow step init label n := by
    intro n hn
    induction n, hn using Nat.le_induction with
    | base => exact hc
    | succ n hn ih => rw [Nat.add_right_comm, follow, follow, ih, hl n hn]
  have hround : ∀ c n, a ≤ n → follow step init label (n + c * b) = follow step init label n ∧
      label (n + c * b) = label n := by
    intro c n hn
    induction c with
    | zero => simp
    | succ c ih =>
      have hle : a ≤ n + c * b := hn.trans (Nat.le_add_right n _)
      rw [Nat.succ_mul, ← Nat.add_assoc, hper _ hle, hl _ hle]
      exact ih
  have hfold : ∀ n, ∃ m < a + b, follow step init label n = follow step init label m ∧ label n = label m := by
    intro n
    by_cases hn : n < a + b
    · exact ⟨n, hn, rfl, rfl⟩
    · have hd := Nat.mod_add_div' (n - a) b
      have hr := Nat.mod_lt (n - a) hb
      have hn' : a + (n - a) % b + (n - a) / b * b = n := by omega
      have hh := hround ((n - a) / b) (a + (n - a) % b) (Nat.le_add_right a _)
      rw [hn'] at hh
      exact ⟨a + (n - a) % b, by omega, hh⟩
  refine ⟨.of_follow label ?_ ?_, rfl, rfl, ?_⟩
  · intro n
    obtain ⟨m, hm, hf, hl'⟩ := hfold n
    rw [hf, hl']
    exact hok m hm
  · intro n
    obtain ⟨m, hm, hf, hl'⟩ := hfold n
    rw [hf, hl']
    exact hs m hm
  · intro m hm n
    exact ⟨m + n * b, (Nat.le_mul_of_pos_right n hb).trans (Nat.le_add_left _ m), hround n m hm⟩

end Run

end HttpBalancer.Lib.Transitions
