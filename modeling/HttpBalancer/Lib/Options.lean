import Mathlib.Tactic

/-! Words of a command line. An option takes the next word as its value, whatever that word is; words that
are no options are passed over. -/

namespace HttpBalancer.Lib.Options

variable {α κ : Type} (known : α → Option κ)

def assignments : List α → List (κ × α)
  | name :: value :: rest =>
    match known name with
    | some k => (k, value) :: assignments rest
    | none => assignments (value :: rest)
  | [_] | [] => []

/-- No option at the end waits for its value. -/
def complete : List α → Bool
  | name :: value :: rest =>
    match known name with
    | some _ => complete rest
    | none => complete (value :: rest)
  | [name] => (known name).isNone
  | [] => true

variable {known}

lemma assignments_append {before : List α} (h : complete known before = true) (rest : List α) :
    assignments known (before ++ rest) = assignments known before ++ assignments known rest := by
  induction before using assignments.induct known with
  | case1 name value before k hk ih =>
    simp only [complete, hk] at h
    simp only [List.cons_append, assignments, hk, ih h]
  | case2 name value before hk ih =>
    simp only [complete, hk] at h
    simpa only [List.cons_append, assignments, hk] using ih h
  | case3 name =>
    have hk : known name = none := by simpa [complete] using h
    cases rest <;> simp [assignments, hk]
  | case4 => simp [assignments]

lemma assignments_short {rest : List α} (h : rest.length ≤ 1) : assignments known rest = [] := by
  match rest, h with
  | [], _ => rfl
  | [_], _ => rfl

section Pairs

variable {name : κ → α} {ps : List (κ × α)}

lemma assignments_pairs (hn : ∀ p ∈ ps, known (name p.1) = some p.1) :
    assignments known (ps.flatMap fun p => [name p.1, p.2]) = ps := by
  induction ps with
  | nil => rfl
  | cons p ps ih =>
    obtain ⟨hp, hps⟩ := List.forall_mem_cons.mp hn
    simp [assignments, hp, ih hps]

lemma complete_pairs (hn : ∀ p ∈ ps, known (name p.1) = some p.1) :
    complete known (ps.flatMap fun p => [name p.1, p.2]) = true := by
  induction ps with
  | nil => rfl
  | cons p ps ih =>
    obtain ⟨hp, hps⟩ := List.forall_mem_cons.mp hn
    simp [complete, hp, ih hps]

end Pairs

section Last

variable [DecidableEq κ]

/-- The value an option was given last. -/
def last (k : κ) : List (κ × α) → Option α
  | [] => none
  | p :: ps => (last k ps).or (if p.1 = k then some p.2 else none)

lemma last_append (k : κ) (as bs : List (κ × α)) : last k (as ++ bs) = (last k bs).or (last k as) := by
  induction as with
  | nil => simp [last]
  | cons p as ih => rw [List.cons_append, last, ih, last, Option.or_assoc]

lemma last_eq_none {k : κ} {ps : List (κ × α)} (h : k ∉ ps.map Prod.fst) : last k ps = none := by
  induction ps with
  | nil => rfl
  | cons p ps ih =>
    obtain ⟨hp, hps⟩ : k ≠ p.1 ∧ k ∉ ps.map Prod.fst := by simpa using h
    rw [last, ih hps, if_neg hp.symm, Option.none_or]

lemma last_eq_some {k : κ} {v : α} {ps : List (κ × α)} (h : (k, v) ∈ ps) (hn : (ps.map Prod.fst).Nodup) :
    last k ps = some v := by
  induction ps with
  | nil => cases h
  | cons p ps ih =>
    obtain ⟨hp, hn⟩ := List.nodup_cons.mp hn
    rw [last]
    rcases List.mem_cons.mp h with rfl | h
    · rw [last_eq_none hp, if_pos rfl, Option.none_or]
    · rw [ih h hn, Option.some_or]

/-- A field that one option sets holds what that option was given last. -/
lemma foldl_field {σ β : Type} (set : σ → κ × α → σ) (get : σ → β) (read : α → β) (k : κ)
    (hset : ∀ s v, get (set s (k, v)) = read v) (hother : ∀ s k' v, k' ≠ k → get (set s (k', v)) = get s)
    (as : List (κ × α)) (s : σ) : get (as.foldl set s) = ((last k as).map read).getD (get s) := by
  induction as generalizing s with
  | nil => rfl
  | cons p as ih =>
    rw [List.foldl_cons, ih, last]
    cases hl : last k as with
    | some v => rfl
    | none =>
      by_cases hp : p.1 = k
      · subst hp
        simp [hset s p.2]
      · simp [hp, hother s p.1 p.2 hp]

end Last

end HttpBalancer.Lib.Options
