import Mathlib.Data.List.Infix
import Mathlib.Tactic

/-! First occurrence of a pattern in a list. A pattern that overlaps no copy of itself cuts a
list at its first occurrence in exactly one way. -/

namespace HttpBalancer.Lib.Search

variable {α : Type}

structure Unbordered (pat : List α) : Prop where
  ne_nil : pat ≠ []
  border : ∀ q, q <+: pat → q <:+ pat → q = [] ∨ q = pat

lemma unbordered_singleton (a : α) : Unbordered [a] := by
  refine ⟨by simp, ?_⟩
  intro q hq _
  rcases List.prefix_cons_iff.mp hq with rfl | ⟨t, rfl, ht⟩
  · exact Or.inl rfl
  · simp [List.prefix_nil.mp ht]

lemma unbordered_pair {a b : α} (h : a ≠ b) : Unbordered [a, b] := by
  refine ⟨by simp, ?_⟩
  intro q hp hs
  match q, hp, hs with
  | [], _, _ => exact Or.inl rfl
  | [c], hp, hs =>
    obtain rfl : c = a := by simpa using hp
    have hb : [c] = [b] := by
      have := List.suffix_iff_eq_drop.mp hs
      simpa using this
    exact absurd (List.head_eq_of_cons_eq hb) h
  | c :: d :: q, hp, _ => exact Or.inr (hp.eq_of_length_le (by simp))

lemma infix_append_cons {pat l r : List α} {c : α} (hc : c ∉ pat) (h : pat <:+: l ++ c :: r) :
    pat <:+: l ∨ pat <:+: r := by
  induction l with
  | nil =>
    rcases List.infix_cons_iff.mp h with hp | hr
    · rcases List.prefix_cons_iff.mp hp with rfl | ⟨t, rfl, _⟩
      · exact Or.inl (List.nil_infix)
      · exact absurd List.mem_cons_self hc
    · exact Or.inr hr
  | cons a l ih =>
    rcases List.infix_cons_iff.mp h with hp | hr
    · have hl : a :: l <+: a :: (l ++ c :: r) := ⟨c :: r, by simp⟩
      rcases List.prefix_or_prefix_of_prefix hp hl with hh | ⟨q, rfl⟩
      · exact Or.inl hh.isInfix
      · have hq : q <+: c :: r := (List.prefix_append_right_inj (a :: l)).mp (by simpa using hp)
        rcases List.prefix_cons_iff.mp hq with rfl | ⟨t, rfl, _⟩
        · exact Or.inl (by simp)
        · exact absurd (by simp) hc
    · exact (ih hr).imp_left List.infix_cons

variable [DecidableEq α]

def find (pat : List α) : List α → Option ℕ
  | [] => if pat = [] then some 0 else none
  | a :: s => if pat.isPrefixOf (a :: s) then some 0 else (find pat s).map (· + 1)

def findFrom (pat s : List α) (pos : ℕ) : Option ℕ :=
  (find pat (s.drop pos)).map (· + pos)

@[simp] lemma findFrom_zero (pat s : List α) : findFrom pat s 0 = find pat s := by
  simp [findFrom]

lemma find_eq_none_iff {pat s : List α} (hn : pat ≠ []) : find pat s = none ↔ ¬ pat <:+: s := by
  induction s with
  | nil => simp [find, hn]
  | cons a s ih =>
    by_cases hp : pat <+: a :: s
    · simp [find, List.isPrefixOf_iff_prefix.mpr hp, hp.isInfix]
    · simp [find, List.isPrefixOf_iff_prefix, hp, ih, List.infix_cons_iff]

lemma find_cut {pat s : List α} (hn : pat ≠ []) {i : ℕ} (h : find pat s = some i) :
    ∃ l r, s = l ++ pat ++ r ∧ i = l.length ∧ ¬ pat <:+: l := by
  induction s generalizing i with
  | nil => simp [find, hn] at h
  | cons a s ih =>
    by_cases hp : pat <+: a :: s
    · obtain ⟨r, hr⟩ := hp
      have hi : i = 0 := by simpa [find, List.isPrefixOf_iff_prefix, ← hr] using h.symm
      exact ⟨[], r, by simp [hr], by simp [hi], by simpa using hn⟩
    · simp only [find, List.isPrefixOf_iff_prefix, hp, if_false, Option.map_eq_some_iff] at h
      obtain ⟨j, hj, rfl⟩ := h
      obtain ⟨l, r, rfl, rfl, hl⟩ := ih hj
      refine ⟨a :: l, r, by simp, by simp, ?_⟩
      rw [List.infix_cons_iff]
      rintro (hh | hh)
      · exact hp (hh.trans (by simp))
      · exact hl hh

lemma find_append_pat {pat : List α} (hu : Unbordered pat) (l r : List α) (hl : ¬ pat <:+: l) :
    find pat (l ++ pat ++ r) = some l.length := by
  induction l with
  | nil =>
    cases hp : pat with
    | nil => exact absurd hp hu.ne_nil
    | cons a p => simp [find, List.isPrefixOf_iff_prefix]
  | cons a l ih =>
    have hl' : ¬ pat <:+: l := fun hh => hl (List.infix_cons hh)
    have hp : ¬ pat <+: a :: (l ++ pat ++ r) := by
      intro hp
      have hc : a :: l <+: a :: (l ++ pat ++ r) := ⟨pat ++ r, by simp⟩
      rcases List.prefix_or_prefix_of_prefix hp hc with hh | ⟨q, hq⟩
      · exact hl hh.isInfix
      · -- the occurrence would overlap the pattern in a border `q`
        have hqp : q <+: pat := by
          have h₁ : a :: l ++ q <+: a :: l ++ (pat ++ r) := by simpa [hq] using hp
          have h₂ : q <+: pat ++ r := (List.prefix_append_right_inj _).mp h₁
          apply List.prefix_of_prefix_length_le h₂ (List.prefix_append _ _)
          have := congrArg List.length hq
          simp only [List.length_append, List.length_cons] at this
          omega
        rcases hu.border q hqp ⟨a :: l, hq⟩ with rfl | rfl
        · exact hl (by simp [← hq])
        · have := congrArg List.length hq
          simp only [List.length_append, List.length_cons] at this
          omega
    rw [List.cons_append, List.cons_append, find, if_neg (by rwa [List.isPrefixOf_iff_prefix]), ih hl']
    rfl

lemma find_singleton_append {a : α} {l : List α} (h : a ∉ l) (r : List α) :
    find [a] (l ++ a :: r) = some l.length := by
  have hh := find_append_pat (unbordered_singleton a) l r (by rwa [List.singleton_infix_iff])
  simpa using hh

lemma find_singleton_cut {a : α} {s : List α} {i : ℕ} (h : find [a] s = some i) :
    ∃ l r, s = l ++ a :: r ∧ i = l.length ∧ a ∉ l := by
  obtain ⟨l, r, rfl, rfl, hl⟩ := find_cut (by simp) h
  exact ⟨l, r, by simp, rfl, by rwa [List.singleton_infix_iff] at hl⟩

end HttpBalancer.Lib.Search
