import Mathlib.Data.Nat.Periodic
import Mathlib.Tactic

/-! Searching a ring of `n` places from a given one on. A place that is found is found from itself and
from the run of misses just before it, and from nowhere else. -/

namespace HttpBalancer.Lib.Cyclic

variable (hit : ℕ → Bool) (n : ℕ)

def next (s : ℕ) : Option ℕ := ((List.range n).map fun i => (s + i) % n).find? hit

-- the misses are counted backwards from the place before `j`
def gap (j : ℕ) : ℕ := Nat.findGreatest (fun d => ∀ i < d, hit ((j + (n - 1 - i)) % n) = false) (n - 1)

variable {hit n} {s j d : ℕ}

lemma next_eq_some_iff : next hit n s = some j ↔ hit j = true ∧ ∃ d < n, (s + d) % n = j ∧
    ∀ i < d, hit ((s + i) % n) = false := by
  rw [next, List.find?_eq_some_iff_getElem]
  simp only [List.length_map, List.length_range, List.getElem_map, List.getElem_range,
    Bool.not_eq_true', exists_prop]

lemma next_eq_none_iff : next hit n s = none ↔ ∀ i < n, hit ((s + i) % n) = false := by
  simp [next]

lemma next_periodic (j : ℕ) : Function.Periodic (fun s => next hit n s = some j) n := by
  intro s
  simp only [next_eq_some_iff, Nat.add_right_comm s n, Nat.add_mod_right]

lemma next_self (hj : hit (s % n) = true) (hn : 0 < n) : next hit n s = some (s % n) :=
  next_eq_some_iff.mpr ⟨hj, 0, hn, rfl, by simp⟩

lemma le_gap_iff : d ≤ gap hit n j ↔ d ≤ n - 1 ∧ ∀ i < d, hit ((j + (n - 1 - i)) % n) = false := by
  constructor
  · intro h
    have hg : ∀ i < gap hit n j, hit ((j + (n - 1 - i)) % n) = false :=
      Nat.findGreatest_spec (P := fun d => ∀ i < d, hit ((j + (n - 1 - i)) % n) = false)
        (Nat.zero_le _) (by simp)
    exact ⟨h.trans (Nat.findGreatest_le _), fun i hi => hg i (by omega)⟩
  · rintro ⟨hd, h⟩
    exact Nat.le_findGreatest hd h

lemma next_back (hj : j < n) (hd : d < n) : next hit n (j + n - d) = some j ↔
    hit j = true ∧ d ≤ gap hit n j := by
  have hback : ∀ i < d, (j + n - d + i) % n = (j + (n - 1 - (d - 1 - i))) % n := by
    intro i hi
    congr 1
    omega
  rw [next_eq_some_iff, le_gap_iff]
  apply and_congr_right
  intro _
  constructor
  · rintro ⟨e, he, hs, h⟩
    -- only `d` steps lead from here to `j`
    have hed : e = d := by
      have hm : (j + n - d + e) % n = (j + n - d + d) % n := by
        rw [hs, Nat.sub_add_cancel (by omega), Nat.add_mod_right, Nat.mod_eq_of_lt hj]
      have hh : e ≡ d [MOD n] := Nat.ModEq.add_left_cancel' _ hm
      exact hh.eq_of_lt_of_lt he hd
    subst hed
    refine ⟨by omega, ?_⟩
    intro i hi
    have hh := h (e - 1 - i) (by omega)
    rw [hback _ (by omega)] at hh
    rwa [show e - 1 - (e - 1 - i) = i by omega] at hh
  · rintro ⟨-, h⟩
    refine ⟨d, hd, ?_, ?_⟩
    · rw [Nat.sub_add_cancel (by omega), Nat.add_mod_right, Nat.mod_eq_of_lt hj]
    · intro i hi
      rw [hback i hi]
      exact h _ (by omega)

lemma count_next (hj : j < n) (hh : hit j = true) :
    n.count (fun s => next hit n s = some j) = 1 + gap hit n j := by
  have hg : gap hit n j ≤ n - 1 := Nat.findGreatest_le _
  have hw : ((Finset.Ico (j + 1) (j + 1 + n)).filter fun s => next hit n s = some j) =
      Finset.Ico (j + n - gap hit n j) (j + 1 + n) := by
    ext s
    simp only [Finset.mem_filter, Finset.mem_Ico]
    constructor
    · rintro ⟨hs, hn⟩
      rw [show s = j + n - (j + n - s) by omega, next_back hj (by omega)] at hn
      omega
    · intro hs
      refine ⟨by omega, ?_⟩
      rw [show s = j + n - (j + n - s) by omega, next_back hj (by omega)]
      exact ⟨hh, by omega⟩
  rw [← Nat.filter_Ico_card_eq_of_periodic (j + 1) n _ (next_periodic j), hw, Nat.card_Ico]
  omega

lemma count_shift {q : ℕ → Prop} [DecidablePred q] (h : Function.Periodic q n) (c : ℕ) :
    n.count (fun i => q (c + i)) = n.count q := by
  have hp : (fun i => q (n + i)) = q := by
    funext i
    rw [Nat.add_comm]
    exact h i
  have hh : (c + n).count q = (n + c).count q := by rw [Nat.add_comm]
  rw [Nat.count_add, Nat.count_add] at hh
  simp only [hp] at hh
  omega

lemma count_next_twice (hj : j < n) (hh : hit j = true) :
    (n + n).count (fun s => next hit n s = some j) = 2 * (1 + gap hit n j) := by
  rw [Nat.count_add, count_shift (next_periodic j), count_next hj hh]
  omega

lemma count_map_range {α : Type*} [BEq α] [LawfulBEq α] [DecidableEq α] (f : ℕ → α) (a : α) (k : ℕ) :
    ((List.range k).map f).count a = k.count fun i => f i = a := by
  induction k with
  | zero => rfl
  | succ k ih =>
    rw [List.range_succ, List.map_append, List.count_append, ih, Nat.count_succ]
    simp [List.count_singleton]

lemma exists_next (hn : 0 < n) (hj : j < n) (hh : hit j = true) (s : ℕ) :
    ∃ i, next hit n s = some i := by
  cases hx : next hit n s with
  | some i => exact ⟨i, rfl⟩
  | none =>
    -- the place `j` is somewhere on the way
    have hm := next_eq_none_iff.mp hx ((j + (n - s % n)) % n) (Nat.mod_lt _ hn)
    have hs := Nat.mod_lt s hn
    have hp : (s + (j + (n - s % n)) % n) % n = j := by
      rw [Nat.add_mod_mod, ← Nat.mod_add_mod, show s % n + (j + (n - s % n)) = j + n by omega,
        Nat.add_mod_right, Nat.mod_eq_of_lt hj]
    rw [hp, hh] at hm
    exact Bool.noConfusion hm

lemma exists_shift (hj : j < n) (s : ℕ) : ∃ i < n, (s + i) % n = j := by
  have hx : ∃ i, next (· == j) n s = some i := exists_next (by omega) hj (by simp) s
  obtain ⟨i, hi⟩ := hx
  obtain ⟨he, d, hd, rfl, -⟩ := next_eq_some_iff.mp hi
  exact ⟨d, hd, beq_iff_eq.mp he⟩

lemma next_miss (hm : hit (s % n) = false) (h : next hit n s = some j) :
    next hit n (s + 1) = some j ∧ 1 ≤ gap hit n j := by
  obtain ⟨hh, d, hd, hs, hi⟩ := next_eq_some_iff.mp h
  cases d with
  | zero =>
    rw [Nat.add_zero] at hs
    rw [hs, hh] at hm
    exact Bool.noConfusion hm
  | succ d =>
    refine ⟨next_eq_some_iff.mpr ⟨hh, d, by omega, by rw [← hs]; congr 1; omega, ?_⟩, ?_⟩
    · intro i hid
      rw [show s + 1 + i = s + (i + 1) by omega]
      exact hi (i + 1) (by omega)
    · refine le_gap_iff.mpr ⟨by omega, ?_⟩
      intro i hi0
      obtain rfl : i = 0 := by omega
      have hb := hi d (by omega)
      rw [← hs, Nat.mod_add_mod, show s + (d + 1) + (n - 1 - 0) = s + d + n by omega,
        Nat.add_mod_right]
      exact hb

end HttpBalancer.Lib.Cyclic
