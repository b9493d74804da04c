import HttpBalancer.Balancer.UpstreamPool
import Mathlib.Data.Int.CardIntervalMod

/-! How often each healthy upstream is picked. The cursor runs over all upstreams and the scan skips
the unhealthy ones, so what stands before an upstream decides its share. -/

namespace HttpBalancer.Balancer.UpstreamPool

open Lib Transitions Cyclic

section Shares

variable {hit : ℕ → Bool} {n bound : ℕ}

def picked (hit : ℕ → Bool) (n j k : ℕ) : ℕ := k.count fun c => next hit n c = some j

def Balanced (hit : ℕ → Bool) (n bound : ℕ) : Prop :=
  ∀ k < bound, ∀ i < n, ∀ j < n, hit i = true → hit j = true → picked hit n i k ≤ picked hit n j k + 1

lemma picked_all (h : ∀ j < n, hit j = true) (hn : 0 < n) {j : ℕ} (hj : j < n) (k : ℕ) :
    picked hit n j k = k.count (· ≡ j [MOD n]) := by
  rw [picked]
  congr 1
  funext c
  rw [next_self (h _ (Nat.mod_lt c hn)) hn, Option.some.injEq, Nat.ModEq, Nat.mod_eq_of_lt hj]

lemma balanced_all (h : ∀ j < n, hit j = true) : Balanced hit n bound := by
  intro k _ i hi j hj _ _
  have hn : 0 < n := by omega
  rw [picked_all h hn hi, picked_all h hn hj, Nat.count_modEq_card k hn, Nat.count_modEq_card k hn]
  split_ifs <;> omega

lemma balanced_one {i : ℕ} (h : ∀ j, hit j = true → j = i) : Balanced hit n bound := by
  intro k _ a _ b _ ha hb
  rw [h a ha, h b hb]
  omega

lemma picked_alternating (k : ℕ) :
    picked (isHealthy [true, false, true, false]) 4 0 k = 2 * (k / 4) + min (k % 4) 1 ∧
      picked (isHealthy [true, false, true, false]) 4 2 k = 2 * (k / 4) + (k % 4 - 1) := by
  have hnext : ∀ c, next (isHealthy [true, false, true, false]) 4 c =
      some (if c % 4 = 0 ∨ c % 4 = 3 then 0 else 2) := by
    intro c
    have hp : next (isHealthy [true, false, true, false]) 4 c =
        next (isHealthy [true, false, true, false]) 4 (c % 4) := by simp [next]
    have hc := Nat.mod_lt c (show 0 < 4 by omega)
    rw [hp]
    generalize c % 4 = r at hc
    interval_cases r <;> rfl
  induction k with
  | zero => simp [picked]
  | succ k ih =>
    simp only [picked, Nat.count_succ, hnext] at ih ⊢
    have hk := Nat.mod_lt k (show 0 < 4 by omega)
    rcases (by omega : k % 4 = 0 ∨ k % 4 = 1 ∨ k % 4 = 2 ∨ k % 4 = 3) with h | h | h | h <;>
      simp [h] at ih ⊢ <;> omega

lemma balanced_alternating : Balanced (isHealthy [true, false, true, false]) 4 bound := by
  intro k _ i hi j hj hhi hhj
  obtain ⟨h0, h2⟩ := picked_alternating k
  have honly : ∀ r < 4, isHealthy [true, false, true, false] r = true → r = 0 ∨ r = 2 := by decide
  rcases honly i hi hhi with rfl | rfl <;> rcases honly j hj hhj with rfl | rfl <;> omega

lemma Balanced.gap_le (h : Balanced hit n bound) (hb : n + n < bound) {i j : ℕ} (hi : i < n) (hj : j < n)
    (hhi : hit i = true) (hhj : hit j = true) : gap hit n i ≤ gap hit n j := by
  have hh := h (n + n) hb i hi j hj hhi hhj
  rw [picked, picked, count_next_twice hi hhi, count_next_twice hj hhj] at hh
  omega

lemma next_lt {s j : ℕ} (h : next hit n s = some j) : j < n := by
  obtain ⟨-, d, hd, rfl, -⟩ := next_eq_some_iff.mp h
  exact Nat.mod_lt _ (by omega)

lemma next_hit {s j : ℕ} (h : next hit n s = some j) : hit j = true := (next_eq_some_iff.mp h).1

lemma Balanced.first (h : Balanced hit n bound) (hb : 2 < bound) {a b : ℕ} (ha : a < n) (hbn : b < n)
    (hha : hit a = true) (hhb : hit b = true) (hab : a ≠ b) : hit 0 = true := by
  by_contra h0
  obtain ⟨j, hj⟩ := exists_next (by omega) ha hha 0
  have hm : hit (0 % n) = false := by simpa using h0
  obtain ⟨hj1, -⟩ := next_miss hm hj
  obtain ⟨r, hr, hhr, hrj⟩ : ∃ r < n, hit r = true ∧ r ≠ j := by
    by_cases hja : a = j
    · exact ⟨b, hbn, hhb, fun hbj => hab (hja.trans hbj.symm)⟩
    · exact ⟨a, ha, hha, hja⟩
  have hh := h 2 hb j (next_lt hj) r hr (next_hit hj) hhr
  simp [picked, Nat.count_succ, hj, hj1, Ne.symm hrj] at hh

lemma next_run {q : ℕ} (hq : q < n) (hh : hit q = true) (hm : ∀ i, 1 ≤ i → i < q → hit i = false)
    {c : ℕ} (hc : 1 ≤ c) (hcq : c ≤ q) : next hit n c = some q := by
  refine next_eq_some_iff.mpr ⟨hh, q - c, by omega, ?_, ?_⟩
  · rw [show c + (q - c) = q by omega, Nat.mod_eq_of_lt hq]
  · intro i hi
    rw [Nat.mod_eq_of_lt (by omega)]
    exact hm _ (by omega) (by omega)

lemma next_zero (hn : 0 < n) (h0 : hit 0 = true) : next hit n 0 = some 0 := by
  simpa using next_self (s := 0) (by simpa using h0) hn

lemma picked_run {q : ℕ} (hn : 0 < n) (h0 : hit 0 = true)
    (hr : ∀ c, 1 ≤ c → c ≤ q → next hit n c = some q) (hq : 0 < q) :
    picked hit n 0 (1 + q) = 1 ∧ picked hit n q (1 + q) = q := by
  have hz := next_zero hn h0
  have hr' : ∀ c < q, next hit n (1 + c) = some q := fun c hc => hr _ (by omega) (by omega)
  rw [picked, picked, Nat.count_add, Nat.count_add]
  constructor
  · rw [show Nat.count (fun k => next hit n (1 + k) = some 0) q = 0 from
      Nat.count_of_forall_not fun c hc => by simp [hr' c hc, hq.ne']]
    simp [Nat.count_succ, hz]
  · rw [Nat.count_of_forall hr']
    simp [Nat.count_succ, hz, hq.ne]

lemma gap_run {q : ℕ} (hq : q < n) (h0 : hit 0 = true) (hm : ∀ i, 1 ≤ i → i < q → hit i = false)
    (hp : 0 < q) : gap hit n q = q - 1 := by
  apply le_antisymm
  · by_contra hg
    have hg' : q ≤ gap hit n q := by omega
    have hh := (le_gap_iff.mp hg').2 (q - 1) (by omega)
    rw [show q + (n - 1 - (q - 1)) = n by omega, Nat.mod_self, h0] at hh
    exact Bool.noConfusion hh
  · refine le_gap_iff.mpr ⟨by omega, ?_⟩
    intro i hi
    rw [show q + (n - 1 - i) = q - 1 - i + n by omega, Nat.add_mod_right, Nat.mod_eq_of_lt (by omega)]
    exact hm _ (by omega) (by omega)

lemma exists_run {r : ℕ} (hh : hit r = true) (hp : 0 < r) :
    ∃ q, 0 < q ∧ q ≤ r ∧ hit q = true ∧ ∀ i, 1 ≤ i → i < q → hit i = false := by
  have hex : ∃ q, 0 < q ∧ hit q = true := ⟨r, hp, hh⟩
  refine ⟨Nat.find hex, (Nat.find_spec hex).1, Nat.find_min' hex ⟨hp, hh⟩, (Nat.find_spec hex).2, ?_⟩
  intro i hi hlt
  have hn := Nat.find_min hex hlt
  simpa [Nat.pos_of_ne_zero (by omega : i ≠ 0)] using hn

lemma Balanced.first_run (h : Balanced hit n bound) (hb : n + n < bound) {a b m : ℕ} (ha : a < n)
    (hbn : b < n) (hha : hit a = true) (hhb : hit b = true) (hab : a ≠ b) (hm : m < n)
    (hmm : hit m = false) : 2 < n ∧ hit 0 = true ∧ hit 1 = false ∧ hit 2 = true := by
  have h0 := h.first (by omega) ha hbn hha hhb hab
  have hn : 0 < n := by omega
  obtain ⟨r, hr, hhr, hr0⟩ : ∃ r < n, hit r = true ∧ 0 < r := by
    by_cases ha0 : a = 0
    · exact ⟨b, hbn, hhb, by omega⟩
    · exact ⟨a, ha, hha, by omega⟩
  obtain ⟨q, hq0, hqr, hhq, hmq⟩ := exists_run hhr hr0
  have hqn : q < n := by omega
  obtain ⟨hp0, hpq⟩ := picked_run hn h0 (fun c hc hcq => next_run hqn hhq hmq hc hcq) hq0
  have hle := h (1 + q) (by omega) q hqn 0 hn hhq h0
  -- no gap is empty, since the search from the miss `m` crosses one
  obtain ⟨x, hx⟩ := exists_next hn ha hha m
  have hx1 := (next_miss (by rwa [Nat.mod_eq_of_lt hm]) hx).2
  have hxq := h.gap_le hb (next_lt hx) hqn (next_hit hx) hhq
  rw [gap_run hqn h0 hmq hq0] at hxq
  obtain rfl : q = 2 := by omega
  exact ⟨hqn, h0, hmq 1 le_rfl (by omega), hhq⟩

lemma Balanced.alternating (h : Balanced hit n bound) (hb : n + n < bound) (hn : 2 < n)
    (h0 : hit 0 = true) (h1 : hit 1 = false) (h2 : hit 2 = true) :
    n = 4 ∧ ∀ j < n, hit j = true → j = 0 ∨ j = 2 := by
  have hmiss : ∀ i, 1 ≤ i → i < 2 → hit i = false := by
    intro i hi hi2
    obtain rfl : i = 1 := by omega
    exact h1
  have hrun := fun c hc hcq => next_run hn h2 hmiss (c := c) hc hcq
  have honly : ∀ j < n, hit j = true → j = 0 ∨ j = 2 := by
    intro j hj hhj
    by_contra hne
    push Not at hne
    have hh := h 3 (by omega) 2 hn j hj h2 hhj
    have hz : next hit n 0 = some 0 := next_zero (by omega) h0
    simp [picked, Nat.count_succ, hz, hrun 1 le_rfl (by omega), hrun 2 (by omega) le_rfl,
      Ne.symm hne.1, Ne.symm hne.2] at hh
  refine ⟨?_, honly⟩
  -- the gap before `0` is the one before `2`, so the hit before `0` is two places back
  have hg := gap_run hn h0 hmiss (by omega)
  have hle := h.gap_le hb (by omega : 0 < n) hn h0 h2
  have hge := h.gap_le hb hn (by omega : 0 < n) h2 h0
  have hlast := (le_gap_iff.mp (by omega : 1 ≤ gap hit n 0)).2 0 (by omega)
  have h4 : hit (n - 2) = true := by
    by_contra hc
    have hg2 : 2 ≤ gap hit n 0 := by
      refine le_gap_iff.mpr ⟨by omega, ?_⟩
      intro i hi
      rcases (by omega : i = 0 ∨ i = 1) with rfl | rfl
      · exact hlast
      · rw [Nat.zero_add, Nat.mod_eq_of_lt (by omega), Nat.sub_sub]
        simpa using hc
    omega
  rcases honly (n - 2) (by omega) h4 with hc | hc <;> omega

end Shares

variable {healthy : List Bool} {hs : healthy.length < 2 ^ 61} {p : UpstreamPool}

abbrev Reaches (healthy : List Bool) (hs : healthy.length < 2 ^ 61) : UpstreamPool → Prop :=
  Reachable step (fun _ _ => True) (create healthy hs)

lemma reaches_tracked (hn : 0 < healthy.length) (h : Reaches healthy hs p) :
    p.Tracked ∧ p.healthy = healthy := by
  refine h.invariant (P := fun p => p.Tracked ∧ p.healthy = healthy) ⟨⟨rfl, by simp [create]⟩, rfl⟩ ?_
  rintro p l q ⟨hp, rfl⟩ _ hq
  exact step_tracked hn hp hq

lemma calls_eq (hn : 0 < healthy.length) (h : Reaches healthy hs p) (hl : p.calls.length < 2 ^ 64)
    (hr : p.AllReturned) : p.calls = (List.range p.calls.length).map fun c =>
      .returned (next (isHealthy healthy) healthy.length c) := by
  obtain ⟨ht, he⟩ := reaches_tracked hn h
  apply List.ext_getElem (by simp)
  intro c hc _
  have hf := ht.calls c _ (List.getElem?_eq_getElem hc)
  rw [Nat.mod_eq_of_lt (by omega), he] at hf
  have hrc := hr _ (List.getElem_mem hc)
  rw [List.getElem_map, List.getElem_range]
  cases hk : p.calls[c] with
  | scanning start i => simp [hk, Call.isReturned] at hrc
  | returned r =>
    rw [hk] at hf
    rw [hf]

lemma returns_eq (hn : 0 < healthy.length) (h : Reaches healthy hs p) (hl : p.calls.length < 2 ^ 64)
    (hr : p.AllReturned) (j : ℕ) :
    p.returns j = picked (isHealthy healthy) healthy.length j p.calls.length := by
  rw [returns, calls_eq hn h hl hr, List.length_map, List.length_range, picked, count_map_range]
  simp only [Call.returned.injEq]

lemma load_cases (healthy : List Bool) (start i : ℕ) :
    ∃ d, (Call.scanning start i).load healthy = some d ∧
      (d.isReturned = true ∨ i + 1 < healthy.length ∧ d = .scanning start (i + 1)) := by
  simp only [Call.load]
  split_ifs with hh hl
  · exact ⟨_, rfl, Or.inl rfl⟩
  · exact ⟨_, rfl, Or.inr ⟨hl, rfl⟩⟩
  · exact ⟨_, rfl, Or.inl rfl⟩

lemma load_finishes {calls : List Call} {start i : ℕ} (h : Reaches healthy hs p)
    (hc : p.calls = calls ++ [.scanning start i]) (hr : ∀ c ∈ calls, c.isReturned = true) :
    ∃ q, Reaches healthy hs q ∧ q.calls.length = calls.length + 1 ∧ q.AllReturned := by
  induction hm : p.healthy.length - i using Nat.strong_induction_on generalizing p i with
  | _ m ih =>
    obtain ⟨d, hd, hcases⟩ := load_cases p.healthy start i
    have hq : Reaches healthy hs { p with calls := calls ++ [d] } := by
      apply h.step (.load calls.length) trivial
      simp [step, hc, hd]
    rcases hcases with hret | ⟨hl, rfl⟩
    · refine ⟨_, hq, by simp, ?_⟩
      intro c hmem
      rcases List.mem_append.mp hmem with hmem | hmem
      · exact hr c hmem
      · rwa [List.mem_singleton.mp hmem]
    · exact ih (p.healthy.length - (i + 1)) (by omega) hq rfl rfl

lemma exists_picks (hs : healthy.length < 2 ^ 61) (k : ℕ) :
    ∃ p, Reaches healthy hs p ∧ p.calls.length = k ∧ p.AllReturned := by
  induction k with
  | zero => exact ⟨_, .init, rfl, by simp [AllReturned, create]⟩
  | succ k ih =>
    obtain ⟨p, hp, rfl, hr⟩ := ih
    have hq : Reaches healthy hs p.pickNext := hp.step .call trivial rfl
    by_cases hn : p.healthy.length = 0
    · refine ⟨_, hq, by simp [pickNext, hn], ?_⟩
      intro c hc
      rw [pickNext, if_pos hn] at hc
      rcases List.mem_append.mp hc with hc | hc
      · exact hr c hc
      · rw [List.mem_singleton.mp hc]
        rfl
    · have hc : p.pickNext.calls = p.calls ++ [.scanning (p.nextIndex % p.healthy.length) 0] := by
        rw [pickNext, if_neg hn]
      exact load_finishes hq hc hr

lemma isHealthy_lt {j : ℕ} (h : isHealthy healthy j = true) : j < healthy.length := by
  by_contra hj
  simp [isHealthy, List.getElem?_eq_none (not_lt.mp hj)] at h

lemma isHealthy_getElem {j : ℕ} (hj : j < healthy.length) : isHealthy healthy j = healthy[j] := by
  simp [isHealthy, hj]

lemma exists_isHealthy {b : Bool} (h : b ∈ healthy) :
    ∃ j < healthy.length, isHealthy healthy j = b := by
  obtain ⟨j, hj, rfl⟩ := List.mem_iff_getElem.mp h
  exact ⟨j, hj, isHealthy_getElem hj⟩

def Fair (healthy : List Bool) (hs : healthy.length < 2 ^ 61) : Prop :=
  ∀ p, Reaches healthy hs p → p.calls.length < 2 ^ 64 → p.AllReturned →
    ∀ i j, isHealthy healthy i = true → isHealthy healthy j = true → p.returns i ≤ p.returns j + 1

lemma fair_iff_balanced (hn : 0 < healthy.length) :
    Fair healthy hs ↔ Balanced (isHealthy healthy) healthy.length (2 ^ 64) := by
  constructor
  · intro h k hk i _ j _ hi hj
    obtain ⟨p, hp, rfl, hr⟩ := exists_picks hs k
    rw [← returns_eq hn hp hk hr, ← returns_eq hn hp hk hr]
    exact h p hp hk hr i j hi hj
  · intro h p hp hl hr i j hi hj
    rw [returns_eq hn hp hl hr, returns_eq hn hp hl hr]
    exact h _ hl i (isHealthy_lt hi) j (isHealthy_lt hj) hi hj

lemma eq_alternating (hn : healthy.length = 4) (h0 : isHealthy healthy 0 = true)
    (h1 : isHealthy healthy 1 = false) (h2 : isHealthy healthy 2 = true)
    (h3 : isHealthy healthy 3 = false) : healthy = [true, false, true, false] := by
  match healthy, hn with
  | [a, b, c, d], _ => simp_all [isHealthy]

theorem fair_iff (healthy : List Bool) (hs : healthy.length < 2 ^ 61) (hh : true ∈ healthy) :
    Fair healthy hs ↔ (∃ i, ∀ j, isHealthy healthy j = true → j = i) ∨ false ∉ healthy ∨
      healthy = [true, false, true, false] := by
  have hn : 0 < healthy.length := List.length_pos_of_mem hh
  rw [fair_iff_balanced hn]
  constructor
  · intro h
    by_contra hc
    push Not at hc
    obtain ⟨hone, hall, halt⟩ := hc
    obtain ⟨a, ha, hha⟩ := exists_isHealthy hh
    obtain ⟨m, hm, hmm⟩ := exists_isHealthy hall
    obtain ⟨b, hhb, hab⟩ := hone a
    have hb : healthy.length + healthy.length < 2 ^ 64 := by omega
    obtain ⟨h3, h0, h1, h2⟩ := h.first_run hb ha (isHealthy_lt hhb) hha hhb (Ne.symm hab) hm hmm
    obtain ⟨h4, honly⟩ := h.alternating hb h3 h0 h1 h2
    refine halt (eq_alternating h4 h0 h1 h2 ?_)
    by_contra hc
    rcases honly 3 (by omega) (by simpa using hc) with hc | hc <;> omega
  · rintro (⟨i, hi⟩ | hall | rfl)
    · exact balanced_one hi
    · apply balanced_all
      intro j hj
      rw [isHealthy_getElem hj]
      by_contra hc
      exact hall (by simpa [hc] using List.getElem_mem hj)
    · exact balanced_alternating

theorem fair_iff_two_up : Fair [true, true] (by decide) ∧ ¬ Fair [true, true, false] (by decide) := by
  refine ⟨(fair_iff [true, true] (by decide) (by decide)).mpr (Or.inr (Or.inl (by decide))), ?_⟩
  rw [fair_iff [true, true, false] (by decide) (by decide)]
  rintro (⟨i, hi⟩ | hc | hc)
  · have h0 := hi 0 rfl
    have h1 := hi 1 rfl
    omega
  · exact hc (by decide)
  · simp at hc

theorem skipped_share_goes_to_the_next : ∃ p : UpstreamPool,
    Reaches [true, false, true] (by decide) p ∧ p.calls.length = 6 ∧ p.AllReturned ∧
      isHealthy [true, false, true] 0 = true ∧ isHealthy [true, false, true] 2 = true ∧
      p.returns 0 = 2 ∧ p.returns 2 = 4 := by
  have h : ∃ p, Reaches [true, false, true] (by decide) p ∧ p.calls = [.returned (some 0),
      .returned (some 2), .returned (some 2), .returned (some 0), .returned (some 2), .returned (some 2)] :=
    exists_reachable [.call, .call, .load 1, .load 0, .load 1, .call, .load 2, .call, .load 3, .call,
      .load 4, .call, .load 5, .load 4] (by decide)
  obtain ⟨p, hp, hc⟩ := h
  refine ⟨p, hp, ?_⟩
  simp only [AllReturned, returns, hc]
  decide

end HttpBalancer.Balancer.UpstreamPool
