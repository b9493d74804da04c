import HttpBalancer.Balancer.RoundRobin

/-! One round of the cursor: the calls that take as many successive values of it as there are
upstreams. -/

namespace HttpBalancer.Balancer.UpstreamPool

open Lib Transitions Cyclic

section Round

variable {hit : ℕ → Bool} {n : ℕ}

def round (hit : ℕ → Bool) (n c : ℕ) : List (Option ℕ) := (List.range n).map fun i => next hit n (c + i)

lemma count_round (c : ℕ) {j : ℕ} (hj : j < n) (hh : hit j = true) :
    (round hit n c).count (some j) = 1 + gap hit n j := by
  rw [round, count_map_range, count_shift (next_periodic j), count_next hj hh]

lemma round_none (c : ℕ) (hn : 0 < n) :
    (∀ r ∈ round hit n c, r = none) ↔ ∀ j < n, hit j = false := by
  constructor
  · intro h j hj
    by_contra hh
    obtain ⟨i, hi⟩ := exists_next hn hj (by simpa using hh) c
    have hm : next hit n (c + 0) ∈ round hit n c := List.mem_map.mpr ⟨0, List.mem_range.mpr hn, rfl⟩
    rw [Nat.add_zero, hi] at hm
    cases h _ hm
  · intro h r hr
    obtain ⟨i, -, rfl⟩ := List.mem_map.mp hr
    exact next_eq_none_iff.mpr fun k _ => h _ (Nat.mod_lt _ hn)

end Round

lemma results_eq_round {healthy : List Bool} {hs : healthy.length < 2 ^ 61} {p : UpstreamPool}
    (hn : 0 < healthy.length) (h : Reaches healthy hs p) {c : ℕ} {ks : List ℕ}
    (hk : ks.map (· % 2 ^ 64) = (List.range healthy.length).map (c + ·)) {rs : List (Option ℕ)}
    (hr : ks.map (p.calls[·]?) = rs.map fun r => some (.returned r)) :
    rs = round (isHealthy healthy) healthy.length c := by
  obtain ⟨ht, he⟩ := reaches_tracked hn h
  have hlk : ks.length = healthy.length := by simpa using congrArg List.length hk
  have hlr : ks.length = rs.length := by simpa using congrArg List.length hr
  apply List.ext_getElem (by simp [round, ← hlr, hlk])
  intro i hi _
  have hki : ks[i] % 2 ^ 64 = c + i := by
    have hh := List.getElem_of_eq hk (i := i) (by simp; omega)
    simpa using hh
  have hri : p.calls[ks[i]]? = some (.returned rs[i]) := by
    have hh := List.getElem_of_eq hr (i := i) (by simp; omega)
    simpa using hh
  have hf : rs[i] = next (isHealthy p.healthy) p.healthy.length (ks[i] % 2 ^ 64) := ht.calls _ _ hri
  rw [hf, hki, he]
  simp [round]

/-- Call `k` takes the value `k % 2 ^ 64` of the cursor. Any calls `ks` that took the `n` values from
`c` on, whatever else went on between their steps, return between them what a round returns. -/
theorem round_counts (healthy : List Bool) (hs : healthy.length < 2 ^ 61) (hn : 0 < healthy.length)
    (p : UpstreamPool) (h : Reaches healthy hs p) (c : ℕ) (ks : List ℕ)
    (hk : ks.map (· % 2 ^ 64) = (List.range healthy.length).map (c + ·))
    (rs : List (Option ℕ)) (hr : ks.map (p.calls[·]?) = rs.map fun r => some (.returned r)) :
    p.nextIndex = p.calls.length % 2 ^ 64 ∧
    (∀ j < healthy.length, isHealthy healthy j = true →
      rs.count (some j) = 1 + gap (isHealthy healthy) healthy.length j) ∧
    (∀ j, some j ∈ rs → isHealthy healthy j = true) ∧
    ((∀ r ∈ rs, r = none) ↔ ∀ j < healthy.length, isHealthy healthy j = false) ∧
    ((∀ j < healthy.length, isHealthy healthy j = true) →
      rs = (List.range healthy.length).map fun i => some ((c + i) % healthy.length)) := by
  rw [results_eq_round hn h hk hr]
  refine ⟨(reaches_tracked hn h).1.nextIndex, fun j hj hh => count_round c hj hh, ?_, round_none c hn, ?_⟩
  · intro j hm
    obtain ⟨i, -, hi⟩ := List.mem_map.mp hm
    exact next_hit hi
  · intro hall
    apply List.map_congr_left
    intro i _
    exact next_self (hall _ (Nat.mod_lt _ hn)) hn

theorem round_counts_two_down : ∃ p : UpstreamPool,
    Reaches [true, false, false, true] (by decide) p ∧ p.calls = [.returned (some 0),
      .returned (some 3), .returned (some 3), .returned (some 3), .returned (some 0), .scanning 1 0] ∧
      [some 3, some 3, some 3, some 0].count (some 3) =
        1 + gap (isHealthy [true, false, false, true]) 4 3 := by
  have h : ∃ p, Reaches [true, false, false, true] (by decide) p ∧
      p.calls = [.returned (some 0), .returned (some 3), .returned (some 3), .returned (some 3),
        .returned (some 0), .scanning 1 0] :=
    exists_reachable [.call, .call, .load 0, .call, .load 1, .load 2, .call, .call, .load 4, .load 1,
      .load 2, .load 1, .call, .load 3] (by decide)
  obtain ⟨p, hp, hc⟩ := h
  refine ⟨p, hp, hc, ?_⟩
  exact (round_counts [true, false, false, true] (by decide) (by decide) p hp 1 [1, 2, 3, 4] (by decide)
    [some 3, some 3, some 3, some 0] (by rw [hc]; rfl)).2.1 3 (by decide) rfl

end HttpBalancer.Balancer.UpstreamPool
