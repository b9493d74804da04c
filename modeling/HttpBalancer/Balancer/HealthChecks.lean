import HttpBalancer.Balancer.UpstreamPool

/-! One call of `pickNext` while the health checker sweeps over the upstreams. The call loads the
flags one at a time and never sees them all at once. -/

namespace HttpBalancer.Balancer

open Lib Transitions

/-- `sweep` is the upstream the checker writes next; `seen` are the flags at every instant of the call. -/
structure Scan where
  healthy : List Bool
  sweep : ℕ
  call : Call
  seen : List (List Bool)
  deriving DecidableEq

namespace Scan

inductive Step
  | load
  | write (ok : Bool)
  deriving DecidableEq

def start (healthy : List Bool) (sweep nextIndex : ℕ) : Scan :=
  ⟨healthy, sweep, .scanning (nextIndex % healthy.length) 0, [healthy]⟩

def write (s : Scan) (ok : Bool) : Scan :=
  let healthy := s.healthy.set s.sweep ok
  { s with healthy := healthy, sweep := (s.sweep + 1) % s.healthy.length, seen := s.seen ++ [healthy] }

-- the run ends with the call
def step (s : Scan) : Step → Option Scan
  | .load => (s.call.load s.healthy).map fun call => { s with call := call }
  | .write ok => if s.call.isReturned then none else some (s.write ok)

def loaded (s : Scan) : List ℕ :=
  match s.call with
  | .scanning start i => (List.range i).map fun k => (start + k) % s.healthy.length
  | .returned _ => []

def LoadedStay (s : Scan) (l : Step) : Prop := l = .write true → s.sweep ∉ s.loaded

instance (s : Scan) : DecidablePred s.LoadedStay := fun l =>
  inferInstanceAs (Decidable (l = .write true → s.sweep ∉ s.loaded))

variable {s t : Scan} {n : ℕ}

inductive Moves (s : Scan) : Step → Scan → Prop
  | found (start i : ℕ) : s.call = .scanning start i →
      isHealthy s.healthy ((start + i) % s.healthy.length) = true →
      Moves s .load { s with call := .returned (some ((start + i) % s.healthy.length)) }
  | next (start i : ℕ) : s.call = .scanning start i →
      isHealthy s.healthy ((start + i) % s.healthy.length) = false → i + 1 < s.healthy.length →
      Moves s .load { s with call := .scanning start (i + 1) }
  | exhausted (start i : ℕ) : s.call = .scanning start i →
      isHealthy s.healthy ((start + i) % s.healthy.length) = false → s.healthy.length ≤ i + 1 →
      Moves s .load { s with call := .returned none }
  | write (ok : Bool) (start i : ℕ) : s.call = .scanning start i → Moves s (.write ok) (s.write ok)

lemma step_moves {l : Step} (h : s.step l = some t) : s.Moves l t := by
  cases l with
  | load =>
    obtain ⟨d, hd, rfl⟩ := Option.map_eq_some_iff.mp h
    cases hc : s.call with
    | returned r => simp [hc, Call.load] at hd
    | scanning start i =>
      simp only [hc, Call.load] at hd
      split_ifs at hd with hh hl
      · obtain rfl := Option.some.inj hd
        exact .found start i hc hh
      · obtain rfl := Option.some.inj hd
        exact .next start i hc (by simpa using hh) hl
      · obtain rfl := Option.some.inj hd
        exact .exhausted start i hc (by simpa using hh) (not_lt.mp hl)
  | write ok =>
    simp only [step] at h
    split_ifs at h with hr
    obtain rfl := Option.some.inj h
    cases hc : s.call with
    | returned r => simp [hc, Call.isReturned] at hr
    | scanning start i => exact .write ok start i hc

structure Witnessed (s : Scan) : Prop where
  now : s.healthy ∈ s.seen
  found : ∀ j, s.call = .returned (some j) → ∃ f ∈ s.seen, isHealthy f j = true

lemma step_witnessed {l : Step} (hs : s.Witnessed) (h : s.step l = some t) : t.Witnessed := by
  cases step_moves h with
  | found start i _ hh =>
    refine ⟨hs.now, ?_⟩
    intro j hj
    obtain rfl : _ = j := by simpa using hj
    exact ⟨s.healthy, hs.now, hh⟩
  | next start i _ _ _ => exact ⟨hs.now, by simp⟩
  | exhausted start i _ _ _ => exact ⟨hs.now, by simp⟩
  | write ok start i hc => exact ⟨by simp [write], by simp [write, hc]⟩

structure Faithful (n : ℕ) (s : Scan) : Prop where
  size : s.healthy.length = n
  now : s.healthy ∈ s.seen
  scanned : ∀ start i, s.call = .scanning start i →
    i < n ∧ ∀ k < i, isHealthy s.healthy ((start + k) % n) = false
  exhausted : s.call = .returned none → ∃ f ∈ s.seen, ∀ j < n, isHealthy f j = false

lemma isHealthy_set {healthy : List Bool} {i j : ℕ} {ok : Bool} (h : ok = true → i ≠ j)
    (hj : isHealthy healthy j = false) : isHealthy (healthy.set i ok) j = false := by
  by_cases hij : i = j
  · subst hij
    have hk : ok = false := by simpa using mt h (not_not.mpr rfl)
    subst hk
    by_cases hl : i < healthy.length <;> simp [isHealthy, hl]
  · simpa [isHealthy, List.getElem?_set_ne hij] using hj

lemma all_unhealthy {healthy : List Bool} {start : ℕ}
    (h : ∀ k < healthy.length, isHealthy healthy ((start + k) % healthy.length) = false) :
    ∀ j < healthy.length, isHealthy healthy j = false := by
  intro j hj
  by_contra hh
  obtain ⟨i, hi⟩ : ∃ i, Cyclic.next (isHealthy healthy) healthy.length start = some i :=
    Cyclic.exists_next (by omega) hj (by simpa using hh) start
  rw [Cyclic.next_eq_none_iff.mpr h] at hi
  simp at hi

lemma step_faithful {l : Step} (hs : s.Faithful n) (hl : s.LoadedStay l) (h : s.step l = some t) :
    t.Faithful n := by
  obtain ⟨rfl, hnow, hscan, -⟩ := hs
  have hload : ∀ start i, s.call = .scanning start i →
      isHealthy s.healthy ((start + i) % s.healthy.length) = false →
      ∀ k < i + 1, isHealthy s.healthy ((start + k) % s.healthy.length) = false := by
    intro start i hc hm k hk
    rcases Nat.lt_succ_iff_lt_or_eq.mp hk with hk | rfl
    · exact (hscan start i hc).2 k hk
    · exact hm
  cases step_moves h with
  | found start i _ _ => exact ⟨rfl, hnow, by simp, by simp⟩
  | next start i hc hm hi =>
    refine ⟨rfl, hnow, ?_, by simp⟩
    intro start' i' hc'
    obtain ⟨rfl, rfl⟩ : start = start' ∧ i + 1 = i' := by simpa using hc'
    exact ⟨hi, hload start i hc hm⟩
  | exhausted start i hc hm hi =>
    refine ⟨rfl, hnow, by simp, fun _ => ⟨s.healthy, hnow, ?_⟩⟩
    exact all_unhealthy fun k hk => hload start i hc hm k (by omega)
  | write ok start i hc =>
    refine ⟨by simp [write], by simp [write], ?_, by simp [write, hc]⟩
    intro start' i' hc'
    obtain ⟨rfl, rfl⟩ : start = start' ∧ i = i' := by simpa [write, hc] using hc'
    refine ⟨(hscan start i hc).1, ?_⟩
    intro k hk
    apply isHealthy_set _ ((hscan start i hc).2 k hk)
    rintro rfl he
    exact hl rfl (by simpa [loaded, hc] using ⟨k, hk, he.symm⟩)

theorem scan_sees_an_instant (healthy : List Bool) (sweep nextIndex : ℕ) (hn : healthy ≠ []) :
    (∀ s, Reachable step (fun _ _ => True) (start healthy sweep nextIndex) s →
      ∀ j, s.call = .returned (some j) → ∃ f ∈ s.seen, isHealthy f j = true) ∧
    (∀ s, Reachable step LoadedStay (start healthy sweep nextIndex) s →
      s.call = .returned none → ∃ f ∈ s.seen, ∀ j < healthy.length, isHealthy f j = false) := by
  refine ⟨?_, ?_⟩
  · intro s h
    have hs : s.Witnessed := h.invariant (P := Witnessed) ⟨by simp [start], by simp [start]⟩
      fun _ _ _ hs _ ht => step_witnessed hs ht
    exact hs.found
  · intro s h
    have hs : s.Faithful healthy.length := by
      refine h.invariant (P := Faithful healthy.length) ⟨rfl, by simp [start], ?_, by simp [start]⟩
        fun _ _ _ hs hl ht => step_faithful hs hl ht
      intro start' i hc
      obtain ⟨rfl, rfl⟩ : nextIndex % healthy.length = start' ∧ 0 = i := by simpa [start] using hc
      exact ⟨List.length_pos_of_ne_nil hn, by simp⟩
    exact hs.exhausted

theorem scan_sees_an_instant_all_down : ∃ s : Scan,
    Reachable step LoadedStay (start [true, false, true] 0 1) s ∧ s.call = .returned none ∧
      ∃ f ∈ s.seen, ∀ j < 3, isHealthy f j = false := by
  -- the checker stays ahead of the call
  have h : ∃ s, Reachable step LoadedStay (start [true, false, true] 0 1) s ∧ s.call = .returned none :=
    exists_reachable [.write false, .load, .write false, .write false, .load, .load] (by decide)
  obtain ⟨s, hs, hc⟩ := h
  exact ⟨s, hs, hc, (scan_sees_an_instant [true, false, true] 0 1 (by decide)).2 s hs hc⟩

theorem healthy_upstream_missed : ∃ s : Scan,
    Reachable step (fun _ _ => True) (start [false, true] 0 0) s ∧ s.call = .returned none ∧
      ∀ f ∈ s.seen, ∃ j < 2, isHealthy f j = true := by
  apply exists_reachable [.load, .write true, .write false, .load]
  decide

end Scan

end HttpBalancer.Balancer
