import HttpBalancer.Lib.Cyclic
import HttpBalancer.Lib.Transitions

/-! The upstream pool. A call of `pickNext` takes a value of the cursor in one atomic step and then
loads the flags one at a time, so the steps of calls in several threads interleave. -/

namespace HttpBalancer.Balancer

open Lib Transitions

def isHealthy (healthy : List Bool) (j : ℕ) : Bool := healthy.getD j false

inductive Call
  | scanning (start i : ℕ)
  | returned (upstream : Option ℕ)
  deriving DecidableEq

def Call.isReturned : Call → Bool
  | .returned _ => true
  | .scanning _ _ => false

-- one iteration of the loop, with the test that ends it
def Call.load (healthy : List Bool) : Call → Option Call
  | .scanning start i =>
    let candidate := (start + i) % healthy.length
    if isHealthy healthy candidate then some (.returned (some candidate))
    else if i + 1 < healthy.length then some (.scanning start (i + 1))
    else some (.returned none)
  | .returned _ => none

/-- The flags of the upstreams, the cursor, and the calls of `pickNext` in the order in which they took
their values of it. The upstreams are a vector of pointers in one address space. -/
structure UpstreamPool where
  healthy : List Bool
  nextIndex : ℕ
  calls : List Call
  size_lt : healthy.length < 2 ^ 61
  deriving DecidableEq

namespace UpstreamPool

inductive Step
  | call
  | load (c : ℕ)
  deriving DecidableEq

def create (healthy : List Bool) (size_lt : healthy.length < 2 ^ 61) : UpstreamPool :=
  ⟨healthy, 0, [], size_lt⟩

def pickNext (p : UpstreamPool) : UpstreamPool :=
  let count := p.healthy.length
  if count = 0 then { p with calls := p.calls ++ [.returned none] }
  else { p with
    nextIndex := (p.nextIndex + 1) % 2 ^ 64
    calls := p.calls ++ [.scanning (p.nextIndex % count) 0] }

def step (p : UpstreamPool) : Step → Option UpstreamPool
  | .call => some p.pickNext
  | .load c =>
    (p.calls[c]?.bind (Call.load p.healthy)).map fun call => { p with calls := p.calls.set c call }

def returns (p : UpstreamPool) (j : ℕ) : ℕ := p.calls.count (.returned (some j))

def AllReturned (p : UpstreamPool) : Prop := ∀ c ∈ p.calls, c.isReturned = true

end UpstreamPool

def Call.Follows (healthy : List Bool) (s : ℕ) : Call → Prop
  | .scanning start i => start = s % healthy.length ∧ i < healthy.length ∧
      ∀ k < i, isHealthy healthy ((s + k) % healthy.length) = false
  | .returned r => r = Cyclic.next (isHealthy healthy) healthy.length s

lemma Call.load_follows {healthy : List Bool} {s : ℕ} {c d : Call} (hc : c.Follows healthy s)
    (h : c.load healthy = some d) : d.Follows healthy s := by
  cases c with
  | returned r => simp [Call.load] at h
  | scanning start i =>
    obtain ⟨rfl, hi, hm⟩ := hc
    simp only [Call.load, Nat.mod_add_mod] at h
    split_ifs at h with hh hl
    · obtain rfl := Option.some.inj h
      exact (Cyclic.next_eq_some_iff.mpr ⟨hh, i, hi, rfl, hm⟩).symm
    · obtain rfl := Option.some.inj h
      refine ⟨rfl, hl, ?_⟩
      intro k hk
      rcases Nat.lt_succ_iff_lt_or_eq.mp hk with hk | rfl
      · exact hm k hk
      · simpa using hh
    · obtain rfl := Option.some.inj h
      refine (Cyclic.next_eq_none_iff.mpr ?_).symm
      intro k hk
      rcases Nat.lt_succ_iff_lt_or_eq.mp (show k < i + 1 by omega) with hk | rfl
      · exact hm k hk
      · simpa using hh

namespace UpstreamPool

structure Tracked (p : UpstreamPool) : Prop where
  nextIndex : p.nextIndex = p.calls.length % 2 ^ 64
  calls : ∀ (c : ℕ) (call : Call), p.calls[c]? = some call → call.Follows p.healthy (c % 2 ^ 64)

lemma pickNext_tracked {p : UpstreamPool} (hp : p.Tracked) (hn : 0 < p.healthy.length) :
    p.pickNext.Tracked := by
  rw [pickNext, if_neg hn.ne']
  refine ⟨?_, ?_⟩
  · simp [hp.nextIndex]
  · intro c call hc
    rw [List.getElem?_append] at hc
    split_ifs at hc with hl
    · exact hp.calls c call hc
    · obtain ⟨hz, rfl⟩ : c - p.calls.length = 0 ∧ _ := by
        simpa [List.getElem?_singleton, eq_comm] using hc
      obtain rfl : c = p.calls.length := by omega
      refine ⟨by rw [hp.nextIndex], hn, by simp⟩

lemma step_tracked {p q : UpstreamPool} {l : Step} (hn : 0 < p.healthy.length) (hp : p.Tracked)
    (h : p.step l = some q) : q.Tracked ∧ q.healthy = p.healthy := by
  cases l with
  | call =>
    obtain rfl := Option.some.inj h
    refine ⟨pickNext_tracked hp hn, ?_⟩
    rw [pickNext]
    split_ifs <;> rfl
  | load c =>
    obtain ⟨d, hd, rfl⟩ := Option.map_eq_some_iff.mp h
    obtain ⟨call, hc, hd⟩ := Option.bind_eq_some_iff.mp hd
    refine ⟨⟨by simpa using hp.nextIndex, ?_⟩, rfl⟩
    intro c' call' hc'
    by_cases hcc : c = c'
    · subst hcc
      have hl := (List.getElem?_eq_some_iff.mp hc).1
      obtain rfl : d = call' := by simpa [List.getElem?_set, hl] using hc'
      exact Call.load_follows (hp.calls c call hc) hd
    · rw [List.getElem?_set_ne hcc] at hc'
      exact hp.calls c' call' hc'

end UpstreamPool

end HttpBalancer.Balancer
