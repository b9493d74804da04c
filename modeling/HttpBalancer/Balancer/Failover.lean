import HttpBalancer.Balancer.Probes
import HttpBalancer.Balancer.UpstreamPool
import HttpBalancer.Lib.Fairness

/-! The loop of the health checker while other threads call `pickNext`, and what becomes of an upstream
that goes down or comes back. -/

namespace HttpBalancer.Balancer

open Net Lib Transitions

/-- Where `loop` is: at the test of `running_`, before the probe of upstream `i` or past the last one, at
the exchange of a probe's result. -/
inductive Checking
  | testing
  | sweeping (i : ℕ)
  | probed (i : ℕ) (ok : Bool)
  | exited
  deriving DecidableEq

def Checking.index : Checking → ℕ
  | .testing | .exited => 0
  | .sweeping i | .probed i _ => i

def UpstreamPool.store (p : UpstreamPool) (i : ℕ) (ok : Bool) : UpstreamPool :=
  { p with healthy := p.healthy.set i ok, size_lt := by simpa using p.size_lt }

/-- `verdicts` are the results of the probes as they were stored, newest first, and `begun` counts for each
call of `pickNext` those stored before it. No step reads them. -/
structure Fleet where
  upstreams : List Upstream
  pool : UpstreamPool
  running : Bool
  checker : Checking
  output : Bytes
  verdicts : List (ℕ × Bool)
  begun : List ℕ
  deriving DecidableEq

namespace Fleet

inductive Step
  | test
  | probe (io : ProbeCalls)
  | exchange
  | sleep
  | stop
  | call
  | load (c : ℕ)

def Step.Checks : Step → Prop
  | .test | .probe _ | .exchange | .sleep => True
  | .stop | .call | .load _ => False

def create (upstreams : List Upstream) (size_lt : upstreams.length < 2 ^ 61) : Fleet where
  upstreams := upstreams
  pool := .create (List.replicate upstreams.length true) (by simpa using size_lt)
  running := true
  checker := .testing
  output := []
  verdicts := []
  begun := []

def line (u : Upstream) (ok : Bool) : Bytes :=
  lit "healthcheck: " ++ cStr u.host ++ lit ":" ++ Decimal.numeral u.port.toNat ++ lit " is now " ++
    (if ok then lit "UP" else lit "DOWN") ++ lit "\n"

def lineOf (upstreams : List Upstream) (v : ℕ × Bool) : Bytes :=
  match upstreams[v.1]? with
  | some u => line u v.2
  | none => []

def exchange (s : Fleet) (i : ℕ) (ok : Bool) : Fleet :=
  let wasHealthy := isHealthy s.pool.healthy i
  { s with
    pool := s.pool.store i ok
    checker := .sweeping (i + 1)
    output := if wasHealthy = ok then s.output else s.output ++ lineOf s.upstreams (i, ok)
    verdicts := (i, ok) :: s.verdicts }

def step (s : Fleet) : Step → Option Fleet
  | .test =>
    match s.checker with
    | .testing => some { s with checker := if s.running then .sweeping 0 else .exited }
    | _ => none
  | .probe io =>
    match s.checker with
    | .sweeping i =>
      if i < s.upstreams.length then some { s with checker := .probed i (probeOnce io) } else none
    | _ => none
  | .exchange =>
    match s.checker with
    | .probed i ok => some (s.exchange i ok)
    | _ => none
  | .sleep =>
    match s.checker with
    | .sweeping i => if i < s.upstreams.length then none else some { s with checker := .testing }
    | _ => none
  | .stop => some { s with running := false }
  | .call => some { s with pool := s.pool.pickNext, begun := s.begun ++ [s.verdicts.length] }
  | .load c => (s.pool.step (.load c)).map fun p => { s with pool := p }

def Any (_ : Fleet) (_ : Step) : Prop := True

instance (s : Fleet) : DecidablePred s.Any := fun _ => inferInstanceAs (Decidable True)

inductive Moves (s : Fleet) : Step → Fleet → Prop
  | test : s.checker = .testing →
      Moves s .test { s with checker := if s.running then .sweeping 0 else .exited }
  | probe (io : ProbeCalls) (i : ℕ) : s.checker = .sweeping i → i < s.upstreams.length →
      Moves s (.probe io) { s with checker := .probed i (probeOnce io) }
  | exchange (i : ℕ) (ok : Bool) : s.checker = .probed i ok → Moves s .exchange (s.exchange i ok)
  | sleep (i : ℕ) : s.checker = .sweeping i → s.upstreams.length ≤ i →
      Moves s .sleep { s with checker := .testing }
  | stop : Moves s .stop { s with running := false }
  | call : Moves s .call { s with pool := s.pool.pickNext, begun := s.begun ++ [s.verdicts.length] }
  | load (c : ℕ) (call d : Call) : s.pool.calls[c]? = some call → call.load s.pool.healthy = some d →
      Moves s (.load c) { s with pool := { s.pool with calls := s.pool.calls.set c d } }

variable {s t : Fleet} {l : Step}

lemma step_moves (h : s.step l = some t) : s.Moves l t := by
  cases l with
  | test =>
    simp only [step] at h
    split at h
    · cases h
      exact .test ‹_›
    · cases h
  | probe io =>
    simp only [step] at h
    split at h
    · split_ifs at h with hi
      cases h
      exact .probe io _ ‹_› hi
    · cases h
  | exchange =>
    simp only [step] at h
    split at h
    · cases h
      exact .exchange _ _ ‹_›
    · cases h
  | sleep =>
    simp only [step] at h
    split at h
    · split_ifs at h with hi
      cases h
      exact .sleep _ ‹_› (not_lt.mp hi)
    · cases h
  | stop =>
    cases h
    exact .stop
  | call =>
    cases h
    exact .call
  | load c =>
    obtain ⟨p, hp, rfl⟩ := Option.map_eq_some_iff.mp h
    obtain ⟨d, hd, rfl⟩ := Option.map_eq_some_iff.mp hp
    obtain ⟨call, hc, hd⟩ := Option.bind_eq_some_iff.mp hd
    exact .load c call d hc hd

end Fleet

section Verdicts

def latest : List (ℕ × Bool) → ℕ → Bool
  | [], _ => true
  | v :: vs, j => if v.1 = j then v.2 else latest vs j

def changes : List (ℕ × Bool) → List (ℕ × Bool)
  | [] => []
  | v :: vs => if latest vs v.1 = v.2 then changes vs else v :: changes vs

def toggles (vs : List (ℕ × Bool)) (j : ℕ) : List Bool :=
  ((changes vs).reverse.filter fun v => v.1 = j).map Prod.snd

/-- At some moment since `b` verdicts were in, the newest one about `j` was `ok`. -/
def Stood (vs : List (ℕ × Bool)) (b j : ℕ) (ok : Bool) : Prop :=
  ∃ new old, vs = new ++ old ∧ b ≤ old.length ∧ latest old j = ok

variable {vs new old : List (ℕ × Bool)} {v : ℕ × Bool} {b j : ℕ} {ok : Bool}

lemma toggles_cons (v : ℕ × Bool) (vs : List (ℕ × Bool)) (j : ℕ) :
    toggles (v :: vs) j = toggles vs j ++ if v.1 = j ∧ latest vs v.1 ≠ v.2 then [v.2] else [] := by
  rw [toggles, changes]
  by_cases hl : latest vs v.1 = v.2
  · simp [hl, toggles]
  · rw [if_neg hl]
    by_cases hj : v.1 = j
    · rw [if_pos ⟨hj, hl⟩]
      simp [hj, toggles]
    · rw [if_neg fun h => hj h.1]
      simp [hj, toggles]

lemma toggles_alternate (vs : List (ℕ × Bool)) (j : ℕ) :
    toggles vs j = (List.range (toggles vs j).length).map (fun k => k % 2 == 1) ∧
      latest vs j = ((toggles vs j).length % 2 == 0) := by
  induction vs with
  | nil => exact ⟨rfl, rfl⟩
  | cons v vs ih =>
    obtain ⟨ha, hl⟩ := ih
    rw [toggles_cons, latest]
    split_ifs with h hj hj
    · obtain ⟨rfl, hne⟩ := h
      have hv : v.2 = ((toggles vs v.1).length % 2 == 1) := by
        rw [Bool.eq_not_of_ne hne.symm, hl]
        rcases Nat.mod_two_eq_zero_or_one (toggles vs v.1).length with h | h <;> simp [h]
      rw [List.length_append, List.length_singleton, List.range_succ, List.map_append, ← ha]
      refine ⟨by rw [List.map_singleton, ← hv], ?_⟩
      rw [hv]
      rcases Nat.mod_two_eq_zero_or_one (toggles vs v.1).length with h | h <;> simp [h] <;> omega
    · exact absurd h.1 hj
    · subst hj
      have he : latest vs v.1 = v.2 := by simpa using h
      rw [List.append_nil, ← he]
      exact ⟨ha, hl⟩
    · rw [List.append_nil]
      exact ⟨ha, hl⟩

lemma latest_append (hl : latest old j = ok) (hn : (j, !ok) ∉ new) : latest (new ++ old) j = ok := by
  induction new with
  | nil => exact hl
  | cons v new ih =>
    obtain ⟨hv, hnew⟩ : (j, !ok) ≠ v ∧ (j, !ok) ∉ new := by simpa using hn
    rw [List.cons_append, latest, ih hnew]
    split_ifs with hj
    · subst hj
      by_contra hne
      exact hv (Prod.ext rfl (by simpa using (Bool.eq_not_of_ne hne).symm))
    · rfl

lemma Stood.now (hb : b ≤ vs.length) (h : latest vs j = ok) : Stood vs b j ok := ⟨[], vs, rfl, hb, h⟩

lemma Stood.cons (h : Stood vs b j ok) (v : ℕ × Bool) : Stood (v :: vs) b j ok := by
  obtain ⟨new, old, rfl, hb, hl⟩ := h
  exact ⟨v :: new, old, rfl, hb, hl⟩

lemma not_stood (hl : latest old j = ok) (hn : (j, !ok) ∉ new) : ¬ Stood (new ++ old) old.length j (!ok) := by
  rintro ⟨new', old', he, hb, hl'⟩
  obtain ⟨mid, rfl, rfl⟩ : ∃ mid, new = new' ++ mid ∧ old' = mid ++ old := by
    rcases List.append_eq_append_iff.mp he with ⟨mid, rfl, rfl⟩ | ⟨mid, rfl, rfl⟩
    · obtain rfl : mid = [] := by simpa using hb
      exact ⟨[], by simp, rfl⟩
    · exact ⟨mid, rfl, rfl⟩
  rw [latest_append hl (by simp_all)] at hl'
  cases ok <;> cases hl'

end Verdicts

def Call.Saw (n : ℕ) (vs : List (ℕ × Bool)) (b : ℕ) : Call → Prop
  | .scanning start i => i < n ∧ ∀ k < i, Stood vs b ((start + k) % n) false
  | .returned (some j) => j < n ∧ Stood vs b j true
  | .returned none => ∀ j < n, Stood vs b j false

lemma Call.Saw.cons {n b : ℕ} {vs : List (ℕ × Bool)} {c : Call} (h : c.Saw n vs b) (v : ℕ × Bool) :
    c.Saw n (v :: vs) b := by
  cases c with
  | scanning start i => exact ⟨h.1, fun k hk => (h.2 k hk).cons v⟩
  | returned r =>
    cases r with
    | none => exact fun j hj => (h j hj).cons v
    | some j => exact ⟨h.1, h.2.cons v⟩

lemma Call.load_saw {healthy : List Bool} {vs : List (ℕ × Bool)} {b : ℕ} {c d : Call}
    (hf : ∀ j < healthy.length, isHealthy healthy j = latest vs j) (hb : b ≤ vs.length)
    (hc : c.Saw healthy.length vs b) (h : c.load healthy = some d) : d.Saw healthy.length vs b := by
  cases c with
  | returned r => simp [Call.load] at h
  | scanning start i =>
    obtain ⟨hi, hk⟩ := hc
    have hlt : (start + i) % healthy.length < healthy.length := Nat.mod_lt _ (by omega)
    have hnow : ∀ {ok}, isHealthy healthy ((start + i) % healthy.length) = ok →
        Stood vs b ((start + i) % healthy.length) ok := fun h => .now hb ((hf _ hlt).symm.trans h)
    have hall : isHealthy healthy ((start + i) % healthy.length) = false →
        ∀ k < i + 1, Stood vs b ((start + k) % healthy.length) false := by
      intro hm k hk'
      rcases Nat.lt_succ_iff_lt_or_eq.mp hk' with hk' | rfl
      · exact hk k hk'
      · exact hnow hm
    simp only [Call.load] at h
    split_ifs at h with hh hl
    · cases h
      exact ⟨hlt, hnow hh⟩
    · cases h
      exact ⟨hl, hall (by simpa using hh)⟩
    · cases h
      intro j hj
      obtain ⟨k, hk, rfl⟩ := Cyclic.exists_shift hj start
      exact hall (by simpa using hh) k (by omega)

namespace Fleet

variable {us : List Upstream} {s t : Fleet} {l : Step}

structure Recorded (us : List Upstream) (s : Fleet) : Prop where
  upstreams : s.upstreams = us
  size : s.pool.healthy.length = us.length
  flags : ∀ j < us.length, isHealthy s.pool.healthy j = latest s.verdicts j
  output : s.output = (changes s.verdicts).reverse.flatMap (lineOf s.upstreams)
  order : s.verdicts.reverse.map Prod.fst = (List.range s.verdicts.length).map (· % us.length)
  place : ∃ q, s.verdicts.length = q * us.length + s.checker.index
  within : s.checker.index ≤ us.length
  probing : ∀ i ok, s.checker = .probed i ok → i < us.length

structure Called (n : ℕ) (s : Fleet) : Prop where
  begun : s.begun.length = s.pool.calls.length
  calls : ∀ (c b : ℕ) (call : Call), s.begun[c]? = some b → s.pool.calls[c]? = some call →
    b ≤ s.verdicts.length ∧ call.Saw n s.verdicts b

lemma create_recorded (us : List Upstream) (h : us.length < 2 ^ 61) : Recorded us (create us h) := by
  refine ⟨rfl, by simp [create, UpstreamPool.create], fun j hj => ?_, rfl, rfl,
    ⟨0, by simp [create, Checking.index]⟩,
    by simp [create, Checking.index], by simp [create]⟩
  simp [create, UpstreamPool.create, isHealthy, latest, hj]

lemma pickNext_healthy (p : UpstreamPool) : p.pickNext.healthy = p.healthy := by
  rw [UpstreamPool.pickNext]
  split_ifs <;> rfl

lemma isHealthy_store (p : UpstreamPool) {i j : ℕ} (ok : Bool) (hj : j < p.healthy.length) :
    isHealthy (p.store i ok).healthy j = if i = j then ok else isHealthy p.healthy j := by
  by_cases h : i = j
  · subst h
    simp [UpstreamPool.store, isHealthy, hj]
  · simp [UpstreamPool.store, isHealthy, List.getElem?_set_ne h, h]

lemma Recorded.exchange (hs : Recorded us s) {i : ℕ} {ok : Bool} (hc : s.checker = .probed i ok) :
    Recorded us (s.exchange i ok) := by
  have hi := hs.probing i ok hc
  obtain ⟨q, hq⟩ := hs.place
  rw [hc, Checking.index] at hq
  refine ⟨hs.upstreams, by simpa [Fleet.exchange, UpstreamPool.store] using hs.size, fun j hj => ?_, ?_, ?_,
    ⟨q, ?_⟩, hi, by simp [Fleet.exchange]⟩
  · rw [Fleet.exchange, isHealthy_store _ _ (hs.size.symm ▸ hj), hs.flags j hj]
    rfl
  · simp only [Fleet.exchange, changes, hs.flags i hi]
    split_ifs with hl
    · exact hs.output
    · simp [hs.output]
  · have hm : s.verdicts.length % us.length = i := by rw [hq, Nat.mul_add_mod', Nat.mod_eq_of_lt hi]
    simp [Fleet.exchange, List.range_succ, hs.order, hm]
  · simp [Fleet.exchange, Checking.index, hq, Nat.add_assoc]

lemma Recorded.step (hs : Recorded us s) (h : s.step l = some t) : Recorded us t := by
  obtain ⟨q, hq⟩ := hs.place
  cases step_moves h with
  | test hc =>
    rw [hc] at hq
    refine { hs with place := ⟨q, ?_⟩, within := ?_, probing := fun i ok => ?_ }
    · cases s.running <;> exact hq
    · cases s.running <;> exact Nat.zero_le _
    · cases s.running <;> simp
  | probe io i hc hi =>
    have hw := hs.within
    rw [hc] at hq hw
    refine { hs with place := ⟨q, hq⟩, within := hw, probing := fun i' ok h => ?_ }
    obtain ⟨rfl, -⟩ : i = i' ∧ _ := by simpa using h
    exact hs.upstreams ▸ hi
  | exchange i ok hc => exact hs.exchange hc
  | sleep i hc hi =>
    have hw := hs.within
    rw [hc] at hq hw
    obtain rfl : i = us.length := le_antisymm hw (hs.upstreams ▸ hi)
    refine { hs with place := ⟨q + 1, ?_⟩, within := Nat.zero_le _, probing := by simp }
    rw [hq, Nat.succ_mul]
    rfl
  | stop => exact { hs with }
  | call =>
    refine { hs with size := ?_, flags := fun j hj => ?_ }
    · rw [pickNext_healthy, hs.size]
    · rw [pickNext_healthy, hs.flags j hj]
  | load c call d hc hd => exact { hs with }

lemma Called.step (hr : Recorded us s) (hs : Called us.length s) (h : s.step l = some t) :
    Called us.length t := by
  obtain ⟨hb, hcalls⟩ := hs
  cases step_moves h with
  | test | probe | sleep | stop => exact ⟨hb, hcalls⟩
  | exchange i ok hc =>
    refine ⟨hb, fun c b call hcb hcc => ?_⟩
    obtain ⟨hle, hsaw⟩ := hcalls c b call hcb hcc
    exact ⟨Nat.le_succ_of_le hle, hsaw.cons _⟩
  | call =>
    rw [← hr.size] at hcalls ⊢
    rw [UpstreamPool.pickNext]
    split_ifs with hn
    all_goals
      refine ⟨by simp [hb], fun c b call hcb hcc => ?_⟩
      rw [List.getElem?_append] at hcb hcc
      rw [hb] at hcb
      split_ifs at hcb hcc with hl
      · exact hcalls c b call hcb hcc
    · obtain ⟨-, rfl⟩ : _ ∧ s.verdicts.length = b := by simpa [List.getElem?_singleton] using hcb
      obtain ⟨-, rfl⟩ : _ ∧ Call.returned none = call := by simpa [List.getElem?_singleton] using hcc
      exact ⟨le_rfl, by simp [Call.Saw, hn]⟩
    · obtain ⟨-, rfl⟩ : _ ∧ s.verdicts.length = b := by simpa [List.getElem?_singleton] using hcb
      obtain ⟨-, rfl⟩ : _ ∧ Call.scanning _ 0 = call := by simpa [List.getElem?_singleton] using hcc
      exact ⟨le_rfl, Nat.pos_of_ne_zero hn, by simp⟩
  | load c call d hc hd =>
    refine ⟨by simpa using hb, fun c' b call' hcb hcc => ?_⟩
    by_cases hcc' : c = c'
    · subst hcc'
      obtain rfl : d = call' := by
        have hl := (List.getElem?_eq_some_iff.mp hc).1
        simpa [List.getElem?_set, hl] using hcc
      obtain ⟨hle, hsaw⟩ := hcalls c b call hcb hc
      have hf := hr.flags
      rw [← hr.size] at hf hsaw ⊢
      exact ⟨hle, Call.load_saw hf hle hsaw hd⟩
    · rw [List.getElem?_set_ne hcc'] at hcc
      exact hcalls c' b call' hcb hcc

lemma reachable_inv {h : us.length < 2 ^ 61} (hs : Reachable step Any (create us h) s) :
    Recorded us s ∧ Called us.length s := by
  refine hs.invariant (P := fun s => Recorded us s ∧ Called us.length s) ?_ fun s l t hs _ ht =>
    ⟨hs.1.step ht, hs.2.step hs.1 ht⟩
  exact ⟨create_recorded us h, rfl, by simp [create]⟩

/-- In every interleaving of the checker with calls of `pickNext`: the flags are the newest results of the
probes, which go round the upstreams; the lines about an upstream are DOWN and UP in turn; a call that
begins while an upstream is down and during which it does not come back is not given it; and a call
during which some upstream stays up is given one. -/
theorem verdicts_obeyed (us : List Upstream) (h : us.length < 2 ^ 61) (s : Fleet)
    (hs : Reachable step Any (create us h) s) :
    (∀ j < us.length, isHealthy s.pool.healthy j = latest s.verdicts j) ∧
    s.verdicts.reverse.map Prod.fst = (List.range s.verdicts.length).map (· % us.length) ∧
    s.output = (changes s.verdicts).reverse.flatMap (lineOf us) ∧
    (∀ j, toggles s.verdicts j = (List.range (toggles s.verdicts j).length).map fun k => k % 2 == 1) ∧
    ∀ (c : ℕ) (new old : List (ℕ × Bool)), s.verdicts = new ++ old → s.begun[c]? = some old.length →
      (∀ j, s.pool.calls[c]? = some (.returned (some j)) →
        j < us.length ∧ (latest old j = true ∨ (j, true) ∈ new)) ∧
      (s.pool.calls[c]? = some (.returned none) →
        ∀ j < us.length, latest old j = false ∨ (j, false) ∈ new) := by
  obtain ⟨hr, hb, hcalls⟩ := reachable_inv hs
  refine ⟨hr.flags, hr.order, hr.upstreams ▸ hr.output, fun j => (toggles_alternate s.verdicts j).1,
    fun c new old hv hc => ⟨?_, ?_⟩⟩
  · intro j hj
    obtain ⟨-, hlt, hstood⟩ := hcalls c _ _ hc hj
    refine ⟨hlt, ?_⟩
    by_contra hno
    obtain ⟨hl, hn⟩ := not_or.mp hno
    exact not_stood (by simpa using hl) hn (hv ▸ hstood)
  · intro hret j hj
    have hstood := (hcalls c _ _ hc hret).2 j hj
    by_contra hno
    obtain ⟨hl, hn⟩ := not_or.mp hno
    exact not_stood (by simpa using hl) hn (hv ▸ hstood)

theorem verdicts_obeyed_one_down : ∃ s : Fleet,
    Reachable step Any (create [⟨lit "127.0.0.1", 9001⟩, ⟨lit "127.0.0.1", 9002⟩] (by decide)) s ∧
      s.verdicts = [(0, false)] ∧ s.begun = [0, 1, 1] ∧
      s.pool.calls = [.scanning 0 0, .returned (some 1), .returned (some 1)] ∧
      s.output = lit "healthcheck: 127.0.0.1:9001 is now DOWN\n" ∧
      isHealthy s.pool.healthy 0 = false ∧
      (latest [(0, false)] 1 = true ∨ (1, true) ∈ ([] : List (ℕ × Bool))) := by
  have h : ∃ s, Reachable step Any (create [⟨lit "127.0.0.1", 9001⟩, ⟨lit "127.0.0.1", 9002⟩] (by decide)) s ∧
      s.verdicts = [(0, false)] ∧ s.begun = [0, 1, 1] ∧
      s.pool.calls = [.scanning 0 0, .returned (some 1), .returned (some 1)] :=
    exists_reachable [.call, .test, .probe ⟨true, true, false, .failed, fun _ => []⟩, .exchange, .call, .load 1,
      .call, .load 2, .load 2] (by decide)
  obtain ⟨s, hs, hv, hb, hc⟩ := h
  obtain ⟨hflags, -, hout, -, hcalls⟩ := verdicts_obeyed _ _ s hs
  refine ⟨s, hs, hv, hb, hc, ?_, ?_, ?_⟩
  · rw [hout, hv]
    decide
  · rw [hflags 0 (by decide), hv]
    rfl
  · exact ((hcalls 2 [] [(0, false)] hv (by rw [hb]; rfl)).1 1 (by rw [hc]; rfl)).2

end Fleet

end HttpBalancer.Balancer
