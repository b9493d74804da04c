import HttpBalancer.Balancer.Failover

/-! The checker comes round to every upstream, so what the probes say takes effect on the calls. -/

namespace HttpBalancer.Balancer

open Net Lib Transitions

def Checking.place : Checking → ℕ
  | .testing | .exited => 0
  | .sweeping i => 2 * i + 1
  | .probed i _ => 2 * i + 2

namespace Fleet

variable {us : List Upstream} {s t : Fleet} {l : Step} {j : ℕ} {ok : Bool}

structure Serving (us : List Upstream) (s : Fleet) : Prop where
  recorded : Recorded us s
  running : s.running = true
  alive : s.checker ≠ .exited

lemma Serving.step (hs : Serving us s) (hl : l ≠ .stop) (h : s.step l = some t) : Serving us t := by
  refine ⟨hs.recorded.step h, ?_, ?_⟩
  · cases step_moves h with
    | stop => exact absurd rfl hl
    | test | probe | exchange | sleep | call | load => exact hs.running
  · cases step_moves h with
    | test => simp [hs.running]
    | probe | exchange | sleep => simp [exchange]
    | stop => exact absurd rfl hl
    | call | load => exact hs.alive

def refused : ProbeCalls := ⟨true, true, false, .failed, fun _ => []⟩

def nextCheck (io : ProbeCalls) (s : Fleet) : Step :=
  match s.checker with
  | .testing => .test
  | .sweeping i => if i < s.upstreams.length then .probe io else .sleep
  | .probed _ _ => .exchange
  | .exited => .stop

lemma Serving.enabled (hs : Serving us s) (io : ProbeCalls) :
    (s.nextCheck io).Checks ∧ (s.step (s.nextCheck io)).isSome := by
  cases hc : s.checker with
  | testing => simp [nextCheck, hc, Step.Checks, Fleet.step]
  | sweeping i => by_cases hi : i < s.upstreams.length <;> simp [nextCheck, hc, hi, Step.Checks, Fleet.step]
  | probed i ok => simp [nextCheck, hc, Step.Checks, Fleet.step]
  | exited => exact absurd hc hs.alive

lemma Serving.advances (hs : Serving us s) (hl : l.Checks) (h : s.step l = some t) :
    t.checker.place = s.checker.place + 1 ∨ s.checker.place = 2 * us.length + 1 ∧ t.checker.place = 0 := by
  cases step_moves h with
  | test hc => simp [hc, hs.running, Checking.place]
  | probe io i hc hi => simp [hc, Checking.place]
  | exchange i ok hc =>
    rw [hc]
    exact Or.inl (by simp [exchange, Checking.place]; omega)
  | sleep i hc hi =>
    have hw := hs.recorded.within
    rw [hc, Checking.index] at hw
    rw [hc, le_antisymm hw (hs.recorded.upstreams ▸ hi)]
    exact Or.inr ⟨rfl, rfl⟩
  | stop | call | load => exact hl.elim

lemma checker_of_not_checks (hl : ¬ l.Checks) (h : s.step l = some t) : t.checker = s.checker := by
  cases step_moves h with
  | test | probe | exchange | sleep => exact absurd trivial hl
  | stop | call | load => rfl

/-- The checker's steps until it is going to probe upstream `j`. -/
def ahead (us : List Upstream) (j : ℕ) (s : Fleet) : ℕ :=
  if s.checker.place ≤ 2 * j + 1 then 2 * j + 1 - s.checker.place
  else 2 * us.length + 2 + (2 * j + 1) - s.checker.place

lemma Serving.place_le (hs : Serving us s) : s.checker.place ≤ 2 * us.length + 1 := by
  have hw := hs.recorded.within
  cases hc : s.checker with
  | testing | exited => exact Nat.zero_le _
  | sweeping i =>
    rw [hc, Checking.index] at hw
    simp only [Checking.place]
    omega
  | probed i ok =>
    have hi := hs.recorded.probing i ok hc
    simp only [Checking.place]
    omega

lemma ahead_lt (hs : Serving us s) (hj : j < us.length) (hc : s.checker ≠ .sweeping j) (hl : l.Checks)
    (h : s.step l = some t) : ahead us j t < ahead us j s := by
  have hne : s.checker.place ≠ 2 * j + 1 := by
    intro he
    cases hd : s.checker with
    | testing | exited => simp [hd, Checking.place] at he
    | sweeping i =>
      simp only [hd, Checking.place] at he
      exact hc (hd.trans (congrArg Checking.sweeping (by omega)))
    | probed i ok =>
      simp only [hd, Checking.place] at he
      omega
  have hle := hs.place_le
  have ha := hs.advances hl h
  simp only [ahead]
  split_ifs <;> omega

def Agrees (j : ℕ) (ok : Bool) (s : Fleet) (l : Step) : Prop :=
  ∀ io, l = .probe io → s.checker = .sweeping j → probeOnce io = ok

structure Settled (j : ℕ) (ok : Bool) (s : Fleet) : Prop where
  flag : isHealthy s.pool.healthy j = ok
  pending : s.checker ≠ .probed j (!ok)

lemma Settled.step (hr : Recorded us s) (hj : j < us.length) (hs : Settled j ok s) (ha : s.Agrees j ok l)
    (h : s.step l = some t) : Settled j ok t := by
  obtain ⟨hf, hp⟩ := hs
  cases step_moves h with
  | test => exact ⟨hf, by cases s.running <;> simp⟩
  | probe io i hc hi =>
    refine ⟨hf, fun he => ?_⟩
    obtain ⟨rfl, he⟩ : i = j ∧ probeOnce io = !ok := by simpa using he
    rw [ha io rfl hc] at he
    cases ok <;> cases he
  | exchange i ok' hc =>
    refine ⟨?_, by simp [exchange]⟩
    rw [exchange, isHealthy_store _ _ (hr.size.symm ▸ hj), hf]
    split_ifs with hij
    · subst hij
      by_contra hne
      exact hp (hc.trans (by rw [Bool.eq_not_of_ne hne]))
    · rfl
  | sleep => exact ⟨hf, by simp⟩
  | stop => exact ⟨hf, hp⟩
  | call => exact ⟨by rw [pickNext_healthy, hf], hp⟩
  | load => exact ⟨hf, hp⟩

lemma Agrees.probed (hr : Recorded us s) (hj : j < us.length) (hc : s.checker = .sweeping j)
    (ha : s.Agrees j ok l) (hl : l.Checks) (h : s.step l = some t) : t.checker = .probed j ok := by
  cases step_moves h with
  | test hc' => simp [hc] at hc'
  | probe io i hc' _ =>
    obtain rfl : j = i := by simpa [hc] using hc'
    rw [ha io rfl hc]
  | exchange i ok' hc' => simp [hc] at hc'
  | sleep i hc' hi =>
    obtain rfl : j = i := by simpa [hc] using hc'
    rw [hr.upstreams] at hi
    omega
  | stop | call | load => exact hl.elim

lemma exchange_of_probed (hc : s.checker = .probed j ok) (hl : l.Checks) (h : s.step l = some t) :
    t = s.exchange j ok := by
  cases step_moves h with
  | test hc' | probe _ _ hc' _ | sleep _ hc' _ => simp [hc] at hc'
  | exchange i ok' hc' =>
    obtain ⟨rfl, rfl⟩ : j = i ∧ ok = ok' := by simpa [hc] using hc'
    rfl
  | stop | call | load => exact hl.elim

lemma settled_exchange (hr : Recorded us s) (hj : j < us.length) : Settled j ok (s.exchange j ok) :=
  ⟨by rw [exchange, isHealthy_store _ _ (hr.size.symm ▸ hj), if_pos rfl], by simp [exchange]⟩

end Fleet

/-- A call all of whose loads found the flag of upstream `j` to be `ok`. -/
def Call.Heeds (n j : ℕ) (ok : Bool) : Call → Prop
  | .scanning start i => i < n ∧ (ok = true → ∀ k < i, (start + k) % n ≠ j)
  | .returned (some x) => ok = false → x ≠ j
  | .returned none => ok = false

lemma Call.load_heeds {healthy : List Bool} {j : ℕ} {ok : Bool} {c d : Call} (hj : j < healthy.length)
    (hf : isHealthy healthy j = ok) (hc : c.Heeds healthy.length j ok) (h : c.load healthy = some d) :
    d.Heeds healthy.length j ok := by
  cases c with
  | returned r => simp [Call.load] at h
  | scanning start i =>
    obtain ⟨hi, hk⟩ := hc
    have hall : isHealthy healthy ((start + i) % healthy.length) = false → ok = true →
        ∀ k < i + 1, (start + k) % healthy.length ≠ j := by
      intro hm hok k hk' he
      rcases Nat.lt_succ_iff_lt_or_eq.mp hk' with hk' | rfl
      · exact hk hok k hk' he
      · rw [he, hf, hok] at hm
        cases hm
    simp only [Call.load] at h
    split_ifs at h with hh hl
    · cases h
      intro hok he
      rw [he, hf, hok] at hh
      cases hh
    · cases h
      exact ⟨hl, hall (by simpa using hh)⟩
    · cases h
      change ok = false
      by_contra hok
      obtain ⟨k, hk, he⟩ := Cyclic.exists_shift hj start
      exact hall (by simpa using hh) (by simpa using hok) k (by omega) he

namespace Fleet

variable {us : List Upstream} {s t : Fleet} {l : Step} {j : ℕ} {ok : Bool}

def Heeded (us : List Upstream) (j : ℕ) (ok : Bool) (k : ℕ) (s : Fleet) : Prop :=
  k ≤ s.pool.calls.length ∧
    ∀ (c : ℕ) (call : Call), k ≤ c → s.pool.calls[c]? = some call → call.Heeds us.length j ok

lemma Heeded.step {k : ℕ} (hr : Recorded us s) (hj : j < us.length) (hf : isHealthy s.pool.healthy j = ok)
    (hs : Heeded us j ok k s) (h : s.step l = some t) : Heeded us j ok k t := by
  obtain ⟨hk, hcalls⟩ := hs
  cases step_moves h with
  | test | probe | exchange | sleep | stop => exact ⟨hk, hcalls⟩
  | call =>
    have hn : s.pool.healthy.length ≠ 0 := by rw [hr.size]; omega
    rw [UpstreamPool.pickNext, if_neg hn]
    refine ⟨by simp; omega, fun c call hc hcc => ?_⟩
    rw [List.getElem?_append] at hcc
    split_ifs at hcc with hl
    · exact hcalls c call hc hcc
    · obtain ⟨-, rfl⟩ : _ ∧ Call.scanning _ 0 = call := by simpa [List.getElem?_singleton] using hcc
      exact ⟨by omega, by simp⟩
  | load c call d hc hd =>
    refine ⟨by simpa using hk, fun c' call' hc' hcc => ?_⟩
    by_cases hcc' : c = c'
    · subst hcc'
      obtain rfl : d = call' := by
        have hl := (List.getElem?_eq_some_iff.mp hc).1
        simpa [List.getElem?_set, hl] using hcc
      have hheeds := hcalls c call hc' hc
      rw [← hr.size] at hheeds ⊢
      exact Call.load_heeds (hr.size ▸ hj) hf hheeds hd
    · rw [List.getElem?_set_ne hcc'] at hcc
      exact hcalls c' call' hc' hcc

section Runs

variable {init : Fleet} {r : Run step Any init}

lemma serving_run (hi : Serving us init) (hstop : ∀ m, r.label m ≠ .stop) (m : ℕ) : Serving us (r.state m) := by
  induction m with
  | zero => exact r.start.symm ▸ hi
  | succ m ih => exact ih.step (hstop m) (r.next m)

lemma probe_leadsTo (hf : r.WeaklyFair Step.Checks) (hstop : ∀ m, r.label m ≠ .stop)
    (hj : j < us.length) : r.LeadsTo (Serving us) fun s => s.checker = .sweeping j := by
  refine Run.leadsTo_of_helpful (A := fun _ : Unit => Step.Checks) (fun _ => hf) (fun _ => ()) (ahead us j)
    (fun n hs => Or.inr ⟨_, hs.enabled refused⟩) fun n hs => ?_
  by_cases hc : (r.state n).checker = .sweeping j
  · exact Or.inl hc
  · refine Or.inr ⟨hs.step (hstop n) (r.next n), ?_⟩
    by_cases hl : (r.label n).Checks
    · exact Or.inl (ahead_lt hs hj hc hl (r.next n))
    · refine Or.inr ⟨?_, rfl, hl⟩
      rw [ahead, checker_of_not_checks hl (r.next n), ahead]

def Nearly (us : List Upstream) (j : ℕ) (ok : Bool) (s : Fleet) : Prop :=
  Serving us s ∧ (s.checker = .sweeping j ∨ s.checker = .probed j ok ∨ Settled j ok s)

def stages (j : ℕ) (ok : Bool) (s : Fleet) : ℕ :=
  if s.checker = .sweeping j then 2 else if s.checker = .probed j ok then 1 else 0

lemma store_leadsTo (hf : r.WeaklyFair Step.Checks) (hstop : ∀ m, r.label m ≠ .stop)
    (ha : ∀ m, (r.state m).Agrees j ok (r.label m)) (hj : j < us.length) :
    r.LeadsTo (Nearly us j ok) (Settled j ok) := by
  refine Run.leadsTo_of_helpful (A := fun _ : Unit => Step.Checks) (fun _ => hf) (fun _ => ()) (stages j ok)
    (fun n hs => Or.inr ⟨_, hs.1.enabled refused⟩) fun n hs => ?_
  obtain ⟨hs, hc | hc | hc⟩ := hs
  · refine Or.inr ?_
    have hnext := hs.step (hstop n) (r.next n)
    by_cases hl : (r.label n).Checks
    · have hp := (ha n).probed hs.recorded hj hc hl (r.next n)
      exact ⟨⟨hnext, Or.inr (Or.inl hp)⟩, Or.inl (by simp [stages, hp, hc])⟩
    · have hk := checker_of_not_checks hl (r.next n)
      exact ⟨⟨hnext, Or.inl (hk.trans hc)⟩, Or.inr ⟨by rw [stages, stages, hk], rfl, hl⟩⟩
  · refine Or.inr ?_
    have hnext := hs.step (hstop n) (r.next n)
    by_cases hl : (r.label n).Checks
    · have he := exchange_of_probed hc hl (r.next n)
      refine ⟨⟨hnext, Or.inr (Or.inr ?_)⟩, Or.inl ?_⟩
      · rw [he]
        exact settled_exchange hs.recorded hj
      · simp [he, stages, hc, exchange]
    · have hk := checker_of_not_checks hl (r.next n)
      exact ⟨⟨hnext, Or.inr (Or.inl (hk.trans hc))⟩, Or.inr ⟨by rw [stages, stages, hk], rfl, hl⟩⟩
  · exact Or.inl hc

lemma heeded_run (hi : Serving us init) (hstop : ∀ m, r.label m ≠ .stop)
    (ha : ∀ m, (r.state m).Agrees j ok (r.label m)) (hj : j < us.length) {k n : ℕ} (hn : k ≤ n)
    (hk : Settled j ok (r.state k)) :
    Settled j ok (r.state n) ∧ Heeded us j ok (r.state k).pool.calls.length (r.state n) := by
  induction n, hn using Nat.le_induction with
  | base =>
    refine ⟨hk, le_rfl, fun c call hc hcc => ?_⟩
    rw [List.getElem?_eq_none hc] at hcc
    cases hcc
  | succ n _ ih =>
    have hr := (serving_run hi hstop n).recorded
    exact ⟨ih.1.step hr hj (ha n) (r.next n), ih.2.step hr hj ih.1.flag (r.next n)⟩

end Runs

lemma create_serving (us : List Upstream) (h : us.length < 2 ^ 61) : Serving us (create us h) :=
  ⟨create_recorded us h, rfl, by simp [create]⟩

/-- When from some moment on every probe of an upstream ends the same way, its flag says so for good from
some later moment on. A call that begins then is not given an upstream that is down, and if the upstream
is up the call is given one. -/
theorem outages_noticed (us : List Upstream) (h : us.length < 2 ^ 61) (r : Run step Any (create us h))
    (hf : r.WeaklyFair Step.Checks) (hstop : ∀ m, r.label m ≠ .stop) (j : ℕ) (hj : j < us.length) (ok : Bool)
    (k : ℕ) (ha : ∀ m, k ≤ m → (r.state m).Agrees j ok (r.label m)) :
    ∃ n, k ≤ n ∧ ∀ m, n ≤ m → isHealthy (r.state m).pool.healthy j = ok ∧
      ∀ c call, (r.state n).pool.calls.length ≤ c → (r.state m).pool.calls[c]? = some call →
        (ok = false → call ≠ .returned (some j)) ∧ (ok = true → call ≠ .returned none) := by
  have hserving := serving_run (create_serving us h) hstop
  have hstop' : ∀ m, (r.drop k).label m ≠ .stop := fun m => hstop (k + m)
  have ha' : ∀ m, ((r.drop k).state m).Agrees j ok ((r.drop k).label m) := fun m => ha (k + m) (by omega)
  have hprobe := probe_leadsTo (hf.drop k) hstop' hj
  have hstore := store_leadsTo (hf.drop k) hstop' ha' hj
  obtain ⟨a, -, hc⟩ := hprobe 0 (hserving k)
  obtain ⟨b, -, hb⟩ := hstore a ⟨hserving (k + a), Or.inl hc⟩
  refine ⟨k + b, Nat.le_add_right k b, fun m hm => ?_⟩
  obtain ⟨d, rfl⟩ := Nat.exists_eq_add_of_le (le_trans (Nat.le_add_right k b) hm)
  obtain ⟨hset, -, hcalls⟩ := heeded_run (r := r.drop k) (hserving k) hstop' ha' hj
    (Nat.le_of_add_le_add_left hm) hb
  refine ⟨hset.flag, fun c call hle hcc => ?_⟩
  have hheeds := hcalls c call hle hcc
  refine ⟨?_, ?_⟩
  · rintro hok rfl
    exact hheeds hok rfl
  · rintro hok rfl
    rw [hok] at hheeds
    cases hheeds

def turn (io : ProbeCalls) (n : ℕ) (s : Fleet) : Step := if n % 2 = 0 then s.nextCheck io else .call

def driven (io : ProbeCalls) (init : Fleet) : ℕ → Fleet
  | 0 => init
  | n + 1 => ((driven io init n).step (turn io n (driven io init n))).getD (driven io init n)

lemma Serving.turn_enabled (hs : Serving us s) (io : ProbeCalls) (n : ℕ) :
    turn io n s ≠ .stop ∧ (s.step (turn io n s)).isSome := by
  obtain ⟨hl, he⟩ := hs.enabled io
  rw [turn]
  split_ifs with hn
  · exact ⟨fun h => by simp [h, Step.Checks] at hl, he⟩
  · exact ⟨by simp, rfl⟩

lemma turn_probe {io io' : ProbeCalls} {n : ℕ} (h : turn io n s = .probe io') : io' = io := by
  rw [turn] at h
  split_ifs at h
  rw [nextCheck] at h
  split at h
  · cases h
  · split_ifs at h
    cases h
    rfl
  · cases h
  · cases h

lemma exists_fair (us : List Upstream) (h : us.length < 2 ^ 61) (io : ProbeCalls) :
    ∃ r : Run step Any (create us h), r.WeaklyFair Step.Checks ∧ (∀ m, r.label m ≠ .stop) ∧
      (∀ m, r.label (2 * m + 1) = .call) ∧ ∀ m io', r.label m = .probe io' → io' = io := by
  have hnext : ∀ n, Serving us (driven io (create us h) n) →
      (driven io (create us h) n).step (turn io n (driven io (create us h) n)) =
        some (driven io (create us h) (n + 1)) := by
    intro n hs
    obtain ⟨t, ht⟩ := Option.isSome_iff_exists.mp (hs.turn_enabled io n).2
    rw [driven, ht]
    rfl
  have hs : ∀ n, Serving us (driven io (create us h) n) := by
    intro n
    induction n with
    | zero => exact create_serving us h
    | succ n ih => exact ih.step (ih.turn_enabled io n).1 (hnext n ih)
  obtain ⟨r, hstate, hlabel⟩ : ∃ r : Run step Any (create us h), r.state = driven io (create us h) ∧
      r.label = fun n => turn io n (driven io (create us h) n) :=
    ⟨⟨_, _, rfl, fun _ => trivial, fun n => hnext n (hs n)⟩, rfl, rfl⟩
  refine ⟨r, fun n _ => ⟨2 * n, by omega, ?_⟩, fun m => ?_, fun m => ?_, fun m io' hm => ?_⟩
  · rw [hlabel]
    simpa [turn] using ((hs (2 * n)).enabled io).1
  · rw [hlabel]
    exact ((hs m).turn_enabled io m).1
  · rw [hlabel]
    simp [turn, Nat.add_mod]
  · rw [hlabel] at hm
    exact turn_probe hm

theorem outages_noticed_refused :
    ∃ r : Run step Any (create [⟨lit "127.0.0.1", 9001⟩, ⟨lit "127.0.0.1", 9002⟩] (by decide)),
      (∀ m, r.label (2 * m + 1) = .call) ∧ (∀ m io, r.label m = .probe io → io = refused) ∧
      ∃ n, ∀ m, n ≤ m → isHealthy (r.state m).pool.healthy 1 = false ∧
        ∀ c call, (r.state n).pool.calls.length ≤ c → (r.state m).pool.calls[c]? = some call →
          call ≠ .returned (some 1) := by
  obtain ⟨r, hf, hstop, hcall, hio⟩ :=
    exists_fair [⟨lit "127.0.0.1", 9001⟩, ⟨lit "127.0.0.1", 9002⟩] (by decide)
    refused
  have hagrees : ∀ m, 0 ≤ m → (r.state m).Agrees 1 false (r.label m) := by
    intro m _ io hl _
    rw [hio m io hl]
    rfl
  obtain ⟨n, -, hn⟩ := outages_noticed _ _ r hf hstop 1 (by decide) false 0 hagrees
  exact ⟨r, hcall, hio, n, fun m hm => ⟨(hn m hm).1, fun c call hle hc => ((hn m hm).2 c call hle hc).1 rfl⟩⟩

end Fleet

end HttpBalancer.Balancer
