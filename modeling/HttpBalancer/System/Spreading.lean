import HttpBalancer.Balancer.Failover
import HttpBalancer.Balancer.RoundRobin
import HttpBalancer.System.Histories

/-! The load balancer as a whole: the threads that serve its clients, the health checker, and the calls of
`pickNext` the workers make for the requests they forward. -/

namespace HttpBalancer.System

open Net Balancer Lib

namespace Recorded

variable {S : Service}

def handled (r : Recorded S) (i : ℕ) : Option Entry := r.st.running[i]?.bind fun w => r.st.connections w.task.fd

def outcome (r : Recorded S) (i : ℕ) (env : S.Env) (io : ClientCalls) : Option (ConnId × HttpRequest) :=
  (r.handled i).bind fun e => (dispatched (S.handleEvent env io e.conn).2).head?.map fun req => (e.id, req)

def plain (r : Recorded S) : Label S → Bool
  | .finish i env io => (r.outcome i env io).isNone
  | _ => true

variable {setup : Setup} {r r' : Recorded S} {i : ℕ} {env : S.Env} {io : ClientCalls} {e : Entry}

lemma dispatched_handleEvent (env : S.Env) (io : ClientCalls) (conn : Connection) :
    dispatched (S.handleEvent env io conn).2 = (dispatched (S.handleEvent env io conn).2).head?.toList := by
  refine Service.handleEvent_cases (motive := fun r => dispatched r.2 = (dispatched r.2).head?.toList)
    (fun _ => ?_) (fun _ a => rfl) (fun _ data _ => rfl) (fun _ data _ c _ => rfl) (fun _ data _ c _ => ?_)
  · rw [Service.handlePending_eq]
    rfl
  · rw [Service.handleComplete_eq env io rfl]
    rfl

lemma log_finish (h : r.step setup (.finish i env io) = some r') : ∃ e, r.handled i = some e ∧
    r'.log = Function.update r.log e.id (r.log e.id ++ (S.handleEvent env io e.conn).2) := by
  obtain ⟨st', hm, rfl⟩ := step_state h
  cases step_moves hm with
  | finish _ _ _ w e hw he hf =>
    refine ⟨e, by rw [handled, hw, Option.bind_some, he], ?_⟩
    rw [record, hw, Option.bind_some, he]

lemma dispatched_finish (h : r.step setup (.finish i env io) = some r') (j : ConnId) :
    dispatched (r'.log j) = dispatched (r.log j) ++
      match r.outcome i env io with
      | none => []
      | some (id, req) => if id = j then [req] else [] := by
  obtain ⟨e, he, hlog⟩ := log_finish h
  have hd := dispatched_handleEvent env io e.conn
  have hj : dispatched (r'.log j) = dispatched (r.log j) ++
      if e.id = j then dispatched (S.handleEvent env io e.conn).2 else [] := by
    rw [hlog]
    split_ifs with hi
    · subst hi
      rw [Function.update_self, dispatched_append]
    · rw [Function.update_of_ne (Ne.symm hi), List.append_nil]
  rw [hj, outcome, he, Option.bind_some]
  cases hh : (dispatched (S.handleEvent env io e.conn).2).head? with
  | none =>
    rw [hh] at hd
    rw [hd]
    simp
  | some req =>
    rw [hh] at hd
    rw [hd]
    rfl

lemma dispatched_plain {l : Label S} (hl : r.plain l = true) (h : r.step setup l = some r') (j : ConnId) :
    dispatched (r'.log j) = dispatched (r.log j) := by
  cases l with
  | finish i env io =>
    rw [dispatched_finish h, Option.isNone_iff_eq_none.mp hl, List.append_nil]
  | swapRearms | applyRearm | wait | dispatch | accept | acceptDone | start =>
    obtain ⟨st', -, rfl⟩ := step_state h
    rfl

end Recorded

/-- A request a worker forwarded, with the call of `pickNext` it made for it. -/
structure Forward where
  conn : ConnId
  request : HttpRequest
  call : ℕ
  upstream : Option Upstream

structure Deployed where
  clients : Recorded loadBalancer
  fleet : Fleet
  forwards : List Forward

namespace Deployed

inductive Label
  | serve (l : System.Label loadBalancer)
  | forward (i c : ℕ) (env : UpstreamCalls) (io : ClientCalls)
  | check (l : Fleet.Step)

def initial (setup : Setup) (us : List Upstream) (h : us.length < 2 ^ 61) : Deployed :=
  ⟨.initial setup, .create us h, []⟩

def step (setup : Setup) (s : Deployed) : Label → Option Deployed
  | .serve l =>
    if s.clients.plain l then (s.clients.step setup l).map fun r => { s with clients := r } else none
  | .forward i c env io =>
    match s.clients.outcome i env io with
    | none => none
    | some (id, req) => (s.clients.step setup (.finish i env io)).map fun r =>
        { s with clients := r, forwards := s.forwards ++ [⟨id, req, c, env.pick⟩] }
  | .check l => (s.fleet.step l).map fun fleet => { s with fleet := fleet }

def given (s : Deployed) (c : ℕ) : Option (Option Upstream) :=
  match s.fleet.pool.calls[c]? with
  | some (.returned r) => some (r.bind fun j => s.fleet.upstreams[j]?)
  | _ => none

/-- A worker forwards a request to the upstream that a call of its own was given. -/
def Possible (setup : Setup) (s : Deployed) : Label → Prop
  | .serve l => Heard setup s.clients.st l
  | .forward i c env io => Heard setup s.clients.st (.finish i env io : System.Label loadBalancer) ∧
      c ∉ s.forwards.map Forward.call ∧ s.given c = some env.pick
  | .check _ => True

instance (setup : Setup) (s : Deployed) : DecidablePred (Possible setup s) := fun l =>
  match l with
  | .serve l => inferInstanceAs (Decidable (Heard setup s.clients.st l))
  | .forward i c env io => inferInstanceAs (Decidable
      (Heard setup s.clients.st (.finish i env io : System.Label loadBalancer) ∧
        c ∉ s.forwards.map Forward.call ∧ s.given c = some env.pick))
  | .check _ => inferInstanceAs (Decidable True)

variable {setup : Setup} {us : List Upstream} {s t : Deployed} {l : Label}

structure Tallied (us : List Upstream) (s : Deployed) : Prop where
  requests : ∀ i, (s.forwards.filter fun f => f.conn = i).map Forward.request = dispatched (s.clients.log i)
  distinct : (s.forwards.map Forward.call).Nodup
  returned : ∀ f ∈ s.forwards, ∃ r, s.fleet.pool.calls[f.call]? = some (.returned r) ∧
    f.upstream = r.bind fun j => us[j]?

lemma given_eq_some {c : ℕ} {pick : Option Upstream} (h : s.given c = some pick) :
    ∃ r, s.fleet.pool.calls[c]? = some (.returned r) ∧ pick = r.bind fun j => s.fleet.upstreams[j]? := by
  rw [given] at h
  split at h
  · next r hc => exact ⟨r, hc, (Option.some.inj h).symm⟩
  · cases h

lemma returned_stays {p q : Fleet} {k : Fleet.Step} {c : ℕ} {r : Option ℕ} (h : p.step k = some q)
    (hc : p.pool.calls[c]? = some (.returned r)) : q.pool.calls[c]? = some (.returned r) := by
  cases Fleet.step_moves h with
  | test | probe | exchange | sleep | stop => exact hc
  | call =>
    have hl := (List.getElem?_eq_some_iff.mp hc).1
    dsimp only
    rw [UpstreamPool.pickNext]
    split_ifs <;> exact (List.getElem?_append_left hl).trans hc
  | load c' call d hc' hd =>
    refine (List.getElem?_set_ne ?_).trans hc
    rintro rfl
    obtain rfl := Option.some.inj (hc'.symm.trans hc)
    cases hd

lemma Tallied.step (hu : s.fleet.upstreams = us) (hs : Tallied us s) (hl : Possible setup s l)
    (h : s.step setup l = some t) : Tallied us t := by
  cases l with
  | serve l =>
    simp only [Deployed.step] at h
    split_ifs at h with hp
    obtain ⟨r, hr, rfl⟩ := Option.map_eq_some_iff.mp h
    exact { hs with requests := fun i => (hs.requests i).trans (Recorded.dispatched_plain hp hr i).symm }
  | forward i c env io =>
    obtain ⟨-, hc, hg⟩ := hl
    obtain ⟨r, hr, hpick⟩ := given_eq_some hg
    simp only [Deployed.step] at h
    split at h
    · cases h
    · next id req ho =>
      obtain ⟨r', hr', rfl⟩ := Option.map_eq_some_iff.mp h
      refine ⟨fun j => ?_, ?_, ?_⟩
      · rw [Recorded.dispatched_finish hr' j, ho, ← hs.requests j, List.filter_append, List.map_append]
        by_cases hj : id = j <;> simp [hj]
      · rw [List.map_append, List.nodup_append]
        refine ⟨hs.distinct, by simp, fun a ha b hb => ?_⟩
        obtain rfl : b = c := by simpa using hb
        exact fun he => hc (he ▸ ha)
      · intro f hf
        rcases List.mem_append.mp hf with hf | hf
        · exact hs.returned f hf
        · obtain rfl := List.mem_singleton.mp hf
          exact ⟨r, hr, hu ▸ hpick⟩
  | check l =>
    obtain ⟨p, hp, rfl⟩ := Option.map_eq_some_iff.mp h
    refine { hs with returned := fun f hf => ?_ }
    obtain ⟨r, hr, hf⟩ := hs.returned f hf
    exact ⟨r, returned_stays hp hr, hf⟩

/-- The upstream the call number `c` is due to while all are up. -/
def due (n c : ℕ) : Option ℕ := Cyclic.next (isHealthy (List.replicate n true)) n c

end Deployed

end HttpBalancer.System
