import HttpBalancer.Net.Delivery

/-! Byte strings that are one request and nothing else, and what a connection does as it reads one. -/

namespace HttpBalancer.Net

/-- The parser of a connection that has read `a` since it was accepted or its parser reset. -/
def reading (a : Bytes) : HttpParser := ((Parser.fresh : HttpParser).consume a).1

def parsed (r : Bytes) : HttpRequest := (reading r).msg

structure IsRequest (r : Bytes) : Prop where
  complete : (reading r).state = .complete
  leftover : (reading r).buffer = []

def dispatched (log : List Action) : List HttpRequest :=
  log.filterMap fun
    | .dispatched req => some req
    | _ => none

lemma dispatched_append (l l' : List Action) : dispatched (l ++ l') = dispatched l ++ dispatched l' :=
  List.filterMap_append

lemma reading_nil : reading [] = Parser.fresh := (Parser.fresh_feed []).symm

lemma reading_append (a b : Bytes) : ((reading a).consume b).1 = reading (a ++ b) :=
  Parser.consume_incremental.state _ a b

lemma IsRequest.not_settled {a b : Bytes} (h : IsRequest (a ++ b)) (hb : b ≠ []) :
    ¬ (reading a).Settled := by
  intro hs
  have hl := h.leftover
  have hp : ((reading a).append b).Settled := hs
  have hc : ((reading a).consume b).1 = (reading a).append b := congrArg Prod.fst hp.process
  rw [reading_append] at hc
  rw [hc] at hl
  exact hb (List.append_eq_nil_iff.mp hl).2

lemma consume_reading {a : Bytes} (h : ¬ (reading a).Settled) (b : Bytes) :
    (reading a).consume b = (reading (a ++ b), (reading (a ++ b)).standing) := by
  have hs := Parser.consume_standing (fun he => h (Or.inr he)) b
  rw [reading_append] at hs
  exact Prod.ext (reading_append a b) hs

lemma IsRequest.consume {a b c : Bytes} (h : IsRequest (a ++ b ++ c)) (hb : b ≠ []) :
    (reading a).consume b = (reading (a ++ b), if c = [] then .complete else .needMoreData) := by
  have hn : ¬ (reading a).Settled := by
    rw [List.append_assoc] at h
    exact h.not_settled (by simp [hb])
  rw [consume_reading hn]
  split_ifs with hc
  · subst hc
    rw [List.append_nil] at h
    rw [Parser.standing_eq_complete.mpr h.complete]
  · rw [Parser.standing_eq_needMoreData.mpr (h.not_settled hc)]

namespace Service

variable {S : Service} {conn : Connection}

lemma run_cons {env : S.Env} {io : ClientCalls} {events : List (S.Env × ClientCalls)}
    (h : .close ∉ rearms (S.handleEvent env io conn).2) :
    S.run conn ((env, io) :: events) = ((S.run (S.handleEvent env io conn).1 events).1,
      (S.handleEvent env io conn).2 ++ (S.run (S.handleEvent env io conn).1 events).2) := by
  rw [run, if_neg h]

lemma run_append {a b : List (S.Env × ClientCalls)} (h : .close ∉ rearms (S.run conn a).2) :
    S.run conn (a ++ b) =
      ((S.run (S.run conn a).1 b).1, (S.run conn a).2 ++ (S.run (S.run conn a).1 b).2) := by
  induction a generalizing conn with
  | nil => simp [run]
  | cons e a ih =>
    have he : .close ∉ rearms (S.handleEvent e.1 e.2 conn).2 := by
      intro hc
      rw [run, if_pos hc] at h
      exact h hc
    rw [run_cons he, rearms_append, List.mem_append] at h
    push Not at h
    rw [List.cons_append, run_cons he, ih h.2, run_cons he, List.append_assoc]

lemma run_append_of_close {a : List (S.Env × ClientCalls)} (h : .close ∈ rearms (S.run conn a).2)
    (b : List (S.Env × ClientCalls)) : S.run conn (a ++ b) = S.run conn a := by
  induction a generalizing conn with
  | nil => simp [run, rearms] at h
  | cons e a ih =>
    by_cases he : .close ∈ rearms (S.handleEvent e.1 e.2 conn).2
    · rw [List.cons_append, run, if_pos he, run, if_pos he]
    · rw [run_cons he, rearms_append, List.mem_append] at h
      rw [List.cons_append, run_cons he, ih (h.resolve_left he), run_cons he]

/-- The events lead from one connection to the other without closing it; on the way the requests
`reqs` are dispatched and the bytes `out` sent. -/
structure Passes (S : Service) (conn : Connection) (events : List (S.Env × ClientCalls))
    (conn' : Connection) (reqs : List HttpRequest) (out : Bytes) : Prop where
  leads : (S.run conn events).1 = conn'
  requests : dispatched (S.run conn events).2 = reqs
  sent : output (S.run conn events).2 = out
  stays_open : .close ∉ rearms (S.run conn events).2

lemma Passes.nil : S.Passes conn [] conn [] [] := ⟨rfl, rfl, rfl, by simp [run, rearms]⟩

lemma Passes.append {conn' conn'' : Connection} {a b : List (S.Env × ClientCalls)}
    {reqs reqs' : List HttpRequest} {out out' : Bytes} (h : S.Passes conn a conn' reqs out)
    (h' : S.Passes conn' b conn'' reqs' out') :
    S.Passes conn (a ++ b) conn'' (reqs ++ reqs') (out ++ out') := by
  obtain ⟨rfl, rfl, rfl, ho⟩ := h
  obtain ⟨rfl, rfl, rfl, ho'⟩ := h'
  have hr : S.run conn (a ++ b) = _ := run_append ho
  refine ⟨by rw [hr], by rw [hr, dispatched_append], by rw [hr, output_append], ?_⟩
  rw [hr, rearms_append, List.mem_append]
  push Not
  exact ⟨ho, ho'⟩

lemma Passes.event {env : S.Env} {io : ClientCalls} {conn' : Connection} {log : List Action}
    (h : S.handleEvent env io conn = (conn', log)) (ho : .close ∉ rearms log) :
    S.Passes conn [(env, io)] conn' (dispatched log) (output log) := by
  have hr : S.run conn [(env, io)] = (conn', log) := by
    rw [run, h]
    simp [ho, run]
  exact ⟨by rw [hr], by rw [hr], by rw [hr], by rwa [hr]⟩

end Service

end HttpBalancer.Net
