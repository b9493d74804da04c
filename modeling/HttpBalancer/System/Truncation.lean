import HttpBalancer.Balancer.LoadBalancer
import HttpBalancer.Net.Requests
import HttpBalancer.Server.HttpServer

/-! Responses that are cut short. After a hard error of `send` the rest of a response is dropped as
undeliverable and the connection goes on as if it had been written; nothing but the socket itself keeps
a later response from following the torso. -/

namespace HttpBalancer.Net

def SendResult.isHard : SendResult → Bool
  | .failed | .sent 0 => true
  | _ => false

def SendResult.accepts : SendResult → Bool
  | .sent (_ + 1) => true
  | _ => false

def Permanent (sends : List SendResult) : Prop :=
  sends.Pairwise fun r r' => r.isHard = true → r'.accepts = false

instance : DecidablePred Permanent := fun sends =>
  inferInstanceAs (Decidable (sends.Pairwise fun r r' => r.isHard = true → r'.accepts = false))

lemma noHardError_iff {sends : List SendResult} :
    NoHardError sends ↔ ∀ r ∈ sends, r.isHard = false := by
  apply forall₂_congr
  intro r _
  cases r with
  | sent n => cases n <;> simp [SendResult.isHard]
  | again | failed => simp [SendResult.isHard]

namespace Connection

lemma taken_le (c : Connection) (sends : List SendResult) :
    (c.flushWrite sends).taken <+: c.unsent := by
  induction c, sends using flush_induction with
  | done | full | error => exact List.nil_prefix
  | more c n sends f _ _ ih =>
    rw [unsent_advance] at ih
    nth_rewrite 2 [← List.take_append_drop (n + 1) c.unsent]
    exact (List.prefix_append_right_inj _).mpr ih

lemma taken_eq_nil (c : Connection) {sends : List SendResult} (h : ∀ r ∈ sends, r.accepts = false) :
    (c.flushWrite sends).taken = [] := by
  induction c, sends using flush_induction with
  | done | full | error => rfl
  | more c n sends f _ _ _ => simpa [SendResult.accepts] using h (.sent (n + 1)) (by simp)

end Connection

lemma le_append_cases {l a b : List Action} (h : l <+: a ++ b) :
    l <+: a ∨ ∃ l', l = a ++ l' ∧ l' <+: b := by
  rcases List.prefix_or_prefix_of_prefix h (List.prefix_append a b) with hl | ⟨l', rfl⟩
  · exact Or.inl hl
  · exact Or.inr ⟨l', rfl, (List.prefix_append_right_inj a).mp h⟩

lemma output_nil_of_le {l l' : List Action} (h : l <+: l') (hl : output l' = []) : output l = [] := by
  obtain ⟨t, rfl⟩ := h
  rw [output_append] at hl
  exact (List.append_eq_nil_iff.mp hl).1

lemma le_accepted (pre : List Action) {u data : Bytes} {post l : List Action} (hpre : output pre = [])
    (hpost : output post = []) (h : data <+: u ++ (responses pre).flatten)
    (hl : l <+: pre ++ .accepted data :: post) : output l <+: u ++ (responses l).flatten := by
  rcases le_append_cases hl with hl' | ⟨l', rfl, hl'⟩
  · rw [output_nil_of_le hl' hpre]
    exact List.nil_prefix
  · rcases List.prefix_cons_iff.mp hl' with rfl | ⟨l'', rfl, hl''⟩
    · rw [List.append_nil, hpre]
      exact List.nil_prefix
    · have ho : output (pre ++ .accepted data :: l'') = data := by
        rw [output_append, hpre, List.nil_append]
        have hn := output_nil_of_le hl'' hpost
        simp only [output] at hn ⊢
        rw [List.flatMap_cons, hn, List.append_nil]
      rw [ho, responses_append, List.flatten_append, ← List.append_assoc]
      exact h.trans (List.prefix_append _ _)

namespace Service

variable {S : Service} {conn : Connection}

lemma answer_taken_le {c : Connection} (hc : c.unsent = []) (a : Answer) (sends : List SendResult) :
    ((c.answer a).flushWrite sends).taken <+: a.data := by
  have hh := (c.answer a).taken_le sends
  rwa [unsent_answer, hc, List.nil_append] at hh

lemma handleEvent_output (conn : Connection) (env : S.Env) (io : ClientCalls) :
    ∀ l, l <+: (S.handleEvent env io conn).2 → output l <+: conn.unsent ++ (responses l).flatten := by
  refine handleEvent_cases (motive := fun r => ∀ l, l <+: r.2 →
    output l <+: conn.unsent ++ (responses l).flatten) ?_ ?_ ?_ ?_ ?_
  · intro _ l hl
    have ht : (conn.flushWrite io.sends).taken <+: conn.unsent ++ (responses []).flatten := by
      simpa [responses] using conn.taken_le io.sends
    rw [handlePending_eq] at hl
    exact le_accepted [] rfl rfl ht hl
  · intro _ a l hl
    rw [output_nil_of_le hl rfl]
    exact List.nil_prefix
  · intro _ data _ l hl
    rw [output_nil_of_le hl rfl]
    exact List.nil_prefix
  · intro hu data _ c hc l hl
    have ht := answer_taken_le (c := c) (hc ▸ hu) ⟨badRequest.serialize, false⟩ io.sends
    refine le_accepted [.consumed data conn.parser.state false .error, .queued badRequest.serialize]
      rfl rfl ?_ hl
    simpa [responses, hu] using ht
  · intro hu data _ c hc l hl
    have ht := answer_taken_le (c := c) (hc ▸ hu) (S.answer env c.parser.msg) io.sends
    rw [handleComplete_eq env io rfl] at hl
    refine le_accepted [.consumed data conn.parser.state false .complete, .dispatched c.parser.msg,
      .queued (S.answer env c.parser.msg).data] rfl rfl ?_ hl
    simpa [responses, hu] using ht

lemma handleEvent_silent (conn : Connection) (env : S.Env) {io : ClientCalls}
    (h : ∀ r ∈ io.sends, r.accepts = false) : output (S.handleEvent env io conn).2 = [] := by
  refine handleEvent_cases (motive := fun r => output r.2 = []) ?_ ?_ ?_ ?_ ?_
  · intro _
    rw [handlePending_eq]
    simpa [output] using conn.taken_eq_nil h
  · intro _ a
    rfl
  · intro _ data _
    rfl
  · intro _ data _ c _
    simpa [handleError, output] using Connection.taken_eq_nil _ h
  · intro _ data _ c _
    rw [handleComplete_eq env io rfl]
    simpa [output] using Connection.taken_eq_nil _ h

lemma run_silent {events : List (S.Env × ClientCalls)}
    (h : ∀ e ∈ events, ∀ r ∈ e.2.sends, r.accepts = false) : output (S.run conn events).2 = [] := by
  induction events generalizing conn with
  | nil => rfl
  | cons e events ih =>
    have he := handleEvent_silent conn e.1 (h e (by simp))
    simp only [run]
    split_ifs
    · exact he
    · dsimp only
      rw [output_append, he, ih fun e' he' => h e' (by simp [he'])]
      rfl

lemma run_output {events : List (S.Env × ClientCalls)}
    (h : Permanent (events.flatMap fun e => e.2.sends)) :
    ∀ l, l <+: (S.run conn events).2 → output l <+: conn.unsent ++ (responses l).flatten := by
  induction events generalizing conn with
  | nil =>
    intro l hl
    rw [output_nil_of_le hl rfl]
    exact List.nil_prefix
  | cons e events ih =>
    rw [Permanent, List.flatMap_cons, List.pairwise_append] at h
    obtain ⟨-, hlater, hcross⟩ := h
    have hev := handleEvent_output conn e.1 e.2
    intro l hl
    simp only [run] at hl
    split_ifs at hl with hc
    · exact hev l hl
    · rcases le_append_cases hl with hl' | ⟨l', rfl, hl'⟩
      · exact hev l hl'
      · by_cases hs : NoHardError e.2.sends
        · have hcons := handleEvent_conserved conn e.1 hs
          have hh := ih hlater l' hl'
          rw [output_append, responses_append, List.flatten_append, ← List.append_assoc, hcons,
            List.append_assoc]
          exact (List.prefix_append_right_inj _).mpr hh
        · -- the response is cut short here, and no later byte is accepted
          have hsilent : output l' = [] := by
            refine output_nil_of_le hl' (run_silent ?_)
            intro e' he' r hr
            rw [noHardError_iff] at hs
            push Not at hs
            obtain ⟨r', hr', hhard⟩ := hs
            exact hcross r' hr' r (List.mem_flatMap.mpr ⟨e', he', hr⟩) (by simpa using hhard)
          rw [output_append, hsilent, List.append_nil, responses_append, List.flatten_append,
            ← List.append_assoc]
          exact (hev _ List.prefix_rfl).trans (List.prefix_append _ _)

lemma silent_after_cut {events : List (S.Env × ClientCalls)} (h : Permanent (events.flatMap fun e => e.2.sends))
    {pre post : List (S.Env × ClientCalls)} {e : S.Env × ClientCalls} (he : events = pre ++ e :: post)
    (hs : ¬ NoHardError e.2.sends) : output (S.run conn events).2 = output (S.run conn (pre ++ [e])).2 := by
  rw [noHardError_iff] at hs
  push Not at hs
  obtain ⟨r, hr, hhard⟩ := hs
  have hsplit : events = (pre ++ [e]) ++ post := by rw [he, List.append_assoc, List.singleton_append]
  have hpost : ∀ e' ∈ post, ∀ r' ∈ e'.2.sends, r'.accepts = false := by
    intro e' he' r' hr'
    rw [Permanent, hsplit, List.flatMap_append, List.flatMap_append, List.pairwise_append] at h
    exact h.2.2 r (by simp [hr]) r' (List.mem_flatMap.mpr ⟨e', he', hr'⟩) (by simpa using hhard)
  rw [hsplit]
  by_cases hc : .close ∈ rearms (S.run conn (pre ++ [e])).2
  · rw [run_append_of_close hc]
  · rw [run_append hc, output_append, run_silent hpost, List.append_nil]

end Service

end HttpBalancer.Net

namespace HttpBalancer.System

open Net Server Balancer

theorem output_prefix_of_responses (router : Router) :
    (∀ events : List (Unit × ClientCalls),
      Permanent (events.flatMap fun e => e.2.sends) →
      (∀ l, l <+: ((httpServer router).run .fresh events).2 → output l <+: (responses l).flatten) ∧
      ∀ pre e post, events = pre ++ e :: post → ¬ NoHardError e.2.sends →
        output ((httpServer router).run .fresh events).2 =
          output ((httpServer router).run .fresh (pre ++ [e])).2) ∧
    (∀ events : List (UpstreamCalls × ClientCalls),
      Permanent (events.flatMap fun e => e.2.sends) →
      (∀ l, l <+: (loadBalancer.run .fresh events).2 → output l <+: (responses l).flatten) ∧
      ∀ pre e post, events = pre ++ e :: post → ¬ NoHardError e.2.sends →
        output (loadBalancer.run .fresh events).2 = output (loadBalancer.run .fresh (pre ++ [e])).2) := by
  refine ⟨fun events h => ⟨?_, fun pre e post he hs => ?_⟩, fun events h => ⟨?_, fun pre e post he hs => ?_⟩⟩
  · exact Service.run_output (S := httpServer router) h
  · exact Service.silent_after_cut (S := httpServer router) h he hs
  · exact Service.run_output (S := loadBalancer) h
  · exact Service.silent_after_cut (S := loadBalancer) h he hs

theorem output_prefix_of_responses_broken :
    let ping := lit "GET /health HTTP/1.1\r\n\r\n"
    let first : List (Unit × ClientCalls) := [((), ⟨.received ping, [.sent 1000]⟩)]
    let cut : Unit × ClientCalls := ((), ⟨.received ping, [.sent 20, .failed]⟩)
    let last : Unit × ClientCalls := ((), ⟨.received ping, [.failed]⟩)
    let log := fun events => ((httpServer (routes 8080)).run .fresh events).2
    (responses (log (first ++ cut :: [last]))).length = 3 ∧
      output (log (first ++ cut :: [last])) <+: (responses (log (first ++ cut :: [last]))).flatten ∧
      output (log (first ++ cut :: [last])) = output (log (first ++ [cut])) := by
  intro ping first cut last log
  obtain ⟨hp, hs⟩ := (output_prefix_of_responses (routes 8080)).1 (first ++ cut :: [last]) (by decide)
  exact ⟨by decide +kernel, hp _ List.prefix_rfl, hs first cut [last] rfl (by decide)⟩

theorem response_follows_torso :
    let ping := lit "GET /health HTTP/1.1\r\n\r\n"
    let log := ((httpServer (routes 8080)).run .fresh
      [((), ⟨.received ping, [.sent 20, .failed]⟩), ((), ⟨.received ping, [.sent 1000]⟩)]).2
    output log = (((routes 8080).response (parsed ping)).serialize).take 20 ++
        ((routes 8080).response (parsed ping)).serialize ∧ ¬ output log <+: (responses log).flatten := by
  decide +kernel

end HttpBalancer.System
