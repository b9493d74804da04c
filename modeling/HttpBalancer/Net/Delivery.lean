import HttpBalancer.Net.ConnectionRuns

/-! The two byte streams of a connection. Every queued byte reaches the client once and in order, and
the first response queued answers the first request of the client's stream. -/

namespace HttpBalancer.Net

def received (log : List Action) : List Bytes :=
  log.filterMap fun
    | .consumed data _ _ _ => some data
    | _ => none

def responses (log : List Action) : List Bytes :=
  log.filterMap fun
    | .queued data => some data
    | _ => none

def output (log : List Action) : Bytes :=
  log.flatMap fun
    | .accepted data => data
    | _ => []

/-- What was sent and what waits is made of the front pieces of the responses queued, in order, and of the
whole responses where nothing was cut. -/
def Conveyed (queued : List Bytes) (out unsent : Bytes) (uncut : Prop) : Prop :=
  ∃ pieces, List.Forall₂ (· <+: ·) pieces queued ∧ out ++ unsent = pieces.flatten ∧ (uncut → pieces = queued)

lemma cut_flatten {ps qs : List Bytes} {out : Bytes} (h : List.Forall₂ (· <+: ·) ps qs)
    (ho : out <+: ps.flatten) :
    ∃ pieces : List Bytes, out = pieces.flatten ∧ ∀ p ∈ pieces, ∃ q ∈ qs, p <+: q := by
  induction h generalizing out with
  | nil => exact ⟨[], List.prefix_nil.mp ho, by simp⟩
  | @cons p q ps qs hpq _ ih =>
    rw [List.flatten_cons] at ho
    rcases List.prefix_or_prefix_of_prefix ho (List.prefix_append p _) with hp | ⟨rest, rfl⟩
    · exact ⟨[out], by simp, by simpa using Or.inl (hp.trans hpq)⟩
    · obtain ⟨pieces, rfl, hm⟩ := ih ((List.prefix_append_right_inj p).mp ho)
      refine ⟨p :: pieces, rfl, List.forall_mem_cons.mpr ⟨⟨q, by simp, hpq⟩, fun p' hp' => ?_⟩⟩
      exact (hm p' hp').imp fun _ hq => ⟨List.mem_cons_of_mem _ hq.1, hq.2⟩

lemma Conveyed.sent {queued : List Bytes} {out unsent : Bytes} {uncut : Prop}
    (h : Conveyed queued out unsent uncut) :
    ∃ pieces : List Bytes, out = pieces.flatten ∧ ∀ p ∈ pieces, ∃ q ∈ queued, p <+: q := by
  obtain ⟨pieces, hp, ho, -⟩ := h
  exact cut_flatten hp (ho ▸ List.prefix_append _ _)

lemma received_append (l l' : List Action) : received (l ++ l') = received l ++ received l' :=
  List.filterMap_append

lemma responses_append (l l' : List Action) : responses (l ++ l') = responses l ++ responses l' :=
  List.filterMap_append

lemma output_append (l l' : List Action) : output (l ++ l') = output l ++ output l' :=
  List.flatMap_append

namespace Service

variable {S : Service} {conn : Connection}

lemma unsent_answer (c : Connection) (a : Answer) : (c.answer a).unsent = c.unsent ++ a.data :=
  Connection.unsent_queueWrite _ _

lemma handleEvent_conserved (conn : Connection) (env : S.Env) {io : ClientCalls} (h : NoHardError io.sends) :
    conn.unsent ++ (responses (S.handleEvent env io conn).2).flatten =
      output (S.handleEvent env io conn).2 ++ (S.handleEvent env io conn).1.unsent := by
  refine handleEvent_cases (motive := fun r =>
    conn.unsent ++ (responses r.2).flatten = output r.2 ++ r.1.unsent) ?_ ?_ ?_ ?_ ?_
  · intro _
    have hf := conn.flush_conserved h
    rw [handlePending_eq]
    simpa [responses, output] using hf.symm
  · intro _ a
    simp [responses, output]
  · intro hu data _
    simp only [responses, output, hu]
    exact hu.symm
  · intro hu data _ c hc
    have hf := (c.answer ⟨badRequest.serialize, false⟩).flush_conserved h
    have hcu : c.unsent = [] := hc ▸ hu
    rw [unsent_answer, hcu, List.nil_append] at hf
    simp [handleError, responses, output, hu, hf]
  · intro hu data _ c hc
    have hf := (c.answer (S.answer env c.parser.msg)).flush_conserved h
    have hcu : c.unsent = [] := hc ▸ hu
    rw [unsent_answer, hcu, List.nil_append] at hf
    rw [handleComplete_eq env io rfl]
    simp [responses, output, hu, hf]

lemma run_conserved (conn : Connection) {events : List (S.Env × ClientCalls)}
    (h : ∀ e ∈ events, NoHardError e.2.sends) :
    conn.unsent ++ (responses (S.run conn events).2).flatten =
      output (S.run conn events).2 ++ (S.run conn events).1.unsent := by
  induction events generalizing conn with
  | nil => simp [run, responses, output]
  | cons e events ih =>
    have he := handleEvent_conserved conn e.1 (h e (by simp))
    have hr := ih (S.handleEvent e.1 e.2 conn).1 fun e' he' => h e' (by simp [he'])
    simp only [run]
    split_ifs
    · exact he
    · dsimp only
      rw [responses_append, output_append, List.flatten_append, ← List.append_assoc, he,
        List.append_assoc, hr, List.append_assoc]

lemma flush_splits (c : Connection) (sends : List SendResult) :
    (c.flushWrite sends).taken ++ (c.flushWrite sends).conn.unsent = c.unsent ∨
      (c.flushWrite sends).conn.unsent = [] ∧ (c.flushWrite sends).taken <+: c.unsent := by
  induction c, sends using Connection.flush_induction with
  | done c sends c' hc hc' _ _ => exact Or.inl (by simp [hc, hc'])
  | full c sends _ _ => exact Or.inl rfl
  | error c sends l _ _ => exact Or.inr ⟨c.unsent_abandon, List.nil_prefix⟩
  | more c n sends f _ _ ih =>
    rw [Connection.unsent_advance] at ih
    rcases ih with he | ⟨hu, hp⟩
    · exact Or.inl (by rw [List.append_assoc, he, List.take_append_drop])
    · refine Or.inr ⟨hu, ?_⟩
      nth_rewrite 2 [← List.take_append_drop (n + 1) c.unsent]
      exact (List.prefix_append_right_inj _).mpr hp

/-- Of each response queued a piece from its front was sent or waits in the buffer, one piece after the
other; what waits is the end of the last response. -/
def Carries (queued pieces : List Bytes) (out unsent : Bytes) : Prop :=
  List.Forall₂ (· <+: ·) pieces queued ∧ out ++ unsent = pieces.flatten ∧
    (unsent = [] ∨ ∃ ps qs m, pieces = ps ++ [m] ∧ queued = qs ++ [m] ∧ unsent <:+ m)

section Carried

variable {queued pieces : List Bytes} {out : Bytes}

lemma forall₂_concat {R : Bytes → Bytes → Prop} {ps qs : List Bytes} {p q : Bytes} :
    List.Forall₂ R (ps ++ [p]) (qs ++ [q]) ↔ List.Forall₂ R ps qs ∧ R p q := by
  rw [← List.forall₂_reverse_iff]
  simp [and_comm]

lemma Carries.flush {c : Connection} (h : Carries queued pieces out c.unsent) (sends : List SendResult) :
    ∃ pieces', Carries queued pieces' (out ++ (c.flushWrite sends).taken) (c.flushWrite sends).conn.unsent := by
  have hsplit := flush_splits c sends
  generalize (c.flushWrite sends).taken = taken at hsplit
  generalize (c.flushWrite sends).conn.unsent = unsent at hsplit
  obtain ⟨hp, ho, hl⟩ := h
  rcases hsplit with he | ⟨rfl, ht⟩
  · refine ⟨pieces, hp, by rw [List.append_assoc, he, ho], ?_⟩
    rcases hl with hu | ⟨ps, qs, m, rfl, rfl, hm⟩
    · rw [hu, List.append_eq_nil_iff] at he
      exact Or.inl he.2
    · exact Or.inr ⟨ps, qs, m, rfl, rfl, (he ▸ List.suffix_append _ _).trans hm⟩
  · rcases hl with hu | ⟨ps, qs, m, rfl, rfl, x, rfl⟩
    · rw [hu, List.prefix_nil] at ht
      exact ⟨pieces, hp, by rw [ht, List.append_nil, ← ho, hu], Or.inl rfl⟩
    · -- the rest of the last response is dropped
      rw [List.flatten_append, List.flatten_singleton, ← List.append_assoc, List.append_cancel_right_eq] at ho
      refine ⟨ps ++ [x ++ taken], forall₂_concat.mpr ⟨(forall₂_concat.mp hp).1, ?_⟩, ?_, Or.inl rfl⟩
      · exact (List.prefix_append_right_inj x).mpr ht
      · simp [ho]

lemma Carries.answer {c : Connection} (h : Carries queued pieces out c.unsent) (hc : c.unsent = []) (a : Answer)
    (sends : List SendResult) :
    ∃ pieces', Carries (queued ++ [a.data]) pieces' (out ++ ((c.answer a).flushWrite sends).taken)
      ((c.answer a).flushWrite sends).conn.unsent := by
  obtain ⟨hp, ho, -⟩ := h
  rw [hc, List.append_nil] at ho
  have hqueued : Carries (queued ++ [a.data]) (pieces ++ [a.data]) out (c.answer a).unsent := by
    refine ⟨forall₂_concat.mpr ⟨hp, List.prefix_rfl⟩, ?_, ?_⟩
    · rw [unsent_answer, hc, List.nil_append, List.flatten_append, List.flatten_singleton, ho]
    · rw [unsent_answer, hc, List.nil_append]
      exact Or.inr ⟨pieces, queued, a.data, rfl, rfl, List.suffix_rfl⟩
  exact hqueued.flush sends

lemma handleEvent_carries (env : S.Env) (io : ClientCalls) (h : Carries queued pieces out conn.unsent) :
    ∃ pieces', Carries (queued ++ responses (S.handleEvent env io conn).2) pieces'
      (out ++ output (S.handleEvent env io conn).2) (S.handleEvent env io conn).1.unsent := by
  have hsame : Carries (queued ++ []) pieces (out ++ []) conn.unsent := by
    rwa [List.append_nil, List.append_nil]
  refine handleEvent_cases (motive := fun r =>
    ∃ pieces', Carries (queued ++ responses r.2) pieces' (out ++ output r.2) r.1.unsent) ?_ ?_ ?_ ?_ ?_
  · intro _
    rw [handlePending_eq]
    simpa [responses, output] using h.flush io.sends
  · intro _ a
    exact ⟨pieces, hsame⟩
  · intro _ data _
    exact ⟨pieces, hsame⟩
  · intro hu data _ c hc
    have hcu : c.unsent = conn.unsent := hc ▸ rfl
    rw [← hcu] at h hu
    simpa [responses, output, handleError] using h.answer hu ⟨badRequest.serialize, false⟩ io.sends
  · intro hu data _ c hc
    have hcu : c.unsent = conn.unsent := hc ▸ rfl
    rw [← hcu] at h hu
    rw [handleComplete_eq env io rfl]
    simpa [responses, output] using h.answer hu (S.answer env c.parser.msg) io.sends

lemma run_carries (events : List (S.Env × ClientCalls)) (h : Carries queued pieces out conn.unsent) :
    ∃ pieces', Carries (queued ++ responses (S.run conn events).2) pieces'
      (out ++ output (S.run conn events).2) (S.run conn events).1.unsent := by
  induction events generalizing conn queued pieces out with
  | nil => exact ⟨pieces, by simpa [run, responses, output] using h⟩
  | cons e events ih =>
    obtain ⟨pieces', he⟩ := handleEvent_carries e.1 e.2 h
    rw [run]
    split_ifs
    · exact ⟨pieces', he⟩
    · rw [responses_append, output_append, ← List.append_assoc, ← List.append_assoc]
      exact ih he

lemma length_flatten_le {ps qs : List Bytes} (h : List.Forall₂ (· <+: ·) ps qs) :
    ps.flatten.length ≤ qs.flatten.length := by
  induction h with
  | nil => exact le_rfl
  | cons hpq _ ih =>
    rw [List.flatten_cons, List.flatten_cons, List.length_append, List.length_append]
    exact Nat.add_le_add hpq.length_le ih

lemma eq_of_flatten {ps qs : List Bytes} (h : List.Forall₂ (· <+: ·) ps qs) (he : ps.flatten = qs.flatten) :
    ps = qs := by
  induction h with
  | nil => rfl
  | cons hpq hps ih =>
    obtain ⟨t, rfl⟩ := hpq
    rw [List.flatten_cons, List.flatten_cons, List.append_assoc, List.append_cancel_left_eq] at he
    obtain rfl : t = [] := by
      have hle := length_flatten_le hps
      rw [he, List.length_append] at hle
      exact List.length_eq_zero_iff.mp (by omega)
    rw [ih he, List.append_nil]

end Carried

lemma run_conveyed (events : List (S.Env × ClientCalls)) :
    Conveyed (responses (S.run .fresh events).2) (output (S.run .fresh events).2)
      (S.run .fresh events).1.unsent (∀ e ∈ events, NoHardError e.2.sends) := by
  have hstart : Carries [] [] [] Connection.fresh.unsent := ⟨.nil, rfl, Or.inl rfl⟩
  obtain ⟨pieces, hp, ho, -⟩ := run_carries events hstart
  refine ⟨pieces, hp, ho, fun h => eq_of_flatten hp ?_⟩
  have hc := run_conserved (S := S) .fresh h
  exact (ho.symm.trans hc.symm : pieces.flatten = [] ++ _)

/-- A parser that has read the client's stream and the response it calls for: none yet, a 400, or the
answer to its request. -/
def Answers (S : Service) (envs : List S.Env) (p : HttpParser) : Option Bytes → Prop
  | none => ¬ p.Settled
  | some data => (p.state = .error ∧ data = badRequest.serialize) ∨
      (p.state = .complete ∧ ∃ env ∈ envs, data = (S.answer env p.msg).data)

lemma Answers.mono {envs envs' : List S.Env} {p q : HttpParser} {data : Bytes}
    (h : S.Answers envs p (some data)) (he : envs ⊆ envs') (hs : q.state = p.state)
    (hm : q.msg = p.msg) : S.Answers envs' q (some data) := by
  rcases h with ⟨h, hd⟩ | ⟨h, env, hv, hd⟩
  · exact Or.inl ⟨hs.trans h, hd⟩
  · exact Or.inr ⟨hs.trans h, env, he hv, hm ▸ hd⟩

lemma Answers.settled {envs : List S.Env} {p : HttpParser} {data : Bytes}
    (h : S.Answers envs p (some data)) : p.Settled := by
  rcases h with ⟨h, -⟩ | ⟨h, -⟩
  · exact Or.inr h
  · exact Or.inl h

lemma Answers.of_settled {envs : List S.Env} {p : HttpParser} {response : Option Bytes}
    (h : S.Answers envs p response) (hs : p.Settled) :
    ∃ data, response = some data ∧ S.Answers envs p (some data) := by
  cases response with
  | none => exact absurd hs h
  | some data => exact ⟨data, rfl, h⟩

lemma handleEvent_first (env : S.Env) (io : ClientCalls) (hu : conn.unsent = [])
    (hs : ¬ conn.parser.Settled) :
    let r := S.handleEvent env io conn
    let p := (conn.parser.feed (received r.2)).1
    (responses r.2 = [] ∧ r.1.unsent = [] ∧ r.1.parser = p ∧ ¬ p.Settled) ∨
      ∃ data, responses r.2 = [data] ∧ S.Answers [env] p (some data) := by
  have hst := fun data => Parser.consume_standing (fun he => hs (Or.inr he)) data
  refine handleEvent_cases (motive := fun r =>
    (responses r.2 = [] ∧ r.1.unsent = [] ∧ r.1.parser = (conn.parser.feed (received r.2)).1 ∧
        ¬ (conn.parser.feed (received r.2)).1.Settled) ∨
      ∃ data, responses r.2 = [data] ∧
        S.Answers [env] (conn.parser.feed (received r.2)).1 (some data)) ?_ ?_ ?_ ?_ ?_
  · exact fun hn => absurd hu hn
  · intro _ a
    exact Or.inl ⟨rfl, hu, rfl, hs⟩
  · intro _ data hc
    rw [hst, Parser.standing_eq_needMoreData] at hc
    exact Or.inl ⟨rfl, hu, rfl, hc⟩
  · intro _ data hc c _
    rw [hst, Parser.standing_eq_error] at hc
    exact Or.inr ⟨_, rfl, Or.inl ⟨hc, rfl⟩⟩
  · intro _ data hc c h
    rw [hst, Parser.standing_eq_complete] at hc
    have hp : c.parser = (conn.parser.consume data).1 := by rw [h]
    rw [handleComplete_eq env io rfl]
    exact Or.inr ⟨_, rfl, Or.inr ⟨hc, env, by simp, by rw [hp]; rfl⟩⟩

lemma run_first (events : List (S.Env × ClientCalls)) (hu : conn.unsent = [])
    (hs : ¬ conn.parser.Settled) :
    S.Answers (events.map Prod.fst) (conn.parser.feed (received (S.run conn events).2)).1
      (responses (S.run conn events).2).head? := by
  induction events generalizing conn with
  | nil => exact hs
  | cons e events ih =>
    simp only [run]
    rcases handleEvent_first e.1 e.2 hu hs with ⟨hr, hu', hp, hs'⟩ | ⟨data, hr, ha⟩
    · split_ifs
      · rw [hr]
        exact hs'
      · have hh := ih hu' (hp ▸ hs')
        dsimp only
        rw [received_append, responses_append, hr, Parser.feed_append, ← hp, List.nil_append]
        cases hd : (responses (S.run (S.handleEvent e.1 e.2 conn).1 events).2).head? with
        | none => rwa [hd] at hh
        | some data =>
          rw [hd] at hh
          exact hh.mono (List.subset_cons_self _ _) rfl rfl
    · split_ifs
      · rw [hr]
        exact ha.mono (by simp) rfl rfl
      · -- what is read after the first answer does not change the request it answered
        obtain ⟨hst, hm⟩ := ha.settled.feed (received (S.run (S.handleEvent e.1 e.2 conn).1 events).2)
        dsimp only
        rw [received_append, responses_append, hr, Parser.feed_append]
        exact ha.mono (by simp) hst hm

/-- The client's stream `s` reaches the service at least until it is answered, and every byte of the
answers reaches the client. -/
structure Delivers (S : Service) (events : List (S.Env × ClientCalls)) (s : Bytes) : Prop where
  sends : ∀ e ∈ events, NoHardError e.2.sends
  flushed : (S.run .fresh events).1.unsent = []
  stream : (received (S.run .fresh events).2).flatten <+: s
  enough : (received (S.run .fresh events).2).flatten = s ∨ responses (S.run .fresh events).2 ≠ []

lemma Delivers.output {events : List (S.Env × ClientCalls)} {s : Bytes} (h : S.Delivers events s) :
    output (S.run .fresh events).2 = (responses (S.run .fresh events).2).flatten := by
  have hh := run_conserved .fresh h.sends
  rw [h.flushed, List.append_nil] at hh
  exact hh.symm

lemma Delivers.first {events : List (S.Env × ClientCalls)} {s : Bytes} (h : S.Delivers events s) :
    S.Answers (events.map Prod.fst) ((Parser.fresh : HttpParser).consume s).1
      (responses (S.run .fresh events).2).head? := by
  have hh : S.Answers _ ((Parser.fresh : HttpParser).feed _).1 _ :=
    run_first events (rfl : Connection.fresh.unsent = []) fresh_not_settled
  rw [Parser.fresh_feed] at hh
  cases hd : (responses (S.run .fresh events).2).head? with
  | none =>
    rw [hd, h.enough.resolve_right (not_not.mpr (List.head?_eq_none_iff.mp hd))] at hh
    exact hh
  | some data =>
    rw [hd] at hh
    obtain ⟨t, ht⟩ := h.stream
    obtain ⟨hs, hm⟩ := hh.settled.consume_append t
    rw [ht] at hs hm
    exact hh.mono (fun _ he => he) hs hm

lemma Delivers.silent {events : List (S.Env × ClientCalls)} {s : Bytes} (h : S.Delivers events s)
    (hs : ¬ ((Parser.fresh : HttpParser).consume s).1.Settled) : Net.output (S.run .fresh events).2 = [] := by
  have hf := h.first
  cases hd : (responses (S.run .fresh events).2).head? with
  | none => rw [h.output, List.head?_eq_none_iff.mp hd, List.flatten_nil]
  | some data =>
    rw [hd] at hf
    exact absurd hf.settled hs

lemma Delivers.malformed {events : List (S.Env × ClientCalls)} {s : Bytes} (h : S.Delivers events s)
    (hs : ((Parser.fresh : HttpParser).consume s).1.state = .error) :
    (responses (S.run .fresh events).2).head? = some badRequest.serialize := by
  obtain ⟨data, hd, ha⟩ := h.first.of_settled (Or.inr hs)
  rcases ha with ⟨-, rfl⟩ | ⟨hc, -⟩
  · exact hd
  · simp [hs] at hc

lemma Delivers.answered {events : List (S.Env × ClientCalls)} {s : Bytes} (h : S.Delivers events s)
    (hs : ((Parser.fresh : HttpParser).consume s).1.state = .complete) :
    ∃ e ∈ events, (responses (S.run .fresh events).2).head? =
      some (S.answer e.1 ((Parser.fresh : HttpParser).consume s).1.msg).data := by
  obtain ⟨data, hd, ha⟩ := h.first.of_settled (Or.inl hs)
  rcases ha with ⟨he, -⟩ | ⟨-, env, hv, rfl⟩
  · simp [hs] at he
  · obtain ⟨e, he, rfl⟩ := List.mem_map.mp hv
    exact ⟨e, he, hd⟩

end Service

end HttpBalancer.Net
