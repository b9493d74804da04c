import HttpBalancer.Net.Incremental
import HttpBalancer.Net.Service

/-! All events of one connection, handled one at a time. Between two events the connection either
owes the client bytes or has a parser that can take more; that is all the handler relies on. -/

namespace HttpBalancer.Net

/-- Reads come in the states that can take more and with nothing pending, and each is followed by
what its status calls for: a dispatch and its response, a 400, or nothing. No other response is
queued. -/
inductive Served (answers : HttpRequest → Bytes → Prop) : List Action → Prop
  | nil : Served answers []
  | accepted {log} (data : Bytes) : Served answers log → Served answers (.accepted data :: log)
  | rearmed {log} (a : RearmAction) : Served answers log → Served answers (.rearmed a :: log)
  | waiting {log} {read : Bytes} {st : State} : st ∈ [State.startLine, .headers, .body] → Served answers log →
      Served answers (.consumed read st false .needMoreData :: log)
  | error {log} {read : Bytes} {st : State} : st ∈ [State.startLine, .headers, .body] → Served answers log →
      Served answers (.consumed read st false .error :: .queued badRequest.serialize :: log)
  | complete {log} {read : Bytes} {st : State} {req : HttpRequest} {data : Bytes} :
      st ∈ [State.startLine, .headers, .body] → answers req data → Served answers log →
      Served answers (.consumed read st false .complete :: .dispatched req :: .queued data :: log)

lemma Served.append {answers : HttpRequest → Bytes → Prop} {l l' : List Action}
    (h : Served answers l) (h' : Served answers l') : Served answers (l ++ l') := by
  induction h with
  | nil => exact h'
  | accepted data _ ih => exact .accepted data ih
  | rearmed a _ ih => exact .rearmed a ih
  | waiting hs _ ih => exact .waiting hs ih
  | error hs _ ih => exact .error hs ih
  | complete hs ha _ ih => exact .complete hs ha ih

def Connection.Ready (c : Connection) : Prop := c.unsent ≠ [] ∨ ¬ c.parser.Settled

lemma not_settled_state {p : HttpParser} (h : ¬ p.Settled) :
    p.state ∈ [State.startLine, .headers, .body] := by
  cases hs : p.state <;> simp_all [Parser.Settled]

lemma fresh_not_settled : ¬ (Parser.fresh : HttpParser).Settled := by
  simp [Parser.Settled, Parser.fresh]

namespace Service

variable (S : Service)

def run : Connection → List (S.Env × ClientCalls) → Connection × List Action
  | conn, [] => (conn, [])
  | conn, (env, io) :: events =>
    let r := S.handleEvent env io conn
    if .close ∈ rearms r.2 then r
    else ((run r.1 events).1, r.2 ++ (run r.1 events).2)

lemma ready_next (c : Connection) (sends : List SendResult) : (c.flushWrite sends).next.Ready := by
  rw [Connection.Flush.next]
  split_ifs with hf
  · exact Or.inr fresh_not_settled
  · apply Or.inl
    intro hu
    exact hf ((c.flush_pending sends).mpr hu)

variable {S} {answers : HttpRequest → Bytes → Prop} {conn : Connection}

lemma handlePending_served (io : ClientCalls) (conn : Connection) :
    Served answers (handlePending io conn).2 ∧ (handlePending io conn).1.Ready := by
  rw [handlePending_eq]
  exact ⟨.accepted _ (.rearmed _ .nil), ready_next conn io.sends⟩

lemma handleEvent_served (hS : ∀ env req, answers req (S.answer env req).data) (env : S.Env)
    (io : ClientCalls) (h : conn.Ready) :
    Served answers (S.handleEvent env io conn).2 ∧
      (.close ∉ rearms (S.handleEvent env io conn).2 → (S.handleEvent env io conn).1.Ready) := by
  have hs : conn.unsent = [] → ¬ conn.parser.Settled := fun hu => h.resolve_left (not_not.mpr hu)
  refine handleEvent_cases
    (motive := fun r => Served answers r.2 ∧ (.close ∉ rearms r.2 → r.1.Ready)) ?_ ?_ ?_ ?_ ?_
  · intro _
    obtain ⟨hl, hr⟩ : Served answers _ ∧ _ := handlePending_served io conn
    exact ⟨hl, fun _ => hr⟩
  · intro _ a
    exact ⟨.rearmed a .nil, fun _ => h⟩
  · intro hu data hc
    refine ⟨.waiting (not_settled_state (hs hu)) (.rearmed _ .nil), fun _ => Or.inr ?_⟩
    rw [Parser.consume_standing (fun he => hs hu (Or.inr he))] at hc
    exact Parser.standing_eq_needMoreData.mp hc
  · intro hu data hc c _
    refine ⟨.error (not_settled_state (hs hu)) (.accepted _ (.rearmed _ .nil)), ?_⟩
    have hr := ready_next (c.answer ⟨badRequest.serialize, false⟩) io.sends
    simp only [handleError]
    split_ifs with hf
    · simp [rearms]
    · rw [Connection.Flush.next, if_neg hf] at hr
      exact fun _ => hr
  · intro hu data hc c _
    have hst := not_settled_state (hs hu)
    rw [handleComplete_eq env io rfl]
    exact ⟨.complete hst (hS _ _) (.accepted _ (.rearmed _ .nil)), fun _ => ready_next _ _⟩

lemma run_served (hS : ∀ env req, answers req (S.answer env req).data)
    (events : List (S.Env × ClientCalls)) (h : conn.Ready) : Served answers (S.run conn events).2 := by
  induction events generalizing conn with
  | nil => exact .nil
  | cons e events ih =>
    obtain ⟨hs, hr⟩ := handleEvent_served hS e.1 e.2 h
    simp only [run]
    split_ifs with hc
    · exact hs
    · exact hs.append (ih (hr hc))

end Service

end HttpBalancer.Net
