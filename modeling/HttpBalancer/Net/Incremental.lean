import HttpBalancer.Lib.Chunks
import HttpBalancer.Net.Lines

/-! The parsers are incremental: the cuts between two reads leave no trace in them. -/

namespace HttpBalancer.Net

open Lib

namespace Parser

variable {μ : Type}

def Settled (p : Parser μ) : Prop := p.state = .complete ∨ p.state = .error

def standing (p : Parser μ) : ParseStatus :=
  match p.state with
  | .complete => .complete
  | .error => .error
  | _ => .needMoreData

lemma standing_eq_needMoreData {p : Parser μ} : p.standing = .needMoreData ↔ ¬ p.Settled := by
  cases hs : p.state <;> simp [standing, Settled, hs]

lemma standing_eq_complete {p : Parser μ} : p.standing = .complete ↔ p.state = .complete := by
  cases hs : p.state <;> simp [standing, hs]

lemma standing_eq_error {p : Parser μ} : p.standing = .error ↔ p.state = .error := by
  cases hs : p.state <;> simp [standing, hs]

variable [Message μ]

def feed (p : Parser μ) (chunks : List Bytes) : Parser μ × List ParseStatus :=
  Chunks.feed consume p chunks

lemma Settled.process {p : Parser μ} (h : p.Settled) : p.process = (p, .complete) := by
  rcases h with h | h <;> simp [Parser.process, h]

lemma processBody_standing (p : Parser μ) (hs : p.state = .body) :
    p.processBody.2 = p.processBody.1.standing := by
  simp only [processBody]
  split_ifs
  · simp [standing, hs]
  · rfl

lemma processHeaders_standing (p : Parser μ) (hs : p.state = .headers) :
    p.processHeaders.2 = p.processHeaders.1.standing := by
  induction p using headers_induction with
  | wait p he => simp [processHeaders_wait he, standing, hs]
  | blank p pos he =>
    rw [processHeaders_blank he]
    exact processBody_standing _ rfl
  | bad p line pos he hn hg => simp [processHeaders_bad he hn hg, standing]
  | good p line pos hs' he hn hg ih =>
    rw [processHeaders_good he hn hg]
    exact ih hs

lemma process_standing (p : Parser μ) (h : p.state ≠ .error) : p.process.2 = p.process.1.standing := by
  cases hs : p.state with
  | startLine =>
    cases he : extractLine p.buffer 0 with
    | none => simp [process_wait hs he, standing, hs]
    | some lp =>
      rcases hl : Message.parseStartLine lp.1 p.msg with ⟨_ | _, m⟩
      · simp [process_bad hs he hl, standing]
      · rw [process_good hs he hl]
        exact processHeaders_standing _ rfl
  | headers =>
    rw [process_headers hs]
    exact processHeaders_standing p hs
  | body =>
    rw [process_body hs]
    exact processBody_standing p hs
  | complete => simp [process, hs, standing]
  | error => exact absurd hs h

lemma consume_standing {p : Parser μ} (h : p.state ≠ .error) (d : Bytes) :
    (p.consume d).2 = (p.consume d).1.standing :=
  process_standing (p.append d) h

/-- What a stage of `process` owes to bytes that come later: after an answer they only pile up in
the buffer of a settled parser, and while it waits nothing is lost by having asked. -/
structure Absorbs (stage : Parser μ → Parser μ × ParseStatus) (p : Parser μ) (d : Bytes) : Prop where
  answered : (stage p).2 ≠ .needMoreData →
    (stage p).1.Settled ∧ stage (p.append d) = ((stage p).1.append d, (stage p).2)
  waiting : (stage p).2 = .needMoreData → ((stage p).1.append d).process = stage (p.append d)

lemma Absorbs.of_eq {stage stage' : Parser μ → Parser μ × ParseStatus} {p p' : Parser μ} {d : Bytes}
    (h : Absorbs stage' p' d) (hp : stage p = stage' p') (hd : stage (p.append d) = stage' (p'.append d)) :
    Absorbs stage p d :=
  ⟨by rw [hp, hd]; exact h.answered, by rw [hp, hd]; exact h.waiting⟩

lemma Absorbs.of_answer {stage : Parser μ → Parser μ × ParseStatus} {p q : Parser μ} {d : Bytes}
    (st : ParseStatus) (hst : st ≠ .needMoreData) (hq : q.Settled) (hp : stage p = (q, st))
    (hd : stage (p.append d) = (q.append d, st)) : Absorbs stage p d := by
  refine ⟨?_, by simp [hp, hst]⟩
  intro _
  rw [hp, hd]
  exact ⟨hq, rfl⟩

lemma Absorbs.of_wait {stage : Parser μ → Parser μ × ParseStatus} {p : Parser μ} {d : Bytes}
    (hp : stage p = (p, .needMoreData)) (hd : (p.append d).process = stage (p.append d)) :
    Absorbs stage p d :=
  ⟨by simp [hp], by simpa [hp] using hd⟩

lemma processBody_absorbs (p : Parser μ) (hs : p.state = .body) (d : Bytes) :
    Absorbs processBody p d := by
  by_cases hl : p.buffer.length < p.bodyBytesNeeded
  · exact .of_wait (by simp [processBody, hl]) (process_body hs)
  · have hl' : ¬ (p.buffer ++ d).length < p.bodyBytesNeeded := by
      simp only [List.length_append]
      omega
    apply Absorbs.of_answer .complete (by decide) (Or.inl rfl) (by rw [processBody, if_neg hl])
    simp only [processBody, hl', if_false, append]
    rw [List.take_append_of_le_length (by omega), List.drop_append_of_le_length (by omega)]

lemma processHeaders_absorbs (p : Parser μ) (hs : p.state = .headers) (d : Bytes) :
    Absorbs processHeaders p d := by
  induction p using headers_induction with
  | wait p he => exact .of_wait (processHeaders_wait he) (process_headers hs)
  | blank p pos he =>
    obtain ⟨he', hd⟩ := extractLine_append he d
    apply (processBody_absorbs _ rfl d).of_eq (processHeaders_blank he)
    rw [processHeaders_blank (p := p.append d) he']
    simp only [append, finalizeHeaders, hd]
  | bad p line pos he hn hg =>
    obtain ⟨he', _⟩ := extractLine_append he d
    exact .of_answer .error (by decide) (Or.inr rfl) (processHeaders_bad he hn hg)
      (processHeaders_bad (p := p.append d) he' hn hg)
  | good p line pos hs' he hn hg ih =>
    obtain ⟨he', hd⟩ := extractLine_append he d
    apply (ih hs).of_eq (processHeaders_good he hn hg)
    rw [processHeaders_good (p := p.append d) he' hn hg]
    simp only [append, hd]

lemma process_absorbs (p : Parser μ) (d : Bytes) : Absorbs process p d := by
  cases hs : p.state with
  | startLine =>
    cases he : extractLine p.buffer 0 with
    | none => exact .of_wait (process_wait hs he) rfl
    | some lp =>
      obtain ⟨line, pos⟩ := lp
      obtain ⟨he', hd⟩ := extractLine_append he d
      rcases hl : Message.parseStartLine line p.msg with ⟨_ | _, m⟩
      · exact .of_answer .error (by decide) (Or.inr rfl) (process_bad hs he hl)
          (process_bad (p := p.append d) hs he' hl)
      · apply (processHeaders_absorbs _ rfl d).of_eq (process_good hs he hl)
        rw [process_good (p := p.append d) hs he' hl]
        simp only [append, hd]
  | headers =>
    exact (processHeaders_absorbs p hs d).of_eq (process_headers hs) (process_headers (p := p.append d) hs)
  | body =>
    exact (processBody_absorbs p hs d).of_eq (process_body hs) (process_body (p := p.append d) hs)
  | complete | error =>
    have hp : p.Settled := by simp [Settled, hs]
    exact .of_answer .complete (by decide) hp hp.process (Settled.process (p := p.append d) hp)

lemma consume_incremental : Chunks.Incremental (consume : Parser μ → _) .needMoreData := by
  have hw : ∀ (p : Parser μ) a b, (p.consume a).2 = .needMoreData →
      (p.consume a).1.consume b = p.consume (a ++ b) := by
    intro p a b h
    have hh := (process_absorbs (p.append a) b).waiting h
    rwa [append_append] at hh
  refine ⟨?_, fun p a b h => by rw [hw p a b h]⟩
  intro p a b
  by_cases h : (p.consume a).2 = .needMoreData
  · rw [hw p a b h]
  · obtain ⟨hs, hh⟩ := (process_absorbs (p.append a) b).answered h
    have hs' : ((p.append a).process.1.append b).Settled := hs
    rw [append_append] at hh
    simp only [consume, hs'.process, hh]

lemma Settled.feed {p : Parser μ} (h : p.Settled) (chunks : List Bytes) :
    (p.feed chunks).1.state = p.state ∧ (p.feed chunks).1.msg = p.msg := by
  induction chunks generalizing p with
  | nil => exact ⟨rfl, rfl⟩
  | cons c cs ih =>
    have hp : (p.append c).Settled := h
    have hc : p.consume c = (p.append c, .complete) := hp.process
    have hh := ih hp
    simp only [Parser.feed, Chunks.feed, hc] at hh ⊢
    exact hh

lemma feed_cons (p : Parser μ) (c : Bytes) (cs : List Bytes) :
    (p.feed (c :: cs)).1 = ((p.consume c).1.feed cs).1 := rfl

lemma feed_append (p : Parser μ) (cs ds : List Bytes) :
    (p.feed (cs ++ ds)).1 = ((p.feed cs).1.feed ds).1 := by
  induction cs generalizing p with
  | nil => rfl
  | cons c cs ih => exact ih (p.consume c).1

lemma fresh_feed (chunks : List Bytes) :
    ((fresh : Parser μ).feed chunks).1 = ((fresh : Parser μ).consume chunks.flatten).1 := by
  cases chunks with
  | nil => exact (congrArg Prod.fst (process_wait (p := (fresh : Parser μ).append []) rfl rfl)).symm
  | cons c cs => exact consume_incremental.feed_state _ c cs

lemma Settled.consume_append {p : Parser μ} {a : Bytes} (h : (p.consume a).1.Settled) (b : Bytes) :
    (p.consume (a ++ b)).1.state = (p.consume a).1.state ∧
      (p.consume (a ++ b)).1.msg = (p.consume a).1.msg := by
  rw [← consume_incremental.state]
  exact h.feed [b]

end Parser

/-- However a byte string is cut into chunks, both parsers end up in the state a single read of the
whole string leaves, and as long as they were only waiting they also give its answer. -/
theorem chunking_irrelevant (c : Bytes) (cs : List Bytes) :
    ((Parser.fresh : HttpParser).feed (c :: cs)).1 =
        ((Parser.fresh : HttpParser).consume (c :: cs).flatten).1 ∧
      ((∀ st ∈ ((Parser.fresh : HttpParser).feed (c :: cs)).2.dropLast, st = .needMoreData) →
        ((Parser.fresh : HttpParser).feed (c :: cs)).2.getLast? =
          some ((Parser.fresh : HttpParser).consume (c :: cs).flatten).2) ∧
      ((Parser.fresh : HttpResponseParser).feed (c :: cs)).1 =
        ((Parser.fresh : HttpResponseParser).consume (c :: cs).flatten).1 ∧
      ((∀ st ∈ ((Parser.fresh : HttpResponseParser).feed (c :: cs)).2.dropLast, st = .needMoreData) →
        ((Parser.fresh : HttpResponseParser).feed (c :: cs)).2.getLast? =
          some ((Parser.fresh : HttpResponseParser).consume (c :: cs).flatten).2) := by
  refine ⟨?_, ?_, ?_, ?_⟩
  · exact Parser.consume_incremental.feed_state _ c cs
  · exact Parser.consume_incremental.feed_status _ c cs
  · exact Parser.consume_incremental.feed_state _ c cs
  · exact Parser.consume_incremental.feed_status _ c cs

end HttpBalancer.Net
