import Mathlib.Tactic

/-! Consumers of a stream that arrives in chunks. A consumer is incremental when two chunks in
turn leave it where their concatenation does; every cut of a stream is then as good as another. -/

namespace HttpBalancer.Lib.Chunks

variable {σ α τ : Type}

def feed (consume : σ → List α → σ × τ) : σ → List (List α) → σ × List τ
  | s, [] => (s, [])
  | s, c :: cs =>
    let r := feed consume (consume s c).1 cs
    (r.1, (consume s c).2 :: r.2)

/-- `more` is the answer a consumer gives as long as it waits for the rest of the stream. -/
structure Incremental (consume : σ → List α → σ × τ) (more : τ) : Prop where
  state : ∀ s a b, (consume (consume s a).1 b).1 = (consume s (a ++ b)).1
  status : ∀ s a b, (consume s a).2 = more → (consume (consume s a).1 b).2 = (consume s (a ++ b)).2

variable {consume : σ → List α → σ × τ} {more : τ}

lemma Incremental.feed_state (h : Incremental consume more) (s : σ) (c : List α)
    (cs : List (List α)) : (feed consume s (c :: cs)).1 = (consume s (c :: cs).flatten).1 := by
  induction cs generalizing s c with
  | nil => simp [feed]
  | cons d ds ih =>
    have hh := ih (consume s c).1 d
    rw [h.state] at hh
    simpa [feed] using hh

lemma Incremental.feed_status (h : Incremental consume more) (s : σ) (c : List α)
    (cs : List (List α)) (hm : ∀ t ∈ (feed consume s (c :: cs)).2.dropLast, t = more) :
    (feed consume s (c :: cs)).2.getLast? = some (consume s (c :: cs).flatten).2 := by
  induction cs generalizing s c with
  | nil => simp [feed]
  | cons d ds ih =>
    have hs : (consume s c).2 = more := hm _ (by simp [feed])
    have hh := ih (consume s c).1 d (fun t ht => hm t (by
      simp only [feed, List.dropLast_cons_cons] at ht ⊢
      exact List.mem_cons_of_mem _ ht))
    rw [h.status _ _ _ hs] at hh
    simpa [feed] using hh

end HttpBalancer.Lib.Chunks
