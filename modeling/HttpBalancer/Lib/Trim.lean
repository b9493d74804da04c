import Mathlib.Data.List.DropRight
import Mathlib.Data.List.Infix
import Mathlib.Tactic

/-! Stripping from both ends of a list the elements that satisfy a predicate. -/

namespace HttpBalancer.Lib.Trim

variable {α : Type} (p : α → Bool)

def trim (s : List α) : List α := (s.dropWhile p).rdropWhile p

def Trimmed (s : List α) : Prop := trim p s = s

instance [DecidableEq α] (s : List α) : Decidable (Trimmed p s) := inferInstanceAs (Decidable (_ = _))

lemma trim_infix (s : List α) : trim p s <:+: s :=
  (List.rdropWhile_prefix p _).isInfix.trans (List.dropWhile_suffix p).isInfix

@[simp] lemma trim_cons {a : α} (h : p a = true) (s : List α) : trim p (a :: s) = trim p s := by
  simp [trim, h]

lemma dropWhile_trim (s : List α) : (trim p s).dropWhile p = trim p s := by
  cases hd : s.dropWhile p with
  | nil => simp [trim, hd]
  | cons a t =>
    have ha : p a = false := by
      have hh := List.head?_dropWhile_not p s
      simpa [hd] using hh
    have hp : trim p s <+: a :: t := hd ▸ List.rdropWhile_prefix p _
    rcases List.prefix_cons_iff.mp hp with hn | ⟨u, hu, _⟩
    · simp [hn]
    · simp [hu, ha]

lemma trim_trimmed (s : List α) : Trimmed p (trim p s) := by
  rw [Trimmed, trim, dropWhile_trim]
  exact List.rdropWhile_idempotent p _

lemma trimmed_of_forall {s : List α} (h : ∀ a ∈ s, p a = false) : Trimmed p s := by
  have hd : s.dropWhile p = s := by
    cases s with
    | nil => rfl
    | cons a s => simp [h a]
  rw [Trimmed, trim, hd, List.rdropWhile_eq_self_iff]
  intro hn
  simp [h _ (List.getLast_mem hn)]

end HttpBalancer.Lib.Trim
