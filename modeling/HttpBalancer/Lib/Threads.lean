import Mathlib.Tactic

/-! A fixed crew of threads, each in a state of its own, of which one moves at a time. -/

namespace HttpBalancer.Lib.Threads

variable {α β : Type}

lemma countP_set_add (p : α → Bool) {crew : List α} {i : ℕ} {a b : α} (h : crew[i]? = some a) :
    (crew.set i b).countP p + (if p a then 1 else 0) = crew.countP p + if p b then 1 else 0 := by
  obtain ⟨hi, rfl⟩ := List.getElem?_eq_some_iff.mp h
  have hp : (if p crew[i] then 1 else 0) ≤ crew.countP p := by
    split_ifs with hp
    · exact List.countP_pos_iff.mpr ⟨_, List.getElem_mem hi, hp⟩
    · exact Nat.zero_le _
  rw [List.countP_set hi]
  omega

lemma flatMap_set_perm (f : α → List β) {crew : List α} {i : ℕ} {a b : α}
    (h : crew[i]? = some a) :
    (f a ++ (crew.set i b).flatMap f).Perm (f b ++ crew.flatMap f) := by
  induction crew generalizing i with
  | nil => simp at h
  | cons c crew ih =>
    cases i with
    | zero =>
      obtain rfl : c = a := by simpa using h
      exact List.perm_append_comm_assoc _ _ _
    | succ i =>
      have hh := (ih (i := i) (by simpa using h)).append_left (f c)
      exact (List.perm_append_comm_assoc _ _ _).trans (hh.trans (List.perm_append_comm_assoc _ _ _))

lemma sum_map_set_add (f : α → ℕ) {crew : List α} {i : ℕ} {a b : α} (h : crew[i]? = some a) :
    ((crew.set i b).map f).sum + f a = (crew.map f).sum + f b := by
  induction crew generalizing i with
  | nil => simp at h
  | cons c crew ih =>
    cases i with
    | zero =>
      obtain rfl : c = a := by simpa using h
      simp only [List.set_cons_zero, List.map_cons, List.sum_cons]
      omega
    | succ i =>
      have hh := ih (i := i) (by simpa using h)
      simp only [List.set_cons_succ, List.map_cons, List.sum_cons]
      omega

end HttpBalancer.Lib.Threads
