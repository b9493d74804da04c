import HttpBalancer.Lib.Threads
import HttpBalancer.Lib.Transitions

/-! Owners of descriptors over one descriptor table. The kernel gives a number out again once it is
closed, so what is owned is an opening of a number and not the number. -/

namespace HttpBalancer.Net

open Lib

/-- `table` is the opening a number stands for; openings are counted in their order. `closed` and
`released` are what the sockets have closed and given away: the opening the number stood for, if any. -/
structure Files where
  opened : ℕ
  table : ℕ → Option ℕ
  closed : List (Option ℕ)
  released : List (Option ℕ)

namespace Files

def openAt (k : Files) (fd : ℕ) : Files := { k with
  opened := k.opened + 1
  table := Function.update k.table fd (some k.opened) }

def close (k : Files) (fd : ℕ) : Files := { k with
  table := Function.update k.table fd none
  closed := k.closed ++ [k.table fd] }

def handOver (k : Files) (fd : ℤ) : Files :=
  if 0 ≤ fd then { k with released := k.released ++ [k.table fd.toNat] } else k

end Files

structure Socket where
  fd : ℤ := -1
  deriving DecidableEq

namespace Socket

def valid (a : Socket) : Bool := 0 ≤ a.fd

def close (a : Socket) (k : Files) : Socket × Files :=
  if 0 ≤ a.fd then (⟨-1⟩, k.close a.fd.toNat) else (a, k)

def release (a : Socket) : Socket × ℤ := (⟨-1⟩, a.fd)

end Socket

/-- Every object made so far, in the order of construction; `none` is a destroyed one. -/
structure Sockets where
  objects : List (Option Socket)
  files : Files

namespace Sockets

inductive Op
  | default
  | construct (fd : ℕ)
  | moveConstruct (other : ℕ)
  | moveAssign (this other : ℕ)
  | release (i : ℕ)
  | close (i : ℕ)
  | destroy (i : ℕ)
  | callerClose (fd : ℕ)

def create : Sockets := ⟨[], 0, fun _ => none, [], []⟩

def closeAt (s : Sockets) (i : ℕ) (a : Socket) : Sockets :=
  ⟨s.objects.set i (some (a.close s.files).1), (a.close s.files).2⟩

def step (s : Sockets) : Op → Option Sockets
  | .default => some { s with objects := s.objects ++ [some {}] }
  | .construct fd =>
    -- `socket` and `accept` return a number that is not open
    if s.files.table fd = none then some ⟨s.objects ++ [some ⟨fd⟩], s.files.openAt fd⟩ else none
  | .moveConstruct other =>
    match s.objects[other]? with
    | some (some b) => some { s with objects := s.objects.set other (some ⟨-1⟩) ++ [some ⟨b.fd⟩] }
    | _ => none
  | .moveAssign this other =>
    match s.objects[this]?, s.objects[other]? with
    | some (some a), some (some b) =>
      if this = other then some s
      else
        let s := s.closeAt this a
        some { s with objects := (s.objects.set this (some ⟨b.fd⟩)).set other (some ⟨-1⟩) }
    | _, _ => none
  | .release i =>
    match s.objects[i]? with
    | some (some a) => some ⟨s.objects.set i (some a.release.1), s.files.handOver a.release.2⟩
    | _ => none
  | .close i =>
    match s.objects[i]? with
    | some (some a) => some (s.closeAt i a)
    | _ => none
  | .destroy i =>
    match s.objects[i]? with
    | some (some a) => some { s.closeAt i a with objects := (s.closeAt i a).objects.set i none }
    | _ => none
  | .callerClose fd =>
    -- whoever a descriptor was released to may close it
    if s.files.table fd ≠ none ∧ s.files.table fd ∈ s.files.released then
      some { s with files := { s.files with table := Function.update s.files.table fd none } }
    else none

def heldBy (table : ℕ → Option ℕ) : Option Socket → List (Option ℕ)
  | none => []
  | some a => if 0 ≤ a.fd then [table a.fd.toNat] else []

def held (s : Sockets) : List (Option ℕ) := s.objects.flatMap (heldBy s.files.table)

/-- Every opening is held by one socket, or closed by one, or given away by one. -/
def Ledger (s : Sockets) : Prop :=
  (s.held ++ s.files.closed ++ s.files.released).Perm ((List.range s.files.opened).map some)

lemma flatMap_heldBy_update {table : ℕ → Option ℕ} {fd : ℕ} {objects : List (Option Socket)}
    (h : table fd ∉ objects.flatMap (heldBy table)) (v : Option ℕ) :
    objects.flatMap (heldBy (Function.update table fd v)) = objects.flatMap (heldBy table) := by
  apply List.flatMap_congr
  intro o ho
  cases o with
  | none => rfl
  | some a =>
    simp only [heldBy]
    split_ifs with hv
    · rw [Function.update_of_ne]
      rintro rfl
      exact h (List.mem_flatMap.mpr ⟨some a, ho, by simp [heldBy, hv]⟩)
    · rfl

variable {s t : Sockets} {i : ℕ} {a : Socket}

lemma Ledger.nodup (h : s.Ledger) : (s.held ++ s.files.closed ++ s.files.released).Nodup :=
  h.nodup_iff.mpr (List.nodup_range.map (Option.some_injective ℕ))

lemma Ledger.none_not_mem (h : s.Ledger) : none ∉ s.held ++ s.files.closed ++ s.files.released := by
  rw [h.mem_iff]
  simp

lemma Ledger.of_perm (h : s.Ledger) (hf : t.files.opened = s.files.opened)
    (hp : (t.held ++ t.files.closed ++ t.files.released).Perm
      (s.held ++ s.files.closed ++ s.files.released)) : t.Ledger := by
  rw [Ledger, hf]
  exact hp.trans h

lemma held_set {o : Option Socket} (hi : s.objects[i]? = some o) (o' : Option Socket) :
    (heldBy s.files.table o ++ held { s with objects := s.objects.set i o' }).Perm
      (heldBy s.files.table o' ++ s.held) :=
  Threads.flatMap_set_perm _ hi

lemma Ledger.set (h : s.Ledger) {o o' : Option Socket} (hi : s.objects[i]? = some o)
    (hh : heldBy s.files.table o' = heldBy s.files.table o) :
    Ledger { s with objects := s.objects.set i o' } := by
  refine h.of_perm ?_ ?_
  · rfl
  · have hp := held_set hi o'
    rw [hh, List.perm_append_left_iff] at hp
    exact (hp.append_right _).append_right _

lemma Ledger.update (h : s.Ledger) {fd : ℕ} (hn : s.files.table fd ∉ s.held) (v : Option ℕ) :
    Ledger { s with files := { s.files with table := Function.update s.files.table fd v } } := by
  refine h.of_perm ?_ ?_
  · rfl
  · rw [held, flatMap_heldBy_update hn]
    exact .refl _

lemma held_vacate (hi : s.objects[i]? = some (some a)) :
    (heldBy s.files.table (some a) ++
      held { s with objects := s.objects.set i (some ⟨-1⟩) }).Perm s.held :=
  held_set hi (some ⟨-1⟩)

lemma Ledger.vacated (h : s.Ledger) (hi : s.objects[i]? = some (some a)) (hv : 0 ≤ a.fd) :
    s.files.table a.fd.toNat ∉ held { s with objects := s.objects.set i (some ⟨-1⟩) } := by
  have hp := held_vacate hi
  rw [heldBy, if_pos hv] at hp
  have hd := hp.nodup_iff.mpr (List.Nodup.of_append_left (List.Nodup.of_append_left h.nodup))
  exact (List.nodup_cons.mp hd).1

lemma Ledger.closeAt (h : s.Ledger) (hi : s.objects[i]? = some (some a)) :
    (s.closeAt i a).Ledger := by
  rw [Sockets.closeAt, Socket.close]
  split_ifs with hv
  · have hp := held_vacate hi
    rw [heldBy, if_pos hv] at hp
    refine h.of_perm ?_ ?_
    · rfl
    · rw [held, Files.close, flatMap_heldBy_update (h.vacated hi hv)]
      apply List.perm_iff_count.mpr
      intro n
      have hc := hp.count_eq n
      simp only [held, List.count_append] at hc ⊢
      omega
  · exact h.set hi rfl

lemma closeAt_self (hi : s.objects[i]? = some (some a)) :
    ∃ c, (s.closeAt i a).objects[i]? = some (some c) ∧ ∀ table, heldBy table (some c) = [] := by
  obtain ⟨hl, -⟩ := List.getElem?_eq_some_iff.mp hi
  refine ⟨(a.close s.files).1, by simp [closeAt, hl], ?_⟩
  intro table
  rw [Socket.close]
  split_ifs with hv
  · rfl
  · exact if_neg hv

lemma closeAt_other {j : ℕ} (hj : i ≠ j) : (s.closeAt i a).objects[j]? = s.objects[j]? := by
  simp [closeAt, hj]

lemma Ledger.openAt (h : s.Ledger) {fd : ℕ} (hf : s.files.table fd = none) :
    Ledger ⟨s.objects ++ [some ⟨fd⟩], s.files.openAt fd⟩ := by
  have hn : s.files.table fd ∉ s.held := by
    rw [hf]
    intro hm
    exact h.none_not_mem (List.mem_append_left _ (List.mem_append_left _ hm))
  have hh : held ⟨s.objects ++ [some ⟨fd⟩], s.files.openAt fd⟩ = s.held ++ [some s.files.opened] := by
    rw [held, Files.openAt, List.flatMap_append, flatMap_heldBy_update hn]
    simp [held, heldBy]
  rw [Ledger, hh]
  simp only [Files.openAt, List.range_succ, List.map_append]
  apply List.perm_iff_count.mpr
  intro n
  have hc := List.Perm.count_eq h n
  simp only [List.count_append] at hc ⊢
  simp only [List.map_cons, List.map_nil]
  omega

lemma Ledger.moveConstruct (h : s.Ledger) (hi : s.objects[i]? = some (some a)) :
    Ledger { s with objects := s.objects.set i (some ⟨-1⟩) ++ [some ⟨a.fd⟩] } := by
  refine h.of_perm ?_ ?_
  · rfl
  · have hp := held_vacate hi
    have hh : held { s with objects := s.objects.set i (some ⟨-1⟩) ++ [some ⟨a.fd⟩] } =
        held { s with objects := s.objects.set i (some ⟨-1⟩) } ++ heldBy s.files.table (some a) := by
      simp [held]
    rw [hh]
    exact ((List.perm_append_comm.trans hp).append_right _).append_right _

lemma Ledger.move (h : s.Ledger) {j : ℕ} {b c : Socket} (hij : i ≠ j)
    (hi : s.objects[i]? = some (some c)) (hc : heldBy s.files.table (some c) = [])
    (hj : s.objects[j]? = some (some b)) :
    Ledger { s with objects := (s.objects.set i (some ⟨b.fd⟩)).set j (some ⟨-1⟩) } := by
  refine h.of_perm ?_ ?_
  · rfl
  · have hp := held_set hi (some ⟨b.fd⟩)
    have hq : (heldBy s.files.table (some b) ++
        held { s with objects := (s.objects.set i (some ⟨b.fd⟩)).set j (some ⟨-1⟩) }).Perm
        (held { s with objects := s.objects.set i (some ⟨b.fd⟩) }) :=
      held_vacate (s := { s with objects := s.objects.set i (some ⟨b.fd⟩) }) (by simp [hij, hj])
    rw [hc, List.nil_append] at hp
    have hr := (List.perm_append_left_iff _).mp (hq.trans hp)
    exact (hr.append_right _).append_right _

lemma Ledger.release (h : s.Ledger) (hi : s.objects[i]? = some (some a)) :
    Ledger ⟨s.objects.set i (some ⟨-1⟩), s.files.handOver a.fd⟩ := by
  have hp := held_vacate hi
  rw [Files.handOver]
  split_ifs with hv
  · rw [heldBy, if_pos hv] at hp
    refine h.of_perm ?_ ?_
    · rfl
    · apply List.perm_iff_count.mpr
      intro n
      have hc := hp.count_eq n
      simp only [held, List.count_append] at hc ⊢
      omega
  · exact h.set hi (by simp [heldBy, hv])

lemma step_ledger {op : Op} (h : s.Ledger) (hs : s.step op = some t) : t.Ledger := by
  cases op with
  | default =>
    obtain rfl := Option.some.inj hs
    refine h.of_perm ?_ ?_
    · rfl
    · simp [held, heldBy]
  | construct fd =>
    simp only [step] at hs
    split_ifs at hs with hf
    obtain rfl := Option.some.inj hs
    exact h.openAt hf
  | moveConstruct other =>
    simp only [step] at hs
    split at hs
    · next b hb =>
      obtain rfl := Option.some.inj hs
      exact h.moveConstruct hb
    · cases hs
  | moveAssign this other =>
    simp only [step] at hs
    split at hs
    · next a b ha hb =>
      split_ifs at hs with hne
      · obtain rfl := Option.some.inj hs
        exact h
      · obtain rfl := Option.some.inj hs
        obtain ⟨c, hc, hn⟩ := closeAt_self ha
        exact (h.closeAt ha).move hne hc (hn _) ((closeAt_other hne).trans hb)
    · cases hs
  | release i =>
    simp only [step] at hs
    split at hs
    · next a ha =>
      obtain rfl := Option.some.inj hs
      exact h.release ha
    · cases hs
  | close i =>
    simp only [step] at hs
    split at hs
    · next a ha =>
      obtain rfl := Option.some.inj hs
      exact h.closeAt ha
    · cases hs
  | destroy i =>
    simp only [step] at hs
    split at hs
    · next a ha =>
      obtain rfl := Option.some.inj hs
      obtain ⟨c, hc, hn⟩ := closeAt_self ha
      exact (h.closeAt ha).set hc (hn _).symm
    · cases hs
  | callerClose fd =>
    simp only [step] at hs
    split_ifs at hs with hf
    obtain rfl := Option.some.inj hs
    apply h.update
    -- what was given away is in no socket any more
    intro hm
    exact List.disjoint_of_nodup_append h.nodup (List.mem_append_left _ hm) hf.2

lemma create_ledger : create.Ledger := .nil

lemma reachable_ledger (h : Transitions.Reachable step (fun _ _ => True) create s) : s.Ledger :=
  h.invariant create_ledger fun _ _ _ hl _ ht => step_ledger hl ht

lemma Ledger.alone (h : s.Ledger) {j : ℕ} {b : Socket} (hi : s.objects[i]? = some (some a))
    (hj : s.objects[j]? = some (some b)) (hv : a.valid = true) (hf : a.fd = b.fd) : i = j := by
  have hva : 0 ≤ a.fd := by simpa [Socket.valid] using hv
  by_contra hij
  apply h.vacated hi hva
  -- `b` is still in the list without `a` and stands for the same opening
  have hm : some b ∈ s.objects.set i (some ⟨-1⟩) :=
    List.mem_of_getElem? (i := j) (by simp [hij, hj])
  exact List.mem_flatMap.mpr ⟨some b, hm, by simp [heldBy, ← hf, hva]⟩

theorem descriptors_owned_once (s : Sockets)
    (h : Transitions.Reachable step (fun _ _ => True) create s) :
    (∀ (i j : ℕ) (a b : Socket), s.objects[i]? = some (some a) → s.objects[j]? = some (some b) →
      a.valid = true →
      a.fd = b.fd → i = j) ∧
    none ∉ s.files.closed ∧ (s.files.closed ++ s.files.released).Nodup ∧
    ((∀ o ∈ s.objects, o = none) → ∀ n < s.files.opened, some n ∉ s.files.released →
      s.files.closed.count (some n) = 1) := by
  have hl := reachable_ledger h
  have hn := hl.nodup
  refine ⟨fun i j a b => hl.alone, ?_, ?_, ?_⟩
  · intro hm
    exact hl.none_not_mem (List.mem_append_left _ (List.mem_append_right _ hm))
  · rw [List.append_assoc] at hn
    exact List.Nodup.of_append_right hn
  · intro hall n hlt hr
    have hh : s.held = [] := by
      rw [held, List.flatMap_eq_nil_iff]
      intro o ho
      rw [hall o ho, heldBy]
    have hm : some n ∈ s.held ++ s.files.closed ++ s.files.released :=
      List.Perm.mem_iff hl |>.mpr (by simpa using hlt)
    rw [hh, List.nil_append] at hm hn
    exact List.count_eq_one_of_mem (List.Nodup.of_append_left hn)
      ((List.mem_append.mp hm).resolve_right hr)

/-- Number 3 is closed by an assignment, given out again, and released by the last of its owners. -/
theorem descriptors_owned_once_reused : ∃ s : Sockets,
    Transitions.Reachable step (fun _ _ => True) create s ∧ s.files.opened = 3 ∧
      (∀ o ∈ s.objects, o = none) ∧ s.files.closed = [some 0, some 1] ∧ s.files.released = [some 2] ∧
      s.files.closed.count (some 1) = 1 := by
  obtain ⟨s, hs, ho, hn, hc, hr⟩ : ∃ s : Sockets,
      Transitions.Reachable step (fun _ _ => True) create s ∧ s.files.opened = 3 ∧
        (∀ o ∈ s.objects, o = none) ∧ s.files.closed = [some 0, some 1] ∧ s.files.released = [some 2] :=
    Transitions.exists_reachable [.construct 3, .construct 4, .moveAssign 0 1, .moveAssign 0 0,
      .construct 3, .moveConstruct 2, .release 3, .callerClose 3, .close 0, .default, .destroy 3,
      .destroy 0, .destroy 2, .destroy 4, .destroy 1] (by decide)
  exact ⟨s, hs, ho, hn, hc, hr, (descriptors_owned_once s hs).2.2.2 hn 1 (by omega) (by simp [hr])⟩

end Sockets

end HttpBalancer.Net
