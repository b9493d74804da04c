import HttpBalancer.System.EpollReactor
import HttpBalancer.System.KqueueReactor

/-! What the kernel has registered for a descriptor, against what the backends remember and against
each other, over every sequence of calls. -/

namespace HttpBalancer.System

open Lib

namespace KqueueReactor

def step (r : KqueueReactor) (c : Call × Option ℕ) : Option KqueueReactor := some (r.call c.2 c.1).1

/-- The calls whose kernel call stops halfway: a change of both filters that fails at the second, and
a `remove` that fails at all, since it drops its entry even then. -/
def Torn (r : KqueueReactor) : Call × Option ℕ → Prop
  | (.add fd m, fails) | (.modify fd m, fails) => fails = some 1 ∧ (r.changes fd m).length = 2
  | (.remove fd, fails) => ∃ i < (r.deletes fd).length, fails = some i

lemma length_change_le (fd : Fd) (f : Filter) (want had : Bool) :
    (change fd f want had).length ≤ 1 := by
  rw [change]
  split_ifs <;> simp

lemma length_changes_le (r : KqueueReactor) (fd : Fd) (m : UInt8) : (r.changes fd m).length ≤ 2 := by
  rw [changes, List.length_append]
  exact Nat.add_le_add (length_change_le _ _ _ _) (length_change_le _ _ _ _)

lemma sent_torn {r : KqueueReactor} {fd : Fd} {m : UInt8} (h : r.InSyncAt fd)
    (hl : (r.changes fd m).length = 2) :
    (r.sent (some 1) fd m).registered fd .read ≠ wants (r.prev fd) .read := by
  have hr := length_change_le fd .read (wants m .read) (wants (r.prev fd) .read)
  have hw := length_change_le fd .write (wants m .write) (wants (r.prev fd) .write)
  have h1 : (change fd .read (wants m .read) (wants (r.prev fd) .read)).length = 1 := by
    rw [changes, List.length_append] at hl
    omega
  have hne : wants m .read ≠ wants (r.prev fd) .read := by
    intro he
    simp [change, he] at h1
  have ht : (r.changes fd m).take 1 = change fd .read (wants m .read) (wants (r.prev fd) .read) := by
    rw [changes, List.take_append_of_le_length h1.ge, List.take_of_length_le h1.le]
  simpa [sent, ht, foldl_change (h .read)] using hne

lemma InSync.of_sent {r : KqueueReactor} {fails : Option ℕ} {fd : Fd} {m : UInt8} (h : r.InSync)
    (hf : ¬ r.Fails fails fd m) {entry : Option UInt8} (he : entry.getD 0 = m) :
    InSync ⟨r.sent fails fd m, Function.update r.interestByFd fd entry⟩ := by
  intro fd' f
  rw [prev_update, sent_all (h fd) hf, he]
  by_cases hk : fd' = fd
  · simp [hk]
  · simpa [hk] using h fd' f

lemma InSync.modify_none {r : KqueueReactor} (h : r.InSync) (fd : Fd) (m : UInt8) :
    r.modify none fd m = (⟨r.sent none fd m,
      Function.update r.interestByFd fd (if m = 0 then none else some m)⟩, true) :=
  modify_succeeded (h fd) (r.not_fails_none fd m)

lemma InSync.modify {r : KqueueReactor} (h : r.InSync) (fails : Option ℕ) (fd : Fd) (m : UInt8) :
    ((r.modify fails fd m).2 = false ↔ r.Fails fails fd m) ∧
      ((r.modify fails fd m).1.InSyncAt fd ↔ ¬ (fails = some 1 ∧ (r.changes fd m).length = 2)) ∧
      ((r.modify fails fd m).1.InSyncAt fd → (r.modify fails fd m).1.InSync) := by
  by_cases hf : r.Fails fails fd m
  · rw [modify_failed (h fd) hf]
    obtain ⟨i, hi, rfl⟩ := hf
    have hl := r.length_changes_le fd m
    obtain rfl | rfl : i = 0 ∨ i = 1 := by omega
    · -- refused at the first change: the kernel is as it was
      exact ⟨by simp [Fails, hi], iff_of_true (h fd) (by simp), fun _ => h⟩
    · have h2 : (r.changes fd m).length = 2 := by omega
      have hn : ¬ InSyncAt { r with kq := r.sent (some 1) fd m } fd :=
        fun hs => sent_torn (h fd) h2 (hs .read)
      exact ⟨by simp [Fails, hi], by simp [h2, hn], fun hs => absurd hs hn⟩
  · rw [modify_succeeded (h fd) hf]
    have hs := h.of_sent hf (entry_getD m)
    have hn : ¬ (fails = some 1 ∧ (r.changes fd m).length = 2) := by
      rintro ⟨rfl, h2⟩
      exact hf ⟨1, by omega, rfl⟩
    exact ⟨by simp [hf], iff_of_true (hs fd) hn, fun _ => hs⟩

lemma step_inSync {r t : KqueueReactor} {c : Call × Option ℕ} (h : r.InSync) (hc : ¬ r.Torn c)
    (hs : r.step c = some t) : t.InSync := by
  obtain rfl := Option.some.inj hs
  obtain ⟨c, fails⟩ := c
  cases c with
  | add fd m | modify fd m =>
    obtain ⟨-, hi, ha⟩ := h.modify fails fd m
    exact ha (hi.mpr hc)
  | remove fd =>
    have hf : ¬ r.Fails fails fd 0 := by
      rw [Torn, deletes_eq] at hc
      exact hc
    simp only [call, remove_sent (h fd)]
    exact h.of_sent hf rfl

lemma create_inSync : create.InSync := by
  intro fd f
  exact (wants_zero f).symm

theorem modify_failure_atomic (r : KqueueReactor)
    (h : Transitions.Reachable step (fun r c => ¬ r.Torn c) create r)
    (fails : Option ℕ) (fd : Fd) (interestMask : UInt8) :
    let r' := r.modify fails fd interestMask
    r.InSync ∧ (r'.2 = false ↔ r.Fails fails fd interestMask) ∧
      (r'.1.InSyncAt fd ↔ ¬ (fails = some 1 ∧ (r.changes fd interestMask).length = 2)) ∧
      (r'.1.InSyncAt fd → ∀ m, (r'.1.modify none fd m).2 = true ∧
        ∀ f, (r'.1.modify none fd m).1.kq.registered fd f = wants m f) := by
  intro r'
  have hs : r.InSync := h.invariant create_inSync fun _ _ _ hi hc ht => step_inSync hi hc ht
  obtain ⟨hb, hi, ha⟩ := hs.modify fails fd interestMask
  refine ⟨hs, hb, hi, ?_⟩
  intro hk m
  have hall : r'.1.InSync := ha hk
  rw [hall.modify_none]
  refine ⟨rfl, ?_⟩
  intro f
  simp [sent_all (hall fd) (r'.1.not_fails_none fd m)]

theorem modify_failure_atomic_refused :
    let r := (create.add none 5 EventType.readable).1
    let r' := r.modify (some 0) 5 EventType.writable
    r'.2 = false ∧ r'.1.InSyncAt 5 ∧ (r'.1.modify none 5 3).1.kq.registered 5 .write = true := by
  intro r r'
  have hr : Transitions.Reachable step (fun r c => ¬ r.Torn c) create r :=
    .step (.add 5 EventType.readable, none) .init (by simp [Torn]) rfl
  obtain ⟨-, hf, hs, hm⟩ := modify_failure_atomic r hr (some 0) 5 EventType.writable
  have hk := hs.mpr (by simp)
  exact ⟨hf.mpr ⟨0, by decide, rfl⟩, hk, (hm hk 3).2 .write⟩

/-- The kernel dropped the read filter and refused the write filter; asking for the read filter again
then sends nothing. -/
theorem torn_modify_never_repaired :
    let r := (create.add none 5 EventType.readable).1
    let r' := r.modify (some 1) 5 EventType.writable
    let r'' := r'.1.modify none 5 EventType.readable
    Transitions.Reachable step (fun _ _ => True) create r ∧ r'.2 = false ∧
      r'.1.interestByFd 5 = some EventType.readable ∧ r'.1.kq.registered 5 .read = false ∧
      r''.2 = true ∧ r''.1.kq.registered 5 .read = false := by
  intro r r' r''
  exact ⟨.step (.add 5 EventType.readable, none) .init trivial rfl, by decide, by decide, by decide,
    by decide, by decide⟩

end KqueueReactor

structure Backends where
  kqueue : KqueueReactor
  epoll : EpollReactor
  added : Fd → Bool

namespace Backends

def create : Backends := ⟨.create, .create, fun _ => false⟩

def step (s : Backends) (c : Call) : Option Backends :=
  some ⟨(s.kqueue.call none c).1, (s.epoll.call c).1,
    match c with
    | .add fd _ => Function.update s.added fd true
    | .modify _ _ => s.added
    | .remove fd => Function.update s.added fd false⟩

def Disciplined (s : Backends) : Call → Prop
  | .add _ m => m ∈ EventType.masks
  | .modify fd m => m ∈ EventType.masks ∧ s.added fd = true
  | .remove fd => s.added fd = true

structure Agree (s : Backends) : Prop where
  sync : s.kqueue.InSync
  mask : ∀ fd, s.kqueue.prev fd ∈ EventType.masks
  epoll : ∀ fd, s.epoll.registered fd =
    if s.added fd then some (toEpollEvents (s.kqueue.prev fd)) else none
  absent : ∀ fd, s.added fd = false → s.kqueue.prev fd = 0
  issued : ∀ e ∈ s.kqueue.kq.issued, e.2 = decide (e.1.flag = .delete)

lemma create_agree : create.Agree :=
  ⟨KqueueReactor.create_inSync, fun _ => List.mem_cons_self, fun _ => rfl, fun _ _ => rfl,
    by simp [create, KqueueReactor.create]⟩

variable {s : Backends}

lemma Agree.registered (h : s.Agree) {fd : Fd} (ha : s.added fd = true) :
    s.epoll.registered fd ≠ none := by
  simp [h.epoll fd, ha]

lemma Agree.set (h : s.Agree) (fd : Fd) {m : UInt8} (hm : m ∈ EventType.masks) {entry : Option UInt8}
    (he : entry.getD 0 = m) {b : Bool} (hb : b = false → m = 0) :
    Agree ⟨⟨s.kqueue.sent none fd m, Function.update s.kqueue.interestByFd fd entry⟩,
      ⟨Function.update s.epoll.registered fd (if b then some (toEpollEvents m) else none)⟩,
      Function.update s.added fd b⟩ := by
  refine ⟨h.sync.of_sent (s.kqueue.not_fails_none fd m) he, ?_, ?_, ?_,
    KqueueReactor.sent_issued (h.sync fd) none m h.issued⟩
  · intro fd'
    rw [KqueueReactor.prev_update, he]
    split_ifs
    · exact hm
    · exact h.mask fd'
  · intro fd'
    simp only [KqueueReactor.prev_update, Function.update_apply, he]
    by_cases hf : fd' = fd
    · simp [hf]
    · simpa [hf] using h.epoll fd'
  · intro fd' hn
    simp only [Function.update_apply] at hn
    rw [KqueueReactor.prev_update, he]
    split_ifs at hn ⊢ with hf
    · exact hb hn
    · exact h.absent fd' hn

lemma Agree.call (h : s.Agree) {c : Call} (hc : s.Disciplined c) :
    (s.kqueue.call none c).2 = true ∧ (s.epoll.call c).2 = true ∧
      ∀ t, s.step c = some t → t.Agree := by
  cases c with
  | add fd m =>
    simp only [step, KqueueReactor.call, KqueueReactor.add, EpollReactor.call, h.sync.modify_none,
      EpollReactor.add_registered, Option.some.injEq, forall_eq', true_and]
    exact h.set fd hc (KqueueReactor.entry_getD m) (b := true) (by simp)
  | modify fd m =>
    obtain ⟨hm, ha⟩ := hc
    simp only [step, KqueueReactor.call, EpollReactor.call, h.sync.modify_none,
      EpollReactor.modify_registered _ (h.registered ha), Option.some.injEq, forall_eq', true_and]
    have hs := h.set fd hm (KqueueReactor.entry_getD m) (b := true) (by simp)
    rwa [← ha, Function.update_eq_self, ha] at hs
  | remove fd =>
    simp only [step, KqueueReactor.call, EpollReactor.call, KqueueReactor.remove_sent (h.sync fd),
      EpollReactor.remove_registered _ (h.registered hc), Option.some.injEq, forall_eq', true_and]
    have hz : (0 : UInt8) ∈ EventType.masks := List.mem_cons_self
    have he : (none : Option UInt8).getD 0 = 0 := rfl
    exact h.set fd hz he (b := false) (fun _ => rfl)

lemma reachable_agree (h : Transitions.Reachable step Disciplined create s) : s.Agree :=
  h.invariant create_agree fun _ _ t hs hc ht => (hs.call hc).2.2 t ht

lemma mask_of_wants {reg : Filters} {fd : Fd} {m : UInt8} (hm : m ∈ EventType.masks)
    (h : ∀ f, reg fd f = wants m f) : reg.mask fd = m := by
  simp only [EventType.masks, List.mem_cons, List.not_mem_nil, or_false] at hm
  rw [Filters.mask, h, h]
  rcases hm with rfl | rfl | rfl | rfl <;> decide

theorem interests_agree (s : Backends) (h : Transitions.Reachable step Disciplined create s) :
    (∀ fd, s.kqueue.kq.registered.mask fd = (s.kqueue.interestByFd fd).getD 0 ∧
      s.epoll.mask fd = (s.kqueue.interestByFd fd).getD 0) ∧
    (∀ e ∈ s.kqueue.kq.issued, (e.1.flag = .delete → e.2 = true) ∧ (e.1.flag = .add → e.2 = false)) ∧
    ∀ c, s.Disciplined c → (s.kqueue.call none c).2 = true ∧ (s.epoll.call c).2 = true := by
  have ha := reachable_agree h
  refine ⟨?_, ?_, ?_⟩
  · intro fd
    refine ⟨mask_of_wants (ha.mask fd) (ha.sync fd), ?_⟩
    rw [EpollReactor.mask, ha.epoll]
    cases hd : s.added fd with
    | true => exact EpollReactor.fromEpollEvents_toEpollEvents (ha.mask fd)
    | false => exact (ha.absent fd hd).symm
  · intro e he
    rw [ha.issued e he]
    exact ⟨fun hf => by simp [hf], fun hf => by simp [hf]⟩
  · intro c hc
    exact ⟨(ha.call hc).1, (ha.call hc).2.1⟩

instance (s : Backends) : DecidablePred s.Disciplined
  | .add _ m => inferInstanceAs (Decidable (m ∈ EventType.masks))
  | .modify fd m => inferInstanceAs (Decidable (m ∈ EventType.masks ∧ s.added fd = true))
  | .remove fd => inferInstanceAs (Decidable (s.added fd = true))

theorem interests_agree_rearmed : ∃ s : Backends,
    Transitions.Reachable step Disciplined create s ∧ s.epoll.registered 5 = some 4 ∧
      s.epoll.registered 6 = some 0 ∧ s.kqueue.interestByFd 6 = none ∧
      s.kqueue.kq.registered.mask 5 = s.epoll.mask 5 ∧ s.kqueue.kq.registered.mask 6 = s.epoll.mask 6 := by
  obtain ⟨s, hs, h5, h6, hi⟩ : ∃ s : Backends, Transitions.Reachable step Disciplined create s ∧
      s.epoll.registered 5 = some 4 ∧ s.epoll.registered 6 = some 0 ∧ s.kqueue.interestByFd 6 = none :=
    Transitions.exists_reachable [.add 5 1, .add 6 1, .modify 5 0, .modify 5 2, .add 7 3, .modify 6 0,
      .remove 7] (by decide)
  have ha := (interests_agree s hs).1
  exact ⟨s, hs, h5, h6, hi, (ha 5).1.trans (ha 5).2.symm, (ha 6).1.trans (ha 6).2.symm⟩

end Backends

end HttpBalancer.System
