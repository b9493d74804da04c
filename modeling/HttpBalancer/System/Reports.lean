import HttpBalancer.System.EpollReactor
import HttpBalancer.System.KqueueReactor
import HttpBalancer.System.Reactor

/-! What the kernel hands to `wait` for what is registered with it, and what the backends make of it. -/

namespace HttpBalancer.System

lemma eventType_and {m : UInt8} {f : Filter} (h : wants m f = true) : f.eventType &&& m = f.eventType := by
  have hr : ∀ x : BitVec 8, x &&& 1 ≠ 0 → 1 &&& x = 1 := by decide +kernel
  have hw : ∀ x : BitVec 8, x &&& 2 ≠ 0 → 2 &&& x = 2 := by decide +kernel
  have hn : m &&& f.eventType ≠ 0 := by simpa [wants] using h
  cases f with
  | read => exact UInt8.toBitVec_inj.mp (hr _ fun he => hn (UInt8.toBitVec_inj.mp he))
  | write => exact UInt8.toBitVec_inj.mp (hw _ fun he => hn (UInt8.toBitVec_inj.mp he))

lemma or_and {a b m : UInt8} (ha : a &&& m = a) (hb : b &&& m = b) : (a ||| b) &&& m = a ||| b := by
  have ha' := congrArg UInt8.toNat ha
  have hb' := congrArg UInt8.toNat hb
  apply UInt8.toNat_inj.mp
  simp only [UInt8.toNat_and, UInt8.toNat_or] at ha' hb' ⊢
  rw [Nat.and_or_distrib_right, ha', hb']

lemma mask_and_of_wants {a m : UInt8} (ha : a ∈ EventType.masks)
    (h : ∀ f, wants a f = true → wants m f = true) : a &&& m = a := by
  have hf : ∀ f, wants a f = true → f.eventType &&& m = f.eventType := fun f hf => eventType_and (h f hf)
  simp only [EventType.masks, List.mem_cons, List.not_mem_nil, or_false] at ha
  rcases ha with rfl | rfl | rfl | rfl
  · exact UInt8.zero_and
  · exact hf .read rfl
  · exact hf .write rfl
  · exact or_and (hf .read rfl) (hf .write rfl)

def Filter.epollEvent : Filter → UInt32
  | .read => Epoll.epollin
  | .write => Epoll.epollout

lemma fromEpollEvents_mem (events : UInt32) : fromEpollEvents events ∈ EventType.masks := by
  rw [fromEpollEvents]
  split_ifs <;> decide

lemma wants_fromEpollEvents (events : UInt32) (f : Filter) :
    wants (fromEpollEvents events) f = true ↔ events &&& f.epollEvent ≠ 0 := by
  rw [fromEpollEvents]
  cases f with
  | read =>
    rw [Filter.epollEvent]
    split_ifs with hr hw hw
    · exact iff_of_true (by decide) hr
    · exact iff_of_true (by decide) hr
    · exact iff_of_false (by decide) hr
    · exact iff_of_false (by decide) hr
  | write =>
    rw [Filter.epollEvent]
    split_ifs with hr hw hw
    · exact iff_of_true (by decide) hw
    · exact iff_of_false (by decide) hw
    · exact iff_of_true (by decide) hw
    · exact iff_of_false (by decide) hw

lemma toEpollEvents_and (m : UInt8) (f : Filter) :
    toEpollEvents m &&& f.epollEvent ≠ 0 ↔ wants m f = true := by
  rw [toEpollEvents, wants, bne_iff_ne]
  cases f with
  | read =>
    rw [Filter.epollEvent, Filter.eventType]
    split_ifs with hr hw hw
    · exact iff_of_true (by decide) hr
    · exact iff_of_true (by decide) hr
    · exact iff_of_false (by decide) hr
    · exact iff_of_false (by decide) hr
  | write =>
    rw [Filter.epollEvent, Filter.eventType]
    split_ifs with hr hw hw
    · exact iff_of_true (by decide) hw
    · exact iff_of_false (by decide) hw
    · exact iff_of_true (by decide) hw
    · exact iff_of_false (by decide) hw

/-- `out` is the order in which `KqueueReactor::wait` goes through its table. -/
inductive Report
  | kevents (ks : List Kevent) (out : List IoEvent)
  | epollEvents (es : List (Fd × UInt32))

namespace Report

def events : Report → List IoEvent
  | .kevents _ out => out
  | .epollEvents es => EpollReactor.wait es

/-- The kernel reports registered filters only; epoll reports each descriptor once, with events that
were asked for, errors and hangups, and never without one of these. -/
def Possible (filters : Filters) (registered : Epoll.Registered) : Backend → Report → Prop
  | .kqueue, .kevents ks out =>
    out.Perm (KqueueReactor.wait ks) ∧ ∀ k ∈ ks, filters k.ident k.filter = true
  | .epoll, .epollEvents es =>
    (es.map Prod.fst).Nodup ∧ ∀ e ∈ es, ∃ reg ∈ registered e.1,
      (e.2 &&& Epoll.epollin ≠ 0 → reg &&& Epoll.epollin ≠ 0) ∧
      (e.2 &&& Epoll.epollout ≠ 0 → reg &&& Epoll.epollout ≠ 0) ∧
      (fromEpollEvents e.2 ≠ 0 ∨ e.2 &&& (Epoll.epollerr ||| Epoll.epollhup) ≠ 0)
  | _, _ => False

instance (filters : Filters) (registered : Epoll.Registered) :
    ∀ (b : Backend) (r : Report), Decidable (Possible filters registered b r)
  | .kqueue, .kevents ks out => inferInstanceAs (Decidable (out.Perm (KqueueReactor.wait ks) ∧
      ∀ k ∈ ks, filters k.ident k.filter = true))
  | .epoll, .epollEvents es => inferInstanceAs (Decidable ((es.map Prod.fst).Nodup ∧ ∀ e ∈ es,
      ∃ reg ∈ registered e.1,
        (e.2 &&& Epoll.epollin ≠ 0 → reg &&& Epoll.epollin ≠ 0) ∧
        (e.2 &&& Epoll.epollout ≠ 0 → reg &&& Epoll.epollout ≠ 0) ∧
        (fromEpollEvents e.2 ≠ 0 ∨ e.2 &&& (Epoll.epollerr ||| Epoll.epollhup) ≠ 0)))
  | .kqueue, .epollEvents _ => inferInstanceAs (Decidable False)
  | .epoll, .kevents _ _ => inferInstanceAs (Decidable False)

variable {filters : Filters} {registered : Epoll.Registered} {st : State}

lemma kevents_reports {ks : List Kevent} (hf : ∀ fd f, filters fd f = wants (st.mask fd) f)
    (hk : ∀ k ∈ ks, filters k.ident k.filter = true) {ev : IoEvent} (hev : ev ∈ KqueueReactor.wait ks) :
    Backend.kqueue.Reports st ev := by
  obtain ⟨hm, hi⟩ := KqueueReactor.mem_wait_iff.mp hev
  have hw : ∀ k ∈ ks, wants (st.mask k.ident) k.filter = true := fun k hk' => hf k.ident k.filter ▸ hk k hk'
  refine ⟨mask_and_of_wants hm.mask ?_, ?_⟩
  · intro f hwant
    obtain ⟨k, hmem, he, rfl⟩ := (hm.filters f).mp hwant
    exact he ▸ hw k hmem
  · obtain ⟨k, hmem, he⟩ := List.mem_map.mp hi
    intro hz
    have hk' := hw k hmem
    rw [he, hz, KqueueReactor.wants_zero] at hk'
    exact Bool.false_ne_true hk'

lemma epollEvents_reports {e : Fd × UInt32} {reg : UInt32}
    (hr : registered e.1 = (st.interest e.1).map toEpollEvents) (hreg : registered e.1 = some reg)
    (hin : e.2 &&& Epoll.epollin ≠ 0 → reg &&& Epoll.epollin ≠ 0)
    (hout : e.2 &&& Epoll.epollout ≠ 0 → reg &&& Epoll.epollout ≠ 0)
    (hany : fromEpollEvents e.2 ≠ 0 ∨ e.2 &&& (Epoll.epollerr ||| Epoll.epollhup) ≠ 0) :
    Backend.epoll.Reports st
      ⟨e.1, fromEpollEvents e.2, e.2 &&& (Epoll.epollerr ||| Epoll.epollhup) != 0⟩ := by
  obtain ⟨m, hm, rfl⟩ := Option.map_eq_some_iff.mp (hr.symm.trans hreg)
  refine ⟨mask_and_of_wants (fromEpollEvents_mem e.2) fun f hf => ?_, by simp [hm], hany.imp_right (by simp)⟩
  rw [State.mask, hm, Option.getD_some, ← toEpollEvents_and]
  rw [wants_fromEpollEvents] at hf
  cases f with
  | read => exact hin hf
  | write => exact hout hf

lemma Possible.reports (hf : ∀ fd f, filters fd f = wants (st.mask fd) f)
    (hr : ∀ fd, registered fd = (st.interest fd).map toEpollEvents) {b : Backend} {report : Report}
    (h : Possible filters registered b report) :
    (report.events.map IoEvent.fd).Nodup ∧ ∀ ev ∈ report.events, b.Reports st ev := by
  cases b with
  | kqueue =>
    cases report with
    | kevents ks out =>
      obtain ⟨hp, hk⟩ := h
      refine ⟨(hp.map IoEvent.fd).nodup_iff.mpr (KqueueReactor.wait_nodup ks), fun ev hev => ?_⟩
      exact kevents_reports hf hk (hp.mem_iff.mp hev)
    | epollEvents es => exact h.elim
  | epoll =>
    cases report with
    | kevents ks out => exact h.elim
    | epollEvents es =>
      obtain ⟨hn, he⟩ := h
      refine ⟨?_, fun ev hev => ?_⟩
      · rw [events, EpollReactor.wait, List.map_map]
        exact hn
      · obtain ⟨e, hm, rfl⟩ := List.mem_map.mp hev
        obtain ⟨reg, hreg, hin, hout, hany⟩ := he e hm
        exact epollEvents_reports (hr e.1) hreg hin hout hany

end Report

end HttpBalancer.System
