import HttpBalancer.Lib.Transitions
import HttpBalancer.System.EventLoop

/-! The kqueue backend. The kernel keeps two filters for a descriptor; the reactor sends it the
differences to the mask it remembers in `interestByFd`. -/

namespace HttpBalancer.System

open Lib

inductive Filter
  | read
  | write
  deriving DecidableEq

inductive ChangeFlag
  | add
  | delete
  deriving DecidableEq

structure Change where
  ident : Fd
  filter : Filter
  flag : ChangeFlag
  deriving DecidableEq

def Filter.eventType : Filter → UInt8
  | .read => EventType.readable
  | .write => EventType.writable

def wants (mask : UInt8) (f : Filter) : Bool := mask &&& f.eventType != 0

abbrev Filters := Fd → Filter → Bool

namespace Filters

def apply (reg : Filters) (c : Change) : Filters := fun fd f =>
  if fd = c.ident ∧ f = c.filter then decide (c.flag = .add) else reg fd f

/-- A call with changes and no event list stops at the first change that fails: the one `fails` counts
off, or a delete of a filter that is not there. -/
def applyChanges (reg : Filters) : Option ℕ → List Change → Filters × Bool
  | _, [] => (reg, true)
  | fails, c :: cs =>
    if fails = some 0 ∨ (c.flag = .delete ∧ reg c.ident c.filter = false) then (reg, false)
    else applyChanges (reg.apply c) (fails.map Nat.pred) cs

def mask (reg : Filters) (fd : Fd) : UInt8 :=
  (if reg fd .read then EventType.readable else 0) ||| if reg fd .write then EventType.writable else 0

structure Due (reg : Filters) (cs : List Change) : Prop where
  distinct : cs.Pairwise fun c d => ¬ (d.ident = c.ident ∧ d.filter = c.filter)
  flag : ∀ c ∈ cs, reg c.ident c.filter = decide (c.flag = .delete)

lemma Due.tail {reg : Filters} {c : Change} {cs : List Change} (h : Due reg (c :: cs)) :
    Due (reg.apply c) cs := by
  obtain ⟨hd, ht⟩ := List.pairwise_cons.mp h.distinct
  refine ⟨ht, ?_⟩
  intro d hm
  rw [apply, if_neg (hd d hm)]
  exact h.flag d (List.mem_cons_of_mem c hm)

lemma Due.applyChanges {reg : Filters} {cs : List Change} (h : Due reg cs) (fails : Option ℕ) :
    reg.applyChanges fails cs = ((cs.take (fails.getD cs.length)).foldl apply reg,
      decide (cs.length ≤ fails.getD cs.length)) := by
  induction cs generalizing reg fails with
  | nil => simp [Filters.applyChanges]
  | cons c cs ih =>
    have hc := h.flag c List.mem_cons_self
    have hn : ¬ (c.flag = .delete ∧ reg c.ident c.filter = false) := by
      rintro ⟨hd, hr⟩
      simp [hc, hd] at hr
    rw [Filters.applyChanges]
    match fails with
    | none => simpa [hn] using ih h.tail none
    | some 0 => simp
    | some (i + 1) => simpa [hn] using ih h.tail (some i)

end Filters

/-- `issued` keeps every change handed to the kernel, with whether its filter was registered when the
call was made. -/
structure Kqueue where
  registered : Filters
  issued : List (Change × Bool)

def Kqueue.kevent (kq : Kqueue) (fails : Option ℕ) (changes : List Change) : Kqueue × Bool :=
  let (reg, ok) := kq.registered.applyChanges fails changes
  (⟨reg, kq.issued ++ changes.map fun c => (c, kq.registered c.ident c.filter)⟩, ok)

structure Kevent where
  ident : Fd
  filter : Filter
  evError : Bool
  evEof : Bool
  deriving DecidableEq

structure KqueueReactor where
  kq : Kqueue
  interestByFd : Fd → Option UInt8

namespace KqueueReactor

def create : KqueueReactor := ⟨⟨fun _ _ => false, []⟩, fun _ => none⟩

def prev (r : KqueueReactor) (fd : Fd) : UInt8 := (r.interestByFd fd).getD 0

def change (fd : Fd) (f : Filter) (want had : Bool) : List Change :=
  if want != had then [⟨fd, f, if want then .add else .delete⟩] else []

def changes (r : KqueueReactor) (fd : Fd) (interestMask : UInt8) : List Change :=
  change fd .read (wants interestMask .read) (wants (r.prev fd) .read) ++
    change fd .write (wants interestMask .write) (wants (r.prev fd) .write)

def modify (r : KqueueReactor) (fails : Option ℕ) (fd : Fd) (interestMask : UInt8) :
    KqueueReactor × Bool :=
  let changes := r.changes fd interestMask
  let (kq, ok) := if changes = [] then (r.kq, true) else r.kq.kevent fails changes
  if ok = false then ({ r with kq := kq }, false)
  else
    let entry := if interestMask = 0 then none else some interestMask
    (⟨kq, Function.update r.interestByFd fd entry⟩, true)

def add (r : KqueueReactor) (fails : Option ℕ) (fd : Fd) (interestMask : UInt8) :
    KqueueReactor × Bool :=
  r.modify fails fd interestMask

def deletes (r : KqueueReactor) (fd : Fd) : List Change :=
  (if wants (r.prev fd) .read then [⟨fd, .read, .delete⟩] else []) ++
    if wants (r.prev fd) .write then [⟨fd, .write, .delete⟩] else []

def remove (r : KqueueReactor) (fails : Option ℕ) (fd : Fd) : KqueueReactor × Bool :=
  let changes := r.deletes fd
  let kq := if changes = [] then r.kq else (r.kq.kevent fails changes).1
  (⟨kq, Function.update r.interestByFd fd none⟩, true)

def call (r : KqueueReactor) (fails : Option ℕ) : Call → KqueueReactor × Bool
  | .add fd interestMask => r.add fails fd interestMask
  | .modify fd interestMask => r.modify fails fd interestMask
  | .remove fd => r.remove fails fd

def absorb (ev : IoEvent) (k : Kevent) : IoEvent := { ev with
  mask := ev.mask ||| k.filter.eventType
  error := ev.error || (k.evError || k.evEof) }

def merge : List IoEvent → Kevent → List IoEvent
  | [], k => [absorb ⟨k.ident, 0, false⟩ k]
  | ev :: events, k => if ev.fd = k.ident then absorb ev k :: events else ev :: merge events k

/-- The source goes through a hash table at the end, so the order of the batch is not fixed. -/
def wait (kevents : List Kevent) : List IoEvent := kevents.foldl merge []

def InSyncAt (r : KqueueReactor) (fd : Fd) : Prop := ∀ f, r.kq.registered fd f = wants (r.prev fd) f

def InSync (r : KqueueReactor) : Prop := ∀ fd, r.InSyncAt fd

lemma wants_zero (f : Filter) : wants 0 f = false := by
  cases f <;> rfl

lemma deletes_eq (r : KqueueReactor) (fd : Fd) : r.deletes fd = r.changes fd 0 := by
  simp only [deletes, changes, change, wants_zero]
  cases wants (r.prev fd) .read <;> cases wants (r.prev fd) .write <;> rfl

lemma mem_change {c : Change} {fd : Fd} {f : Filter} {want had : Bool} (h : c ∈ change fd f want had) :
    c.ident = fd ∧ c.filter = f ∧ had = decide (c.flag = .delete) := by
  cases want <;> cases had <;> simp [change] at h <;> simp [h]

lemma changes_due {r : KqueueReactor} {fd : Fd} (h : r.InSyncAt fd) (m : UInt8) :
    r.kq.registered.Due (r.changes fd m) := by
  refine ⟨?_, ?_⟩
  · rw [changes, List.pairwise_append]
    refine ⟨?_, ?_, ?_⟩
    · rw [change]
      split_ifs <;> simp
    · rw [change]
      split_ifs <;> simp
    · intro c hc d hd he
      have hf := (mem_change hc).2.1
      rw [← he.2, (mem_change hd).2.1] at hf
      exact Filter.noConfusion hf
  · intro c hc
    rcases List.mem_append.mp hc with hc | hc
    · obtain ⟨rfl, hf, hd⟩ := mem_change hc
      rw [hf, h, hd]
    · obtain ⟨rfl, hf, hd⟩ := mem_change hc
      rw [hf, h, hd]

lemma foldl_change {reg : Filters} {fd : Fd} {f : Filter} {had : Bool} (h : reg fd f = had)
    (want : Bool) : (change fd f want had).foldl Filters.apply reg =
      fun fd' f' => if fd' = fd ∧ f' = f then want else reg fd' f' := by
  funext fd' f'
  by_cases hk : fd' = fd ∧ f' = f
  · obtain ⟨rfl, rfl⟩ := hk
    cases want <;> cases had <;> simp [change, Filters.apply, h]
  · cases want <;> cases had <;> simp [change, Filters.apply, hk]

lemma foldl_changes {r : KqueueReactor} {fd : Fd} (h : r.InSyncAt fd) (m : UInt8) :
    (r.changes fd m).foldl Filters.apply r.kq.registered =
      fun fd' f => if fd' = fd then wants m f else r.kq.registered fd' f := by
  rw [changes, List.foldl_append, foldl_change (h .read), foldl_change (by simp [h .write])]
  funext fd' f
  by_cases hf : fd' = fd <;> cases f <;> simp [hf]

def sent (r : KqueueReactor) (fails : Option ℕ) (fd : Fd) (m : UInt8) : Kqueue :=
  ⟨((r.changes fd m).take (fails.getD (r.changes fd m).length)).foldl Filters.apply r.kq.registered,
    r.kq.issued ++ (r.changes fd m).map fun c => (c, r.kq.registered c.ident c.filter)⟩

-- the index of a change the kernel was given and refused
def Fails (r : KqueueReactor) (fails : Option ℕ) (fd : Fd) (m : UInt8) : Prop :=
  ∃ i < (r.changes fd m).length, fails = some i

lemma not_fails_none (r : KqueueReactor) (fd : Fd) (m : UInt8) : ¬ r.Fails none fd m := by
  rintro ⟨i, -, h⟩
  cases h

lemma fails_iff (r : KqueueReactor) (fails : Option ℕ) (fd : Fd) (m : UInt8) :
    r.Fails fails fd m ↔ fails.getD (r.changes fd m).length < (r.changes fd m).length := by
  cases fails with
  | none => simp [Fails]
  | some i => simp [Fails]

instance (r : KqueueReactor) (fails : Option ℕ) (fd : Fd) (m : UInt8) :
    Decidable (r.Fails fails fd m) :=
  decidable_of_iff _ (r.fails_iff fails fd m).symm

lemma kevent_sent {r : KqueueReactor} {fd : Fd} (h : r.InSyncAt fd) (fails : Option ℕ) (m : UInt8) :
    (if r.changes fd m = [] then (r.kq, true) else r.kq.kevent fails (r.changes fd m)) =
      (r.sent fails fd m, decide (¬ r.Fails fails fd m)) := by
  have hd := (changes_due h m).applyChanges fails
  simp only [fails_iff, Nat.not_lt]
  split_ifs with hc
  · simp [sent, hc]
  · rw [Kqueue.kevent, hd]
    rfl

lemma modify_failed {r : KqueueReactor} {fails : Option ℕ} {fd : Fd} {m : UInt8} (h : r.InSyncAt fd)
    (hf : r.Fails fails fd m) : r.modify fails fd m = ({ r with kq := r.sent fails fd m }, false) := by
  simp [modify, kevent_sent h, hf]

lemma modify_succeeded {r : KqueueReactor} {fails : Option ℕ} {fd : Fd} {m : UInt8}
    (h : r.InSyncAt fd) (hf : ¬ r.Fails fails fd m) : r.modify fails fd m =
      (⟨r.sent fails fd m, Function.update r.interestByFd fd (if m = 0 then none else some m)⟩, true) := by
  simp [modify, kevent_sent h, hf]

lemma remove_sent {r : KqueueReactor} {fd : Fd} (h : r.InSyncAt fd) (fails : Option ℕ) :
    r.remove fails fd = (⟨r.sent fails fd 0, Function.update r.interestByFd fd none⟩, true) := by
  have hk := congrArg Prod.fst (kevent_sent h fails 0)
  simp only [apply_ite Prod.fst] at hk
  rw [remove, deletes_eq, hk]

lemma sent_all {r : KqueueReactor} {fails : Option ℕ} {fd : Fd} {m : UInt8} (h : r.InSyncAt fd)
    (hf : ¬ r.Fails fails fd m) : (r.sent fails fd m).registered =
      fun fd' f => if fd' = fd then wants m f else r.kq.registered fd' f := by
  rw [fails_iff, Nat.not_lt] at hf
  rw [sent, List.take_of_length_le hf, foldl_changes h]

lemma sent_issued {r : KqueueReactor} {fd : Fd} (h : r.InSyncAt fd) (fails : Option ℕ) (m : UInt8)
    (hs : ∀ e ∈ r.kq.issued, e.2 = decide (e.1.flag = .delete)) :
    ∀ e ∈ (r.sent fails fd m).issued, e.2 = decide (e.1.flag = .delete) := by
  intro e he
  rcases List.mem_append.mp he with he | he
  · exact hs e he
  · obtain ⟨c, hc, rfl⟩ := List.mem_map.mp he
    exact (changes_due h m).flag c hc

lemma prev_update (r : KqueueReactor) (kq : Kqueue) (fd fd' : Fd) (m : Option UInt8) :
    prev ⟨kq, Function.update r.interestByFd fd m⟩ fd' = if fd' = fd then m.getD 0 else r.prev fd' := by
  simp only [prev, Function.update_apply]
  split_ifs <;> rfl

lemma entry_getD (m : UInt8) : (if m = 0 then none else some m).getD 0 = m := by
  split_ifs with h
  · exact h.symm
  · rfl

lemma merge_fds (events : List IoEvent) (k : Kevent) : (merge events k).map IoEvent.fd =
    if k.ident ∈ events.map IoEvent.fd then events.map IoEvent.fd
    else events.map IoEvent.fd ++ [k.ident] := by
  induction events with
  | nil => rfl
  | cons ev events ih =>
    rw [merge]
    by_cases h : ev.fd = k.ident
    · simp [h, absorb]
    · have h' : k.ident ≠ ev.fd := Ne.symm h
      simp only [h, if_false, List.map_cons, ih, List.mem_cons, h', false_or]
      split_ifs <;> rfl

lemma wait_concat (kevents : List Kevent) (k : Kevent) :
    wait (kevents ++ [k]) = merge (wait kevents) k := by
  simp [wait]

lemma wait_nodup (kevents : List Kevent) : ((wait kevents).map IoEvent.fd).Nodup := by
  induction kevents using List.reverseRecOn with
  | nil => exact .nil
  | append_singleton kevents k ih =>
    rw [wait_concat, merge_fds]
    split_ifs with hk
    · exact ih
    · exact List.Nodup.append ih (List.nodup_singleton _) (by simpa using hk)

-- `merged[fd]`, which is made on first use
def slot (events : List IoEvent) (fd : Fd) : IoEvent :=
  (events.find? fun ev => ev.fd = fd).getD ⟨fd, 0, false⟩

lemma slot_fd (events : List IoEvent) (fd : Fd) : (slot events fd).fd = fd := by
  rw [slot]
  cases h : events.find? fun ev => ev.fd = fd with
  | none => rfl
  | some ev => simpa using List.find?_some h

lemma slot_of_mem {events : List IoEvent} (hn : (events.map IoEvent.fd).Nodup) {ev : IoEvent}
    (h : ev ∈ events) : slot events ev.fd = ev := by
  induction events with
  | nil => simp at h
  | cons ev' events ih =>
    obtain ⟨hf, ht⟩ := List.nodup_cons.mp hn
    rcases List.mem_cons.mp h with rfl | h
    · simp [slot]
    · have hne : ev'.fd ≠ ev.fd := fun he => hf (he ▸ List.mem_map_of_mem h)
      simpa [slot, hne] using ih ht h

lemma slot_merge (events : List IoEvent) (k : Kevent) (fd : Fd) :
    slot (merge events k) fd = if fd = k.ident then absorb (slot events fd) k else slot events fd := by
  induction events with
  | nil =>
    by_cases hf : fd = k.ident
    · simp [slot, merge, absorb, hf]
    · simp [slot, merge, absorb, hf, Ne.symm hf]
  | cons ev events ih =>
    rw [merge]
    by_cases hk : ev.fd = k.ident
    · by_cases hf : fd = k.ident
      · simp [slot, absorb, hk, hf]
      · simp [slot, absorb, hk, hf, Ne.symm hf]
    · by_cases he : ev.fd = fd
      · simp [slot, he, show fd ≠ k.ident from he ▸ hk]
      · simpa [slot, hk, he] using ih

structure Merges (kevents : List Kevent) (ev : IoEvent) : Prop where
  mask : ev.mask ∈ EventType.masks
  filters : ∀ f, wants ev.mask f = true ↔ ∃ k ∈ kevents, k.ident = ev.fd ∧ k.filter = f
  error : ev.error = true ↔ ∃ k ∈ kevents, k.ident = ev.fd ∧ (k.evError = true ∨ k.evEof = true)

lemma mask_absorb {m : UInt8} (h : m ∈ EventType.masks) (g : Filter) :
    m ||| g.eventType ∈ EventType.masks ∧
      ∀ f, wants (m ||| g.eventType) f = true ↔ wants m f = true ∨ g = f := by
  simp only [EventType.masks, List.mem_cons, List.not_mem_nil, or_false] at h
  constructor
  · rcases h with rfl | rfl | rfl | rfl <;> cases g <;> decide
  · intro f
    rcases h with rfl | rfl | rfl | rfl <;> cases g <;> cases f <;> decide

lemma mask_ext {a b : UInt8} (ha : a ∈ EventType.masks) (hb : b ∈ EventType.masks)
    (h : ∀ f, wants a f = true ↔ wants b f = true) : a = b := by
  have hr := h .read
  have hw := h .write
  simp only [EventType.masks, List.mem_cons, List.not_mem_nil, or_false] at ha hb
  rcases ha with rfl | rfl | rfl | rfl <;> rcases hb with rfl | rfl | rfl | rfl <;>
    first | rfl | exact absurd hr (by decide) | exact absurd hw (by decide)

lemma Merges.absorb {kevents : List Kevent} {k : Kevent} {ev : IoEvent} (h : Merges kevents ev)
    (hk : ev.fd = k.ident) : Merges (kevents ++ [k]) (absorb ev k) := by
  obtain ⟨hm, hw⟩ := mask_absorb h.mask k.filter
  refine ⟨hm, ?_, ?_⟩
  · intro f
    rw [KqueueReactor.absorb, hw f, h.filters f]
    simp [or_and_right, exists_or, hk]
  · simp [KqueueReactor.absorb, h.error, or_and_right, exists_or, hk]

lemma Merges.skip {kevents : List Kevent} {k : Kevent} {ev : IoEvent} (h : Merges kevents ev)
    (hk : ev.fd ≠ k.ident) : Merges (kevents ++ [k]) ev := by
  have hk' : k.ident ≠ ev.fd := Ne.symm hk
  refine ⟨h.mask, ?_, ?_⟩
  · intro f
    rw [h.filters f]
    simp [or_and_right, exists_or, hk']
  · rw [h.error]
    simp [or_and_right, exists_or, hk']

lemma slot_merges (kevents : List Kevent) (fd : Fd) : Merges kevents (slot (wait kevents) fd) := by
  induction kevents using List.reverseRecOn with
  | nil => exact ⟨List.mem_cons_self, fun f => by simp [wait, slot, wants_zero], by simp [wait, slot]⟩
  | append_singleton kevents k ih =>
    rw [wait_concat, slot_merge]
    split_ifs with hf
    · exact ih.absorb ((slot_fd _ _).trans hf)
    · exact ih.skip fun he => hf ((slot_fd _ _).symm.trans he)

lemma wait_fds (kevents : List Kevent) (fd : Fd) :
    fd ∈ (wait kevents).map IoEvent.fd ↔ fd ∈ kevents.map Kevent.ident := by
  induction kevents using List.reverseRecOn with
  | nil => simp [wait]
  | append_singleton kevents k ih =>
    rw [wait_concat, merge_fds, List.map_append, List.mem_append, ← ih]
    split_ifs with hk
    · constructor
      · exact Or.inl
      · rintro (h | h)
        · exact h
        · obtain rfl : fd = k.ident := by simpa using h
          exact hk
    · simp

lemma Merges.unique {kevents : List Kevent} {ev ev' : IoEvent} (h : Merges kevents ev)
    (h' : Merges kevents ev') (hf : ev.fd = ev'.fd) : ev = ev' := by
  obtain ⟨fd, m, e⟩ := ev
  obtain ⟨fd', m', e'⟩ := ev'
  obtain rfl : fd = fd' := hf
  have hm : m = m' := mask_ext h.mask h'.mask fun f => (h.filters f).trans (h'.filters f).symm
  have he : e = e' := Bool.eq_iff_iff.mpr (h.error.trans h'.error.symm)
  rw [hm, he]

lemma mem_wait_iff {kevents : List Kevent} {ev : IoEvent} :
    ev ∈ wait kevents ↔ Merges kevents ev ∧ ev.fd ∈ kevents.map Kevent.ident := by
  have hs : ∀ ev ∈ wait kevents, Merges kevents ev := by
    intro ev h
    have hm := slot_merges kevents ev.fd
    rwa [slot_of_mem (wait_nodup kevents) h] at hm
  constructor
  · intro h
    exact ⟨hs ev h, (wait_fds kevents ev.fd).mp (List.mem_map_of_mem h)⟩
  · rintro ⟨hm, hf⟩
    obtain ⟨ev', he, hfd⟩ := List.mem_map.mp ((wait_fds kevents ev.fd).mpr hf)
    rwa [hm.unique (hs ev' he) hfd.symm]

lemma Merges.perm {kevents kevents' : List Kevent} {ev : IoEvent} (hp : kevents.Perm kevents')
    (h : Merges kevents ev) : Merges kevents' ev := by
  refine ⟨h.mask, ?_, ?_⟩
  · intro f
    simp only [h.filters, hp.mem_iff]
  · simp only [h.error, hp.mem_iff]

lemma wait_perm {kevents kevents' : List Kevent} (hp : kevents.Perm kevents') :
    (wait kevents).Perm (wait kevents') := by
  apply (List.perm_ext_iff_of_nodup (wait_nodup kevents).of_map (wait_nodup kevents').of_map).mpr
  intro ev
  rw [mem_wait_iff, mem_wait_iff, (hp.map Kevent.ident).mem_iff]
  constructor
  · exact fun h => ⟨h.1.perm hp, h.2⟩
  · exact fun h => ⟨h.1.perm hp.symm, h.2⟩

/-- `out` is what the loop over the hash table pushes, in its order. -/
theorem wait_merges (kevents : List Kevent) (out : List IoEvent) (h : out.Perm (wait kevents)) :
    (out.map IoEvent.fd).Nodup ∧
    (∀ fd, fd ∈ out.map IoEvent.fd ↔ fd ∈ kevents.map Kevent.ident) ∧
    (∀ ev ∈ out, Merges kevents ev) ∧
    ∀ kevents' out', kevents.Perm kevents' → out'.Perm (wait kevents') → out.Perm out' := by
  have hf := h.map IoEvent.fd
  refine ⟨hf.nodup_iff.mpr (wait_nodup kevents), ?_, ?_, ?_⟩
  · intro fd
    rw [hf.mem_iff, wait_fds]
  · intro ev he
    exact (mem_wait_iff.mp (h.mem_iff.mp he)).1
  · intro kevents' out' hp h'
    exact h.trans ((wait_perm hp).trans h'.symm)

theorem wait_merges_repeated :
    let kevents : List Kevent := [⟨7, .write, false, true⟩, ⟨9, .read, false, false⟩,
      ⟨7, .read, false, false⟩, ⟨7, .write, false, false⟩]
    let out : List IoEvent := [⟨9, 1, false⟩, ⟨7, 3, true⟩]
    out.Perm (wait kevents) ∧ (out.map IoEvent.fd).Nodup ∧ ∀ ev ∈ out, Merges kevents ev := by
  intro kevents out
  have h : out.Perm (wait kevents) := by decide
  obtain ⟨hn, -, hm, -⟩ := wait_merges kevents out h
  exact ⟨h, hn, hm⟩

end KqueueReactor

end HttpBalancer.System
