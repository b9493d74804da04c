import HttpBalancer.Lib.Transitions

/-! Programs that make calls to a system, as blocks of code that end in a result or in a jump, and rules
of pre- and postconditions for them. A loop is a label, and what holds at a label is its invariant. -/

namespace HttpBalancer.Lib

variable {C : Type} {R : C → Type} {L α κ : Type}

inductive Block (C : Type) (R : C → Type) (L α : Type)
  | ret (a : α)
  | jump (l : L)
  | call (c : C) (k : R c → Block C R L α)

structure Contract (C : Type) (R : C → Type) (κ : Type) where
  allowed : κ → C → Prop
  next : κ → (c : C) → R c → κ → Prop

namespace Block

variable {K : Contract C R κ} {code : L → Block C R L α} {I : L → κ → Prop} {Q : α → κ → Prop}

def wp (K : Contract C R κ) (I : L → κ → Prop) (Q : α → κ → Prop) : Block C R L α → κ → Prop
  | ret a, s => Q a s
  | jump l, s => I l s
  | call c k, s => K.allowed s c ∧ ∀ r s', K.next s c r s' → wp K I Q (k r) s'

def Upholds (K : Contract C R κ) (code : L → Block C R L α) (I : L → κ → Prop) (Q : α → κ → Prop) : Prop :=
  ∀ l s, I l s → wp K I Q (code l) s

inductive Exec (K : Contract C R κ) (code : L → Block C R L α) : Block C R L α → κ → α → κ → Prop
  | ret (a : α) (s : κ) : Exec K code (.ret a) s a s
  | jump {l : L} {s s' : κ} {a : α} : Exec K code (code l) s a s' → Exec K code (.jump l) s a s'
  | call {c : C} {k : R c → Block C R L α} {s s' t : κ} {a : α} (r : R c) : K.next s c r s' →
      Exec K code (k r) s' a t → Exec K code (.call c k) s a t

lemma Exec.sound {b : Block C R L α} {s s' : κ} {a : α} (h : Exec K code b s a s')
    (hc : Upholds K code I Q) (hb : b.wp K I Q s) : Q a s' := by
  induction h with
  | ret a s => exact hb
  | jump _ ih => exact ih (hc _ _ hb)
  | call r hn _ ih => exact ih (hb.2 r _ hn)

end Block

/-- Calls on handles of type `H`, each in a state of type `M`. An open handle is held by a caller or lies on a
shelf, where a call `gives` it and another `takes` it. `uses` is a second handle a call needs. -/
structure Protocol (C : Type) (R : C → Type) (H M : Type) where
  on : C → Option H
  uses : C → Option H
  fits : C → M → Prop
  serves : M → Prop
  shelved : M → Prop
  closes : C → Bool
  gives : C → M → Bool
  act : (c : C) → R c → M → M
  opens : (c : C) → R c → Option (H × M)
  takes : (c : C) → R c → Option H
  gives_open : ∀ c m, gives c m = true → closes c = false

namespace Protocol

variable {H M : Type} [DecidableEq H] (P : Protocol C R H M)

def kept (own : H → Option M) (c : C) (r : R c) : H → Option M := fun h =>
  if P.on c = some h then
    (own h).bind fun m => if P.closes c || P.gives c m then none else some (P.act c r m)
  else own h

-- what a caller that holds `own` holds after a call
def after (own shelf : H → Option M) (c : C) (r : R c) : H → Option M := fun h =>
  if (P.opens c r).map Prod.fst = some h then (P.opens c r).map Prod.snd
  else if P.takes c r = some h then shelf h
  else P.kept own c r h

def left (own shelf : H → Option M) (c : C) (r : R c) : H → Option M := fun h =>
  if P.takes c r = some h then none
  else if P.on c = some h then
    ((own h).bind fun m => if P.gives c m then some (P.act c r m) else none).or (shelf h)
  else shelf h

-- the system's own table
def table (opened : H → Bool) (c : C) (r : R c) : H → Bool := fun h =>
  if (P.opens c r).map Prod.fst = some h then true
  else if P.on c = some h ∧ P.closes c = true then false
  else opened h

def Used (own : H → Option M) (c : C) : Prop := ∀ h, P.uses c = some h → ∃ m, own h = some m ∧ P.serves m

def contract : Contract C R (H → Option M) where
  allowed own c := (∀ h, P.on c = some h →
    ∃ m, own h = some m ∧ P.fits c m ∧ (P.gives c m = true → ∀ r, P.shelved (P.act c r m))) ∧ P.Used own c
  next own c r own' := ∃ shelf, (∀ h m, shelf h = some m → own h = none ∧ P.shelved m) ∧
    (∀ h m, P.opens c r = some (h, m) → own h = none) ∧ (∀ h, P.takes c r = some h → shelf h ≠ none) ∧
    own' = P.after own shelf c r

structure Plain (c : C) : Prop where
  closes : P.closes c = false
  opens : ∀ r, P.opens c r = none
  takes : ∀ r, P.takes c r = none

variable {P} {own shelf : H → Option M} {c : C} {r : R c} {h : H} {m : M}

lemma after_kept (ho : P.opens c r = none) (ht : P.takes c r = none) :
    P.after own shelf c r = P.kept own c r := by
  funext h
  simp [after, ho, ht]

lemma after_opens (ho : P.opens c r = some (h, m)) (ht : P.takes c r = none) :
    P.after own shelf c r = Function.update (P.kept own c r) h (some m) := by
  funext h'
  simp [after, ho, ht, Function.update_apply, eq_comm]

lemma after_takes (ho : P.opens c r = none) (ht : P.takes c r = some h) :
    P.after own shelf c r = Function.update (P.kept own c r) h (shelf h) := by
  funext h'
  by_cases he : h' = h
  · subst he
    simp [after, ho, ht]
  · simp [after, ho, ht, Function.update_of_ne he, Ne.symm he]

lemma kept_free (hon : P.on c = none) : P.kept own c r = own := by
  funext h
  simp [kept, hon]

lemma kept_on (hon : P.on c = some h) (hm : own h = some m) : P.kept own c r =
    Function.update own h (if P.closes c || P.gives c m then none else some (P.act c r m)) := by
  funext h'
  by_cases he : h' = h
  · subst he
    simp [kept, hon, hm]
  · simp [kept, hon, Function.update_of_ne he, Ne.symm he]

section Rules

variable {I : L → (H → Option M) → Prop} {Q : α → (H → Option M) → Prop} {k : R c → Block C R L α}

lemma wp_free (hp : P.Plain c) (hu : P.Used own c) (hon : P.on c = none)
    (hk : ∀ r, (k r).wp P.contract I Q own) : (Block.call c k).wp P.contract I Q own := by
  refine ⟨⟨fun h hh => by simp [hon] at hh, hu⟩, ?_⟩
  rintro r _ ⟨shelf, -, -, -, rfl⟩
  rw [after_kept (hp.opens r) (hp.takes r), kept_free hon]
  exact hk r

lemma wp_keep (hp : P.Plain c) (hu : P.Used own c) (hon : P.on c = some h) (hm : own h = some m)
    (hg : P.gives c m = false) (hf : P.fits c m)
    (hk : ∀ r, (k r).wp P.contract I Q (Function.update own h (some (P.act c r m)))) :
    (Block.call c k).wp P.contract I Q own := by
  refine ⟨⟨fun h' hh => ?_, hu⟩, ?_⟩
  · obtain rfl := Option.some.inj (hon.symm.trans hh)
    exact ⟨m, hm, hf, fun hgive => absurd (hg.symm.trans hgive) Bool.false_ne_true⟩
  · rintro r _ ⟨shelf, -, -, -, rfl⟩
    rw [after_kept (hp.opens r) (hp.takes r), kept_on hon hm, hp.closes, hg]
    exact hk r

lemma wp_same (hp : P.Plain c) (hu : P.Used own c) (hon : P.on c = some h) (hm : own h = some m)
    (hg : P.gives c m = false) (hf : P.fits c m) (ha : ∀ r, P.act c r m = m)
    (hk : ∀ r, (k r).wp P.contract I Q own) : (Block.call c k).wp P.contract I Q own := by
  refine wp_keep hp hu hon hm hg hf fun r => ?_
  rw [ha r, ← hm, Function.update_eq_self]
  exact hk r

lemma wp_give (hp : P.Plain c) (hu : P.Used own c) (hon : P.on c = some h) (hm : own h = some m)
    (hg : P.gives c m = true) (hf : P.fits c m) (hs : ∀ r, P.shelved (P.act c r m))
    (hk : ∀ r, (k r).wp P.contract I Q (Function.update own h none)) :
    (Block.call c k).wp P.contract I Q own := by
  refine ⟨⟨fun h' hh => ?_, hu⟩, ?_⟩
  · obtain rfl := Option.some.inj (hon.symm.trans hh)
    exact ⟨m, hm, hf, fun _ => hs⟩
  · rintro r _ ⟨shelf, -, -, -, rfl⟩
    rw [after_kept (hp.opens r) (hp.takes r), kept_on hon hm, hg, Bool.or_true]
    exact hk r

lemma wp_close (hc : P.closes c = true) (ho : ∀ r, P.opens c r = none) (ht : ∀ r, P.takes c r = none)
    (hu : P.Used own c) (hon : P.on c = some h) (hm : own h = some m) (hf : P.fits c m)
    (hk : ∀ r, (k r).wp P.contract I Q (Function.update own h none)) :
    (Block.call c k).wp P.contract I Q own := by
  refine ⟨⟨fun h' hh => ?_, hu⟩, ?_⟩
  · obtain rfl := Option.some.inj (hon.symm.trans hh)
    exact ⟨m, hm, hf, fun hg => absurd ((P.gives_open c m hg).symm.trans hc) Bool.false_ne_true⟩
  · rintro r _ ⟨shelf, -, -, -, rfl⟩
    rw [after_kept (ho r) (ht r), kept_on hon hm, hc, Bool.true_or]
    exact hk r

lemma wp_open (hu : P.Used own c) (hon : ∀ h, P.on c = some h → ∃ m, own h = some m ∧ P.fits c m)
    (hc : P.closes c = false) (hg : ∀ m, P.gives c m = false) (ha : ∀ r m, P.act c r m = m)
    (ht : ∀ r, P.takes c r = none) (hn : ∀ r, P.opens c r = none → (k r).wp P.contract I Q own)
    (hk : ∀ r h m, P.opens c r = some (h, m) → own h = none →
      (k r).wp P.contract I Q (Function.update own h (some m))) :
    (Block.call c k).wp P.contract I Q own := by
  have hkept : ∀ r, P.kept own c r = own := by
    intro r
    cases hon' : P.on c with
    | none => exact kept_free hon'
    | some h =>
      obtain ⟨m, hm, -⟩ := hon h hon'
      rw [kept_on hon' hm, hc, hg, ha, ← hm]
      exact Function.update_eq_self h own
  refine ⟨⟨fun h hh => ?_, hu⟩, ?_⟩
  · obtain ⟨m, hm, hf⟩ := hon h hh
    exact ⟨m, hm, hf, fun hgive => absurd ((hg m).symm.trans hgive) Bool.false_ne_true⟩
  · rintro r _ ⟨shelf, -, hfresh, -, rfl⟩
    cases ho : P.opens c r with
    | none =>
      rw [after_kept ho (ht r), hkept]
      exact hn r ho
    | some e =>
      rw [after_opens ho (ht r), hkept]
      exact hk r e.1 e.2 ho (hfresh _ _ ho)

lemma wp_take (hu : P.Used own c) (hon : P.on c = none) (ho : ∀ r, P.opens c r = none)
    (hn : ∀ r, P.takes c r = none → (k r).wp P.contract I Q own)
    (hk : ∀ r h m, P.takes c r = some h → own h = none → P.shelved m →
      (k r).wp P.contract I Q (Function.update own h (some m))) :
    (Block.call c k).wp P.contract I Q own := by
  refine ⟨⟨fun h hh => by simp [hon] at hh, hu⟩, ?_⟩
  rintro r _ ⟨shelf, hshelf, -, htaken, rfl⟩
  cases ht : P.takes c r with
  | none =>
    rw [after_kept (ho r) ht, kept_free hon]
    exact hn r ht
  | some h =>
    obtain ⟨m, hm⟩ := Option.ne_none_iff_exists'.mp (htaken h ht)
    rw [after_takes (ho r) ht, kept_free hon, hm]
    exact hk r h m ht (hshelf h m hm).1 (hshelf h m hm).2

end Rules

end Protocol

inductive Placed {O M : Type} [DecidableEq O] : Bool → (O → Option M) → Prop
  | shut : Placed false fun _ => none
  | held (o : O) (m : M) : Placed true (Function.update (fun _ => none) o (some m))

lemma Placed.iff {O M : Type} [DecidableEq O] {b : Bool} {f : O → Option M} (h : Placed b f) :
    b = true ↔ ∃! o, f o ≠ none := by
  cases h with
  | shut => simp [ExistsUnique]
  | held o m =>
    refine ⟨fun _ => ⟨o, by simp, fun o' ho' => ?_⟩, fun _ => rfl⟩
    by_contra hne
    exact ho' (Function.update_of_ne hne _ _)

lemma Placed.unique {O M : Type} [DecidableEq O] {b : Bool} {f : O → Option M} (h : Placed b f) {o : O} {m : M}
    (ho : f o = some m) : b = true ∧ f = Function.update (fun _ => none) o (some m) := by
  cases h with
  | shut => cases ho
  | held o' m' =>
    by_cases he : o = o'
    · subst he
      rw [Function.update_self] at ho
      exact ⟨rfl, by rw [Option.some.inj ho]⟩
    · rw [Function.update_of_ne he] at ho
      cases ho

lemma Placed.of_only {O M : Type} [DecidableEq O] {f : O → Option M} {o : O} {m : M} (h : f o = some m)
    (hne : ∀ o', o' ≠ o → f o' = none) : Placed true f := by
  have hf : f = Function.update (fun _ => none) o (some m) := by
    funext o'
    by_cases he : o' = o
    · rw [he, Function.update_self, h]
    · rw [Function.update_of_ne he, hne o' he]
  exact hf ▸ .held o m

/-- `own (some i)` is what a thread holds and `own none` the shelf; no thread reads them. -/
structure Crew (C : Type) (R : C → Type) (H M L α T : Type) where
  opened : H → Bool
  running : T → Option (Block C R L α)
  own : Option T → H → Option M

namespace Crew

inductive Label (C : Type) (R : C → Type) (L α T : Type)
  | start (i : T) (b : Block C R L α)
  | answer (i : T) (f : ∀ c, R c)
  | jump (i : T)
  | finish (i : T)

variable {H M T : Type} [DecidableEq H] [DecidableEq T]

def share (P : Protocol C R H M) (own : Option T → H → Option M) (i : T) (c : C) (r : R c) :
    Option T → H → Option M := fun o =>
  if o = some i then P.after (own (some i)) (own none) c r
  else if o = none then P.left (own (some i)) (own none) c r
  else own o

def step (P : Protocol C R H M) (code : L → Block C R L α) (s : Crew C R H M L α T) :
    Label C R L α T → Option (Crew C R H M L α T)
  | .start i b =>
    match s.running i with
    | none => some { s with running := Function.update s.running i (some b) }
    | some _ => none
  | .answer i f =>
    match s.running i with
    | some (.call c k) => some {
        opened := P.table s.opened c (f c)
        running := Function.update s.running i (some (k (f c)))
        own := share P s.own i c (f c) }
    | _ => none
  | .jump i =>
    match s.running i with
    | some (.jump l) => some { s with running := Function.update s.running i (some (code l)) }
    | _ => none
  | .finish i =>
    match s.running i with
    | some (.ret _) => some { s with running := Function.update s.running i none }
    | _ => none

def Possible (P : Protocol C R H M) (entry : T → (H → Option M) → Block C R L α → Prop)
    (s : Crew C R H M L α T) : Label C R L α T → Prop
  | .start i b => entry i (s.own (some i)) b
  | .answer i f => ∀ c k, s.running i = some (.call c k) →
      (∀ h m, P.opens c (f c) = some (h, m) → s.opened h = false) ∧
      ∀ h, P.takes c (f c) = some h → s.own none h ≠ none
  | _ => True

structure Sound (P : Protocol C R H M) (I : T → L → (H → Option M) → Prop) (idle : T → (H → Option M) → Prop)
    (s : Crew C R H M L α T) : Prop where
  placed : ∀ h, Placed (s.opened h) fun o => s.own o h
  shelved : ∀ h m, s.own none h = some m → P.shelved m
  safe : ∀ i b, s.running i = some b → b.wp P.contract (I i) (fun _ => idle i) (s.own (some i))
  rest : ∀ i, s.running i = none → idle i (s.own (some i))

variable {P : Protocol C R H M} {code : L → Block C R L α} {I : T → L → (H → Option M) → Prop}
  {idle : T → (H → Option M) → Prop} {entry : T → (H → Option M) → Block C R L α → Prop}
  {s t : Crew C R H M L α T} {l : Label C R L α T} {opened : H → Bool} {own : Option T → H → Option M}
  {i : T} {c : C} {r : R c}

lemma share_self : share P own i c r (some i) = P.after (own (some i)) (own none) c r := if_pos rfl

lemma share_other {j : T} (hj : j ≠ i) : share P own i c r (some j) = own (some j) := by
  simp [share, hj]

lemma share_placed (hp : ∀ h, Placed (opened h) fun o => own o h) (ha : P.contract.allowed (own (some i)) c)
    (ho : ∀ h m, P.opens c r = some (h, m) → opened h = false)
    (ht : ∀ h, P.takes c r = some h → own none h ≠ none) (h : H) :
    Placed (P.table opened c r h) fun o => share P own i c r o h := by
  have hi : share P own i c r (some i) h = P.after (own (some i)) (own none) c r h := congrFun share_self h
  have hn : share P own i c r none h = P.left (own (some i)) (own none) c r h := rfl
  have hj : ∀ o, o ≠ some i → o ≠ none → share P own i c r o h = own o h := by
    intro o hi hn
    rw [share, if_neg hi, if_neg hn]
  have hcaller : ∀ m, (∀ o, o ≠ some i → o ≠ none → own o h = none) →
      P.after (own (some i)) (own none) c r h = some m → P.left (own (some i)) (own none) c r h = none →
      Placed true fun o => share P own i c r o h := by
    refine fun m hothers hm hl => .of_only (o := some i) (hi.trans hm) fun o hne => ?_
    by_cases ho : o = none
    · exact ho ▸ hn.trans hl
    · exact (hj o hne ho).trans (hothers o hne ho)
  have hplace : ∀ {o m}, own o h = some m → opened h = true ∧ ∀ o', o' ≠ o → own o' h = none := by
    intro o m hm
    obtain ⟨hopen, hown⟩ := (hp h).unique hm
    exact ⟨hopen, fun o' hne => (congrFun hown o').trans (Function.update_of_ne hne _ _)⟩
  by_cases hopens : (P.opens c r).map Prod.fst = some h
  · obtain ⟨⟨h, m⟩, he, rfl⟩ := Option.map_eq_some_iff.mp hopens
    dsimp only at *
    have hshut : ∀ o, own o h = none := by
      intro o
      by_contra hne
      obtain ⟨m', hm'⟩ := Option.ne_none_iff_exists'.mp hne
      exact absurd ((ho h m he).symm.trans (hplace hm').1) Bool.false_ne_true
    have htake : P.takes c r ≠ some h := fun hh => ht h hh (hshut none)
    rw [Protocol.table, if_pos hopens]
    refine hcaller m (fun o _ _ => hshut o) ?_ ?_
    · rw [Protocol.after, if_pos hopens, he, Option.map_some]
    · simp [Protocol.left, htake, hshut]
  by_cases htake : P.takes c r = some h
  · obtain ⟨m, hm⟩ := Option.ne_none_iff_exists'.mp (ht h htake)
    obtain ⟨hopen, hothers⟩ := hplace hm
    have hon : P.on c ≠ some h := by
      intro hc
      obtain ⟨m', hm', -⟩ := ha.1 h hc
      exact absurd (hm'.symm.trans (hothers _ (Option.some_ne_none i))) (Option.some_ne_none m')
    rw [Protocol.table, if_neg hopens, if_neg fun hc => hon hc.1, hopen]
    refine hcaller m (fun o _ hne => hothers o hne) ?_ ?_
    · rw [Protocol.after, if_neg hopens, if_pos htake, hm]
    · rw [Protocol.left, if_pos htake]
  by_cases hon : P.on c = some h
  · obtain ⟨m, hm, -⟩ := ha.1 h hon
    obtain ⟨hopen, hothers⟩ := hplace hm
    have hshelf : own none h = none := hothers none (Option.some_ne_none i).symm
    have hafter : P.after (own (some i)) (own none) c r h =
        if P.closes c || P.gives c m then none else some (P.act c r m) := by
      rw [Protocol.after, if_neg hopens, if_neg htake, Protocol.kept, if_pos hon, hm, Option.bind_some]
    have hleft : P.left (own (some i)) (own none) c r h =
        if P.gives c m then some (P.act c r m) else none := by
      rw [Protocol.left, if_neg htake, if_pos hon, hm, hshelf, Option.bind_some, Option.or_none]
    rw [Protocol.table, if_neg hopens]
    cases hg : P.gives c m with
    | true =>
      have hc := P.gives_open c m hg
      rw [hg, if_pos rfl] at hleft
      rw [hg, hc, Bool.or_true, if_pos rfl] at hafter
      rw [if_neg fun h => absurd (hc.symm.trans h.2) Bool.false_ne_true, hopen]
      refine .of_only (o := none) (hn.trans hleft) fun o hne => ?_
      by_cases ho : o = some i
      · exact ho ▸ hi.trans hafter
      · exact (hj o ho hne).trans (hothers o ho)
    | false =>
      rw [hg, if_neg Bool.false_ne_true] at hleft
      cases hc : P.closes c with
      | true =>
        rw [hg, hc, Bool.true_or, if_pos rfl] at hafter
        have hcol : (fun o => share P own i c r o h) = fun _ => none := by
          funext o
          by_cases ho : o = some i
          · exact ho ▸ hi.trans hafter
          · by_cases hne : o = none
            · exact hne ▸ hn.trans hleft
            · exact (hj o ho hne).trans (hothers o ho)
        rw [if_pos ⟨hon, rfl⟩, hcol]
        exact .shut
      | false =>
        rw [hg, hc, Bool.or_self, if_neg Bool.false_ne_true] at hafter
        rw [if_neg fun h => absurd h.2 Bool.false_ne_true, hopen]
        exact hcaller _ (fun o ho _ => hothers o ho) hafter hleft
  · have hcol : (fun o => share P own i c r o h) = fun o => own o h := by
      funext o
      by_cases ho : o = some i
      · rw [ho, hi, Protocol.after, if_neg hopens, if_neg htake, Protocol.kept, if_neg hon]
      · by_cases hne : o = none
        · rw [hne, hn, Protocol.left, if_neg htake, if_neg hon]
        · exact hj o ho hne
    rw [hcol, Protocol.table, if_neg hopens, if_neg fun hc => hon hc.1]
    exact hp h

lemma Sound.runs (hs : Sound P I idle s) {i : T} {b : Block C R L α}
    (hb : b.wp P.contract (I i) (fun _ => idle i) (s.own (some i))) :
    Sound P I idle { s with running := Function.update s.running i (some b) } := by
  refine { hs with safe := fun j b' hj => ?_, rest := fun j hj => ?_ }
  · by_cases hji : j = i
    · subst hji
      obtain rfl : b = b' := by simpa using hj
      exact hb
    · exact hs.safe j b' ((Function.update_of_ne hji _ _).symm.trans hj)
  · by_cases hji : j = i
    · subst hji
      simp at hj
    · exact hs.rest j ((Function.update_of_ne hji _ _).symm.trans hj)

lemma Sound.answers (hs : Sound P I idle s) {i : T} {c : C} {k : R c → Block C R L α}
    (hi : s.running i = some (.call c k)) (r : R c)
    (ho : ∀ h m, P.opens c r = some (h, m) → s.opened h = false)
    (ht : ∀ h, P.takes c r = some h → s.own none h ≠ none) :
    Sound P I idle ({ opened := P.table s.opened c r
                      running := Function.update s.running i (some (k r))
                      own := share P s.own i c r } : Crew C R H M L α T) := by
  obtain ⟨hallowed, hnext⟩ := hs.safe i _ hi
  have hapart : ∀ h m, s.own none h = some m → s.own (some i) h = none := by
    intro h m hm
    have hcol := congrFun ((hs.placed h).unique hm).2 (some i)
    rwa [Function.update_of_ne (Option.some_ne_none i)] at hcol
  refine ⟨share_placed hs.placed hallowed ho ht, fun h m hm => ?_, fun j b hj => ?_, fun j hj => ?_⟩
  · replace hm : P.left (s.own (some i)) (s.own none) c r h = some m := hm
    rw [Protocol.left] at hm
    split_ifs at hm with htake hon
    · obtain ⟨m', hm', -, hshelved⟩ := hallowed.1 h hon
      rw [hm', Option.bind_some] at hm
      split_ifs at hm with hg
      · rw [Option.some_or] at hm
        exact Option.some.inj hm ▸ hshelved hg r
      · exact hs.shelved h m hm
    · exact hs.shelved h m hm
  · by_cases hji : j = i
    · subst hji
      obtain rfl : k r = b := by simpa using hj
      dsimp only
      rw [share_self]
      refine hnext r _ ⟨s.own none, fun h m hm => ⟨hapart h m hm, hs.shelved h m hm⟩, fun h m he => ?_, ht, rfl⟩
      by_contra hne
      obtain ⟨m', hm'⟩ := Option.ne_none_iff_exists'.mp hne
      exact absurd ((ho h m he).symm.trans ((hs.placed h).unique hm').1) Bool.false_ne_true
    · dsimp only
      rw [share_other hji]
      exact hs.safe j b ((Function.update_of_ne hji _ _).symm.trans hj)
  · by_cases hji : j = i
    · subst hji
      simp at hj
    · dsimp only
      rw [share_other hji]
      exact hs.rest j ((Function.update_of_ne hji _ _).symm.trans hj)

lemma Sound.step (hc : ∀ i, Block.Upholds P.contract code (I i) fun _ => idle i)
    (he : ∀ i own b, idle i own → entry i own b → b.wp P.contract (I i) (fun _ => idle i) own)
    (hs : Sound P I idle s) (hl : Possible P entry s l) (h : Crew.step P code s l = some t) :
    Sound P I idle t := by
  cases l with
  | start i b =>
    simp only [Crew.step] at h
    split at h
    · next hi =>
      cases h
      exact hs.runs (he i _ b (hs.rest i hi) hl)
    · cases h
  | answer i f =>
    simp only [Crew.step] at h
    split at h
    · next c k hi =>
      cases h
      exact hs.answers hi (f c) (hl c k hi).1 (hl c k hi).2
    · cases h
  | jump i =>
    simp only [Crew.step] at h
    split at h
    · next l hi =>
      cases h
      exact hs.runs (hc i l _ (hs.safe i _ hi))
    · cases h
  | finish i =>
    simp only [Crew.step] at h
    split at h
    · next a hi =>
      cases h
      refine { hs with safe := fun j b hj => ?_, rest := fun j hj => ?_ }
      · by_cases hji : j = i
        · subst hji
          simp at hj
        · exact hs.safe j b ((Function.update_of_ne hji _ _).symm.trans hj)
      · by_cases hji : j = i
        · subst hji
          exact hs.safe j _ hi
        · exact hs.rest j ((Function.update_of_ne hji _ _).symm.trans hj)
    · cases h

end Crew

end HttpBalancer.Lib
