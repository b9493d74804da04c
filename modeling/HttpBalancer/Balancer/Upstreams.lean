import HttpBalancer.Balancer.LoadBalancer

/-! The list of upstreams on the command line, and which upstreams the balancer makes of it. -/

namespace HttpBalancer.Balancer

open Net Lib Lib.Search

/-- `std::getline` up to the next comma, with what is left of the stream; it fails where nothing is
left to extract. -/
def getline (s : Bytes) : Option (Bytes × Bytes) :=
  if s = [] then none else some (s.takeWhile (· != 44), (s.dropWhile (· != 44)).drop 1)

def atoi (s : Bytes) : Int32 := Int32.ofInt ((strtol s).getD 0)

def parseUpstream (entry : Bytes) : Option Upstream :=
  match find [58] entry with
  | none => none
  | some colon => some ⟨entry.take colon, (atoi (entry.drop (colon + 1))).toUInt32.toUInt16⟩

lemma getline_shrinks {s entry rest : Bytes} (h : getline s = some (entry, rest)) :
    rest.length < s.length := by
  rw [getline] at h
  split_ifs at h with hs
  obtain ⟨-, rfl⟩ := Prod.mk.inj (Option.some.inj h)
  have hl := List.length_pos_of_ne_nil hs
  have hd := (List.dropWhile_suffix (l := s) (· != 44)).length_le
  rw [List.length_drop]
  omega

def parseUpstreams (csv : Bytes) : List Upstream :=
  match _h : getline csv with
  | none => []
  | some (entry, rest) =>
    match parseUpstream entry with
    | none => parseUpstreams rest
    | some u => u :: parseUpstreams rest
termination_by csv.length
decreasing_by all_goals exact getline_shrinks _h

def portField (entry : Bytes) : Option Bytes :=
  if 58 ∈ entry then some ((entry.dropWhile (· != 58)).drop 1) else none

def writtenUpstream (entry : Bytes) : Option Upstream :=
  match (portField entry).bind Decimal.read with
  | none => none
  | some p => if p ≤ 65535 then some ⟨entry.takeWhile (· != 58), p.toUInt16⟩ else none

/-- The upstreams written in `csv`: an entry that is not a host, a colon and a port is none. -/
def writtenUpstreams (csv : Bytes) : List Upstream := (csv.splitOn 44).filterMap writtenUpstream

def joinUpstreams (us : List Upstream) : Bytes :=
  [44].intercalate (us.map fun u => u.host ++ 58 :: Decimal.numeral u.port.toNat)

lemma parseUpstreams_nil : parseUpstreams [] = [] := by
  rw [parseUpstreams]
  rfl

lemma parseUpstreams_getline {csv entry rest : Bytes} (h : getline csv = some (entry, rest)) :
    parseUpstreams csv = (parseUpstream entry).toList ++ parseUpstreams rest := by
  rw [parseUpstreams]
  split
  · simp_all
  · next hh =>
    obtain ⟨rfl, rfl⟩ : _ ∧ _ := by simpa [h] using hh
    cases parseUpstream entry <;> rfl

lemma parseUpstreams_eq (csv : Bytes) :
    parseUpstreams csv = (csv.splitOn 44).filterMap parseUpstream := by
  induction hn : csv.length using Nat.strong_induction_on generalizing csv with
  | _ n ih =>
    by_cases hm : 44 ∈ csv
    · obtain ⟨l, r, rfl, hl⟩ := List.eq_append_cons_of_mem hm
      obtain ⟨ht, hd⟩ := takeWhile_ne hl r
      have hg : getline (l ++ 44 :: r) = some (l, r) := by simp [getline, ht, hd]
      rw [parseUpstreams_getline hg, ih r.length (by simp [← hn]; omega) r rfl,
        List.splitOn_append_cons_self_of_not_mem hl, List.filterMap_cons]
      cases parseUpstream l <;> rfl
    · rw [List.splitOn_eq_singleton hm]
      -- the stream ends with the entry, and nothing comes of the empty rest
      by_cases hc : csv = []
      · subst hc
        exact parseUpstreams_nil
      · have hd : csv.dropWhile (· != 44) = [] := by
          rw [List.dropWhile_eq_nil_iff]
          intro b hb
          simpa using fun he : b = 44 => hm (he ▸ hb)
        have hg : getline csv = some (csv, []) := by
          simp [getline, hc, takeWhile_ne_self hm, hd]
        rw [parseUpstreams_getline hg, parseUpstreams_nil]
        cases h : parseUpstream csv <;> simp [h]

lemma portField_eq {host d : Bytes} (h : 58 ∉ host) : portField (host ++ 58 :: d) = some d := by
  simp [portField, (takeWhile_ne h d).2]

lemma parseUpstream_eq {host : Bytes} (h : 58 ∉ host) (d : Bytes) :
    parseUpstream (host ++ 58 :: d) = some ⟨host, (atoi d).toUInt32.toUInt16⟩ := by
  simp [parseUpstream, find_singleton_append h]

lemma writtenUpstream_eq {host : Bytes} (h : 58 ∉ host) (d : Bytes) :
    writtenUpstream (host ++ 58 :: d) =
      (Decimal.read d).bind fun p => if p ≤ 65535 then some ⟨host, p.toUInt16⟩ else none := by
  rw [writtenUpstream, portField_eq h, (takeWhile_ne h d).1]
  cases hd : Decimal.read d <;> simp [hd]

lemma parseUpstream_none {entry : Bytes} (h : 58 ∉ entry) :
    parseUpstream entry = none ∧ portField entry = none ∧ writtenUpstream entry = none := by
  have hf : find [58] entry = none := by
    rwa [find_eq_none_iff (by simp), List.singleton_infix_iff]
  simp [parseUpstream, writtenUpstream, portField, hf, h]

lemma atoi_read {d : Bytes} {p : ℕ} (h : Decimal.read d = some p) (hp : p ≤ 65535) :
    (atoi d).toUInt32.toUInt16 = p.toUInt16 := by
  obtain ⟨hd, hc, rfl⟩ := Decimal.read_eq_some_iff.mp h
  have hs : strtol d = some (Decimal.value d : ℤ) := by
    rw [strtol_digits hd hc, min_eq_left]
    simp only [longMax]
    omega
  rw [atoi, hs, Option.getD_some, Int32.ofInt_eq_ofNat]
  simp

lemma parse_of_written {entry : Bytes} {u : Upstream} (h : writtenUpstream entry = some u) :
    parseUpstream entry = some u := by
  by_cases hm : 58 ∈ entry
  · obtain ⟨host, d, rfl, hh⟩ := List.eq_append_cons_of_mem hm
    rw [writtenUpstream_eq hh] at h
    obtain ⟨p, hr, hp⟩ := Option.bind_eq_some_iff.mp h
    split_ifs at hp with hl
    rw [parseUpstream_eq hh, atoi_read hr hl]
    exact hp
  · simp [(parseUpstream_none hm).2.2] at h

lemma parse_eq_written_iff (entry : Bytes) : parseUpstream entry = writtenUpstream entry ↔
    ∀ d ∈ portField entry, ∃ p ≤ 65535, Decimal.read d = some p := by
  by_cases hm : 58 ∈ entry
  · obtain ⟨host, d, rfl, hh⟩ := List.eq_append_cons_of_mem hm
    rw [parseUpstream_eq hh, writtenUpstream_eq hh, portField_eq hh]
    constructor
    · intro h d' hd
      obtain rfl := Option.some.inj hd
      obtain ⟨p, hr, hp⟩ := Option.bind_eq_some_iff.mp h.symm
      split_ifs at hp with hl
      exact ⟨p, hl, hr⟩
    · intro h
      obtain ⟨p, hl, hr⟩ := h d rfl
      rw [hr, Option.bind_some, if_pos hl, atoi_read hr hl]
  · obtain ⟨hp, hf, hw⟩ := parseUpstream_none hm
    simp [hp, hf, hw]

section

variable {α β : Type} {f g : α → Option β}

lemma length_filterMap_le (h : ∀ a b, g a = some b → f a = some b) (l : List α) :
    (l.filterMap g).length ≤ (l.filterMap f).length := by
  induction l with
  | nil => simp
  | cons a l ih =>
    rw [List.filterMap_cons, List.filterMap_cons]
    cases hg : g a with
    | none => cases f a <;> simp <;> omega
    | some b => simpa [h a b hg] using ih

lemma filterMap_eq_iff (h : ∀ a b, g a = some b → f a = some b) (l : List α) :
    l.filterMap f = l.filterMap g ↔ ∀ a ∈ l, f a = g a := by
  refine ⟨?_, List.filterMap_congr⟩
  intro he
  induction l with
  | nil => simp
  | cons a l ih =>
    rw [List.filterMap_cons, List.filterMap_cons] at he
    cases hg : g a with
    | none =>
      cases hf : f a with
      | none =>
        simp only [hg, hf] at he
        exact List.forall_mem_cons.mpr ⟨hf.trans hg.symm, ih he⟩
      | some b =>
        -- one list is longer, and the rest cannot make up for it
        simp only [hg, hf] at he
        have hl := congrArg List.length he
        have hle := length_filterMap_le h l
        rw [List.length_cons] at hl
        omega
    | some b =>
      simp only [hg, h a b hg] at he
      exact List.forall_mem_cons.mpr ⟨(h a b hg).trans hg.symm, ih (List.cons.inj he).2⟩

end

lemma parseUpstream_join {u : Upstream} (h : 58 ∉ u.host) :
    parseUpstream (u.host ++ 58 :: Decimal.numeral u.port.toNat) = some u := by
  have hr : Decimal.read (Decimal.numeral u.port.toNat) = some u.port.toNat :=
    Decimal.read_eq_some_iff.mpr ⟨Decimal.numeral_ne_nil _, fun _ => Decimal.isDigit_of_mem_numeral,
      Decimal.value_numeral _⟩
  have hp := u.port.toNat_lt
  rw [parseUpstream_eq h, atoi_read hr (by omega)]
  simp

lemma parseUpstreams_join {us : List Upstream} (h : ∀ u ∈ us, 44 ∉ u.host ∧ 58 ∉ u.host) :
    parseUpstreams (joinUpstreams us) = us := by
  by_cases hn : us = []
  · subst hn
    exact parseUpstreams_nil
  · have hx : ∀ l ∈ us.map fun u => u.host ++ 58 :: Decimal.numeral u.port.toNat, 44 ∉ l := by
      intro l hl hm
      obtain ⟨u, hu, rfl⟩ := List.mem_map.mp hl
      rcases List.mem_append.mp hm with hm | hm
      · exact (h u hu).1 hm
      · rcases List.mem_cons.mp hm with hm | hm
        · exact absurd hm (by decide)
        · exact absurd (Decimal.isDigit_of_mem_numeral hm) (by decide)
    rw [parseUpstreams_eq, joinUpstreams, List.splitOn_intercalate 44 hx (by simpa using hn),
      List.filterMap_map]
    conv_rhs => rw [← List.filterMap_some (l := us)]
    apply List.filterMap_congr
    intro u hu
    exact parseUpstream_join (h u hu).2

theorem upstreams_as_written (csv : Bytes) (us : List Upstream) :
    (parseUpstreams csv = writtenUpstreams csv ↔
      ∀ entry ∈ csv.splitOn 44, ∀ d ∈ portField entry, ∃ p ≤ 65535, Decimal.read d = some p) ∧
    ((∀ u ∈ us, 44 ∉ u.host ∧ 58 ∉ u.host) → parseUpstreams (joinUpstreams us) = us) := by
  refine ⟨?_, parseUpstreams_join⟩
  rw [parseUpstreams_eq, writtenUpstreams, filterMap_eq_iff fun entry u => parse_of_written]
  simp only [parse_eq_written_iff]

theorem upstreams_as_written_joined :
    let us : List Upstream := [⟨lit "127.0.0.1", 9001⟩, ⟨[], 0⟩, ⟨lit "db", 65535⟩]
    joinUpstreams us = lit "127.0.0.1:9001,:0,db:65535" ∧ parseUpstreams (joinUpstreams us) = us := by
  intro us
  exact ⟨by decide +kernel, (upstreams_as_written [] us).2 (by decide)⟩

theorem wrong_port_used :
    parseUpstreams (lit "10.0.0.1:74617,web:80a,db") =
        [⟨lit "10.0.0.1", 9081⟩, ⟨lit "web", 80⟩] ∧
      writtenUpstreams (lit "10.0.0.1:74617,web:80a,db") = [] := by
  constructor <;> decide +kernel

end HttpBalancer.Balancer
