import HttpBalancer.Net.HttpParser

/-! The number a status line carries, against the one `parseStatusLine` stores. -/

namespace HttpBalancer.Net

open Lib Lib.Search

def firstToken (line : Bytes) : Bytes := line.takeWhile (· != 32)

def secondToken (line : Bytes) : Bytes :=
  ((line.dropWhile (· != 32)).drop 1).takeWhile (· != 32)

/-- The integer that the whole of `s` writes in decimal, with an optional sign. -/
def decimalInt (s : Bytes) : Option ℤ :=
  match s with
  | 45 :: s => (Decimal.read s).map fun n : ℕ => -(n : ℤ)
  | 43 :: s => (Decimal.read s).map fun n : ℕ => (n : ℤ)
  | s => (Decimal.read s).map fun n : ℕ => (n : ℤ)

lemma strtol_decimalInt {s : Bytes} {i : ℤ} (h : decimalInt s = some i)
    (hl : -(longMax : ℤ) - 1 ≤ i) (hu : i ≤ longMax) : strtol s = some i := by
  simp only [decimalInt] at h
  split at h
  · obtain ⟨n, hn, rfl⟩ := Option.map_eq_some_iff.mp h
    obtain ⟨hs, hd, rfl⟩ := Decimal.read_eq_some_iff.mp hn
    rw [strtol_sign (Or.inl rfl) hs hd, if_pos rfl, max_eq_left hl]
  · obtain ⟨n, hn, rfl⟩ := Option.map_eq_some_iff.mp h
    obtain ⟨hs, hd, rfl⟩ := Decimal.read_eq_some_iff.mp hn
    rw [strtol_sign (Or.inr rfl) hs hd, if_neg (by decide), min_eq_left hu]
  · obtain ⟨n, hn, rfl⟩ := Option.map_eq_some_iff.mp h
    obtain ⟨hs, hd, rfl⟩ := Decimal.read_eq_some_iff.mp hn
    rw [strtol_digits hs hd, min_eq_left hu]

lemma secondToken_cut (line : Bytes) {sp1 : ℕ} (h : find [32] line = some sp1) :
    line.take sp1 = firstToken line ∧
      let sp2 := (findFrom [32] line (sp1 + 1)).getD line.length
      (line.drop (sp1 + 1)).take (sp2 - sp1 - 1) = secondToken line := by
  obtain ⟨l, r, rfl, rfl, hl⟩ := find_singleton_cut h
  obtain ⟨ht, hd⟩ := takeWhile_ne hl r
  have hr : (l ++ 32 :: r).drop (l.length + 1) = r := by simp
  refine ⟨by rw [firstToken, ht]; simp, ?_⟩
  simp only [secondToken, hd, hr, findFrom, List.drop_one, List.tail_cons]
  cases hf : find [32] r with
  | none =>
    have hn : (32 : UInt8) ∉ r := by
      rwa [find_eq_none_iff (by simp), List.singleton_infix_iff] at hf
    rw [takeWhile_ne_self hn]
    apply List.take_of_length_le
    simp
  | some i =>
    obtain ⟨t, rest, rfl, rfl, hn⟩ := find_singleton_cut hf
    have hl : t.length + (l.length + 1) - l.length - 1 = t.length := by omega
    rw [(takeWhile_ne hn rest).1]
    simp [hl]

def IsVersion (v : Bytes) : Prop := v = lit "HTTP/1.1" ∨ v = lit "HTTP/1.0"

lemma parseStatusLine_true_iff (line : Bytes) (resp : HttpResponse) (status : Int32) :
    (∃ resp', parseStatusLine line resp = (true, resp') ∧ resp'.status = status) ↔
      IsVersion (firstToken line) ∧ ∃ v, strtol (secondToken line) = some v ∧ Int32.ofInt v = status := by
  cases hf : find [32] line with
  | none =>
    have hn : (32 : UInt8) ∉ line := by
      rwa [find_eq_none_iff (by simp), List.singleton_infix_iff] at hf
    have ht : secondToken line = [] := by
      rw [secondToken, List.dropWhile_eq_nil_iff.mpr]
      · rfl
      · intro b hb
        simpa using fun he : b = 32 => hn (he ▸ hb)
    simp [parseStatusLine, hf, ht, strtol, cStr]
  | some sp1 =>
    obtain ⟨hv, ht⟩ := secondToken_cut line hf
    simp only [parseStatusLine, hf, hv, ht]
    by_cases hk : IsVersion (firstToken line)
    · rw [if_neg (by rintro ⟨h1, h0⟩; exact hk.elim h1 h0)]
      cases hs : strtol (secondToken line) with
      | none => simp
      | some v => simp [hk]
    · rw [if_pos (not_or.mp hk)]
      simp [hk]

def StatusExact (line : Bytes) : Prop := ∀ resp resp', parseStatusLine line resp = (true, resp') →
  decimalInt (secondToken line) = some resp'.status.toInt

def InIntRange (i : ℤ) : Prop := -2 ^ 31 ≤ i ∧ i < 2 ^ 31

def PlainStatus (line : Bytes) : Prop :=
  IsVersion (firstToken line) → strtol (secondToken line) ≠ none →
    ∃ i, decimalInt (secondToken line) = some i ∧ InIntRange i

lemma statusExact_iff (line : Bytes) : StatusExact line ↔ PlainStatus line := by
  constructor
  · intro h hv hs
    obtain ⟨v, hs⟩ := Option.ne_none_iff_exists'.mp hs
    obtain ⟨resp', hp, -⟩ := (parseStatusLine_true_iff line {} _).mpr ⟨hv, v, hs, rfl⟩
    exact ⟨_, h _ _ hp, Int32.le_toInt _, Int32.toInt_lt _⟩
  · intro h resp resp' hp
    obtain ⟨hv, v, hs, he⟩ := (parseStatusLine_true_iff line resp _).mp ⟨resp', hp, rfl⟩
    obtain ⟨i, hi, hl, hu⟩ := h hv (by simp [hs])
    have hr := strtol_decimalInt hi (by simp only [longMax]; omega) (by simp only [longMax]; omega)
    obtain rfl : v = i := Option.some.inj (hs.symm.trans hr)
    rw [hi, ← he, Int32.toInt_ofInt_of_le hl hu]

end HttpBalancer.Net
