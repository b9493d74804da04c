import HttpBalancer.Lib.Decimal
import HttpBalancer.Lib.Search
import HttpBalancer.Lib.Trim

/-! Byte strings, and the C library calls the code makes on them in the "C" locale. -/

namespace HttpBalancer.Net

open Lib

abbrev Bytes := List UInt8

def lit (s : String) : Bytes := s.toList.map fun c => c.toNat.toUInt8

def crlf : Bytes := [13, 10]

def isSpace (c : UInt8) : Bool := c == 32 || (9 ≤ c && c ≤ 13)

def tolower (c : UInt8) : UInt8 := if 65 ≤ c ∧ c ≤ 90 then c + 32 else c

def toLower (s : Bytes) : Bytes := s.map tolower

def trim (s : Bytes) : Bytes := Trim.trim isSpace s

/-- What a C function sees of a string handed over by `c_str()`. -/
def cStr (s : Bytes) : Bytes := s.takeWhile (· != 0)

def longMax : ℕ := 2 ^ 63 - 1

/-- `strtol` in base 10; `none` where it converts nothing and leaves `end` at the start. -/
def strtol (s : Bytes) : Option ℤ :=
  let s := (cStr s).dropWhile isSpace
  let negative := s.head? == some 45
  let s := if s.head? == some 45 || s.head? == some 43 then s.tail else s
  let digits := s.takeWhile Decimal.isDigit
  if digits = [] then none
  else if negative then some (max (-(Decimal.value digits : ℤ)) (-(longMax : ℤ) - 1))
  else some (min (Decimal.value digits) longMax)

/-- `std::to_string` on an integer. -/
def toDecimal (i : ℤ) : Bytes :=
  if i < 0 then 45 :: Decimal.numeral i.natAbs else Decimal.numeral i.natAbs

def strcasecmp (a b : Bytes) : Bool := toLower (cStr a) == toLower (cStr b)

lemma crlf_unbordered : Search.Unbordered crlf := Search.unbordered_pair (by decide)

@[simp] lemma crlf_length : crlf.length = 2 := rfl

lemma takeWhile_ne {a : UInt8} {l : Bytes} (h : a ∉ l) (r : Bytes) :
    (l ++ a :: r).takeWhile (· != a) = l ∧ (l ++ a :: r).dropWhile (· != a) = a :: r := by
  have hl : ∀ b ∈ l, (b != a) = true := by
    intro b hb
    simpa using fun he : b = a => h (he ▸ hb)
  rw [List.takeWhile_append_of_pos hl, List.dropWhile_append_of_pos hl]
  simp

lemma takeWhile_ne_self {a : UInt8} {l : Bytes} (h : a ∉ l) : l.takeWhile (· != a) = l := by
  rw [List.takeWhile_eq_self_iff]
  intro b hb
  simpa using fun he : b = a => h (he ▸ hb)

lemma isDigit_ne {c : UInt8} (h : Decimal.isDigit c = true) :
    c ≠ 0 ∧ isSpace c = false ∧ c ≠ 45 ∧ c ≠ 43 := by
  simp only [Decimal.isDigit, Bool.and_eq_true, decide_eq_true_eq, UInt8.le_iff_toNat_le] at h
  have hn : ∀ d : UInt8, d.toNat < 48 → c ≠ d := by
    rintro d hd rfl
    have : 48 ≤ c.toNat := h.1
    omega
  refine ⟨hn 0 (by decide), ?_, hn 45 (by decide), hn 43 (by decide)⟩
  have h₁ : c ≠ 32 := hn 32 (by decide)
  have h₂ : ¬ c ≤ 13 := by
    rw [UInt8.le_iff_toNat_le]
    have : 48 ≤ c.toNat := h.1
    have : (13 : UInt8).toNat = 13 := rfl
    omega
  simp [isSpace, h₁, h₂]

lemma cStr_digits {s : Bytes} (h : ∀ c ∈ s, Decimal.isDigit c = true) : cStr s = s :=
  List.takeWhile_eq_self_iff.mpr fun c hc => by simpa using (isDigit_ne (h c hc)).1

lemma strtol_digits {s : Bytes} (hs : s ≠ []) (h : ∀ c ∈ s, Decimal.isDigit c = true) :
    strtol s = some (min (Decimal.value s : ℤ) longMax) := by
  have hw : s.dropWhile isSpace = s := by
    cases s with
    | nil => rfl
    | cons c s => simp [(isDigit_ne (h c (by simp))).2.1]
  have hsign : ∀ c : UInt8, c ∈ ([45, 43] : Bytes) → (s.head? == some c) = false := by
    intro c hc
    rw [beq_eq_false_iff_ne]
    intro he
    have hn := isDigit_ne (h c (List.mem_of_mem_head? he))
    simp only [List.mem_cons, List.not_mem_nil, or_false] at hc
    rcases hc with rfl | rfl
    · exact hn.2.2.1 rfl
    · exact hn.2.2.2 rfl
  simp only [strtol, cStr_digits h, hw, hsign 45 (by simp), hsign 43 (by simp),
    List.takeWhile_eq_self_iff.mpr h, hs, if_false, Bool.or_self, Bool.false_eq_true]

lemma strtol_sign {c : UInt8} (hc : c = 45 ∨ c = 43) {s : Bytes} (hs : s ≠ [])
    (h : ∀ d ∈ s, Decimal.isDigit d = true) : strtol (c :: s) =
      some (if c = 45 then max (-(Decimal.value s : ℤ)) (-(longMax : ℤ) - 1)
        else min (Decimal.value s) longMax) := by
  have hk : cStr (c :: s) = c :: s := by
    have hh := cStr_digits h
    simp only [cStr] at hh
    rcases hc with rfl | rfl <;> simp [cStr, hh]
  have hw : (c :: s).dropWhile isSpace = c :: s := by
    rcases hc with rfl | rfl <;> simp [isSpace]
  simp only [strtol, hk, hw, List.head?_cons, List.tail_cons]
  rcases hc with rfl | rfl <;> simp [List.takeWhile_eq_self_iff.mpr h, hs]

lemma strtol_toDecimal {i : ℤ} (hl : -(longMax : ℤ) - 1 ≤ i) (hu : i ≤ longMax) :
    strtol (toDecimal i) = some i := by
  have hne := Decimal.numeral_ne_nil i.natAbs
  have hd : ∀ c ∈ Decimal.numeral i.natAbs, Decimal.isDigit c = true :=
    fun _ => Decimal.isDigit_of_mem_numeral
  by_cases hi : i < 0
  · rw [toDecimal, if_pos hi, strtol_sign (Or.inl rfl) hne hd, Decimal.value_numeral, if_pos rfl]
    congr 1
    omega
  · rw [toDecimal, if_neg hi, strtol_digits hne hd, Decimal.value_numeral]
    congr 1
    omega

end HttpBalancer.Net
