import Mathlib.Tactic

/-! Decimal numerals as ASCII bytes: writing a number and reading the digits back. -/

namespace HttpBalancer.Lib.Decimal

def isDigit (c : UInt8) : Bool := 48 ≤ c && c ≤ 57

def numeral (n : ℕ) : List UInt8 := (Nat.toDigits 10 n).map fun c => c.toNat.toUInt8

def value (s : List UInt8) : ℕ := s.foldl (fun v c => 10 * v + (c.toNat - 48)) 0

def read (s : List UInt8) : Option ℕ := if s ≠ [] ∧ s.all isDigit then some (value s) else none

lemma read_eq_some_iff {s : List UInt8} {n : ℕ} :
    read s = some n ↔ s ≠ [] ∧ (∀ c ∈ s, isDigit c = true) ∧ value s = n := by
  simp [read, and_assoc]

lemma digit_bounds {c : Char} (h : c.isDigit = true) : 48 ≤ c.toNat ∧ c.toNat ≤ 57 := by
  simp only [Char.isDigit, ge_iff_le, Bool.and_eq_true, decide_eq_true_eq,
    UInt32.le_iff_toNat_le] at h
  exact h

lemma toNat_digit {c : Char} (h : c.isDigit = true) : c.toNat.toUInt8.toNat = c.toNat := by
  have := digit_bounds h
  simp only [Nat.toUInt8, UInt8.toNat_ofNat']
  omega

lemma isDigit_of_mem_numeral {n : ℕ} {c : UInt8} (h : c ∈ numeral n) : isDigit c = true := by
  obtain ⟨d, hd, rfl⟩ := List.mem_map.mp h
  have hh := Nat.isDigit_of_mem_toDigits (by decide) (by decide) hd
  have := digit_bounds hh
  simp [isDigit, UInt8.le_iff_toNat_le, -Nat.toUInt8_eq, toNat_digit hh, this]

lemma numeral_ne_nil (n : ℕ) : numeral n ≠ [] := by
  simp [numeral, Nat.toDigits_ne_nil]

lemma value_numeral (n : ℕ) : value (numeral n) = n := by
  have hf : ∀ (l : List Char) (v : ℕ), (∀ c ∈ l, c.isDigit = true) →
      (l.map fun c => c.toNat.toUInt8).foldl (fun v c => 10 * v + (c.toNat - 48)) v =
        Nat.ofDigitChars 10 l v := by
    intro l
    induction l with
    | nil => simp
    | cons c l ih =>
      intro v hl
      simp only [List.map_cons, List.foldl_cons, Nat.ofDigitChars_cons]
      rw [toNat_digit (hl c (by simp)), ih _ (fun d hd => hl d (by simp [hd]))]
      rfl
  rw [value, numeral, hf _ _ fun c hc => Nat.isDigit_of_mem_toDigits (by decide) (by decide) hc]
  exact Nat.ofDigitChars_ten_toDigits

end HttpBalancer.Lib.Decimal
