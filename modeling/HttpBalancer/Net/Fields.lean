import HttpBalancer.Net.Framing

/-! Header fields in the form both serializers write and both parsers produce. Written out they are
header lines again, so a list of such fields survives being sent. -/

namespace HttpBalancer.Net

open Lib Lib.Search

structure IsField (h : Bytes × Bytes) : Prop where
  name_ne : h.1 ≠ []
  name_trimmed : Trim.Trimmed isSpace h.1
  name_colon : 58 ∉ h.1
  name_crlf : ¬ crlf <:+: h.1
  value_trimmed : Trim.Trimmed isSpace h.2
  value_crlf : ¬ crlf <:+: h.2

lemma IsHeaderLine.isField {line : Bytes} {h : Bytes × Bytes} (hl : IsHeaderLine line h)
    (hc : ¬ crlf <:+: line) : IsField h := by
  obtain ⟨name, value, rfl, hn, hne, rfl⟩ := hl
  have hi : trim name <:+: name := Trim.trim_infix isSpace name
  have hv : trim value <:+: value := Trim.trim_infix isSpace value
  exact {
    name_ne := hne
    name_trimmed := Trim.trim_trimmed isSpace name
    name_colon := fun hh => hn (hi.mem hh)
    name_crlf := fun hh => hc ((hh.trans hi).trans (List.prefix_append _ _).isInfix)
    value_trimmed := Trim.trim_trimmed isSpace value
    value_crlf := fun hh => hc ((hh.trans hv).trans ⟨name ++ [58], [], by simp⟩) }

lemma IsHeaderLines.isField {lines : List Bytes} {hs : HeaderList} (hl : IsHeaderLines lines hs) :
    ∀ h ∈ hs, IsField h := by
  intro h hh
  obtain ⟨hne, hf⟩ := hl
  induction hf with
  | nil => simp at hh
  | cons hk _ ih =>
    simp only [List.forall_mem_cons] at hne
    rcases List.mem_cons.mp hh with rfl | hh
    · exact hk.isField hne.1.2
    · exact ih hh hne.2

def fieldLine (h : Bytes × Bytes) : Bytes := h.1 ++ 58 :: 32 :: h.2

lemma flatMap_headerLine (hs : HeaderList) : hs.flatMap headerLine = unlines (hs.map fieldLine) := by
  induction hs with
  | nil => rfl
  | cons h hs ih =>
    rw [List.flatMap_cons, ih, List.map_cons, unlines_cons]
    simp [headerLine, fieldLine, show lit ": " = [58, 32] by decide]

lemma IsField.fieldLine_crlf {h : Bytes × Bytes} (hf : IsField h) : ¬ crlf <:+: fieldLine h := by
  intro hh
  rcases infix_append_cons (by decide) hh with hh | hh
  · exact hf.name_crlf hh
  · rcases infix_append_cons (l := []) (by decide) hh with hh | hh
    · exact absurd hh (by decide)
    · exact hf.value_crlf hh

lemma IsField.isHeaderLine {h : Bytes × Bytes} (hf : IsField h) : IsHeaderLine (fieldLine h) h := by
  refine ⟨h.1, 32 :: h.2, rfl, hf.name_colon, ?_, ?_⟩
  · rw [show trim h.1 = h.1 from hf.name_trimmed]
    exact hf.name_ne
  · have hv : trim (32 :: h.2) = h.2 := by
      rw [trim, Trim.trim_cons isSpace (by decide)]
      exact hf.value_trimmed
    rw [show trim h.1 = h.1 from hf.name_trimmed, hv]

lemma isHeaderLines_fields {hs : HeaderList} (h : ∀ f ∈ hs, IsField f) :
    IsHeaderLines (hs.map fieldLine) hs := by
  induction hs with
  | nil => exact isHeaderLines_nil
  | cons f hs ih =>
    simp only [List.forall_mem_cons] at h
    exact isHeaderLines_cons.mpr
      ⟨⟨by simp [fieldLine], h.1.fieldLine_crlf, h.1.isHeaderLine⟩, ih h.2⟩

lemma crlf_not_infix {s : Bytes} (h : 13 ∉ s) : ¬ crlf <:+: s :=
  fun hh => h (hh.mem (by simp [crlf]))

end HttpBalancer.Net
