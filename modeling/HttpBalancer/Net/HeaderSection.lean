import HttpBalancer.Net.Lines

/-! The header section of a message. A buffer holds the lines of a finished section, or of one
that stops at a line which is no header, or of one that is still to be continued. -/

namespace HttpBalancer.Net

open Lib.Search

def unlines (lines : List Bytes) : Bytes := lines.flatMap (· ++ crlf)

@[simp] lemma unlines_nil : unlines [] = [] := rfl

@[simp] lemma unlines_cons (l : Bytes) (ls : List Bytes) : unlines (l :: ls) = l ++ crlf ++ unlines ls :=
  rfl

@[simp] lemma unlines_append (ls ks : List Bytes) : unlines (ls ++ ks) = unlines ls ++ unlines ks := by
  simp [unlines]

def IsHeaderLine (line : Bytes) (h : Bytes × Bytes) : Prop :=
  ∃ name value, line = name ++ 58 :: value ∧ 58 ∉ name ∧ trim name ≠ [] ∧ h = (trim name, trim value)

def IsHeaderLines (lines : List Bytes) (hs : HeaderList) : Prop :=
  (∀ l ∈ lines, l ≠ [] ∧ ¬ crlf <:+: l) ∧ List.Forall₂ IsHeaderLine lines hs

lemma isHeaderLines_cons {l : Bytes} {lines : List Bytes} {h : Bytes × Bytes} {hs : HeaderList} :
    IsHeaderLines (l :: lines) (h :: hs) ↔
      (l ≠ [] ∧ ¬ crlf <:+: l ∧ IsHeaderLine l h) ∧ IsHeaderLines lines hs := by
  simp only [IsHeaderLines, List.forall_mem_cons, List.forall₂_cons]
  tauto

lemma parseGenericHeaderLine_iff {line : Bytes} {hs hs' : HeaderList} :
    parseGenericHeaderLine line hs = some hs' ↔ ∃ h, IsHeaderLine line h ∧ hs' = hs ++ [h] := by
  constructor
  · intro h
    cases hf : find [58] line with
    | none => simp [parseGenericHeaderLine, hf] at h
    | some i =>
      obtain ⟨name, value, rfl, rfl, hc⟩ := find_singleton_cut hf
      by_cases hn : trim name = []
      · simp [parseGenericHeaderLine, hf, hn] at h
      · have hv : (name ++ 58 :: value).drop (name.length + 1) = value := by simp
        simp only [parseGenericHeaderLine, hf, List.take_left, hv, hn, if_false,
          Option.some.injEq] at h
        exact ⟨_, ⟨name, value, rfl, hc, hn, rfl⟩, h.symm⟩
  · rintro ⟨h, ⟨name, value, rfl, hc, hn, rfl⟩, rfl⟩
    simp [parseGenericHeaderLine, find_singleton_append hc, hn]

lemma parseGenericHeaderLine_eq_none {line : Bytes} {hs : HeaderList} :
    parseGenericHeaderLine line hs = none ↔ ¬ ∃ h, IsHeaderLine line h := by
  rw [Option.eq_none_iff_forall_ne_some]
  simp only [ne_eq, parseGenericHeaderLine_iff]
  constructor
  · rintro h ⟨kv, hk⟩
    exact h _ ⟨kv, hk, rfl⟩
  · rintro h hs' ⟨kv, hk, _⟩
    exact h ⟨kv, hk⟩

inductive Section (buffer : Bytes) : Prop
  | closed (lines : List Bytes) (hs : HeaderList) (rest : Bytes) :
      IsHeaderLines lines hs → buffer = unlines lines ++ crlf ++ rest → Section buffer
  | broken (lines : List Bytes) (hs : HeaderList) (line rest : Bytes) :
      IsHeaderLines lines hs → line ≠ [] → ¬ crlf <:+: line → (¬ ∃ h, IsHeaderLine line h) →
      buffer = unlines lines ++ (line ++ crlf ++ rest) → Section buffer
  | opened (lines : List Bytes) (hs : HeaderList) (rest : Bytes) :
      IsHeaderLines lines hs → ¬ crlf <:+: rest → buffer = unlines lines ++ rest → Section buffer

lemma Section.cons {line rest : Bytes} {h : Bytes × Bytes} (hn : line ≠ []) (hc : ¬ crlf <:+: line)
    (hh : IsHeaderLine line h) (hs : Section rest) : Section (line ++ crlf ++ rest) := by
  cases hs with
  | closed lines hs r hl he =>
    exact .closed (line :: lines) (h :: hs) r (isHeaderLines_cons.mpr ⟨⟨hn, hc, hh⟩, hl⟩) (by simp [he])
  | broken lines hs l r hl hne hlc hb he =>
    exact .broken (line :: lines) (h :: hs) l r (isHeaderLines_cons.mpr ⟨⟨hn, hc, hh⟩, hl⟩) hne hlc hb
      (by simp [he])
  | opened lines hs r hl hr he =>
    exact .opened (line :: lines) (h :: hs) r (isHeaderLines_cons.mpr ⟨⟨hn, hc, hh⟩, hl⟩) hr (by simp [he])

lemma isHeaderLines_nil : IsHeaderLines [] [] := ⟨by simp, .nil⟩

lemma line_induction {motive : Bytes → Prop} (last : ∀ rest, ¬ crlf <:+: rest → motive rest)
    (line : ∀ l rest, ¬ crlf <:+: l → motive rest → motive (l ++ crlf ++ rest)) (buffer : Bytes) :
    motive buffer := by
  induction hn : buffer.length using Nat.strong_induction_on generalizing buffer with
  | h n ih =>
    subst hn
    cases he : extractLine buffer 0 with
    | none => exact last buffer (extractLine_eq_none.mp he)
    | some lp =>
      obtain ⟨rest, rfl, -, hc⟩ := extractLine_cut he
      exact line lp.1 rest hc (ih rest.length (by simp; omega) rest rfl)

lemma section_of_buffer (buffer : Bytes) : Section buffer := by
  induction buffer using line_induction with
  | last rest hr => exact .opened [] [] rest isHeaderLines_nil hr rfl
  | line l rest hc ih =>
    by_cases hl : l = []
    · subst hl
      exact .closed [] [] rest isHeaderLines_nil rfl
    · by_cases hh : ∃ h, IsHeaderLine l h
      · obtain ⟨h, hh⟩ := hh
        exact Section.cons hl hc hh ih
      · exact .broken [] [] l rest isHeaderLines_nil hl hc hh rfl

lemma lines_of_buffer (buffer : Bytes) : ∃ lines rest, buffer = unlines lines ++ rest ∧
    (∀ l ∈ lines, ¬ crlf <:+: l) ∧ ¬ crlf <:+: rest := by
  induction buffer using line_induction with
  | last rest hr => exact ⟨[], rest, rfl, by simp, hr⟩
  | line l rest hc ih =>
    obtain ⟨lines, r, rfl, hl, hr⟩ := ih
    exact ⟨l :: lines, r, by simp, by simpa using ⟨hc, hl⟩, hr⟩

namespace Parser

variable {μ : Type} [Message μ] {p : Parser μ} {lines : List Bytes} {hs : HeaderList}

def addHeaders (p : Parser μ) (hs : HeaderList) (rest : Bytes) : Parser μ :=
  { p with buffer := rest, msg := Message.setHeaders (Message.headers p.msg ++ hs) p.msg }

lemma processHeaders_lines (hl : IsHeaderLines lines hs) (rest : Bytes)
    (hb : p.buffer = unlines lines ++ rest) : p.processHeaders = (p.addHeaders hs rest).processHeaders := by
  obtain ⟨hne, hf⟩ := hl
  induction hf generalizing p with
  | nil =>
    have he : p.addHeaders [] rest = p := by
      simp only [unlines_nil, List.nil_append] at hb
      simp [addHeaders, Message.setHeaders_headers, ← hb]
    rw [he]
  | @cons line h lines hs hh _ ih =>
    simp only [List.forall_mem_cons] at hne
    have he : extractLine p.buffer 0 = some (line, line.length + 2) := by
      rw [hb, unlines_cons, List.append_assoc]
      exact extractLine_line hne.1.2 _
    have hd : p.buffer.drop (line.length + 2) = unlines lines ++ rest := by
      rw [hb, unlines_cons, List.append_assoc, drop_line]
    rw [processHeaders_good he hne.1.1 (parseGenericHeaderLine_iff.mpr ⟨h, hh, rfl⟩)]
    rw [ih (p := { p with
      buffer := p.buffer.drop (line.length + 2)
      msg := Message.setHeaders (Message.headers p.msg ++ [h]) p.msg }) hd hne.2]
    simp [addHeaders, Message.headers_setHeaders, Message.setHeaders_setHeaders]

lemma processHeaders_closed (hl : IsHeaderLines lines hs) (rest : Bytes)
    (hb : p.buffer = unlines lines ++ crlf ++ rest) :
    p.processHeaders = processBody { finalizeHeaders (p.addHeaders hs rest) with state := .body } := by
  rw [processHeaders_lines hl (crlf ++ rest) (by rw [hb, List.append_assoc])]
  have he : extractLine (p.addHeaders hs (crlf ++ rest)).buffer 0 = some ([], 2) :=
    extractLine_line (by decide : ¬ crlf <:+: ([] : Bytes)) rest
  exact processHeaders_blank he

lemma processHeaders_opened (hl : IsHeaderLines lines hs) {rest : Bytes} (hr : ¬ crlf <:+: rest)
    (hb : p.buffer = unlines lines ++ rest) :
    p.processHeaders = (p.addHeaders hs rest, .needMoreData) := by
  rw [processHeaders_lines hl rest hb]
  exact processHeaders_wait (extractLine_eq_none.mpr hr)

lemma processHeaders_broken {line rest : Bytes} (hl : ∀ l ∈ lines, l ≠ [] ∧ ¬ crlf <:+: l)
    (hn : line ≠ []) (hc : ¬ crlf <:+: line) (hh : ¬ ∃ h, IsHeaderLine line h)
    (hb : p.buffer = unlines lines ++ (line ++ crlf ++ rest)) :
    p.processHeaders.1.state = .error ∧ p.processHeaders.2 = .error := by
  induction lines generalizing p with
  | nil =>
    have he : extractLine p.buffer 0 = some (line, line.length + 2) := by
      rw [hb]
      exact extractLine_line hc rest
    rw [processHeaders_bad he hn (parseGenericHeaderLine_eq_none.mpr hh)]
    exact ⟨rfl, rfl⟩
  | cons l ls ih =>
    simp only [List.forall_mem_cons] at hl
    have he : extractLine p.buffer 0 = some (l, l.length + 2) := by
      rw [hb, unlines_cons, List.append_assoc (l ++ crlf)]
      exact extractLine_line hl.1.2 _
    cases hg : parseGenericHeaderLine l (Message.headers p.msg) with
    | none =>
      rw [processHeaders_bad he hl.1.1 hg]
      exact ⟨rfl, rfl⟩
    | some hs' =>
      rw [processHeaders_good he hl.1.1 hg]
      apply ih hl.2
      rw [hb, unlines_cons, List.append_assoc (l ++ crlf), drop_line]

end Parser

end HttpBalancer.Net
