import CommentTags.Yaml.Gap
import CommentTags.Yaml.Printer

/-!
# Characters that are written

What is written in YAML consists of printable characters.  They may stand in a text, they stay as
they are when line ends are unified, and of the characters that separate words there are only the
space and three line breaks among them.

* `eq_space_of_isBlank` — among printable characters only the space separates words of a line.
* `BeginsWord` — a text that does not go on with a blank or a line break; it is where a gap ends.
* `readGap_spaces`, `readGap_breaks`, `readGap_indent` — a gap between two words is read back by its
  parts: spaces, line breaks, and the indent of the line that follows.
-/

set_option autoImplicit false

namespace CommentTags.Yaml

/-! ## Classes of characters -/

section

variable {c : Char}

theorem eq_iff_toNat_eq {c d : Char} : c = d ↔ c.toNat = d.toNat :=
  ⟨fun h => h ▸ rfl, fun h => Char.toNat_inj.1 h⟩

theorem isPrintable_iff : isPrintable c = true ↔
    c.toNat = 0xA ∨ (0x20 ≤ c.toNat ∧ c.toNat ≤ 0x7E) ∨ (0xA0 ≤ c.toNat ∧ c.toNat ≤ 0xD7FF) ∨
      (0xE000 ≤ c.toNat ∧ c.toNat ≤ 0xFEFE) ∨ (0xFF00 ≤ c.toNat ∧ c.toNat ≤ 0xFFFD) := by
  simp only [isPrintable, printableRanges, Text.inRanges, Text.CodeRange.contains, List.any_cons,
    List.any_nil, Bool.or_false, Bool.or_eq_true, Bool.and_eq_true, decide_eq_true_eq]
  omega

theorem isBlank_iff : isBlank c = true ↔ c.toNat = 0x20 ∨ c.toNat = 9 := by
  simp only [isBlank, eq_iff_toNat_eq, Bool.or_eq_true, decide_eq_true_eq]
  rfl

theorem isAllowed_of_isPrintable (h : isPrintable c = true) : isAllowed c = true := by
  rw [isPrintable_iff] at h
  simp only [isAllowed, allowedRanges, Text.inRanges, Text.CodeRange.contains, List.any_cons,
    List.any_nil, Bool.or_false, Bool.or_eq_true, Bool.and_eq_true, decide_eq_true_eq]
  omega

/-- Among printable characters only the space separates words of a line. -/
theorem eq_space_of_isBlank (hp : isPrintable c = true) (h : isBlank c = true) : c = ' ' := by
  rw [isPrintable_iff] at hp
  rw [isBlank_iff] at h
  exact eq_iff_toNat_eq.2 (show c.toNat = 0x20 by omega)

theorem isSpacing_eq_false_iff (hp : isPrintable c = true) :
    isSpacing c = false ↔ c ≠ ' ' ∧ isBreak c = false := by
  rw [isSpacing, Bool.or_eq_false_iff, ← Bool.not_eq_true (isBlank c)]
  refine and_congr_left fun _ => not_congr ⟨eq_space_of_isBlank hp, ?_⟩
  rintro rfl
  rfl

end

/-! ## Texts of printable characters -/

theorem unifyBreaks_eq_self {s : List Char} (h : ∀ c ∈ s, isPrintable c = true) :
    unifyBreaks s = s := by
  have hstay {c : Char} (hc : isPrintable c = true) : c ≠ '\r' ∧ c ≠ '\x85' := by
    constructor <;> rintro rfl <;> exact absurd hc (by decide)
  induction s with
  | nil => rfl
  | cons c s ih =>
    obtain ⟨hr, hn⟩ := hstay (h c List.mem_cons_self)
    rw [unifyBreaks, if_neg (by simp [hr, hn]), ih fun c hc => h c (List.mem_cons_of_mem _ hc)]
    rintro _ rfl
    exact absurd rfl hr

/-- Marks between documents stand at the start of a line. -/
theorem not_atDocumentMark (r : List Char) (line : Nat) {column : Nat} (hcolumn : 0 < column) :
    Input.atDocumentMark ⟨r, line, column⟩ = false := by
  have hne : (column == 0) = false := beq_eq_false_iff_ne.2 (by omega)
  simp [Input.atDocumentMark, Input.atMark, hne]

/-! ## Gaps -/

/-- Spaces. -/
def spaces (n : Nat) : List Char := List.replicate n ' '

@[simp]
theorem length_spaces (n : Nat) : (spaces n).length = n := List.length_replicate

theorem spaces_succ (n : Nat) : spaces (n + 1) = ' ' :: spaces n := List.replicate_succ

theorem mem_spaces {n : Nat} {c : Char} (h : c ∈ spaces n) : c = ' ' := List.eq_of_mem_replicate h

theorem exists_eq_spaces {s : List Char} (h : ∀ c ∈ s, (c == ' ') = true) : ∃ n, s = spaces n :=
  ⟨s.length, List.eq_replicate_iff.2 ⟨rfl, fun c hc => beq_iff_eq.1 (h c hc)⟩⟩

/-- A text that does not go on with a character of the class. -/
def Past (p : Char → Bool) (s : List Char) : Prop := ∀ c ∈ s.head?, p c = false

/-- A text that does not go on with a blank or a line break. -/
abbrev BeginsWord (s : List Char) : Prop := Past isSpacing s

section

variable {p : Char → Bool} {c : Char} {s : List Char}

theorem past_nil : Past p [] := fun _ h => absurd h (by simp)

theorem past_cons : Past p (c :: s) ↔ p c = false := by
  simp [Past]

/-- Every text is characters of a class, and what follows them. -/
theorem exists_past (p : Char → Bool) (s : List Char) :
    ∃ gap r, s = gap ++ r ∧ (∀ c ∈ gap, p c = true) ∧ Past p r := by
  induction s with
  | nil => exact ⟨[], [], rfl, by simp, past_nil⟩
  | cons c s ih =>
    cases hc : p c with
    | true =>
      obtain ⟨gap, r, rfl, hgap, hr⟩ := ih
      exact ⟨c :: gap, r, rfl, List.forall_mem_cons.2 ⟨hc, hgap⟩, hr⟩
    | false => exact ⟨[], c :: s, rfl, by simp, past_cons.2 hc⟩

/-- A text that does not end in a gap goes on after it. -/
theorem ne_nil_of_getLast? {a gap : List Char} (hne : gap ≠ []) (hgap : ∀ d ∈ gap, p d = true)
    (hlast : ∀ d ∈ (a ++ (gap ++ s)).getLast?, p d = false) : s ≠ [] := by
  rintro rfl
  have hend := hlast (gap.getLast hne) (by
    rw [List.append_nil, List.getLast?_append, List.getLast?_eq_some_getLast hne]
    rfl)
  rw [hgap _ (List.getLast_mem hne)] at hend
  exact Bool.noConfusion hend

/-- A text is taken apart at the gaps between the characters that are not in the class. -/
@[elab_as_elim]
theorem gaps_induction (p : Char → Bool) {P : (s : List Char) → Past p s → Prop}
    (nil : P [] past_nil)
    (word : ∀ c gap r (hc : p c = false) (hr : Past p r), (∀ d ∈ gap, p d = true) → P r hr →
      P (c :: (gap ++ r)) (past_cons.2 hc))
    (s : List Char) (h : Past p s) : P s h := by
  match s, h with
  | [], _ => exact nil
  | c :: s, h =>
    obtain ⟨gap, r, hs, hgap, hr⟩ := exists_past p s
    have hlt : r.length < (c :: s).length := by
      rw [hs, List.length_cons, List.length_append]
      omega
    subst hs
    exact word c gap r (past_cons.1 h) hr hgap (gaps_induction p nil word r hr)
termination_by s.length

end

section

variable {margin line column : Nat} {lineStart : Bool} {r : List Char}

theorem readGap_of_beginsWord (h : BeginsWord r) :
    readGap margin line column lineStart r = .ok ⟨[], [], ⟨r, line, column⟩⟩ := by
  cases r with
  | nil => rfl
  | cons c r =>
    obtain ⟨hblank, hbreak⟩ := Bool.or_eq_false_iff.1 (past_cons.1 h)
    rw [readGap, hblank, hbreak]
    rfl

/-- Spaces inside a line count. -/
theorem readGap_spaces (n : Nat) (h : BeginsWord r) :
    readGap margin line column false (spaces n ++ r) =
      .ok ⟨spaces n, [], ⟨r, line, column + n⟩⟩ := by
  induction n generalizing column with
  | zero => exact readGap_of_beginsWord h
  | succ n ih =>
    rw [spaces_succ, List.cons_append, readGap, ih]
    simp [isBreak, isBlank, Except.map, Nat.add_right_comm, Nat.add_assoc]

/-- The indent of a line does not count. -/
theorem readGap_indent (n : Nat) (h : BeginsWord r) :
    readGap margin line column true (spaces n ++ r) = .ok ⟨[], [], ⟨r, line, column + n⟩⟩ := by
  induction n generalizing column with
  | zero => exact readGap_of_beginsWord h
  | succ n ih =>
    rw [spaces_succ, List.cons_append, readGap, ih]
    simp [isBreak, isBlank, Nat.add_right_comm, Nat.add_assoc]

/-- Line breaks and the indent of the line after them. -/
theorem readGap_breaks (margin line column : Nat) (lineStart : Bool) {breaks : List Char}
    (hne : breaks ≠ []) (hbreaks : ∀ c ∈ breaks, isBreak c = true) (n : Nat) (h : BeginsWord r) :
    readGap margin line column lineStart (breaks ++ (spaces n ++ r)) =
      .ok ⟨[], breaks, ⟨r, line + breaks.length, n⟩⟩ := by
  induction breaks generalizing line column lineStart with
  | nil => exact absurd rfl hne
  | cons c breaks ih =>
    rw [List.cons_append, readGap, if_pos (hbreaks c List.mem_cons_self)]
    by_cases hnil : breaks = []
    · subst hnil
      rw [List.nil_append, readGap_indent n h, Nat.zero_add]
      rfl
    · rw [ih _ _ _ hnil fun c hc => hbreaks c (List.mem_cons_of_mem _ hc)]
      simp [Except.map, Nat.add_assoc, Nat.add_comm 1]

end

end CommentTags.Yaml
