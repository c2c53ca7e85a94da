import CommentTags.Yaml.Error
import CommentTags.Yaml.Input

/-!
# Gaps in scalars

A scalar that goes on over several lines is folded: a single line break counts as a space, and of
several ones the first does not count. Blanks around line breaks never count.
-/

namespace CommentTags.Yaml

/-- Blanks and line breaks between two words of a scalar. -/
structure Gap where
  /-- The blanks before the first line break. -/
  blanks : List Char
  breaks : List Char
  /-- What comes after the gap. -/
  next : Input
  deriving Repr, DecidableEq

/-- What a gap stands for. -/
def Gap.text (g : Gap) : List Char :=
  match g.breaks with
  | [] => g.blanks
  | ['\n'] => [' ']
  | '\n' :: more => more
  | breaks => breaks

/-- Whether the scalar goes on in another line. -/
def Gap.crossesLine (g : Gap) : Bool := !g.breaks.isEmpty

/-- Read a gap. At the start of a line, a tab to the left of the column `margin` is an error. -/
def readGap (margin line column : Nat) (lineStart : Bool) : List Char → Except Error Gap
  | [] => .ok ⟨[], [], ⟨[], line, column⟩⟩
  | c :: s =>
    if isBreak c then
      (readGap margin (line + 1) 0 true s).map fun g => { g with breaks := c :: g.breaks }
    else if isBlank c then
      if !lineStart then
        (readGap margin line (column + 1) false s).map fun g => { g with blanks := c :: g.blanks }
      else if c = '\t' && column < margin then .error .tabInIndent
      else readGap margin line (column + 1) true s
    else .ok ⟨[], [], ⟨c :: s, line, column⟩⟩

/-- What was changed has been read first. -/
theorem exists_of_map_eq_ok {α β : Type} {r : Except Error α} {f : α → β} {b : β}
    (h : r.map f = .ok b) : ∃ a, r = .ok a ∧ f a = b := by
  cases r with
  | error e => simp [Except.map] at h
  | ok a => exact ⟨a, rfl, Except.ok.inj h⟩

/-- A gap that was changed after it was read ends where it was read to. -/
theorem exists_gap_of_map_eq_ok {r : Except Error Gap} {f : Gap → Gap} {g : Gap}
    (h : r.map f = .ok g) (hf : ∀ g, (f g).next = g.next) : ∃ g', r = .ok g' ∧ g'.next = g.next := by
  obtain ⟨g', hr, rfl⟩ := exists_of_map_eq_ok h
  exact ⟨g', hr, (hf g').symm⟩

/-- A gap does not reach past the end of the text. -/
theorem readGap_length_le {margin : Nat} {s : List Char} :
    ∀ {line column : Nat} {lineStart : Bool} {g : Gap},
      readGap margin line column lineStart s = .ok g → g.next.rest.length ≤ s.length := by
  induction s with
  | nil =>
    intro _ _ _ _ h
    cases h
    simp
  | cons c s ih =>
    intro line column lineStart g h
    rw [readGap] at h
    split at h
    · obtain ⟨g', hg, hn⟩ := exists_gap_of_map_eq_ok h fun _ => rfl
      exact hn ▸ Nat.le_succ_of_le (ih hg)
    · split at h
      · split at h
        · obtain ⟨g', hg, hn⟩ := exists_gap_of_map_eq_ok h fun _ => rfl
          exact hn ▸ Nat.le_succ_of_le (ih hg)
        · split at h
          · cases h
          · exact Nat.le_succ_of_le (ih h)
      · cases h
        exact Nat.le_refl _

/-- A gap that begins with a blank or a line break is not empty. -/
theorem readGap_length_lt {margin line column : Nat} {lineStart : Bool} {c : Char} {s : List Char}
    {g : Gap} (hc : isSpacing c = true)
    (h : readGap margin line column lineStart (c :: s) = .ok g) :
    g.next.rest.length < (c :: s).length := by
  rw [readGap] at h
  split at h
  · obtain ⟨g', hg, hn⟩ := exists_gap_of_map_eq_ok h fun _ => rfl
    exact hn ▸ Nat.lt_succ_of_le (readGap_length_le hg)
  · split at h
    · split at h
      · obtain ⟨g', hg, hn⟩ := exists_gap_of_map_eq_ok h fun _ => rfl
        exact hn ▸ Nat.lt_succ_of_le (readGap_length_le hg)
      · split at h
        · cases h
        · exact Nat.lt_succ_of_le (readGap_length_le h)
    · simp_all [isSpacing]

/-- The gap that begins here, inside a line. -/
def Input.gap (i : Input) (margin : Nat) : Except Error Gap :=
  readGap margin i.line i.column false i.rest

end CommentTags.Yaml
