import CommentTags.Text.Digits
import CommentTags.Yaml.Gap

/-!
# Quoted scalars

Between single quotes only the quote itself has to be written twice. Between double quotes a
backslash begins an escape, and at the end of a line it joins the line with the next one.
-/

namespace CommentTags.Yaml

/-- The escapes of one letter, with the characters that they stand for. -/
def letterEscapes : List (Char × Char) :=
  [('0', '\x00'), ('a', '\x07'), ('b', '\x08'), ('t', '\t'), ('\t', '\t'), ('n', '\n'),
    ('v', '\x0B'), ('f', '\x0C'), ('r', '\r'), ('e', '\x1B'), (' ', ' '), ('"', '"'), ('/', '/'),
    ('\\', '\\'), ('N', '\x85'), ('_', '\xA0'), ('L', '\u2028'), ('P', '\u2029')]

/-- The letters after which hexadecimal digits follow, with the number of digits. -/
def digitEscapes : List (Char × Nat) := [('x', 2), ('u', 4), ('U', 8)]

/-- The character whose number is written in as many digits. -/
def digitsChar? (width : Nat) (s : List Char) : Option Char :=
  if s.length < width then none
  else ((Text.number? 16 (s.take width)).filter (·.isValidChar)).map Char.ofNat

/-- Read an escape, which starts after its backslash. -/
def readEscape (i : Input) : Except Error (Char × Input) :=
  match i.rest with
  | [] => .error .badEscape
  | c :: rest =>
    match letterEscapes.lookup c with
    | some a => .ok (a, i.skip 1)
    | none =>
      match digitEscapes.lookup c with
      | none => .error .badEscape
      | some width =>
        match digitsChar? width rest with
        | none => .error .badEscape
        | some a => .ok (a, i.skip (width + 1))

/-- Read what comes next in a quoted scalar: a part of its text, or nothing, which is its closing
quote. -/
def quotedPart (double : Bool) (i : Input) : Except Error (Option (List Char) × Input) :=
  if i.atDocumentMark then .error .markInQuote
  else
    match i.rest with
    | [] => .error .unclosedQuote
    | c :: rest =>
      if isSpacing c then (i.gap 0).map fun g => (some g.text, g.next)
      else if double then
        if c = '"' then .ok (none, i.skip 1)
        else if c = '\\' then
          if rest.head?.any isBreak then
            (readGap 0 (i.line + 1) 0 true rest.tail).map fun g => (some g.breaks, g.next)
          else (readEscape (i.skip 1)).map fun (a, next) => (some [a], next)
        else .ok (some [c], i.skip 1)
      else if c = '\'' then
        if rest.head? = some '\'' then .ok (some ['\''], i.skip 2) else .ok (none, i.skip 1)
      else .ok (some [c], i.skip 1)

/-- An escape has a character. -/
theorem readEscape_length_lt {i next : Input} {a : Char} (h : readEscape i = .ok (a, next)) :
    next.rest.length < i.rest.length := by
  rw [readEscape] at h
  cases hr : i.rest with
  | nil => simp [hr] at h
  | cons c rest =>
    simp only [hr] at h
    split at h
    · cases h
      simp [Input.skip, hr]
    · split at h
      · cases h
      · split at h
        · cases h
        · cases h
          simp only [Input.skip, hr, List.length_drop, List.length_cons]
          omega

/-- Every part of a quoted scalar has a character. -/
theorem quotedPart_length_lt {double : Bool} {i next : Input} {s : Option (List Char)}
    (h : quotedPart double i = .ok (s, next)) : next.rest.length < i.rest.length := by
  rw [quotedPart] at h
  split at h
  · cases h
  split at h
  · cases h
  next c rest hr =>
  have hskip (n : Nat) : (i.skip (n + 1)).rest.length < i.rest.length := by
    simp only [Input.skip, hr, List.length_drop, List.length_cons]
    omega
  split at h
  · next hc =>
    obtain ⟨g, hg, hnext⟩ := exists_of_map_eq_ok h
    rw [Input.gap, hr] at hg
    rw [hr, ← (Prod.mk.inj hnext).2]
    exact readGap_length_lt hc hg
  · split at h
    · split at h
      · cases h
        exact hskip 0
      · split at h
        · split at h
          · obtain ⟨g, hg, hnext⟩ := exists_of_map_eq_ok h
            have hle := readGap_length_le hg
            rw [List.length_tail] at hle
            rw [hr, ← (Prod.mk.inj hnext).2, List.length_cons]
            omega
          · obtain ⟨⟨a, stop⟩, he, hnext⟩ := exists_of_map_eq_ok h
            rw [← (Prod.mk.inj hnext).2]
            exact Nat.lt_trans (readEscape_length_lt he) (hskip 0)
        · cases h
          exact hskip 0
    · split at h
      · split at h
        · cases h
          exact hskip 1
        · cases h
          exact hskip 0
      · cases h
        exact hskip 0

/-- Read a quoted scalar, which starts after its opening quote. -/
def readQuoted (double : Bool) (i : Input) : Except Error (List Char × Input) :=
  match _h : quotedPart double i with
  | .error e => .error e
  | .ok (none, next) => .ok ([], next)
  | .ok (some part, next) => (readQuoted double next).map fun (text, stop) => (part ++ text, stop)
termination_by i.rest.length
decreasing_by exact quotedPart_length_lt _h

end CommentTags.Yaml
