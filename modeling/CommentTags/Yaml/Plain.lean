import CommentTags.Yaml.Gap

/-!
# Plain scalars

A plain scalar is written without quotes. It ends before a colon that ends a word, before a comment,
before a document mark, before a line that is not indented enough, and inside a flow collection
before its punctuation.
-/

namespace CommentTags.Yaml

/-- The punctuation of flow collections. -/
def isFlowMark (c : Char) : Bool :=
  c = ',' || c = '[' || c = ']' || c = '\x7b' || c = '\x7d'

/-- Whether a plain scalar ends before the given text. -/
def endsPlain (inFlow : Bool) : List Char → Bool
  | [] => true
  | c :: rest => (c = ':' && endsWord rest) || (inFlow && isFlowMark c)

/-- Whether a colon here is an error, because punctuation follows it. -/
def hasStrayColon (inFlow : Bool) : List Char → Bool
  | ':' :: c :: _ => inFlow && (isFlowMark c || c = '?')
  | _ => false

/-- Whether a plain scalar goes on after a gap. -/
def continuesPlain (inFlow : Bool) (margin : Nat) (i : Input) : Bool :=
  (inFlow || margin ≤ i.column) && !i.atDocumentMark && i.rest.head? != some '#' &&
    (hasStrayColon inFlow i.rest || !endsPlain inFlow i.rest)

/-- The end of a plain scalar. -/
structure PlainEnd where
  /-- The scalar is followed by a line break. -/
  crossesLine : Bool
  next : Input
  deriving Repr, DecidableEq

/-- What comes next in a plain scalar. -/
inductive PlainPart
  | text (s : List Char) (next : Input)
  | stop (e : PlainEnd)
  deriving Repr, DecidableEq

/-- Read what comes next in a plain scalar. Its lines have to begin at the column `margin` or to the
right of it, except in flow collections. -/
def plainPart (inFlow : Bool) (margin : Nat) (i : Input) : Except Error PlainPart :=
  if hasStrayColon inFlow i.rest then .error .misplacedColon
  else if endsPlain inFlow i.rest then .ok (.stop ⟨false, i⟩)
  else if endsWord i.rest then
    (i.gap margin).map fun g =>
      if continuesPlain inFlow margin g.next then .text g.text g.next
      else .stop ⟨g.crossesLine, g.next⟩
  else .ok (.text (i.rest.take 1) (i.skip 1))

/-- Every part of a plain scalar has a character. -/
theorem plainPart_length_lt {inFlow : Bool} {margin : Nat} {i next : Input} {s : List Char}
    (h : plainPart inFlow margin i = .ok (.text s next)) : next.rest.length < i.rest.length := by
  rw [plainPart] at h
  cases hr : i.rest with
  | nil => simp_all [hasStrayColon, endsPlain]
  | cons c rest =>
    split at h
    · cases h
    · split at h
      · cases h
      · split at h
        · next hw =>
          cases hg : i.gap margin with
          | error e => simp [hg, Except.map] at h
          | ok g =>
            rw [Input.gap, hr] at hg
            have hlt := readGap_length_lt (by simpa [endsWord, hr] using hw) hg
            simp only [Input.gap, hr, hg, Except.map, Except.ok.injEq] at h
            split at h
            · cases h
              exact hlt
            · cases h
        · cases h
          simp [Input.skip, hr]

/-- Read a plain scalar. -/
def readPlain (inFlow : Bool) (margin : Nat) (i : Input) : Except Error (List Char × PlainEnd) :=
  match _h : plainPart inFlow margin i with
  | .error e => .error e
  | .ok (.stop e) => .ok ([], e)
  | .ok (.text part next) =>
    (readPlain inFlow margin next).map fun (text, stop) => (part ++ text, stop)
termination_by i.rest.length
decreasing_by exact plainPart_length_lt _h

end CommentTags.Yaml
