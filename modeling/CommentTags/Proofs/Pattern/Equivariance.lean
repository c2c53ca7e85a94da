import Mathlib.Data.List.Basic
import CommentTags.Language.Names
import CommentTags.Proofs.Pattern.Places

/-!
# Searches do not see how a text is written

A `Renaming` writes every character of a text as one that patterns take for the same, and moves the
text to another place of a document.  Two of them matter: moving alone (`Renaming.move`), which
relates the scan of a part to the scan of that part on its own, and writing capital letters as small
ones (`Renaming.small`), which is set up where it is used.

Everything that a search does is equivariant.  None of the proofs looks at what the renaming does to
a character.

* `Pattern.caseless` — no class of the pattern tells a capital letter from a small one.  It is asked
  for because a class, other than a literal, is not written anew.
* `Pattern.ends_rename` — one pattern stops at the same places, in the same order of preference.
* `Expression.partsAt_rename`, `Expression.matchesFrom_rename` — one match, and a search from a
  place.
* `Expression.findAll_rename` — the search of a whole text.
-/

set_option autoImplicit false

namespace CommentTags

open Text

/-- The class is not that of a single letter of ASCII. -/
def CharClass.caseless : CharClass → Bool
  | .exactly a => !a.isAlpha
  | _ => true

/-- No class of the pattern tells a capital letter from a small one. -/
def Pattern.caseless : Pattern → Bool
  | .one k | .run k | .lazyRun k => k.caseless
  | .seq p q | .alt p q => p.caseless && q.caseless
  | .opt p | .plus p | .group p => p.caseless
  | .lineStart | .lineEnd | .literal _ | .oneOf _ => true

/-- No class of the expression tells a capital letter from a small one. -/
def Expression.caseless (e : Expression) : Bool :=
  e.all (·.pattern.caseless)

/-- A way to write a text anew at another place. -/
structure Renaming where
  /-- The number of bytes by which every place is moved. -/
  shift : Nat
  /-- How a character is written. -/
  letter : Char → Char
  /-- Only letters of ASCII are written in another way. -/
  letter_eq : ∀ a : Char, a.isAlpha = false → letter a = a
  utf8Size_letter : ∀ a, (letter a).utf8Size = a.utf8Size
  contains_letter : ∀ k : CharClass, k.caseless → ∀ a, k.contains (letter a) = k.contains a
  sameLetter_letter : ∀ a b, sameLetter (letter a) (letter b) = sameLetter a b
  /-- Also the contexts that decide how a letter is lowered stay the same. -/
  lowercase_map : ∀ s, lowercase (s.map letter) = lowercase s

namespace Renaming

/-- Every character stays, and every place moves. -/
def move (shift : Nat) : Renaming where
  shift
  letter := id
  letter_eq _ _ := rfl
  utf8Size_letter _ := rfl
  contains_letter _ _ _ := rfl
  sameLetter_letter _ _ := rfl
  lowercase_map s := by rw [List.map_id]

variable (ρ : Renaming)

theorem newline_letter (a : Char) : (ρ.letter a == '\n') = (a == '\n') := by
  have h := ρ.contains_letter .inLine rfl a
  simpa only [CharClass.contains, bne, Bool.not_inj_iff] using h

theorem isWhite_letter (a : Char) : isWhite (ρ.letter a) = isWhite a :=
  ρ.contains_letter .white rfl a

theorem map_letter_eq {s : List Char} (h : s.all (!·.isAlpha)) : s.map ρ.letter = s := by
  rw [List.all_eq_true] at h
  conv_rhs => rw [← List.map_id s]
  exact List.map_congr_left fun a ha => ρ.letter_eq a (by simpa using h a ha)

end Renaming

/-- The same place in the text that is written anew. -/
def Cursor.rename (ρ : Renaming) (c : Cursor) : Cursor :=
  ⟨c.offset + ρ.shift, c.before.map ρ.letter, c.rest.map ρ.letter⟩

/-- The pattern with its texts written anew. -/
def Pattern.rename (ρ : Renaming) : Pattern → Pattern
  | .lineStart => .lineStart
  | .lineEnd => .lineEnd
  | .one k => .one k
  | .run k => .run k
  | .lazyRun k => .lazyRun k
  | .literal s => .literal (s.map ρ.letter)
  | .oneOf words => .oneOf (words.map (·.map ρ.letter))
  | .seq p q => .seq (p.rename ρ) (q.rename ρ)
  | .alt p q => .alt (p.rename ρ) (q.rename ρ)
  | .opt p => .opt (p.rename ρ)
  | .plus p => .plus (p.rename ρ)
  | .group p => .group (p.rename ρ)

theorem Pattern.rename_move (shift : Nat) (p : Pattern) : p.rename (.move shift) = p := by
  induction p <;> simp_all [Pattern.rename, Renaming.move]

/-! ## Places -/

section Places

variable {ρ : Renaming}

@[simp] theorem Cursor.rename_offset (c : Cursor) : (c.rename ρ).offset = c.offset + ρ.shift := rfl

@[simp] theorem Cursor.rename_rest (c : Cursor) : (c.rename ρ).rest = c.rest.map ρ.letter := rfl

theorem Cursor.rename_length (c : Cursor) : (c.rename ρ).rest.length = c.rest.length := by simp

/-- Reading on and writing anew can be done in either order. -/
theorem Cursor.rename_next (offset : Nat) (a : Char) (rest : List Char) :
    Cursor.rename ρ ⟨offset + a.utf8Size, some a, rest⟩ =
      ⟨offset + ρ.shift + (ρ.letter a).utf8Size, some (ρ.letter a), rest.map ρ.letter⟩ := by
  simp only [Cursor.rename, ρ.utf8Size_letter, Option.map_some]
  congr 1
  omega

theorem Cursor.atLineStart_rename (c : Cursor) : (c.rename ρ).atLineStart = c.atLineStart := by
  obtain ⟨offset, before, rest⟩ := c
  cases before with
  | none => rfl
  | some a => exact ρ.newline_letter a

theorem Cursor.atLineEnd_rename (c : Cursor) : (c.rename ρ).atLineEnd = c.atLineEnd := by
  obtain ⟨offset, before, rest⟩ := c
  cases rest with
  | nil => rfl
  | cons a rest => exact ρ.newline_letter a

theorem Cursor.upTo_rename (c d : Cursor) :
    (c.rename ρ).upTo (d.rename ρ) = (c.upTo d).map ρ.letter := by
  simp only [Cursor.upTo, Cursor.rename_rest, List.length_map, List.map_take]

theorem classRuns_rename {k : CharClass} (hk : k.caseless) (s : List Char) :
    ∀ (offset : Nat) (before : Option Char),
      classRuns k (offset + ρ.shift) (before.map ρ.letter) (s.map ρ.letter) =
        (classRuns k offset before s).map (·.rename ρ) := by
  induction s with
  | nil => exact fun _ _ => rfl
  | cons a s ih =>
    intro offset before
    rw [List.map_cons, classRuns, classRuns, List.map_cons, ρ.contains_letter k hk a]
    split
    · have h := ih (offset + a.utf8Size) (some a)
      rw [Option.map_some, Nat.add_right_comm] at h
      rw [ρ.utf8Size_letter, h]
      rfl
    · rfl

theorem literalEnd_rename (s : List Char) :
    ∀ (offset : Nat) (before : Option Char) (rest : List Char),
      literalEnd (offset + ρ.shift) (before.map ρ.letter) (s.map ρ.letter) (rest.map ρ.letter) =
        (literalEnd offset before s rest).map (·.rename ρ) := by
  induction s with
  | nil => exact fun _ _ _ => rfl
  | cons b s ih =>
    intro offset before rest
    cases rest with
    | nil => rfl
    | cons a rest =>
      rw [List.map_cons, List.map_cons, literalEnd, literalEnd, ρ.sameLetter_letter]
      split
      · have h := ih (offset + a.utf8Size) (some a) rest
        rw [Option.map_some, Nat.add_right_comm] at h
        rw [ρ.utf8Size_letter, h]
      · rfl

/-- **A pattern stops at the same places, in the same order of preference.** -/
theorem Pattern.ends_rename {p : Pattern} (hp : p.caseless) :
    ∀ c : Cursor, (p.rename ρ).ends (c.rename ρ) = (p.ends c).map (·.rename ρ) := by
  induction p with
  | lineStart =>
    intro c
    rw [Pattern.rename, Pattern.ends, Pattern.ends, Cursor.atLineStart_rename]
    split <;> rfl
  | lineEnd =>
    intro c
    rw [Pattern.rename, Pattern.ends, Pattern.ends, Cursor.atLineEnd_rename]
    split <;> rfl
  | one k =>
    rintro ⟨offset, before, rest⟩
    cases rest with
    | nil => rfl
    | cons a rest =>
      simp only [Pattern.rename, Pattern.ends, Cursor.rename_rest, List.map_cons,
        ρ.contains_letter k hp a,
        Cursor.rename_offset]
      split
      · rw [List.map_singleton, Cursor.rename_next]
      · rfl
  | run k =>
    intro c
    rw [Pattern.rename, Pattern.ends, Pattern.ends, List.map_reverse, ← classRuns_rename hp]
    rfl
  | lazyRun k => exact fun c => classRuns_rename hp _ _ _
  | literal s =>
    intro c
    rw [Pattern.rename, Pattern.ends, Pattern.ends, ← Option.toList_map, ← literalEnd_rename]
    rfl
  | oneOf words =>
    intro c
    rw [Pattern.rename, Pattern.ends, Pattern.ends, List.filterMap_map, List.map_filterMap]
    exact List.filterMap_congr fun s _ => literalEnd_rename s _ _ _
  | seq p q ihp ihq =>
    intro c
    rw [caseless, Bool.and_eq_true] at hp
    rw [Pattern.rename, Pattern.ends, Pattern.ends, ihp hp.1, List.flatMap_map, List.map_flatMap]
    exact List.flatMap_congr fun d _ => ihq hp.2 d
  | alt p q ihp ihq =>
    intro c
    rw [caseless, Bool.and_eq_true] at hp
    rw [Pattern.rename, Pattern.ends, Pattern.ends, ihp hp.1, ihq hp.2, List.map_append]
  | opt p ih =>
    intro c
    rw [Pattern.rename, Pattern.ends, Pattern.ends, ih hp, List.map_append, List.map_singleton]
  | plus p ih =>
    exact fun c => oneOrMore_map (S := fun _ => True) (by simp) (fun _ _ _ _ => trivial)
      (fun c _ => ih hp c) c trivial
  | group p ih => exact fun c => ih hp c

end Places

/-! ## Matches -/

/-- The expression with its texts written anew. -/
def Expression.rename (ρ : Renaming) (e : Expression) : Expression :=
  e.map fun p => ⟨p.name, p.pattern.rename ρ⟩

theorem Expression.rename_move (shift : Nat) (e : Expression) : e.rename (.move shift) = e := by
  simp [Expression.rename, Pattern.rename_move]

/-- The same part in the text that is written anew. -/
def Part.rename (ρ : Renaming) (p : Part) : Part :=
  ⟨p.name, p.start.rename ρ, p.stop.rename ρ⟩

/-- The same match in the text that is written anew. -/
def Match.rename (ρ : Renaming) (m : Match) : Match :=
  ⟨m.start.rename ρ, m.parts.map (·.rename ρ), m.stop.rename ρ⟩

section Matches

variable {ρ : Renaming}

theorem Part.text_rename (p : Part) : (p.rename ρ).text = p.text.map ρ.letter :=
  Cursor.upTo_rename p.start p.stop

theorem Match.part?_rename (m : Match) (n : PieceName) :
    (m.rename ρ).part? n = (m.part? n).map (·.rename ρ) := by
  rw [Match.part?, Match.part?, Match.rename, List.find?_map]
  rfl

theorem Expression.partsAt_rename {e : Expression} (he : e.caseless) (c : Cursor) :
    (e.rename ρ).partsAt (c.rename ρ) =
      (e.partsAt c).map fun (parts, stop) => (parts.map (·.rename ρ), stop.rename ρ) := by
  induction e generalizing c with
  | nil => rfl
  | cons p e ih =>
    rw [caseless, List.all_cons, Bool.and_eq_true] at he
    rw [Expression.rename, List.map_cons, ← Expression.rename, partsAt, partsAt,
      Pattern.ends_rename he.1, List.findSome?_map]
    induction p.pattern.ends c with
    | nil => rfl
    | cons d ds ihd =>
      rw [List.findSome?_cons, List.findSome?_cons, Function.comp_apply, ih he.2 d]
      cases partsAt e d with
      | none => exact ihd
      | some _ => rfl

theorem Expression.acceptedAt_rename {e : Expression} (he : e.caseless) (fresh : Bool)
    (c : Cursor) :
    (e.rename ρ).acceptedAt fresh (c.rename ρ) = (e.acceptedAt fresh c).map (·.rename ρ) := by
  rw [acceptedAt, acceptedAt, matchAt, matchAt, partsAt_rename he, Option.map_map]
  cases e.partsAt c with
  | none => rfl
  | some r =>
    simp only [Option.map_some, Option.filter_some, Function.comp_apply, Cursor.rename_length]
    split <;> rfl

/-- **A search finds the same matches.** -/
theorem Expression.matchesFrom_rename {e : Expression} (he : e.caseless) (fresh : Bool)
    (c : Cursor) :
    (e.rename ρ).matchesFrom fresh (c.rename ρ) = (e.matchesFrom fresh c).map (·.rename ρ) := by
  fun_induction Expression.matchesFrom e fresh c with
  | case1 fresh c m hm ih_stop ih_here =>
    rw [matchesFrom, acceptedAt_rename he, hm]
    simp only [Option.map_some, List.map_cons, Match.rename, Cursor.rename_length]
    split
    · next hlt => rw [ih_stop hlt]; rfl
    · split
      · next hf => rw [ih_here hf]; rfl
      · rfl
  | case2 fresh c hnone hrest =>
    obtain ⟨offset, before, rest⟩ := c
    cases hrest
    rw [matchesFrom, acceptedAt_rename he, hnone]
    rfl
  | case3 fresh c hnone a rest hrest ih =>
    obtain ⟨offset, before, _⟩ := c
    cases hrest
    rw [matchesFrom, acceptedAt_rename he, hnone, ← ih, Cursor.rename_next]
    rfl

theorem Expression.findAll_rename {e : Expression} (he : e.caseless) (offset : Nat)
    (text : List Char) :
    (e.rename ρ).findAll (offset + ρ.shift) (text.map ρ.letter) =
      (e.findAll offset text).map (·.rename ρ) :=
  matchesFrom_rename he true (Cursor.atStart offset text)

end Matches

end CommentTags
