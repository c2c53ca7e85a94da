import CommentTags.Proofs.Scan.Profiles
import CommentTags.Proofs.Text.Joining
import CommentTags.Tag.Registry

/-!
# Reading escaped texts back

In the notation of a pattern a backslash belongs to the character after it, whatever that character
is.  Read in this way, alternatives stand between the bars that have no backslash, and their texts
are had by taking the backslashes away.  So no tag and no delimiter of comments can break out of a
pattern, and different texts are written differently.

* `glyphs`, `alternatives` — a notation cut into characters with their backslashes, and the texts
  between its bars.
* `Quotes` — a notation is that of some texts, and nothing in it has a meaning of its own but the
  bars between them.
* `quotes_alternation` — this holds of the alternatives of any texts.
* `escape_eq_passes` — escaping in one pass is escaping the characters with a meaning first and the
  slashes after them.
* `quotes_tags_and_delimiters` — what follows for the tags and the delimiters of a scan.
-/

set_option autoImplicit false

namespace CommentTags

/-- A character of a notation, with or without a backslash before it. -/
inductive Glyph
  | bare (c : Char)
  | escaped (c : Char)
  deriving Repr, DecidableEq

namespace Glyph

/-- The character without its backslash. -/
def char : Glyph → Char
  | bare c => c
  | escaped c => c

/-- The character with its backslash. -/
def source : Glyph → List Char
  | bare c => [c]
  | escaped c => ['\\', c]

/-- A character of a literal text, which has a backslash if it needs one. -/
def ofChar (c : Char) : Glyph :=
  if needsEscape c then escaped c else bare c

theorem char_ofChar (c : Char) : (ofChar c).char = c := by
  rw [ofChar]
  split <;> rfl

theorem escaped_mem_map_ofChar {c : Char} {w : List Char} (h : escaped c ∈ w.map ofChar) :
    needsEscape c = true := by
  obtain ⟨d, -, hd⟩ := List.mem_map.1 h
  rw [ofChar] at hd
  split at hd
  · next hneeds => cases hd; exact hneeds
  · cases hd

theorem bare_mem_map_ofChar {c : Char} {w : List Char} (h : bare c ∈ w.map ofChar) :
    needsEscape c = false := by
  obtain ⟨d, -, hd⟩ := List.mem_map.1 h
  rw [ofChar] at hd
  split at hd
  · cases hd
  · next hneeds => cases hd; exact Bool.eq_false_iff.2 hneeds

end Glyph

/-- The characters of a notation.  A backslash belongs to the character after it. -/
def glyphs : List Char → List Glyph
  | '\\' :: c :: rest => .escaped c :: glyphs rest
  | c :: rest => .bare c :: glyphs rest
  | [] => []

/-- The texts between bars without a backslash, with all backslashes taken away. -/
def alternatives (s : List Char) : List (List Char) :=
  ((glyphs s).splitOn (.bare '|')).map (·.map Glyph.char)

/-- The notation says these texts and nothing else. -/
structure Quotes (s : List Char) (words : List (List Char)) : Prop where
  alternatives_eq : alternatives s = words
  /-- Every backslash stands before a character that has a meaning in a pattern, or a slash. -/
  escaped : ∀ c, Glyph.escaped c ∈ glyphs s → needsEscape c = true
  /-- A character with a meaning in a pattern, or a slash, has a backslash, unless it is a bar between
  two texts. -/
  bare : ∀ c, Glyph.bare c ∈ glyphs s → needsEscape c = true → c = '|'

/-! ## Characters with their backslashes -/

theorem glyphs_cons {c : Char} (hc : c ≠ '\\') (rest : List Char) :
    glyphs (c :: rest) = .bare c :: glyphs rest := by
  rw [glyphs]
  rintro _ _ rfl
  exact absurd rfl hc

/-- Reading a notation loses nothing. -/
theorem flatMap_source_glyphs (s : List Char) : (glyphs s).flatMap Glyph.source = s := by
  fun_induction glyphs s with
  | case1 c rest ih => rw [List.flatMap_cons, ih]; rfl
  | case2 c rest _ ih => rw [List.flatMap_cons, ih]; rfl
  | case3 => rfl

theorem glyphs_escapeChar_append (c : Char) (rest : List Char) :
    glyphs (escapeChar c ++ rest) = .ofChar c :: glyphs rest := by
  rw [escapeChar, Glyph.ofChar]
  split
  · rfl
  · next hneeds =>
    refine glyphs_cons ?_ rest
    rintro rfl
    exact hneeds (by decide)

theorem glyphs_escape_append (w rest : List Char) :
    glyphs (escape w ++ rest) = w.map .ofChar ++ glyphs rest := by
  induction w with
  | nil => rfl
  | cons c w ih =>
    rw [escape, List.flatMap_cons, List.append_assoc, glyphs_escapeChar_append, List.map_cons,
      List.cons_append, ← ih, escape]

/-- The bars between escaped texts are the only ones without a backslash. -/
theorem glyphs_alternation (words : List (List Char)) :
    glyphs (alternation words) =
      [.bare '|'].intercalate (words.map (·.map Glyph.ofChar)) := by
  rw [alternation]
  match words with
  | [] => rfl
  | [w] =>
    have h := glyphs_escape_append w []
    simpa [glyphs] using h
  | w :: v :: words =>
    have ih := glyphs_alternation (v :: words)
    rw [alternation] at ih
    simp only [List.map_cons] at ih ⊢
    rw [List.intercalate_cons_cons, List.append_assoc, glyphs_escape_append, List.singleton_append,
      glyphs_cons (by decide), ih, List.intercalate_cons_cons]
    simp

/-- **Escaped alternatives are read back.** -/
theorem quotes_alternation {words : List (List Char)} (hwords : words ≠ []) :
    Quotes (alternation words) words where
  alternatives_eq := by
    have hbar : ∀ l ∈ words.map (·.map Glyph.ofChar), Glyph.bare '|' ∉ l := by
      intro l hl hmem
      obtain ⟨w, -, rfl⟩ := List.mem_map.1 hl
      exact absurd (Glyph.bare_mem_map_ofChar hmem) (by decide)
    rw [alternatives, glyphs_alternation, List.splitOn_intercalate _ hbar (by simpa using hwords),
      List.map_map]
    simp [Function.comp_def, Glyph.char_ofChar]
  escaped c hc := by
    rw [glyphs_alternation] at hc
    obtain hc | ⟨l, hl, hc⟩ := Text.mem_intercalate hc
    · cases hc
    · obtain ⟨w, -, rfl⟩ := List.mem_map.1 hl
      exact Glyph.escaped_mem_map_ofChar hc
  bare c hc hneeds := by
    rw [glyphs_alternation] at hc
    obtain hc | ⟨l, hl, hc⟩ := Text.mem_intercalate hc
    · exact Glyph.bare.inj hc
    · obtain ⟨w, -, rfl⟩ := List.mem_map.1 hl
      rw [Glyph.bare_mem_map_ofChar hc] at hneeds
      exact Bool.noConfusion hneeds

theorem alternation_singleton (w : List Char) : alternation [w] = escape w :=
  List.intercalate_singleton

theorem quotes_escape (w : List Char) : Quotes (escape w) [w] :=
  alternation_singleton w ▸ quotes_alternation (List.cons_ne_nil w [])

/-! ## Escaping in two passes -/

/-- A character with a meaning in a pattern is written with a backslash. -/
def escapeMeta (c : Char) : List Char :=
  if metaChars.contains c then ['\\', c] else [c]

/-- A slash is written with a backslash. -/
def escapeSlash (c : Char) : List Char :=
  if c = '/' then ['\\', '/'] else [c]

/-- Slashes may as well be escaped in a pass of their own: they have no meaning in a pattern, and the
first pass writes no slash that was not there before. -/
theorem escape_eq_passes (w : List Char) :
    escape w = (w.flatMap escapeMeta).flatMap escapeSlash := by
  rw [escape, List.flatMap_assoc]
  refine congrArg (w.flatMap ·) (funext fun c => ?_)
  rw [escapeChar, needsEscape, escapeMeta]
  by_cases hc : c = '/'
  · subst hc
    decide
  · cases metaChars.contains c <;> simp [hc, escapeSlash]

/-! ## Tags and delimiters -/

/-- **Neither tags nor delimiters break out of a pattern.**  The alternatives of the tags are read
back as the tags, so different tags have different alternatives.  The openers of line comments are
read back as those that the syntax of the language declares and that are not empty, and the block
delimiters as the pair that it declares.  Where nothing is looked for, no delimiters are written. -/
theorem quotes_tags_and_delimiters (tags : Registry) (htags : tags.tags ≠ []) (language : String)
    (c : CommentSyntax) (toggles : Toggles) :
    let p := Profile.of language (some c) toggles
    Quotes tags.alternation tags.words ∧
      (∀ tags' : Registry, tags'.tags ≠ [] → tags'.alternation = tags.alternation →
        tags'.tags.map (·.marker) = tags.tags.map (·.marker)) ∧
      (p.supported = true →
        (c.lineOpeners ≠ [] →
          Quotes (alternation p.openerWords) (c.lineOpeners.map (·.toList))) ∧
        ∀ opener close, c.blockPair = some (opener, close) →
          Quotes (escape p.blockStart) [opener.toList] ∧
          Quotes (escape p.blockEnd) [close.toList] ∧
          (c.lineOpeners = [] → Quotes (alternation p.openerWords) [opener.toList])) ∧
      (p.supported = false → p.openers = [] ∧ p.block = none) := by
  have hquotes {r : Registry} (hr : r.tags ≠ []) : Quotes r.alternation r.words :=
    quotes_alternation (by simpa [Registry.words] using hr)
  refine ⟨hquotes htags, fun tags' htags' heq => ?_, fun hsupported => ⟨fun hline => ?_, ?_⟩,
    Profile.delimiters_of_not_supported⟩
  · have hwords : tags'.words = tags.words := by
      rw [← (hquotes htags').alternatives_eq, heq, (hquotes htags).alternatives_eq]
    have hmarkers := congrArg (List.map String.ofList) hwords
    simpa [Registry.words, Function.comp_def] using hmarkers
  · obtain ⟨hopeners, -⟩ := Profile.delimiters_of_supported hsupported
    rw [Profile.openerWords, hopeners, Profile.openersOf, if_neg (by simpa using hline)]
    exact quotes_alternation (by simpa using hline)
  · intro opener close hpair
    obtain ⟨hopeners, hblock⟩ := Profile.delimiters_of_supported hsupported
    rw [Profile.blockStart, Profile.blockEnd, hblock, hpair]
    refine ⟨quotes_escape _, quotes_escape _, fun hline => ?_⟩
    rw [Profile.openerWords, hopeners, Profile.openersOf, hline, hpair]
    exact quotes_alternation (List.cons_ne_nil _ [])

/-- Tags with bars, backslashes and slashes, one of them empty, and delimiters of the same kind. -/
theorem quotes_tags_and_delimiters_backslashes :
    let tags : Registry := ⟨[⟨"a|b\\", {}⟩, ⟨"", {}⟩, ⟨"\\/|", {}⟩]⟩
    let c : CommentSyntax := ⟨some (.several ["", "|\\", "//"]), some ("(*", "\\*)")⟩
    let p := Profile.of "language" (some c) {}
    tags.tags ≠ [] ∧ p.supported = true ∧
      tags.alternation = "a\\|b\\\\||\\\\\\/\\|".toList ∧
      Quotes tags.alternation ["a|b\\".toList, [], "\\/|".toList] ∧
      Quotes (alternation p.openerWords) ["|\\".toList, "//".toList] ∧
      Quotes (escape p.blockStart) ["(*".toList] ∧ Quotes (escape p.blockEnd) ["\\*)".toList] := by
  have h := quotes_tags_and_delimiters ⟨[⟨"a|b\\", {}⟩, ⟨"", {}⟩, ⟨"\\/|", {}⟩]⟩ (by decide)
    "language" ⟨some (.several ["", "|\\", "//"]), some ("(*", "\\*)")⟩ {}
  obtain ⟨htags, -, hdelimiters, -⟩ := h
  obtain ⟨hline, hblock⟩ := hdelimiters (by decide)
  exact ⟨by decide, by decide, by decide, htags, hline (by decide),
    (hblock "(*" "\\*)" (by decide)).1, (hblock "(*" "\\*)" (by decide)).2.1⟩

end CommentTags
