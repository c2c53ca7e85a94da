import CommentTags.Proofs.Pattern.Equivariance
import CommentTags.Proofs.Pattern.Parts
import CommentTags.Scan.Finders

/-!
# Finding comments does not see how a text is written

The expressions of `CommentTags.Scan.Grammar` name no letter outside the tags and delimiters that
they are built from.  So a renaming of the text, of the tags and of the delimiters carries the
comments that one function finds to those that it finds in the text written anew: the same tags, at
the places moved by the renaming.

* `Registry.rename`, `Scope.rename`, `Profile.rename`, `Finding.move` — what is written anew, and
  what only moves.
* `Scope.document_rename_move` — a scope is its text as a document, moved to where the scope begins.
* `lineExpression_rename` and its like — each expression follows the renaming.
* `blockFindings_rename`, `docFindings_rename`, `listFindings_rename`, `fences_rename` — each
  function finds the same.
* `lineFindings_rename` — the one place where an absolute offset is looked at is the comment at the
  very start of a document, which does not count in some languages.  So this asks that no comment is
  moved there or away from there.
-/

set_option autoImplicit false

namespace CommentTags

/-! ## What is written anew -/

/-- The string written anew. -/
def Renaming.string (ρ : Renaming) (s : String) : String :=
  String.ofList (s.toList.map ρ.letter)

/-- The tags with their markers written anew. -/
def Registry.rename (ρ : Renaming) (r : Registry) : Registry :=
  ⟨r.tags.map fun t => { t with marker := ρ.string t.marker }⟩

/-- The scope with its text written anew at the place it is moved to. -/
def Scope.rename (ρ : Renaming) (s : Scope) : Scope :=
  ⟨s.offset + ρ.shift, s.text.map ρ.letter⟩

/-- The profile with its delimiters written anew. -/
def Profile.rename (ρ : Renaming) (p : Profile) : Profile :=
  { p with
    openers := p.openers.map ρ.string
    block := p.block.map fun pair => (ρ.string pair.1, ρ.string pair.2) }

/-- The finding with its places moved. -/
def Finding.move (shift : Nat) (f : Finding) : Finding :=
  ⟨f.style, f.start + shift, f.stop + shift⟩

/-- The region with its interior written anew. -/
def Region.rename (ρ : Renaming) (r : Region) : Region :=
  ⟨r.start + ρ.shift, r.stop + ρ.shift, r.interior.rename ρ⟩

/-- The fence with its body written anew. -/
def Fence.rename (ρ : Renaming) (f : Fence) : Fence :=
  ⟨ρ.string f.hint, f.language, f.body.rename ρ⟩

section

variable {ρ : Renaming}

@[simp] theorem Renaming.toList_string (s : String) :
    (ρ.string s).toList = s.toList.map ρ.letter := String.toList_ofList

theorem Registry.words_rename (r : Registry) :
    (r.rename ρ).words = r.words.map (·.map ρ.letter) := by
  simp [Registry.words, Registry.rename, Function.comp_def]

theorem Registry.find?_rename (r : Registry) (s : List Char) :
    (r.rename ρ).find? (s.map ρ.letter) = r.find? s := by
  rw [Registry.find?, Registry.find?, Registry.words_rename, List.findIdx?_map]
  congr 1
  funext w
  simp only [Function.comp_apply, ρ.lowercase_map]

theorem Renaming.string_move (shift : Nat) (s : String) : (Renaming.move shift).string s = s := by
  rw [Renaming.string, Renaming.move, List.map_id, String.ofList_toList]

theorem Registry.rename_move (shift : Nat) (r : Registry) : r.rename (.move shift) = r := by
  simp [Registry.rename, Renaming.string_move]

theorem Scope.rename_move (shift : Nat) (s : Scope) :
    s.rename (.move shift) = ⟨s.offset + shift, s.text⟩ := by
  rw [Scope.rename, Renaming.move, List.map_id]

/-- A scope is its text as a document, moved to where the scope begins. -/
theorem Scope.document_rename_move (s : Scope) :
    (Scope.document s.text).rename (.move s.offset) = s := by
  rw [Scope.rename_move, Scope.document, Nat.zero_add]

/-- Searching a scope is searching its text on its own and moving what is found. -/
theorem Expression.findAll_eq_map_move {e : Expression} (he : e.caseless) (s : Scope) :
    e.findAll s.offset s.text = (e.findAll 0 s.text).map (·.rename (.move s.offset)) := by
  have h := Expression.findAll_rename (ρ := .move s.offset) he 0 s.text
  rw [Expression.rename_move, Nat.zero_add, show s.text.map (Renaming.move s.offset).letter = s.text
    from List.map_id _] at h
  exact h

theorem Profile.rename_move (shift : Nat) (p : Profile) : p.rename (.move shift) = p := by
  have h : (Renaming.move shift).string = id := funext (Renaming.string_move shift)
  simp only [Profile.rename, h, id, List.map_id, Option.map_id']

theorem trimStart_map (s : List Char) :
    Text.trimStart (s.map ρ.letter) = (Text.trimStart s).map ρ.letter := by
  rw [Text.trimStart, Text.trimStart, List.dropWhile_map]
  congr 2
  funext a
  exact ρ.isWhite_letter a

theorem trimEnd_map (s : List Char) :
    Text.trimEnd (s.map ρ.letter) = (Text.trimEnd s).map ρ.letter := by
  rw [Text.trimEnd, Text.trimEnd, ← List.map_reverse, ← Text.trimStart, trimStart_map,
    Text.trimStart, List.map_reverse]

theorem canonical_string (s : String) : Language.canonical (ρ.string s) = Language.canonical s := by
  have h : Language.normalized (ρ.string s) = Language.normalized s := by
    rw [Language.normalized, Language.normalized, Renaming.toList_string, Text.trim, trimStart_map,
      trimEnd_map, ρ.lowercase_map, Text.trim]
  rw [Language.canonical, Language.canonical, h]

/-! ## Expressions -/

theorem Profile.openerWords_rename (p : Profile) :
    (p.rename ρ).openerWords = p.openerWords.map (·.map ρ.letter) := by
  simp [Profile.openerWords, Profile.rename, Function.comp_def]

theorem Profile.blockStart_rename (p : Profile) :
    (p.rename ρ).blockStart = p.blockStart.map ρ.letter := by
  rw [Profile.blockStart, Profile.blockStart, Profile.rename]
  cases p.block <;> simp

theorem Profile.blockEnd_rename (p : Profile) :
    (p.rename ρ).blockEnd = p.blockEnd.map ρ.letter := by
  rw [Profile.blockEnd, Profile.blockEnd, Profile.rename]
  cases p.block <;> simp

theorem Expression.rename_append (e f : Expression) :
    Expression.rename ρ (e ++ f) = e.rename ρ ++ f.rename ρ :=
  List.map_append

theorem Expression.rename_cons (p : Piece) (e : Expression) :
    Expression.rename ρ (p :: e) = ⟨p.name, p.pattern.rename ρ⟩ :: e.rename ρ := rfl

theorem tagPiece_rename (tags : Registry) :
    (⟨(tagPiece tags).name, (tagPiece tags).pattern.rename ρ⟩ : Piece) =
      tagPiece (tags.rename ρ) := by
  simp [tagPiece, Pattern.named, Pattern.rename, Registry.words_rename]

theorem lineOpening_rename (p : Profile) :
    Expression.rename ρ (lineOpening p) = lineOpening (p.rename ρ) := by
  rw [lineOpening, lineOpening, Profile.openerWords_rename,
    show (p.rename ρ).plainText = p.plainText from rfl]
  split <;> rfl

theorem lineRest_rename (p : Profile) :
    Expression.rename ρ (lineRest p) = lineRest (p.rename ρ) := by
  rw [lineRest, lineRest, Profile.blockEnd_rename,
    show (p.rename ρ).borrowsOpener = p.borrowsOpener from rfl]
  split <;> rfl

theorem lineExpression_rename (p : Profile) (tags : Registry) :
    Expression.rename ρ (lineExpression p tags) = lineExpression (p.rename ρ) (tags.rename ρ) := by
  rw [lineExpression, Expression.rename_append, Expression.rename_cons, lineOpening_rename,
    tagPiece_rename, lineRest_rename, lineExpression]

theorem blockExpression_rename (p : Profile) :
    Expression.rename ρ (blockExpression p) = blockExpression (p.rename ρ) := by
  rw [blockExpression, blockExpression, Profile.blockStart_rename, Profile.blockEnd_rename]
  rfl

theorem docExpression_rename : Expression.rename ρ docExpression = docExpression := by
  have hopen : "/**".toList.map ρ.letter = "/**".toList := ρ.map_letter_eq (by decide)
  have hclose : "*/".toList.map ρ.letter = "*/".toList := ρ.map_letter_eq (by decide)
  simp only [docExpression, Expression.rename_cons, Pattern.piece, Pattern.named, Pattern.rename,
    openingPlace, hopen, hclose]
  rfl

theorem blockLineExpression_rename (tags : Registry) :
    Expression.rename ρ (blockLineExpression tags) = blockLineExpression (tags.rename ρ) := by
  rw [blockLineExpression, Expression.rename_append, blockLineExpression, ← tagPiece_rename]
  rfl

theorem docLineExpression_rename (tags : Registry) :
    Expression.rename ρ (docLineExpression tags) = docLineExpression (tags.rename ρ) := by
  rw [docLineExpression, Expression.rename_append, docLineExpression, ← tagPiece_rename]
  rfl

theorem listExpression_rename (tags : Registry) :
    Expression.rename ρ (listExpression tags) = listExpression (tags.rename ρ) := by
  have hbox : "[ ] ".toList.map ρ.letter = "[ ] ".toList := ρ.map_letter_eq (by decide)
  simp only [listExpression, Expression.rename_cons, tagPiece_rename, Pattern.piece, Pattern.named,
    Pattern.rename, hbox]
  rfl

theorem fenceExpression_rename : Expression.rename ρ fenceExpression = fenceExpression := by
  have hmark : ['\x60', '\x60', '\x60'].map ρ.letter = ['\x60', '\x60', '\x60'] :=
    ρ.map_letter_eq (by decide)
  have h : Expression.rename ρ fenceMark = fenceMark := by
    simp only [fenceMark, Expression.rename_cons, Pattern.piece, Pattern.rename, hmark]
    rfl
  rw [fenceExpression, Expression.rename_append, Expression.rename_append, h]
  rfl

theorem lineExpression_caseless (p : Profile) (tags : Registry) :
    (lineExpression p tags).caseless := by
  rw [lineExpression, lineOpening, lineRest]
  split <;> split <;> rfl

/-! ## Findings -/

theorem findingAt?_rename (tags : Registry) (tag : Part) (stop : Cursor) :
    findingAt? (tags.rename ρ) (tag.rename ρ) (stop.rename ρ) =
      (findingAt? tags tag stop).map (·.move ρ.shift) := by
  rw [findingAt?, findingAt?, Part.text_rename, Registry.find?_rename, Option.map_map]
  congr 1
  funext style
  simp only [Part.rename, Cursor.upTo_rename, trimEnd_map,
    Text.byteLength_map ρ.utf8Size_letter, Cursor.rename_offset, Function.comp_apply, Finding.move]
  congr 1
  omega

theorem Match.finding?_rename (tags : Registry) (m : Match) :
    (m.rename ρ).finding? (tags.rename ρ) = (m.finding? tags).map (·.move ρ.shift) := by
  rw [Match.finding?, Match.finding?, Match.part?_rename]
  cases m.part? .tag with
  | none => rfl
  | some tag => exact findingAt?_rename tags tag m.stop

/-- Where the comment of a match stops: at the end of its named rest, if there is one. -/
def Match.lineStop (m : Match) : Cursor :=
  ((m.part? .rest).map (·.stop)).getD m.stop

theorem Match.lineStop_rename (m : Match) : (m.rename ρ).lineStop = m.lineStop.rename ρ := by
  rw [Match.lineStop, Match.lineStop, Match.part?_rename]
  cases m.part? .rest <;> rfl

/-- The comment of a match that runs to the end of its line. -/
def Match.lineFinding? (tags : Registry) (m : Match) : Option Finding :=
  (m.part? .tag).bind fun tag => findingAt? tags tag m.lineStop

theorem Match.lineFinding?_rename (tags : Registry) (m : Match) :
    (m.rename ρ).lineFinding? (tags.rename ρ) = (m.lineFinding? tags).map (·.move ρ.shift) := by
  rw [Match.lineFinding?, Match.lineFinding?, Match.part?_rename, Match.lineStop_rename]
  cases m.part? .tag with
  | none => rfl
  | some tag => exact findingAt?_rename tags tag m.lineStop

theorem listFindings_rename (p : Profile) (tags : Registry) (scope : Scope) :
    listFindings (p.rename ρ) (tags.rename ρ) (scope.rename ρ) =
      (listFindings p tags scope).map (·.move ρ.shift) := by
  rw [listFindings, listFindings, show (p.rename ρ).markdown = p.markdown from rfl]
  split
  · rw [Scope.rename, ← listExpression_rename, Expression.findAll_rename (by rfl),
      List.filterMap_map, List.map_filterMap]
    exact List.filterMap_congr fun m _ => Match.finding?_rename tags m
  · rfl

/-- A comment is left out at the start of a document only, so the text may move freely unless such
comments are left out and one of them could come to stand there or leave that place. -/
theorem lineFindings_rename (p : Profile) (tags : Registry) (scope : Scope)
    (hp : p.ignoresFirstLine = true → ρ.shift = 0 ∨ 0 < scope.offset) :
    lineFindings (p.rename ρ) (tags.rename ρ) (scope.rename ρ) =
      (lineFindings p tags scope).map (·.move ρ.shift) := by
  rw [lineFindings, lineFindings, show (p.rename ρ).scansLines = p.scansLines from rfl]
  split
  · rw [Scope.rename, ← lineExpression_rename,
      Expression.findAll_rename (lineExpression_caseless p tags), List.filterMap_map,
      List.map_filterMap]
    refine List.filterMap_congr fun m hm => ?_
    have hstart : (p.ignoresFirstLine && (m.start.rename ρ).offset == 0) =
        (p.ignoresFirstLine && m.start.offset == 0) := by
      cases hi : p.ignoresFirstLine with
      | false => rfl
      | true =>
        have h1 : scope.offset ≤ m.start.offset := Expression.offset_le_of_mem_matchesFrom hm
        have h2 := hp hi
        rw [Bool.true_and, Bool.true_and, Cursor.rename_offset, Bool.eq_iff_iff, beq_iff_eq,
          beq_iff_eq]
        omega
    rw [Function.comp_apply, show (p.rename ρ).ignoresFirstLine = p.ignoresFirstLine from rfl,
      show (m.rename ρ).start = m.start.rename ρ from rfl, hstart]
    split
    · rfl
    · exact Match.lineFinding?_rename tags m
  · rfl

theorem regions_rename {e : Expression} (he : e.caseless) (scope : Scope) :
    regions (e.rename ρ) (scope.rename ρ) = (regions e scope).map (·.rename ρ) := by
  rw [regions, regions, Scope.rename, Expression.findAll_rename he, List.filterMap_map,
    List.map_filterMap]
  refine List.filterMap_congr fun m _ => ?_
  rw [Function.comp_apply, Match.part?_rename]
  cases m.part? .interior <;> rfl

theorem Region.findings_rename (tags : Registry) {e : Expression} (he : e.caseless) (r : Region) :
    (r.rename ρ).findings (tags.rename ρ) (e.rename ρ) =
      (r.findings tags e).map (·.move ρ.shift) := by
  rw [Region.findings, Region.findings, show (r.rename ρ).interior = r.interior.rename ρ from rfl,
    Part.text_rename, show (r.interior.rename ρ).start = r.interior.start.rename ρ from rfl,
    Cursor.rename_offset, Expression.findAll_rename he, List.filterMap_map, List.map_filterMap]
  exact List.filterMap_congr fun m _ => Match.finding?_rename tags m

theorem blockFindings_rename (p : Profile) (tags : Registry) (scope : Scope) :
    blockFindings (p.rename ρ) (tags.rename ρ) (scope.rename ρ) =
      (blockFindings p tags scope).map (·.move ρ.shift) := by
  have hregions : blockRegions (p.rename ρ) (scope.rename ρ) =
      (blockRegions p scope).map (·.rename ρ) := by
    rw [blockRegions, blockRegions, show (p.rename ρ).scansBlocks = p.scansBlocks from rfl]
    split
    · rw [← blockExpression_rename, regions_rename (by rfl)]
    · rfl
  rw [blockFindings, blockFindings, hregions, List.flatMap_map, List.map_flatMap,
    ← blockLineExpression_rename]
  exact List.flatMap_congr fun r _ => Region.findings_rename tags (by rfl) r

theorem docFindings_rename (p : Profile) (tags : Registry) (scope : Scope) :
    docFindings (p.rename ρ) (tags.rename ρ) (scope.rename ρ) =
      (docFindings p tags scope).map (·.move ρ.shift) := by
  rw [docFindings, docFindings, show (p.rename ρ).scansDocBlocks = p.scansDocBlocks from rfl]
  split
  · have hregions : regions docExpression (scope.rename ρ) =
        (regions docExpression scope).map (·.rename ρ) := by
      rw [← regions_rename (by rfl), docExpression_rename]
    rw [hregions, List.flatMap_map, List.map_flatMap, ← docLineExpression_rename]
    exact List.flatMap_congr fun r _ => Region.findings_rename tags (by rfl) r
  · rfl

/-- The language of a fence does not depend on how its hint is written. -/
theorem fences_rename (scope : Scope) :
    fences (scope.rename ρ) = (fences scope).map (·.rename ρ) := by
  rw [fences, fences, Scope.rename, ← fenceExpression_rename (ρ := ρ),
    Expression.findAll_rename (by rfl), fenceExpression_rename, List.filterMap_map,
    List.map_filterMap]
  refine List.filterMap_congr fun m _ => ?_
  have hhint : String.ofList ((((m.part? .hint).map (·.rename ρ)).map (·.text)).getD []) =
      ρ.string (String.ofList (((m.part? .hint).map (·.text)).getD [])) := by
    rw [Renaming.string, String.toList_ofList]
    cases m.part? .hint with
    | none => rfl
    | some hint => exact congrArg String.ofList (Part.text_rename hint)
  rw [Function.comp_apply, Match.part?_rename, Match.part?_rename]
  cases m.part? .body with
  | none => rfl
  | some body =>
    simp only [Option.map_some, hhint, canonical_string, Part.text_rename]
    simp only [Fence.rename, Scope.rename, Part.rename, Cursor.rename_offset]

end

end CommentTags
