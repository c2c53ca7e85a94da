import CommentTags.Comment.Configuration
import CommentTags.Proofs.Json.Comments
import CommentTags.Proofs.Json.Printing

/-!
# Comment syntax read from JSON with comments

A language tells its comments in a text of JSON, which may have comments of its own and commas after
last items.  Neither they nor white space make a difference to what is read.  What is written for
the comments of a language is read back, at the top of a text or as one field of a larger object.

* `parse_eq_ofJson` — a text is read as the JSON that it has between its comments; everything about
  comments in the text goes through it.
* `parse_loosened` — a text that is loosened describes the same comments, or none if it had none.
* `OtherFields` — the fields that may stand beside the comments.  Each of them has another name, and
  its value is a text that can be read one level below the top.
* `parse_toJson` — the comments are read back, with other fields before and after them.
* `parse_ne_ok_nestedText` — a field that could be read on its own, but not one level deeper, makes
  the whole text unreadable.  So `OtherFields` cannot ask for less.
-/

set_option autoImplicit false

namespace CommentTags.CommentSyntax

/-! ## Comments in a description -/

/-- A text is read as the JSON that it has between its comments. -/
theorem parse_eq_ofJson {text other : String} {v : Json} (hv : Json.parse text = .ok v)
    (h : Json.Loosened text.toList other.toList) :
    parse other = ofJson (commentsPart v) := by
  rw [parse, Json.parse_withoutComments hv h]

theorem parse_eq_ofJson_self {text : String} {v : Json} (hv : Json.parse text = .ok v) :
    parse text = ofJson (commentsPart v) := by
  obtain ⟨ts, -, hplain⟩ := Json.parse_eq_ok_iff.mp hv
  exact parse_eq_ofJson hv (Json.Plain.loosened hplain)

/-- **Comments, white space and commas after last items make no difference**, whether the text
describes comments or not. -/
theorem parse_loosened {text other : String} {v : Json} (hv : Json.parse text = .ok v)
    (h : Json.Loosened text.toList other.toList) :
    parse other = parse text ∧ parse text = ofJson (commentsPart v) := by
  have hself := parse_eq_ofJson_self hv
  exact ⟨(parse_eq_ofJson hv h).trans hself.symm, hself⟩

theorem parse_loosened_line :
    Json.parse "[\"//\"]" = .ok (.array [.string "//"]) ∧
      Json.Loosened "[\"//\"]".toList "[ // \"\n\"//\"/*/ \"*/ , ] // end".toList ∧
      parse "[ // \"\n\"//\"/*/ \"*/ , ] // end" = parse "[\"//\"]" ∧
      parse "[\"//\"]" = ofJson (.array [.string "//"]) := by
  have hspelled : Json.Spelled Json.maxDepth (.array [.string "//"])
      (Json.arrayText [['"', '/', '/', '"']]) :=
    Json.spelled_arrayText (.cons (Json.spelled_printString "//") .nil)
  have hv : Json.parse "[\"//\"]" = .ok (.array [.string "//"]) :=
    Json.parse_eq_ok_iff.mpr hspelled
  have hclosed : Json.Closed ['/', '/'] := (Json.quoted_flatMap_printChar ['/', '/']).closed
  have hblank : Json.Gap [' '] := .blank rfl .nil
  have hline : Json.Gap (' ' :: '/' :: '/' :: ([' ', '"'] ++ ['\n'])) :=
    .blank rfl (.line (by decide) .nil)
  have hblock : Json.Gap ('/' :: '*' :: (['/', ' ', '"'] ++ ['*', '/', ' '])) :=
    .block (by decide) hblank
  have hend : Json.LastGap ([' '] ++ '/' :: '/' :: [' ', 'e', 'n', 'd']) :=
    .line hblank (by decide)
  have hloosened : Json.Loosened "[\"//\"]".toList
      "[ // \"\n\"//\"/*/ \"*/ , ] // end".toList := by
    refine ⟨[.mark .beginArray, .string ['/', '/'] hclosed, .mark .endArray],
      [.mark .beginArray, .string ['/', '/'] hclosed, .mark .comma, .mark .endArray],
      Json.Plain.mark .beginArray (Json.Plain.token trivial
        (Json.Plain.mark .endArray (.last Json.blank_nil))),
      .token (.comma rfl rfl (.token .nil)), ?_⟩
    have hclose := Json.Written.cons (t := .mark .endArray) hblank trivial (.last hend)
    have hcomma := Json.Written.cons (t := .mark .comma) hblock trivial hclose
    have hstring := Json.Written.cons (t := .string ['/', '/'] hclosed) hline trivial hcomma
    exact Json.Written.cons (t := .mark .beginArray) .nil trivial hstring
  exact ⟨hv, hloosened, parse_loosened hv hloosened⟩

/-! ## Descriptions that are written -/

theorem lineOfJson_lineToJson (line : Option LineComment) :
    lineOfJson (lineToJson line) = .ok line := by
  have hstrings : ∀ openers : List String, strings? (openers.map .string) = some openers := by
    intro openers
    induction openers with
    | nil => rfl
    | cons opener openers ih => simp [strings?, ih]
  match line with
  | none => rfl
  | some (.single opener) => rfl
  | some (.several openers) => simp [lineToJson, lineOfJson, hstrings]

theorem blockOfJson_blockToJson (block : Option (String × String)) :
    blockOfJson (blockToJson block) = .ok block := by
  match block with
  | none => rfl
  | some (start, stop) => rfl

/-- The comments are read back from the value that is made of them. -/
theorem ofJson_toJson (s : CommentSyntax) : ofJson s.toJson = .ok s := by
  have hblock : Json.field?
      [("lineComment", lineToJson s.line), ("blockComment", blockToJson s.block)] "blockComment" =
      some (blockToJson s.block) := rfl
  have hline : Json.field?
      [("lineComment", lineToJson s.line), ("blockComment", blockToJson s.block)] "lineComment" =
      some (lineToJson s.line) := rfl
  rw [toJson, ofJson, hblock, hline, Option.getD_some, Option.getD_some, blockOfJson_blockToJson,
    lineOfJson_lineToJson]
  rfl

theorem commentsPart_toJson (s : CommentSyntax) : commentsPart s.toJson = s.toJson := rfl

/-- The field of the comments is found if no later field has its name. -/
theorem commentsPart_object {before after : List (String × Json)} {v : Json}
    (h : ∀ f ∈ after, f.1 ≠ "comments") :
    commentsPart (.object (before ++ ("comments", v) :: after)) = v := by
  have hafter : after.reverse.find? (·.1 == "comments") = none := by
    simpa using h
  have hfield : Json.field? (before ++ ("comments", v) :: after) "comments" = some v := by
    simp [Json.field?, List.find?_append, hafter]
  rw [commentsPart, hfield, Option.getD_some]

theorem fits_toJson (s : CommentSyntax) (depth : Nat) : Json.Fits (depth + 3) s.toJson := by
  have hline : Json.Fits (depth + 2) (lineToJson s.line) := by
    match s.line with
    | none => exact Json.fits_null
    | some (.single opener) => exact Json.fits_string opener
    | some (.several openers) => simp [lineToJson]
  have hblock : Json.Fits (depth + 2) (blockToJson s.block) := by
    match s.block with
    | none => exact Json.fits_null
    | some (start, stop) => simp [blockToJson]
  refine Json.fits_object.mpr ⟨by simp, ?_⟩
  simp [hline, hblock]

/-- Fields that may stand next to the comments: each has another name, and a text that is read one
level below the top. -/
def OtherFields (fs : List (String × List Char)) : Prop :=
  ∀ f ∈ fs, f.1 ≠ "comments" ∧ ∃ v, Json.Accepts (Json.maxDepth - 1) f.2 v

theorem parse_ofList {s : List Char} {v : Json} (h : Json.Spelled Json.maxDepth v s) :
    parse (String.ofList s) = ofJson (commentsPart v) := by
  refine parse_eq_ofJson_self (Json.parse_eq_ok_iff.mpr ?_)
  rwa [String.toList_ofList]

/-- **The comments of a language are read back** from the JSON that is written for them, and from an
object that has it as its field of the comments. -/
theorem parse_toJson (s : CommentSyntax) {before after : List (String × List Char)}
    (h : OtherFields (before ++ after)) :
    parse (String.ofList s.toJson.print) = .ok s ∧
      parse (String.ofList
        (Json.objectText (before ++ ("comments", s.toJson.print) :: after))) = .ok s := by
  constructor
  · rw [parse_ofList (Json.Fits.spelled (fits_toJson s 125)), commentsPart_toJson, ofJson_toJson]
  · have hspelled : ∀ fs ⊆ before ++ after, ∀ f ∈ fs, ∃ v, Json.Spelled 127 v f.2 := by
      intro fs hfs f hf
      obtain ⟨-, v, hv⟩ := h f (hfs hf)
      exact ⟨v, Json.accepts_iff.mp hv⟩
    obtain ⟨gs, hgs, -⟩ := Json.exists_fields (hspelled before (by simp))
    obtain ⟨gs', hgs', hnames⟩ := Json.exists_fields (hspelled after (by simp))
    have hcomments : Json.FieldSpelled 127 ("comments", s.toJson.print) ("comments", s.toJson) :=
      ⟨rfl, Json.Fits.spelled (fits_toJson s 124)⟩
    have hobject := Json.spelled_objectText (List.rel_append hgs (.cons hcomments hgs'))
    have hother : ∀ g ∈ gs', g.1 ≠ "comments" := by
      intro g hg
      obtain ⟨f, hf, hfg⟩ := List.mem_map.mp (hnames ▸ List.mem_map_of_mem hg)
      exact hfg ▸ (h f (List.mem_append_right _ hf)).1
    rw [parse_ofList hobject, commentsPart_object hother, ofJson_toJson]

theorem parse_toJson_named :
    OtherFields ([("a", ['"', '/', '/', '"'])] ++ [("b", ['[', '[', ']', ']'])]) ∧
      parse "\x7b\"lineComment\":\"\\\"\",\"blockComment\":[\"/*\",\"*/\"]\x7d" =
        .ok ⟨some (.single "\""), some ("/*", "*/")⟩ ∧
      parse (String.ofList (Json.objectText [("a", ['"', '/', '/', '"']),
          ("comments", (toJson ⟨some (.single "\""), some ("/*", "*/")⟩).print),
          ("b", ['[', '[', ']', ']'])])) =
        .ok ⟨some (.single "\""), some ("/*", "*/")⟩ := by
  have ha : Json.Spelled 127 (.string "//") ['"', '/', '/', '"'] := Json.spelled_printString "//"
  have hb : Json.Spelled 127 (.array [.array []]) (Json.arrayText [['[', ']']]) :=
    Json.spelled_arrayText (.cons Json.spelled_emptyArray .nil)
  have hother : OtherFields ([("a", ['"', '/', '/', '"'])] ++ [("b", ['[', '[', ']', ']'])]) := by
    intro f hf
    simp only [List.cons_append, List.nil_append, List.mem_cons, List.not_mem_nil, or_false] at hf
    obtain rfl | rfl := hf
    · exact ⟨by decide, _, Json.accepts_iff.mpr ha⟩
    · exact ⟨by decide, _, Json.accepts_iff.mpr hb⟩
  have htop : String.ofList (toJson ⟨some (.single "\""), some ("/*", "*/")⟩).print =
      "\x7b\"lineComment\":\"\\\"\",\"blockComment\":[\"/*\",\"*/\"]\x7d" := by rfl
  have hread := parse_toJson ⟨some (.single "\""), some ("/*", "*/")⟩ hother
  exact ⟨hother, htop ▸ hread.1, hread.2⟩

/-! ## Descriptions that are nested too deep -/

/-- The value of a first field that opens as many arrays as the whole text may makes the text
unreadable. -/
theorem parse_ne_ok_of_deep (name : String) {us : List Json.Token} {rest : List Char}
    (h : Json.Plain us rest) (s : CommentSyntax) :
    parse (String.ofList
      ('\x7b' :: Json.fieldText (name, List.replicate (Json.maxDepth - 1) '[' ++ rest))) ≠
      .ok s := by
  intro hok
  rw [parse] at hok
  split at hok
  · exact absurd hok (by simp)
  rename_i v hv
  obtain ⟨ts, hts, hplain⟩ := Json.parse_eq_ok_iff.mp hv
  have hname := Json.quoted_flatMap_printChar name.toList
  have hdeep := Json.Plain.mark .beginObject (Json.Plain.token (t := .string _ hname.closed) trivial
    (Json.Plain.mark .colon (h.replicate_mark (Json.maxDepth - 1) .beginArray)))
  have hleft := hdeep.written.dropComments.dropLastCommas
  rw [Json.dropTrailing_cons rfl, Json.dropTrailing_cons rfl, Json.dropTrailing_cons rfl,
    Json.dropTrailing_replicate_append rfl] at hleft
  rw [Json.withoutComments, String.toList_ofList, String.toList_ofList] at hplain
  -- The text has one sequence of tokens, and the grammar has none that opens so many arrays.
  obtain rfl := hplain.unique hleft
  cases hts with
  | object hfields =>
    generalize htokens : Json.Token.string _ hname.closed :: _ = tokens at hfields
    cases hfields with
    | endFields => exact absurd (List.cons.inj htokens).1 (by simp)
    | field _ hvalue _ =>
      have hrest := (List.cons.inj (List.cons.inj htokens).2).2
      exact hvalue.append_ne_replicate _ _ hrest.symm

/-- Arrays in one another that are read as a text of their own keep the comments from being read. -/
theorem parse_ne_ok_nestedText :
    (∃ v, Json.parse (String.ofList (Json.nestedText 127)) = .ok v) ∧
      parse (String.ofList (Json.objectText
        [("x", Json.nestedText 127), ("comments", (toJson ⟨some (.single "#"), none⟩).print)])) ≠
        .ok ⟨some (.single "#"), none⟩ := by
  constructor
  · obtain ⟨v, hv⟩ := Json.exists_spelled_nestedText 126
    exact ⟨v, Json.parse_eq_ok_iff.mpr (by rwa [String.toList_ofList])⟩
  · obtain ⟨ts, -, hts⟩ := Json.Fits.spelled (fits_toJson ⟨some (.single "#"), none⟩ 0)
    have hrest := Json.Plain.replicate_mark 127 .endArray (Json.Plain.mark .comma
      (Json.plain_fieldText_append (m := .endObject) "comments" hts
        (.last Json.blank_nil)))
    have hne := parse_ne_ok_of_deep "x" hrest ⟨some (.single "#"), none⟩
    have htext : ∀ (n : Nat) (comments : List Char),
        Json.objectText [("x", Json.nestedText n), ("comments", comments)] =
          '\x7b' :: Json.fieldText ("x", List.replicate n '[' ++
            (List.replicate n ']' ++ (',' :: (Json.fieldText ("comments", comments) ++
              ['\x7d'])))) := by
      simp [Json.objectText, Json.fieldText, Json.nestedText]
    rw [htext]
    exact hne

end CommentTags.CommentSyntax
