import CommentTags.Proofs.Yaml.Records
import CommentTags.Settings.Printer

/-!
# Settings as documents of records

Settings are written as a document of records: the tags are a list of records, and the switches are
fields.  The values in it are texts and truth values; a text is written in whatever style it fits,
so that what it looks like does not matter.

* `SettingValue`, `TagStyle.values`, `Tag.record`, `Settings.entries` — settings in the terms of
  `CommentTags.Proofs.Yaml.Records`.
* `Settings.printOnly` — the document without the entries whose keys are not kept.
* `Settings.printOnly_all` — the document that is written is its entries one after another.
-/

set_option autoImplicit false

namespace CommentTags

open Yaml

/-! ## Values -/

/-- A value of a field of settings. -/
inductive SettingValue
  | text (s : List Char)
  | bool (b : Bool)

namespace SettingValue

/-- The scalar that is written for a value. -/
def scalar : SettingValue → Scalar
  | .text s => ⟨s, styleOf s⟩
  | .bool b => ⟨printBool b, .plain⟩

/-- A field with a value. -/
def field (name : String) (v : SettingValue) : Field := ⟨name.toList, v.scalar⟩

theorem print_text (name : String) (s : List Char) (indent : List Char) :
    (field name (.text s)).print indent = name.toList ++ ": ".toList ++ printText indent s := rfl

theorem print_bool (name : String) (b : Bool) (indent : List Char) :
    (field name (.bool b)).print indent = printToggle [] name b := by
  simp [field, scalar, Field.print, Scalar.print, printAs, printToggle]

theorem fits_scalar (v : SettingValue) : v.scalar.Fits := by
  cases v with
  | text s => exact fits_styleOf s
  | bool b => cases b <;> exact .plain (by decide) (plainText_of_fitsPlain (by decide))

end SettingValue

/-- The keys of settings and of tags. -/
def settingNames : List String :=
  ["tags", "highlight_markdown", "multiline_comments", "highlight_plain_text", "use_jsdoc_style",
    "tag", "color", "background_color", "bold", "italic", "underline", "strikethrough"]

theorem fitsPlain_settingNames : ∀ name ∈ settingNames,
    fitsPlain name.toList = true ∧ name.toList.length ≤ maxKeyLength ∧
      name.toList.head?.any (fun c => c != '-' && c != '.') = true := by
  decide

theorem SettingValue.fits_field {name : String} (h : name ∈ settingNames) (v : SettingValue) :
    (v.field name).Fits := by
  obtain ⟨hplain, hshort, hhead⟩ := fitsPlain_settingNames name h
  exact ⟨Lexer.keyName_of_fitsPlain hplain hshort hhead, v.fits_scalar⟩

/-! ## Tags -/

/-- The values of a style that are written, with their keys. -/
def TagStyle.values (style : TagStyle) : List (String × SettingValue) :=
  style.color.toList.map (fun c => ("color", .text c.toList)) ++
    style.backgroundColor.toList.map (fun c => ("background_color", .text c.toList)) ++
    [("bold", .bool style.bold), ("italic", .bool style.italic),
      ("underline", .bool style.underline), ("strikethrough", .bool style.strikethrough)]

/-- The keys of the values of a style. -/
def styleNames : List String :=
  ["color", "background_color", "bold", "italic", "underline", "strikethrough"]

theorem TagStyle.fst_mem_of_mem_values (style : TagStyle) :
    ∀ p ∈ style.values, p.1 ∈ styleNames := by
  simp only [values, List.forall_mem_append, List.forall_mem_map, List.forall_mem_cons]
  exact ⟨⟨fun _ _ => by decide, fun _ _ => by decide⟩, by decide, by decide, by decide, by decide,
    List.forall_mem_nil _⟩

/-- A tag as a record. -/
def Tag.record (t : Tag) : Record where
  first := (SettingValue.text t.marker.toList).field "tag"
  others := t.style.values.map fun p => p.2.field p.1

theorem printColor_eq (name : String) (color : Option String) :
    printColor name color =
      printFields 2 ((color.toList.map fun c => (name, SettingValue.text c.toList)).map
        fun p => p.2.field p.1) := by
  cases color with
  | none => rfl
  | some c =>
    simp [printColor, printFields, SettingValue.print_text, tagIndent, textIndent, spaces]

theorem printToggle_eq (name : String) (b : Bool) :
    printToggle tagIndent name b =
      spaces 2 ++ (SettingValue.field name (.bool b)).print (spaces 4) := by
  rw [SettingValue.print_bool]
  simp [printToggle, tagIndent, spaces]

theorem TagStyle.printFields_values (style : TagStyle) :
    printFields 2 (style.values.map fun p => p.2.field p.1) =
      printColor "color" style.color ++ printColor "background_color" style.backgroundColor ++
        printToggle tagIndent "bold" style.bold ++ printToggle tagIndent "italic" style.italic ++
        printToggle tagIndent "underline" style.underline ++
        printToggle tagIndent "strikethrough" style.strikethrough := by
  simp only [printColor_eq, printToggle_eq, printFields, values, List.map_append,
    List.flatMap_append, List.map_cons, List.map_nil, List.flatMap_cons, List.flatMap_nil,
    List.append_assoc, List.append_nil]

theorem Tag.print_record (t : Tag) : t.record.print = t.printYaml := by
  have hhead : "- tag: ".toList = "- ".toList ++ ("tag".toList ++ ": ".toList) := by decide
  have hfirst : "- ".toList ++ t.record.first.print (spaces 4) =
      "- tag: ".toList ++ printText textIndent t.marker.toList := by
    rw [hhead, List.append_assoc]
    exact congrArg _ (List.append_assoc _ _ _).symm
  refine (congr (congrArg HAppend.hAppend hfirst) t.style.printFields_values).trans ?_
  unfold printYaml
  -- Each equation that is tried on a literal text takes the text apart.
  generalize "- tag: ".toList = dash
  simp only [List.append_assoc]

theorem Tag.fits_record (t : Tag) : ∀ f ∈ t.record.fields, f.Fits := by
  have hnames : styleNames ⊆ settingNames := by decide
  refine List.forall_mem_cons.2 ⟨SettingValue.fits_field (by decide) _, fun f hf => ?_⟩
  obtain ⟨p, hp, rfl⟩ := List.mem_map.1 hf
  exact SettingValue.fits_field (hnames (t.style.fst_mem_of_mem_values p hp)) p.2

/-! ## Settings -/

namespace Settings

/-- The entries of the document, with their keys. -/
def entries (s : Settings) : List (String × Entry) :=
  let toggle (name : String) (b : Bool) := (name, Entry.field ((SettingValue.bool b).field name))
  [("tags", .list "tags".toList (s.tags.map Tag.record)),
    toggle "highlight_markdown" s.toggles.highlightMarkdown,
    toggle "multiline_comments" s.toggles.multilineComments,
    toggle "highlight_plain_text" s.toggles.highlightPlainText,
    toggle "use_jsdoc_style" s.toggles.useDocStyle]

/-- The parts of the written document, one for each key. -/
def writtenEntries (s : Settings) : List (String × List Char) :=
  [("tags", printTags s.tags),
    ("highlight_markdown", printToggle [] "highlight_markdown" s.toggles.highlightMarkdown),
    ("multiline_comments", printToggle [] "multiline_comments" s.toggles.multilineComments),
    ("highlight_plain_text", printToggle [] "highlight_plain_text" s.toggles.highlightPlainText),
    ("use_jsdoc_style", printToggle [] "use_jsdoc_style" s.toggles.useDocStyle)]

/-- The document without the entries whose keys are not kept. -/
def printOnly (s : Settings) (kept : String → Bool) : List Char :=
  (s.writtenEntries.filter fun e => kept e.1).flatMap Prod.snd

/-- The document is its entries one after another. -/
theorem printOnly_all (s : Settings) : s.printOnly (fun _ => true) = s.printYaml := by
  simp [printOnly, writtenEntries, printYaml]

theorem printTags_eq (tags : List Tag) :
    printTags tags = (Entry.list "tags".toList (tags.map Tag.record)).print := by
  cases tags with
  | nil => rfl
  | cons t tags => simp [printTags, Entry.print, List.flatMap_map, Tag.print_record]

theorem writtenEntries_eq (s : Settings) :
    s.writtenEntries = s.entries.map fun e => (e.1, e.2.print) := by
  simp [writtenEntries, entries, printTags_eq, Entry.print, SettingValue.print_bool]

theorem printOnly_eq (s : Settings) (kept : String → Bool) :
    s.printOnly kept = ((s.entries.filter fun e => kept e.1).map Prod.snd).flatMap Entry.print := by
  rw [printOnly, writtenEntries_eq, List.filter_map, List.flatMap_map, List.flatMap_map]
  rfl

theorem fits_entries (s : Settings) : ∀ e ∈ s.entries, e.2.Fits := by
  have hname : ∀ name ∈ settingNames, Lexer.KeyName name.toList :=
    fun name h => (SettingValue.fits_field h (.bool true)).name
  have htags : ∀ r ∈ s.tags.map Tag.record, ∀ f ∈ r.fields, f.Fits := by
    intro r hr
    obtain ⟨t, -, rfl⟩ := List.mem_map.1 hr
    exact t.fits_record
  simp only [entries, List.forall_mem_cons]
  exact ⟨.list (hname "tags" (by decide)) htags, .field (SettingValue.fits_field (by decide) _),
    .field (SettingValue.fits_field (by decide) _), .field (SettingValue.fits_field (by decide) _),
    .field (SettingValue.fits_field (by decide) _), List.forall_mem_nil _⟩

end Settings

end CommentTags
