import CommentTags.Proofs.Settings.Documents
import CommentTags.Proofs.Yaml.Walking
import CommentTags.Settings.Reader

/-!
# Settings are read back

Settings are read back from the document in which they are written, and if entries of the document
are left out, the defaults stand in their places.

Three kinds of defaults meet here: a colour that is not set is not written, a property of a style
that is left out does not hold, and a switch or the list of tags that is left out is as in a fresh
installation.

* `ofScalar_text` — a text that looks like something else is read back as a text.
* `TagStyle.ofContents_values`, `Tag.ofNode_record` — a style and a tag are read back.
* `Settings.only` — the settings in which those that are not kept are as in a fresh installation.
* `Settings.parse_printOnly`, `Settings.parse_toYaml` — whole settings, with and without entries
  left out.
-/

set_option autoImplicit false

namespace CommentTags

open Yaml

/-! ## Values -/

namespace SettingValue

/-- What is found where a value is written. -/
def content : SettingValue → Content
  | .text s => .text s
  | .bool b => .bool b

/-- A text that looks like something else is not written plain. -/
theorem ofScalar_text (s : List Char) : Content.ofScalar none ⟨s, styleOf s⟩ = .ok (.text s) := by
  by_cases hplain : styleOf s = .plain
  · have hkind : PlainKind.ofText s = .text := by
      simpa using (Bool.or_eq_false_iff.1 (isAmbiguous_eq_false_of_styleOf hplain)).2
    simp [Content.ofScalar, hplain, Content.ofPlain, hkind]
  · simp [Content.ofScalar, hplain]

theorem ofScalar_scalar (v : SettingValue) : Content.ofScalar none v.scalar = .ok v.content := by
  cases v with
  | text s => exact ofScalar_text s
  | bool b => cases b <;> decide

end SettingValue

/-! ## Tags -/

theorem Yaml.Aliases.content_value (a : Aliases) (v : SettingValue) (depth : Nat) :
    a.content depth v.scalar.node = pure v.content :=
  a.content_node v.ofScalar_scalar depth

theorem TagStyle.ofContents_values (style : TagStyle) :
    TagStyle.ofContents (style.values.map fun p => (p.1.toList, p.2.content)) = .ok style := by
  obtain ⟨color, backgroundColor, bold, italic, underline, strikethrough⟩ := style
  cases color <;> cases backgroundColor <;>
    simp [values, ofContents, readColor, readProperty, uniqueField?, SettingValue.content, bind,
      Except.bind, pure, Except.pure]

/-- The values of a style are understood, whatever texts they are. -/
theorem mapM_content_values (a : Aliases) (style : TagStyle) (depth : Nat) :
    (style.values.map fun p => (p.1.toList, p.2.scalar.node)).mapM
        (fun p => do return (p.1, ← a.content depth p.2)) =
      pure (style.values.map fun p => (p.1.toList, p.2.content)) := by
  rw [List.mapM_map]
  refine (mapM_congr fun p _ => ?_).trans List.mapM_pure
  rw [Function.comp_apply, a.content_value, pure_bind]

theorem Tag.ofNode_record (a : Aliases) (t : Tag) : Tag.ofNode a t.record.node = pure t := by
  have hkeys : ∀ p ∈ t.style.values.map fun p => (p.1.toList, p.2.scalar.node),
      p.1 ≠ "tag".toList := by
    intro p hp h
    obtain ⟨v, hv, rfl⟩ := List.mem_map.1 hp
    have hname := t.style.fst_mem_of_mem_values v hv
    rw [String.toList_inj.1 h] at hname
    exact absurd hname (by decide)
  have hfields : t.record.fields.map (fun f => (f.name, f.value.node)) =
      ("tag".toList, (SettingValue.text t.marker.toList).scalar.node) ::
        t.style.values.map fun p => (p.1.toList, p.2.scalar.node) := by
    rw [Record.fields, record, List.map_cons, List.map_map]
    rfl
  have hmarker := uniqueField?_cons (fun h => by
    obtain ⟨p, hp, hk⟩ := List.mem_map.1 h
    exact hkeys p hp hk) (SettingValue.text t.marker.toList).scalar.node
  have hothers : (t.style.values.map fun p => (p.1.toList, p.2.scalar.node)).filter
      (·.1 != "tag".toList) = _ :=
    List.filter_eq_self.2 fun p hp => bne_iff_ne.2 (hkeys p hp)
  rw [ofNode, a.fields_record, pure_bind, hfields, hmarker, liftM_ok, pure_bind]
  dsimp only
  rw [a.text_node, pure_bind, List.filter_cons_of_neg (by simp), hothers, mapM_content_values,
    pure_bind, TagStyle.ofContents_values, liftM_ok, pure_bind]
  simp [SettingValue.scalar]

/-! ## Settings -/

namespace Settings

/-- The settings in which those that are not kept are as in a fresh installation. -/
def only (s : Settings) (kept : String → Bool) : Settings where
  tags := if kept "tags" then s.tags else ({} : Settings).tags
  toggles := {
    highlightMarkdown :=
      if kept "highlight_markdown" then s.toggles.highlightMarkdown
      else ({} : Settings).toggles.highlightMarkdown
    multilineComments :=
      if kept "multiline_comments" then s.toggles.multilineComments
      else ({} : Settings).toggles.multilineComments
    highlightPlainText :=
      if kept "highlight_plain_text" then s.toggles.highlightPlainText
      else ({} : Settings).toggles.highlightPlainText
    useDocStyle :=
      if kept "use_jsdoc_style" then s.toggles.useDocStyle
      else ({} : Settings).toggles.useDocStyle }

section

variable (a : Aliases) (s : Settings) (kept : String → Bool)

/-- The entries that are kept. -/
def keptEntries : List (String × Entry) := s.entries.filter fun e => kept e.1

/-- The fields that are found in what is kept. -/
def keptFields : List (List Char × Node) :=
  (s.keptEntries kept).map fun e => (e.1.toList, e.2.nodes.2)

theorem map_fst_entries : s.entries.map Prod.fst =
    ["tags", "highlight_markdown", "multiline_comments", "highlight_plain_text",
      "use_jsdoc_style"] := rfl

theorem name_entries : ∀ e ∈ s.entries, e.2.name = e.1.toList := by
  simp only [entries, List.forall_mem_cons]
  exact ⟨rfl, rfl, rfl, rfl, rfl, List.forall_mem_nil _⟩

theorem fields_keptEntries :
    a.fields (documentNode ((s.keptEntries kept).map Prod.snd)) = pure (s.keptFields kept) := by
  rw [a.fields_document, List.map_map, keptFields]
  refine congrArg pure (List.map_congr_left fun e he => ?_)
  rw [Function.comp_apply, s.name_entries e (List.mem_of_mem_filter he)]

/-- A key is found if it is kept. -/
theorem uniqueField?_keptFields {name : String} {e : Entry} (h : s.entries.lookup name = some e) :
    uniqueField? (s.keptFields kept) name = .ok (if kept name then some e.nodes.2 else none) := by
  have hfilter : s.keptFields kept =
      (s.entries.map fun e => (e.1.toList, e.2.nodes.2)).filter
        fun p => kept (String.ofList p.1) := by
    rw [keptFields, keptEntries, List.filter_map]
    simp [Function.comp_def]
  have hnodup : ((s.entries.map fun e => (e.1.toList, e.2.nodes.2)).map Prod.fst).Nodup := by
    have hnames : (s.entries.map fun e => (e.1.toList, e.2.nodes.2)).map Prod.fst =
        (s.entries.map Prod.fst).map String.toList := by
      rw [List.map_map, List.map_map]
      rfl
    rw [hnames, s.map_fst_entries]
    decide
  rw [hfilter, uniqueField?_eq (hnodup.sublist (List.filter_sublist.map _)),
    lookup_filter (fun k => kept (String.ofList k)),
    lookup_map_toList (fun e : Entry => e.nodes.2), h, String.ofList_toList]
  rfl

theorem bool_scalar (b : Bool) : a.bool (SettingValue.bool b).scalar.node = pure b := by
  cases b <;> rfl

theorem readToggle_keptFields {name : String} {b : Bool} (default : Bool)
    (h : s.entries.lookup name = some (.field ((SettingValue.bool b).field name))) :
    readToggle a (s.keptFields kept) name default = pure (if kept name then b else default) := by
  rw [readToggle, s.uniqueField?_keptFields kept h, liftM_ok, pure_bind]
  cases kept name with
  | true => exact bool_scalar a b
  | false => rfl

/-- The tags of a list are read one by one. -/
theorem mapM_ofNode_records (tags : List Tag) :
    ((tags.map Tag.record).map Record.node).mapM (Tag.ofNode a) = pure tags := by
  rw [List.map_map, List.mapM_map]
  refine (mapM_congr (g := fun t => pure (id t)) fun t _ => Tag.ofNode_record a t).trans ?_
  rw [List.mapM_pure, List.map_id]

theorem ofNode_keptEntries :
    ofNode a (documentNode ((s.keptEntries kept).map Prod.snd)) = pure (s.only kept) := by
  have htags := s.uniqueField?_keptFields kept (show s.entries.lookup "tags" = some _ from rfl)
  have hmarkdown : readToggle a (s.keptFields kept) "highlight_markdown" true =
      pure (s.only kept).toggles.highlightMarkdown := s.readToggle_keptFields a kept true rfl
  have hmultiline : readToggle a (s.keptFields kept) "multiline_comments" true =
      pure (s.only kept).toggles.multilineComments := s.readToggle_keptFields a kept true rfl
  have hplain : readToggle a (s.keptFields kept) "highlight_plain_text" false =
      pure (s.only kept).toggles.highlightPlainText := s.readToggle_keptFields a kept false rfl
  have hdoc : readToggle a (s.keptFields kept) "use_jsdoc_style" true =
      pure (s.only kept).toggles.useDocStyle := s.readToggle_keptFields a kept true rfl
  simp only [ofNode, s.fields_keptEntries, pure_bind, htags, liftM_ok, hmarkdown, hmultiline,
    hplain, hdoc]
  cases hk : kept "tags" with
  | true =>
    simp only [if_true, Entry.nodes, a.items_sequence, pure_bind, mapM_ofNode_records]
    rw [only, hk]
    rfl
  | false =>
    simp only [Bool.false_eq_true, if_false]
    rw [only, hk]
    rfl

theorem only_eq_default (h : s.keptEntries kept = []) : s.only kept = {} := by
  have hnone : ∀ name ∈ s.entries.map Prod.fst, kept name = false := by
    intro name hname
    obtain ⟨e, he, rfl⟩ := List.mem_map.1 hname
    exact Bool.eq_false_iff.2 (List.filter_eq_nil_iff.1 h e he)
  rw [s.map_fst_entries] at hnone
  simp only [List.forall_mem_cons] at hnone
  obtain ⟨htags, hmarkdown, hmultiline, hplain, hdoc, -⟩ := hnone
  rw [only, htags, hmarkdown, hmultiline, hplain, hdoc]
  rfl

end

/-- **Settings are read back, with defaults for what is left out.** -/
theorem parse_printOnly (s : Settings) (kept : String → Bool) :
    parse (String.ofList (s.printOnly kept)) = .ok (s.only kept) := by
  have hfits : ∀ e ∈ (s.keptEntries kept).map Prod.snd, e.Fits := by
    intro e he
    obtain ⟨p, hp, rfl⟩ := List.mem_map.1 he
    exact s.fits_entries p (List.mem_of_mem_filter hp)
  rw [parse, s.printOnly_eq, ← keptEntries, parse_print hfits]
  by_cases hnil : s.keptEntries kept = []
  · rw [s.only_eq_default kept hnil, hnil]
    rfl
  · have hne : ((s.keptEntries kept).map Prod.snd).isEmpty = false := by simpa using hnil
    simp only [hne, bind, Except.bind, Bool.false_eq_true, if_false, ofNode_keptEntries]
    rfl

theorem only_all (s : Settings) : s.only (fun _ => true) = s := rfl

/-- Settings are read back from the text in which they are written. -/
theorem parse_toYaml (s : Settings) : parse s.toYaml = .ok s := by
  rw [toYaml, ← s.printOnly_all, s.parse_printOnly, s.only_all]

end Settings

end CommentTags
