import CommentTags.Proofs.Json.Reading
import CommentTags.Proofs.Text.Joining
import Mathlib.Data.List.Forall2

/-!
# Texts put together from the texts of values

A text of an array or an object can be put together from texts of its items and fields, whatever
these look like: the text that is written for a value is one instance, and a text in which the value
of a field was written by someone else is another.

* `Spelled` — the text spells the value.
* `arrayText`, `objectText`, `spelled_arrayText`, `spelled_objectText` — the texts put together, and
  what they spell.
* `Fits`, `Fits.spelled` — a value that is not nested too deep, with numbers that are written as
  such, is spelled by the text that is written for it.
* `Fits.le_toNat_of_mem` — that text is a single line.
* `nestedText`, `exists_spelled_nestedText` — arrays in one another, as many as the depth allows.
-/

set_option autoImplicit false

namespace CommentTags.Json

/-! ## Putting texts together -/

theorem Stopped.append {s r : List Char} (hs : Stopped s) (hr : Stopped r) : Stopped (s ++ r) := by
  cases s with
  | nil => exact hr
  | cons c s => exact stopped_cons.mpr (stopped_cons.mp hs)

/-- Two texts of tokens can be put together if the second one begins with a mark. -/
theorem Plain.append_mark {ts us : List Token} {m : Mark} {s r : List Char} (hs : Plain ts s)
    (hr : Plain us r) : Plain (ts ++ .mark m :: us) (s ++ m.char :: r) := by
  induction hs with
  | last hw => exact Plain.blank_append hw (Plain.mark m hr)
  | @cons w s t ts hw ht _ ih =>
    have hstop : Stopped (m.char :: r) := stopped_cons.mpr m.isWordChar_char
    rw [List.append_assoc, List.append_assoc]
    exact .cons hw (ht.imp fun h => h.append hstop) ih

theorem Plain.singleton (t : Token) : Plain [t] t.text := by
  simpa using Plain.token (t.apart_of_stopped stopped_nil) (.last blank_nil)

/-- The text spells the value. -/
def Spelled (depth : Nat) (v : Json) (s : List Char) : Prop :=
  ∃ ts, Spells depth (.value v) ts ∧ Plain ts s

/-- The text of an array with items of the given texts. -/
def arrayText (texts : List (List Char)) : List Char :=
  '[' :: ([','].intercalate texts ++ [']'])

/-- The text of a field. -/
def fieldText (f : String × List Char) : List Char := printString f.1.toList ++ ':' :: f.2

/-- The text of an object with fields of the given names and texts. -/
def objectText (fs : List (String × List Char)) : List Char :=
  '\x7b' :: ([','].intercalate (fs.map fieldText) ++ ['\x7d'])

/-- A field with the text of its value, and the field itself. -/
def FieldSpelled (depth : Nat) (f : String × List Char) (g : String × Json) : Prop :=
  f.1 = g.1 ∧ Spelled depth g.2 f.2

variable {depth : Nat}

/-- Items after a comma go on as items do at the start of an array. -/
theorem Spells.comma_items {v : Json} {vs : List Json} {ts : List Token}
    (h : Spells depth (.items true (v :: vs)) ts) :
    Spells depth (.items false (v :: vs)) (.mark .comma :: ts) := by
  cases h with
  | item hv hvs =>
    change Spells depth _ (separator false ++ _)
    exact .item hv hvs

theorem Spells.comma_fields {f : String × Json} {fs : List (String × Json)} {ts : List Token}
    (h : Spells depth (.fields true (f :: fs)) ts) :
    Spells depth (.fields false (f :: fs)) (.mark .comma :: ts) := by
  cases h with
  | field hname hv hfs =>
    change Spells depth _ (separator false ++ _)
    exact .field hname hv hfs

theorem exists_spells_items {vs : List Json} {texts : List (List Char)}
    (h : List.Forall₂ (Spelled depth) vs texts) :
    ∃ ts, Spells depth (.items true vs) ts ∧
      Plain ts ([','].intercalate texts ++ [']']) := by
  induction h with
  | nil => exact ⟨_, .endItems, Plain.mark .endArray (.last blank_nil)⟩
  | @cons v s vs texts hv hvs ih =>
    obtain ⟨ts, hts, hs⟩ := hv
    cases hvs with
    | nil =>
      refine ⟨_, .item hts .endItems, ?_⟩
      rw [List.intercalate_singleton]
      exact hs.append_mark (.last blank_nil)
    | cons hw hws =>
      obtain ⟨us, hus, hr⟩ := ih
      refine ⟨_, .item hts hus.comma_items, ?_⟩
      rw [List.intercalate_cons_cons, List.append_assoc, List.append_assoc]
      exact hs.append_mark (m := .comma) hr

/-- The text of a field before a mark. -/
theorem plain_fieldText_append (name : String) {s r : List Char} {ts us : List Token} {m : Mark}
    (hs : Plain ts s) (hr : Plain us r) :
    Plain (.string (name.toList.flatMap printChar) (quoted_flatMap_printChar name.toList).closed ::
      .mark .colon :: (ts ++ .mark m :: us)) (fieldText (name, s) ++ m.char :: r) := by
  rw [fieldText, List.append_assoc, List.cons_append]
  exact Plain.token (t := .string _ _) trivial (Plain.mark .colon (hs.append_mark hr))

theorem exists_spells_fields {fs : List (String × List Char)} {gs : List (String × Json)}
    (h : List.Forall₂ (FieldSpelled depth) fs gs) :
    ∃ ts, Spells depth (.fields true gs) ts ∧
      Plain ts ([','].intercalate (fs.map fieldText) ++ ['\x7d']) := by
  induction h with
  | nil => exact ⟨_, .endFields, Plain.mark .endObject (.last blank_nil)⟩
  | @cons f g fs gs hf hfs ih =>
    obtain ⟨name, s⟩ := f
    obtain ⟨_, v⟩ := g
    obtain ⟨rfl, ts, hts, hs⟩ := hf
    have hname := quoted_flatMap_printChar name.toList
    -- The grammar has the characters of the name where the field has the name.
    have hfield : ∀ {gs : List (String × Json)} {us : List Token},
        Spells depth (.fields false gs) us →
        Spells depth (.fields true ((name, v) :: gs))
          (.string _ hname.closed :: .mark .colon :: (ts ++ us)) := by
      intro gs us hus
      have h : Spells depth (.fields true ((String.ofList name.toList, v) :: gs))
          (.string _ hname.closed :: .mark .colon :: (ts ++ us)) := .field hname hts hus
      rwa [String.ofList_toList] at h
    cases hfs with
    | nil =>
      refine ⟨_, hfield .endFields, ?_⟩
      rw [List.map_singleton, List.intercalate_singleton]
      exact plain_fieldText_append name hs (.last blank_nil)
    | cons hw hws =>
      obtain ⟨us, hus, hr⟩ := ih
      refine ⟨_, hfield hus.comma_fields, ?_⟩
      rw [List.map_cons, List.map_cons, List.intercalate_cons_cons, List.append_assoc,
        List.append_assoc]
      exact plain_fieldText_append (m := .comma) name hs hr

/-- An array is spelled by the texts of its items. -/
theorem spelled_arrayText {vs : List Json} {texts : List (List Char)}
    (h : List.Forall₂ (Spelled (depth + 1)) vs texts) :
    Spelled (depth + 2) (.array vs) (arrayText texts) := by
  obtain ⟨ts, hts, hs⟩ := exists_spells_items h
  exact ⟨_, .array hts, Plain.mark .beginArray hs⟩

theorem spelled_emptyArray : Spelled (depth + 2) (.array []) ['[', ']'] :=
  spelled_arrayText .nil

/-- An object is spelled by the texts of its fields. -/
theorem spelled_objectText {fs : List (String × List Char)} {gs : List (String × Json)}
    (h : List.Forall₂ (FieldSpelled (depth + 1)) fs gs) :
    Spelled (depth + 2) (.object gs) (objectText fs) := by
  obtain ⟨ts, hts, hs⟩ := exists_spells_fields h
  exact ⟨_, .object hts, Plain.mark .beginObject hs⟩

/-- Fields whose texts spell some values spell an object with fields of the same names. -/
theorem exists_fields {fs : List (String × List Char)}
    (h : ∀ f ∈ fs, ∃ v, Spelled depth v f.2) :
    ∃ gs, List.Forall₂ (FieldSpelled depth) fs gs ∧ gs.map Prod.fst = fs.map Prod.fst := by
  induction fs with
  | nil => exact ⟨[], .nil, rfl⟩
  | cons f fs ih =>
    obtain ⟨⟨v, hv⟩, hfs⟩ := List.forall_mem_cons.mp h
    obtain ⟨gs, hgs, hnames⟩ := ih hfs
    exact ⟨(f.1, v) :: gs, .cons ⟨rfl, hv⟩ hgs, by simp [hnames]⟩

/-! ## Values written as texts -/

/-- The value may stand at the given depth, and the texts of its numbers stand for them. -/
def Fits : Nat → Json → Prop
  | 0, _ => False
  | depth + 1, v =>
    match v with
    | .number n => NumberText n.print n
    | .array vs => depth ≠ 0 ∧ ∀ w ∈ vs, Fits depth w
    | .object fs => depth ≠ 0 ∧ ∀ f ∈ fs, Fits depth f.2
    | _ => True

@[simp] theorem fits_null : Fits (depth + 1) .null := trivial

@[simp] theorem fits_string (s : String) : Fits (depth + 1) (.string s) := trivial

@[simp] theorem fits_nat {n : Nat} (h : n ≤ maxWord) : Fits (depth + 1) (.nat n) :=
  .positive (unsigned_toDigits h)

@[simp] theorem fits_array {vs : List Json} :
    Fits (depth + 1) (.array vs) ↔ depth ≠ 0 ∧ ∀ v ∈ vs, Fits depth v := Iff.rfl

@[simp] theorem fits_object {fs : List (String × Json)} :
    Fits (depth + 1) (.object fs) ↔ depth ≠ 0 ∧ ∀ f ∈ fs, Fits depth f.2 := Iff.rfl

theorem printItems_eq (vs : List Json) : printItems vs = [','].intercalate (vs.map print) := by
  induction vs with
  | nil => simp [printItems]
  | cons v vs ih =>
    cases vs with
    | nil => simp [printItems]
    | cons w vs => simp [printItems, ih, List.intercalate_cons_cons]

theorem printFields_eq (fs : List (String × Json)) :
    printFields fs = [','].intercalate (fs.map fun f => fieldText (f.1, f.2.print)) := by
  induction fs with
  | nil => simp [printFields]
  | cons f fs ih =>
    cases fs with
    | nil => simp [printFields, fieldText]
    | cons g fs => simp [printFields, fieldText, ih, List.intercalate_cons_cons]

theorem print_array (vs : List Json) : (Json.array vs).print = arrayText (vs.map print) := by
  simp [print, arrayText, printItems_eq]

theorem print_object (fs : List (String × Json)) :
    (Json.object fs).print = objectText (fs.map fun f => (f.1, f.2.print)) := by
  simp [print, objectText, printFields_eq, Function.comp_def]

theorem spelled_literal {letters : List Char} {v : Json} (h : (letters, v) ∈ literals) :
    Spelled (depth + 1) v letters := by
  obtain ⟨hne, hword⟩ := wordChars_of_mem_literals _ h
  exact ⟨[.word letters hne hword], .literal h, Plain.singleton _⟩

theorem spelled_printString (s : String) :
    Spelled (depth + 1) (.string s) (printString s.toList) := by
  have hs := quoted_flatMap_printChar s.toList
  have hspells : Spells (depth + 1) (.value (.string (String.ofList s.toList)))
      [.string _ hs.closed] := .string hs
  rw [String.ofList_toList] at hspells
  exact ⟨_, hspells, Plain.singleton _⟩

/-- **A value that is written as text is spelled by that text.** -/
theorem Fits.spelled {v : Json} (h : Fits depth v) : Spelled depth v v.print := by
  induction depth generalizing v with
  | zero => exact absurd h (by simp [Fits])
  | succ depth ih =>
    cases v with
    | null => exact spelled_literal (by simp [literals, print])
    | bool b => cases b <;> exact spelled_literal (by simp [literals, print])
    | number n =>
      have hnum : NumberText n.print n := h
      exact ⟨[.word _ hnum.ne_nil hnum.wordChars], .number hnum, Plain.singleton _⟩
    | string s => exact spelled_printString s
    | array vs =>
      obtain ⟨hdepth, hvs⟩ := h
      obtain ⟨depth, rfl⟩ := Nat.exists_eq_succ_of_ne_zero hdepth
      rw [print_array]
      refine spelled_arrayText (List.forall₂_map_right_iff.mpr ?_)
      exact List.forall₂_same.mpr fun v hv => ih (hvs v hv)
    | object fs =>
      obtain ⟨hdepth, hfs⟩ := h
      obtain ⟨depth, rfl⟩ := Nat.exists_eq_succ_of_ne_zero hdepth
      rw [print_object]
      refine spelled_objectText (List.forall₂_map_left_iff.mpr ?_)
      exact List.forall₂_same.mpr fun f hf => ⟨rfl, ih (hfs f hf)⟩

/-! ## Characters that are written -/

theorem le_toNat_of_isWordChar {c : Char} (h : isWordChar c = true) : 0x20 ≤ c.toNat := by
  simp only [isWordChar, wordRanges, Text.inRanges, Text.CodeRange.contains, List.any_cons,
    List.any_nil, Bool.or_false, Bool.or_eq_true, Bool.and_eq_true, decide_eq_true_eq] at h
  omega

theorem le_toNat_hexDigit : ∀ n < 16, 0x20 ≤ (hexDigit n).toNat := by
  decide

theorem le_toNat_of_mem_printString {s : List Char} {c : Char} (h : c ∈ printString s) :
    0x20 ≤ c.toNat := by
  have hchar : ∀ a, ∀ c ∈ printChar a, 0x20 ≤ c.toNat := by
    intro a
    unfold printChar
    split_ifs with h₁ h₂ h₃ h₄ h₅ h₆ h₇ hcontrol
    iterate 7
      · simp
    · have hhigh := le_toNat_hexDigit (a.toNat / 16) (by omega)
      have hlow := le_toNat_hexDigit (a.toNat % 16) (by omega)
      simp [hhigh, hlow]
    · simp only [List.mem_singleton, forall_eq]
      omega
  rw [printString, List.cons_append, List.mem_cons, List.mem_append, List.mem_flatMap,
    List.mem_singleton] at h
  obtain rfl | ⟨a, -, hc⟩ | rfl := h
  · decide
  · exact hchar a c hc
  · decide

/-- **A value is written without control characters**, so that its text is a single line. -/
theorem Fits.le_toNat_of_mem {v : Json} (h : Fits depth v) {c : Char} (hc : c ∈ v.print) :
    0x20 ≤ c.toNat := by
  induction depth generalizing v c with
  | zero => exact absurd h (by simp [Fits])
  | succ depth ih =>
    cases v with
    | null =>
      have hliteral : (print .null, .null) ∈ literals := by simp [literals, print]
      exact le_toNat_of_isWordChar ((wordChars_of_mem_literals _ hliteral).2 c hc)
    | bool b =>
      have hliteral : (print (.bool b), .bool b) ∈ literals := by cases b <;> simp [literals, print]
      exact le_toNat_of_isWordChar ((wordChars_of_mem_literals _ hliteral).2 c hc)
    | number n =>
      have hnum : NumberText n.print n := h
      exact le_toNat_of_isWordChar (hnum.wordChars c hc)
    | string s => exact le_toNat_of_mem_printString hc
    | array vs =>
      rw [print_array, arrayText, List.mem_cons, List.mem_append, List.mem_singleton] at hc
      obtain rfl | hc | rfl := hc
      · decide
      · obtain rfl | ⟨t, ht, hc⟩ := Text.mem_intercalate hc
        · decide
        · obtain ⟨v, hv, rfl⟩ := List.mem_map.mp ht
          exact ih (h.2 v hv) hc
      · decide
    | object fs =>
      rw [print_object, objectText, List.map_map, List.mem_cons, List.mem_append,
        List.mem_singleton] at hc
      obtain rfl | hc | rfl := hc
      · decide
      · obtain rfl | ⟨t, ht, hc⟩ := Text.mem_intercalate hc
        · decide
        · obtain ⟨f, hf, rfl⟩ := List.mem_map.mp ht
          simp only [Function.comp_apply, fieldText, List.mem_append, List.mem_cons] at hc
          obtain hc | rfl | hc := hc
          · exact le_toNat_of_mem_printString hc
          · decide
          · exact ih (h.2 f hf) hc
      · decide

/-! ## Nested arrays -/

/-- Arrays in one another, of which the innermost one is empty. -/
def nestedText (n : Nat) : List Char := List.replicate n '[' ++ List.replicate n ']'

theorem nestedText_succ (n : Nat) : nestedText (n + 1) = '[' :: (nestedText n ++ [']']) := by
  rw [nestedText, nestedText, List.replicate_succ, List.replicate_succ', List.cons_append,
    List.append_assoc]

/-- As many arrays in one another as the depth allows. -/
theorem exists_spelled_nestedText (n : Nat) : ∃ v, Spelled (n + 2) v (nestedText (n + 1)) := by
  induction n with
  | zero => exact ⟨.array [], spelled_emptyArray⟩
  | succ n ih =>
    obtain ⟨v, hv⟩ := ih
    refine ⟨.array [v], ?_⟩
    rw [nestedText_succ]
    simpa [arrayText] using spelled_arrayText (.cons hv .nil)

theorem Plain.replicate_mark {us : List Token} {s : List Char} (n : Nat) (m : Mark)
    (h : Plain us s) :
    Plain (List.replicate n (.mark m) ++ us) (List.replicate n m.char ++ s) := by
  induction n with
  | zero => exact h
  | succ n ih => exact Plain.mark m ih

end CommentTags.Json
