import CommentTags.Proofs.Yaml.Records
import CommentTags.Yaml.Document

/-!
# The nodes of documents of records

The tokens of a document of records are read as the tree that they were written for.  No node of it
has an anchor or a tag, so a scalar is known by its text and style alone.

Every reader needs fuel for the depth of its recursion.  It is shown for each piece that the number
of its tokens and a few more are enough, and `readingDepth` allows for that.

* `Scalar.node`, `Record.node`, `documentNode` — the tree of each piece.
* `readBlockEntries_key` — a key and its value are read, and then the entries after them.
* `readIndentlessItems_records`, `readBlockValue_list` — the records of a list.
* `document?_documentTokens` — a document of records is read back as a tree.
-/

set_option autoImplicit false

namespace CommentTags.Yaml

/-! ## Trees -/

/-- A scalar without properties. -/
def Scalar.node (x : Scalar) : Node := .scalar none none x

/-- The key of a field and its value. -/
def Field.nodes (f : Field) : Node × Node := (Scalar.node ⟨f.name, .plain⟩, f.value.node)

def Record.node (r : Record) : Node := .mapping none none (r.fields.map Field.nodes)

def Entry.nodes : Entry → Node × Node
  | .field f => f.nodes
  | .list name records =>
    (Scalar.node ⟨name, .plain⟩, .sequence none none (records.map Record.node))

theorem Entry.nodes_eq (e : Entry) : e.nodes = (Scalar.node ⟨e.name, .plain⟩, e.nodes.2) := by
  cases e <;> rfl

def documentNode (entries : List Entry) : Node := .mapping none none (entries.map Entry.nodes)

/-! ## Reading them -/

section

variable {handles : TagHandles} {block indentless : Bool} {stops ts : List Token} {fuel : Nat}

theorem readNode_scalar (x : Scalar) (h : 1 ≤ fuel) :
    readNode handles block indentless fuel (.scalar x :: ts) = .ok (x.node, ts) := by
  obtain ⟨fuel, rfl⟩ := Nat.exists_eq_add_one_of_ne_zero (show fuel ≠ 0 by omega)
  rfl

theorem readOptional_scalar {x : Scalar} (hstops : .scalar x ∉ stops) (h : 2 ≤ fuel) :
    readOptional handles block indentless stops fuel (.scalar x :: ts) = .ok (x.node, ts) := by
  obtain ⟨fuel, rfl⟩ := Nat.exists_eq_add_one_of_ne_zero (show fuel ≠ 0 by omega)
  have hleft : leftOut stops (.scalar x :: ts) = false := by simpa [leftOut] using hstops
  rw [readOptional, hleft]
  exact readNode_scalar x (by omega)

theorem readBlockValue_scalar (x : Scalar) (h : 3 ≤ fuel) :
    readBlockValue handles fuel (.value :: .scalar x :: ts) = .ok (x.node, ts) := by
  obtain ⟨fuel, rfl⟩ := Nat.exists_eq_add_one_of_ne_zero (show fuel ≠ 0 by omega)
  exact readOptional_scalar (by simp) (by omega)

/-- A key and its value are read, and then the entries after them. -/
theorem readBlockEntries_key {name : List Char} {value : Node} {entries : List (Node × Node)}
    {ts' ts'' : List Token} (h : 2 ≤ fuel)
    (hvalue : readBlockValue handles fuel ts = .ok (value, ts'))
    (hentries : readBlockEntries handles fuel ts' = .ok (entries, ts'')) :
    readBlockEntries handles (fuel + 1) (.key :: .scalar ⟨name, .plain⟩ :: ts) =
      .ok ((Scalar.node ⟨name, .plain⟩, value) :: entries, ts'') := by
  have hkey : readOptional handles true true [.key, .value, .blockEnd] fuel
      (.scalar ⟨name, .plain⟩ :: ts) = _ := readOptional_scalar (by simp) h
  rw [readBlockEntries]
  simp only [bind, Except.bind, pure, Except.pure, hkey, hvalue, hentries]

theorem readBlockEntries_end (h : 1 ≤ fuel) :
    readBlockEntries handles fuel (.blockEnd :: ts) = .ok ([], ts) := by
  obtain ⟨fuel, rfl⟩ := Nat.exists_eq_add_one_of_ne_zero (show fuel ≠ 0 by omega)
  rfl

theorem readBlockEntries_fields (fields : List Field) (h : fields.length + 3 ≤ fuel) :
    readBlockEntries handles fuel (fields.flatMap Field.tokens ++ .blockEnd :: ts) =
      .ok (fields.map Field.nodes, ts) := by
  induction fields generalizing fuel with
  | nil => exact readBlockEntries_end (by omega)
  | cons f fields ih =>
    obtain ⟨fuel, rfl⟩ := Nat.exists_eq_add_one_of_ne_zero (show fuel ≠ 0 by omega)
    simp only [List.length_cons] at h
    exact readBlockEntries_key (by omega) (readBlockValue_scalar f.value (by omega))
      (ih (by omega))

theorem readNode_mapping {entries : List (Node × Node)} {ts' : List Token} (h : 1 ≤ fuel)
    (hentries : readBlockEntries handles (fuel - 1) ts = .ok (entries, ts')) :
    readNode handles true indentless fuel (.blockMappingStart :: ts) =
      .ok (.mapping none none entries, ts') := by
  obtain ⟨fuel, rfl⟩ := Nat.exists_eq_add_one_of_ne_zero (show fuel ≠ 0 by omega)
  rw [Nat.add_sub_cancel] at hentries
  cases indentless <;>
    simp only [readNode, Properties.read, bind, Except.bind, pure, Except.pure, hentries] <;> rfl

/-! ### Records -/

theorem length_fieldTokens (fields : List Field) :
    (fields.flatMap Field.tokens).length = 4 * fields.length := by
  induction fields with
  | nil => rfl
  | cons f fields ih =>
    rw [List.flatMap_cons, List.length_append, ih, List.length_cons]
    simp only [Field.tokens, List.length_cons, List.length_nil]
    omega

theorem Record.tokens_append (r : Record) (ts : List Token) :
    r.tokens ++ ts =
      .blockEntry :: .blockMappingStart :: (r.fields.flatMap Field.tokens ++ .blockEnd :: ts) := by
  simp [Record.tokens]

theorem Record.length_tokens (r : Record) : r.tokens.length = 4 * r.fields.length + 3 := by
  simp [Record.tokens, ← length_fieldTokens]

/-- What comes after the records of a list is no record. -/
theorem readIndentlessItems_records (records : List Record) (hts : ts.head? ≠ some .blockEntry)
    (h : (records.flatMap Record.tokens).length + 5 ≤ fuel) :
    readIndentlessItems handles fuel (records.flatMap Record.tokens ++ ts) =
      .ok (records.map Record.node, ts) := by
  induction records generalizing fuel with
  | nil =>
    obtain ⟨fuel, rfl⟩ := Nat.exists_eq_add_one_of_ne_zero (show fuel ≠ 0 by omega)
    rw [List.flatMap_nil, List.nil_append, readIndentlessItems]
    · rfl
    · rintro ts rfl
      exact hts rfl
  | cons r records ih =>
    obtain ⟨fuel, rfl⟩ := Nat.exists_eq_add_one_of_ne_zero (show fuel ≠ 0 by omega)
    rw [List.flatMap_cons, List.length_append, r.length_tokens] at h
    have hrecord (ts : List Token) :
        readOptional handles true false [.blockEntry, .key, .value, .blockEnd] fuel
            (.blockMappingStart :: (r.fields.flatMap Field.tokens ++ .blockEnd :: ts)) =
          .ok (r.node, ts) := by
      obtain ⟨fuel, rfl⟩ := Nat.exists_eq_add_one_of_ne_zero (show fuel ≠ 0 by omega)
      exact readNode_mapping (by omega) (readBlockEntries_fields r.fields (by omega))
    have hrecords := ih (show (records.flatMap Record.tokens).length + 5 ≤ fuel by omega)
    rw [List.flatMap_cons, List.append_assoc, r.tokens_append, readIndentlessItems]
    simp only [bind, Except.bind, pure, Except.pure, hrecord, hrecords]
    rfl

/-! ### Entries -/

/-- A list is the value of its key, whether it has records or not. -/
theorem readBlockValue_list (handles : TagHandles) (name : List Char) (records : List Record)
    (hts : ts.head? ≠ some .blockEntry) (h : (Entry.list name records).tokens.length + 5 ≤ fuel) :
    ∃ ts', (Entry.list name records).tokens ++ ts = .key :: .scalar ⟨name, .plain⟩ :: ts' ∧
      readBlockValue handles fuel ts' = .ok (.sequence none none (records.map Record.node), ts) := by
  cases records with
  | nil =>
    obtain ⟨fuel, rfl⟩ := Nat.exists_eq_add_of_le' (show 4 ≤ fuel by omega)
    exact ⟨_, rfl, rfl⟩
  | cons r records =>
    simp only [Entry.tokens, List.length_cons] at h
    obtain ⟨fuel, rfl⟩ := Nat.exists_eq_add_of_le' (show 3 ≤ fuel by omega)
    have hitems :
        readIndentlessItems handles fuel ((r :: records).flatMap Record.tokens ++ ts) = _ :=
      readIndentlessItems_records (r :: records) hts (by omega)
    have hnode : readNode handles true true (fuel + 1)
        ((r :: records).flatMap Record.tokens ++ ts) =
          .ok (.sequence none none ((r :: records).map Record.node), ts) := by
      rw [List.flatMap_cons, List.append_assoc, r.tokens_append] at hitems ⊢
      simp only [readNode, Properties.read, bind, Except.bind, pure, Except.pure, hitems]
      rfl
    exact ⟨_, rfl, hnode⟩

theorem readBlockEntries_entry (e : Entry) {entries : List (Node × Node)} {ts' : List Token}
    (hts : ts.head? ≠ some .blockEntry) (h : e.tokens.length + 5 ≤ fuel)
    (hentries : readBlockEntries handles fuel ts = .ok (entries, ts')) :
    readBlockEntries handles (fuel + 1) (e.tokens ++ ts) = .ok (e.nodes :: entries, ts') := by
  cases e with
  | field f =>
    exact readBlockEntries_key (by omega) (readBlockValue_scalar f.value (by omega)) hentries
  | list name records =>
    obtain ⟨_, htokens, hvalue⟩ := readBlockValue_list handles name records hts h
    rw [htokens]
    exact readBlockEntries_key (by omega) hvalue hentries

theorem head?_entryTokens (e : Entry) (ts : List Token) : (e.tokens ++ ts).head? = some .key := by
  cases e with
  | field f => rfl
  | list name records => cases records <;> rfl

theorem readBlockEntries_entries (entries : List Entry)
    (h : (entries.flatMap Entry.tokens).length + 6 ≤ fuel) :
    readBlockEntries handles fuel (entries.flatMap Entry.tokens ++ .blockEnd :: ts) =
      .ok (entries.map Entry.nodes, ts) := by
  induction entries generalizing fuel with
  | nil => exact readBlockEntries_end (by omega)
  | cons e entries ih =>
    obtain ⟨fuel, rfl⟩ := Nat.exists_eq_add_one_of_ne_zero (show fuel ≠ 0 by omega)
    rw [List.flatMap_cons, List.length_append] at h
    have hpos : 0 < e.tokens.length := List.length_pos_iff.2 fun hnil => by
      simpa [hnil] using head?_entryTokens e []
    have hhead : (entries.flatMap Entry.tokens ++ .blockEnd :: ts).head? ≠ some .blockEntry := by
      cases entries with
      | nil => simp
      | cons e' entries =>
        rw [List.flatMap_cons, List.append_assoc, head?_entryTokens]
        simp
    rw [List.flatMap_cons, List.append_assoc]
    exact readBlockEntries_entry e hhead (by omega) (ih (by omega))

end

/-- **A document of records is read back as a tree.** -/
theorem document?_documentTokens (entries : List Entry) :
    document? (documentTokens entries) =
      .ok (if entries.isEmpty then none else some (documentNode entries)) := by
  cases entries with
  | nil => rfl
  | cons e entries =>
    have hread : readDocument (documentTokens (e :: entries)) =
        .ok (documentNode (e :: entries), []) := by
      refine readNode_mapping (by simp [readingDepth]) (readBlockEntries_entries (e :: entries) ?_)
      show _ ≤ 4 * (((e :: entries).flatMap Entry.tokens ++ [Token.blockEnd]).length + 1) + 8 - 1
      rw [List.length_append]
      omega
    have hne : (documentTokens (e :: entries)).isEmpty = false := rfl
    rw [document?, hne, hread]
    rfl

theorem parse_print {entries : List Entry} (he : ∀ e ∈ entries, e.Fits) :
    parse (String.ofList (entries.flatMap Entry.print)) =
      .ok (if entries.isEmpty then none else some (documentNode entries)) := by
  rw [parse, tokens_print he]
  exact document?_documentTokens entries

end CommentTags.Yaml
