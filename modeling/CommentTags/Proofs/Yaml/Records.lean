import CommentTags.Proofs.Yaml.Scalars

/-!
# Documents of records

A document of records is a mapping whose values are scalars and lists of records, and a record is a
mapping of scalars.  It is written with one line for a key and its value, or more if the value takes
more, and the records of a list as its items.

The lexer is followed along what is written, from the start of one line to the start of another.
Each piece adds its own tokens and leaves the rest of the text as it is, which is why the pieces can
be put together in any number.

* `Field`, `Record`, `Entry` — the pieces, each with how it is written, its tokens, and what it
  takes for it to be read back (`Field.Fits`, `Entry.Fits`).
* `reachesLine_field`, `reachesLine_record`, `run_entries` — the lexer along a field, a record, and
  the entries of a document.
* `tokens_print` — the tokens of every document that can be written so.
-/

set_option autoImplicit false

namespace CommentTags.Yaml

/-! ## Documents as they are written -/

/-- A key with a scalar as its value. -/
structure Field where
  name : List Char
  value : Scalar

namespace Field

/-- A field from its key on.  The lines of the value itself are indented as given. -/
def print (indent : List Char) (f : Field) : List Char :=
  f.name ++ ": ".toList ++ f.value.print indent

theorem print_append (f : Field) (indent t : List Char) :
    f.print indent ++ t = f.name ++ ':' :: ' ' :: (f.value.print indent ++ t) := by
  simp [print]

def tokens (f : Field) : List Token :=
  [.key, .scalar ⟨f.name, .plain⟩, .value, .scalar f.value]

/-- The key is a word, and the value can be read back. -/
structure Fits (f : Field) : Prop where
  name : Lexer.KeyName f.name
  value : f.value.Fits

end Field

/-- Fields in lines of their own, in a column. -/
def printFields (column : Nat) (fields : List Field) : List Char :=
  fields.flatMap fun f => spaces column ++ f.print (spaces (column + 2))

theorem printFields_cons_append (column : Nat) (f : Field) (fields : List Field) (t : List Char) :
    printFields column (f :: fields) ++ t =
      spaces column ++ (f.print (spaces (column + 2)) ++ (printFields column fields ++ t)) := by
  simp only [printFields, List.flatMap_cons, List.append_assoc]

/-- A mapping of scalars with at least one key. -/
structure Record where
  first : Field
  others : List Field

namespace Record

def fields (r : Record) : List Field := r.first :: r.others

/-- A record as the item of a list. -/
def print (r : Record) : List Char :=
  "- ".toList ++ r.first.print (spaces 4) ++ printFields 2 r.others

def tokens (r : Record) : List Token :=
  .blockEntry :: .blockMappingStart :: r.fields.flatMap Field.tokens ++ [.blockEnd]

end Record

/-- A key of the document with its value. -/
inductive Entry
  | field (f : Field)
  | list (name : List Char) (records : List Record)

namespace Entry

def name : Entry → List Char
  | .field f => f.name
  | .list name _ => name

def print : Entry → List Char
  | .field f => f.print (spaces 2)
  | .list name [] => name ++ ": []\n".toList
  | .list name records => name ++ ":\n".toList ++ records.flatMap Record.print

def tokens : Entry → List Token
  | .field f => f.tokens
  | .list name [] =>
    [.key, .scalar ⟨name, .plain⟩, .value, .flowSequenceStart, .flowSequenceEnd]
  | .list name records =>
    .key :: .scalar ⟨name, .plain⟩ :: .value :: records.flatMap Record.tokens

/-- The keys are words, and the values can be read back. -/
inductive Fits : Entry → Prop
  | field {f : Field} : f.Fits → Fits (.field f)
  | list {name : List Char} {records : List Record} : Lexer.KeyName name →
      (∀ r ∈ records, ∀ f ∈ r.fields, f.Fits) → Fits (.list name records)

end Entry

/-- The tokens of a document; there are none if nothing is written. -/
def documentTokens (entries : List Entry) : List Token :=
  if entries.isEmpty then [] else .blockMappingStart :: entries.flatMap Entry.tokens ++ [.blockEnd]

/-! ## Cutting a document into tokens -/

namespace Lexer

section

variable {l l' : Lexer} {margins margins' : List Nat} {tokens tokens' : List Token}
  {s t : List Char} {line column : Nat}

theorem Reaches.reachesLine (h : Reaches l l') (h' : ReachesLine l' margins tokens t) :
    ReachesLine l margins tokens t :=
  h'.imp fun _ => h.trans

theorem reaches_spaces {keyAllowed : Bool} (n : Nat) :
    Reaches (between keyAllowed margins tokens ⟨spaces n ++ s, line, column⟩)
      (between keyAllowed margins tokens ⟨s, line, column + n⟩) :=
  .of_advance (advance_spaces _ _ _ _ _ _ n) (by simp)

theorem ReachesLine.bind (h : ReachesLine l margins tokens s)
    (h' : ∀ line, ReachesLine (ready margins tokens ⟨s, line, 0⟩) margins' tokens' t) :
    ReachesLine l margins' tokens' t := by
  obtain ⟨line, h⟩ := h
  exact h.reachesLine (h' line)

theorem BeginsToken.beginsLeftOf (h : BeginsToken t) {margin : Nat} (hmargin : 0 < margin) :
    BeginsLeftOf margin t :=
  ⟨0, t, rfl, hmargin, h⟩

theorem KeyName.beginsToken (h : KeyName s) (t : List Char) : BeginsToken (s ++ t) := by
  obtain ⟨c, s, rfl, -⟩ := h.beginning
  exact beginsToken_plain h.plain

theorem BlockAt.headD_eq (h : BlockAt column margins tokens margins' tokens') :
    margins'.headD 0 = column + 1 := by
  cases h with
  | first _ => rfl
  | later h => exact h

theorem beginsToken_field {f : Field} (hf : f.Fits) (indent t : List Char) :
    BeginsToken (f.print indent ++ t) := by
  rw [f.print_append]
  exact hf.name.beginsToken _

/-- A field, whether it is the first one of its block or not. -/
theorem reachesLine_field {f : Field} (hf : f.Fits)
    (hblock : BlockAt column margins tokens margins' tokens') (ht : BeginsLeftOf (column + 1) t) :
    ReachesLine (ready margins tokens ⟨f.print (spaces (column + 2)) ++ t, line, column⟩) margins'
      (f.tokens.reverse ++ tokens') t := by
  rw [f.print_append]
  refine (reaches_key hf.name hblock rfl).reachesLine ?_
  exact reachesLine_value hf.value hblock.headD_eq (by omega) ht

theorem beginsLeftOf_printFields {fields : List Field} (hf : ∀ f ∈ fields, f.Fits)
    (ht : BeginsLeftOf (column + 1) t) :
    BeginsLeftOf (column + 1) (printFields column fields ++ t) := by
  cases fields with
  | nil => exact ht
  | cons f fields =>
    exact ⟨column, _, printFields_cons_append column f fields t, Nat.lt_succ_self column,
      beginsToken_field (hf f List.mem_cons_self) _ _⟩

/-- The fields of a block after the first one. -/
theorem reachesLine_fields {fields : List Field} (hf : ∀ f ∈ fields, f.Fits)
    (hmargin : margins.headD 0 = column + 1) (ht : BeginsLeftOf (column + 1) t) :
    ReachesLine (ready margins tokens ⟨printFields column fields ++ t, line, 0⟩) margins
      ((fields.flatMap Field.tokens).reverse ++ tokens) t := by
  induction fields generalizing tokens line with
  | nil => exact ⟨line, .of_advance rfl (Nat.le_refl _)⟩
  | cons f fields ih =>
    obtain ⟨hfirst, hothers⟩ := List.forall_mem_cons.1 hf
    rw [printFields_cons_append, List.flatMap_cons, List.reverse_append, List.append_assoc]
    refine (reaches_spaces column).reachesLine ?_
    rw [Nat.zero_add]
    exact (reachesLine_field hfirst (.later hmargin) (beginsLeftOf_printFields hothers ht)).bind
      fun _ => ih hothers

/-! ### Records -/

theorem token_dash (hmargin : 0 < margins.headD 0) :
    (ready margins tokens ⟨'-' :: ' ' :: s, line, 0⟩).token '-' =
      .ok (ready margins (.blockEntry :: tokens) ⟨' ' :: s, line, 1⟩) := by
  have hblock (l : Lexer) (hrest : l.input.rest = '-' :: ' ' :: s) : l.token '-' = l.blockEntry := by
    simp [token, hrest, Input.atMark, endsWord, isSpacing, isBlank]
  rw [hblock _ rfl]
  simp [blockEntry, beginBlock, openBlock, between, inFlow, margin, hmargin, dropKey, giveUp, push,
    pushAt, Input.skip, bind, Except.bind, pure, Except.pure, -List.headD_eq_head?_getD]

/-- The dash before a record. -/
theorem reaches_dash (hmargin : margins.headD 0 = 1) :
    Reaches (ready margins tokens ⟨'-' :: ' ' :: s, line, 0⟩)
      (ready margins (.blockEntry :: tokens) ⟨s, line, 2⟩) :=
  (Reaches.of_token (advance_token _ _ _ (beginsToken_cons.2 (by decide)) (Nat.le_of_eq hmargin))
    rfl (token_dash (by omega)) rfl (by simp)).trans (reaches_spaces 1)

/-- A record ends where a line begins in the first column. -/
theorem reachesLine_record {r : Record} (hr : ∀ f ∈ r.fields, f.Fits)
    (hmargin : margins.headD 0 = 1) (ht : BeginsToken t) :
    ReachesLine (ready margins tokens ⟨r.print ++ t, line, 0⟩) margins (r.tokens.reverse ++ tokens)
      t := by
  obtain ⟨hfirst, hothers⟩ := List.forall_mem_cons.1 hr
  have htext : r.print ++ t =
      '-' :: ' ' :: (r.first.print (spaces 4) ++ (printFields 2 r.others ++ t)) := by
    simp [Record.print]
  have htokens : r.tokens.reverse ++ tokens =
      .blockEnd :: ((r.others.flatMap Field.tokens).reverse ++ (r.first.tokens.reverse ++
        .blockMappingStart :: .blockEntry :: tokens)) := by
    simp [Record.tokens, Record.fields]
  have hleft : BeginsLeftOf 3 t := ht.beginsLeftOf (by decide)
  rw [htext, htokens]
  refine (reaches_dash hmargin).reachesLine ?_
  refine (reachesLine_field hfirst (.first (by omega)) (beginsLeftOf_printFields hothers hleft)).bind
    fun line => ?_
  refine (reachesLine_fields hothers rfl hleft).bind fun line => ⟨line, ?_⟩
  exact .of_advance (advance_closes _ _ _ ht (by decide)) (Nat.le_refl _)

theorem beginsToken_records (records : List Record) (ht : BeginsToken t) :
    BeginsToken (records.flatMap Record.print ++ t) := by
  cases records with
  | nil => exact ht
  | cons r records => exact beginsToken_cons.2 (by decide)

theorem reachesLine_records {records : List Record} (hr : ∀ r ∈ records, ∀ f ∈ r.fields, f.Fits)
    (hmargin : margins.headD 0 = 1) (ht : BeginsToken t) :
    ReachesLine (ready margins tokens ⟨records.flatMap Record.print ++ t, line, 0⟩) margins
      ((records.flatMap Record.tokens).reverse ++ tokens) t := by
  induction records generalizing tokens line with
  | nil => exact ⟨line, .of_advance rfl (Nat.le_refl _)⟩
  | cons r records ih =>
    obtain ⟨hfirst, hothers⟩ := List.forall_mem_cons.1 hr
    rw [List.flatMap_cons, List.flatMap_cons, List.reverse_append, List.append_assoc,
      List.append_assoc]
    exact (reachesLine_record hfirst hmargin (beginsToken_records records ht)).bind
      fun _ => ih hothers

/-! ### Entries -/

/-- Inside a flow collection that is the value of a key. -/
def inList (margins : List Nat) (tokens : List Token) (i : Input) : Lexer :=
  { ready margins (.flowSequenceStart :: tokens) i with outerKeys := [none] }

theorem advance_inList :
    (inList margins tokens ⟨']' :: s, line, column⟩).advance =
      .ok (inList margins tokens ⟨']' :: s, line, column⟩) := by
  have hbegins : BeginsToken (']' :: s) := beginsToken_cons.2 (by decide)
  simp only [advance, inList, between, toNextToken_of_beginsToken _ _ _ _ hbegins]
  simp [dropStaleKeys, giveUpIfStale, closeBlocks, inFlow, bind, Except.bind, pure, Except.pure]

/-- A list without records. -/
theorem reachesLine_emptyList (hmargin : margins.headD 0 ≤ column) :
    ReachesLine (awaiting margins tokens ⟨" []\n".toList ++ t, line, column⟩) margins
      (.flowSequenceEnd :: .flowSequenceStart :: tokens) t := by
  have hopen : (awaiting margins tokens ⟨'[' :: ']' :: '\n' :: t, line, column + 1⟩).token '[' =
      .ok (inList margins tokens ⟨']' :: '\n' :: t, line, column + 2⟩) := by
    simp [token, Input.atMark, openFlow, saveKey, between, inList, push, pushAt, Input.skip, bind,
      Except.bind, pure, Except.pure]
  have hclose : (inList margins tokens ⟨']' :: '\n' :: t, line, column + 2⟩).token ']' =
      .ok (awaiting margins (.flowSequenceEnd :: .flowSequenceStart :: tokens)
        ⟨'\n' :: t, line, column + 3⟩) := by
    simp [token, Input.atMark, closeFlow, dropKey, giveUp, between, inList, push, pushAt, Input.skip,
      bind, Except.bind, pure, Except.pure]
  have hbegins : BeginsToken ('[' :: ']' :: '\n' :: t) := beginsToken_cons.2 (by decide)
  refine ⟨line + 1, .trans (.of_token (advance_value hbegins hmargin) rfl hopen rfl ?_)
    (.of_token advance_inList rfl hclose (advance_break _ _ _ _ _ _) ?_)⟩
  · simp [inList]
  · simp only [inList, between_input, List.length_cons]
    omega

theorem reachesLine_entry {e : Entry} (he : e.Fits)
    (hblock : BlockAt 0 margins tokens margins' tokens') (ht : BeginsToken t) :
    ReachesLine (ready margins tokens ⟨e.print ++ t, line, 0⟩) margins' (e.tokens.reverse ++ tokens')
      t := by
  have hmargin := hblock.headD_eq
  cases he with
  | field hf => exact reachesLine_field hf hblock (ht.beginsLeftOf (by decide))
  | @list name records hname hr =>
    cases records with
    | nil =>
      have htext : (Entry.list name []).print ++ t = name ++ ':' :: (" []\n".toList ++ t) := by
        simp [Entry.print]
      rw [htext]
      exact (reaches_key hname hblock rfl).reachesLine (reachesLine_emptyList (by omega))
    | cons r records =>
      have htext : (Entry.list name (r :: records)).print ++ t =
          name ++ ':' :: '\n' :: ((r :: records).flatMap Record.print ++ t) := by
        simp [Entry.print]
      have htokens : (Entry.list name (r :: records)).tokens.reverse ++ tokens' =
          ((r :: records).flatMap Record.tokens).reverse ++
            .value :: .scalar ⟨name, .plain⟩ :: .key :: tokens' := by
        simp [Entry.tokens]
      rw [htext, htokens]
      refine (reaches_key hname hblock rfl).reachesLine ?_
      refine (Reaches.of_advance (advance_break _ _ _ _ _ _) ?_).reachesLine
        (reachesLine_records hr hmargin ht)
      simp

theorem beginsToken_entry {e : Entry} (he : e.Fits) (t : List Char) :
    BeginsToken (e.print ++ t) := by
  cases he with
  | field hf => exact beginsToken_field hf _ t
  | @list name records hname hr =>
    cases records <;> simp only [Entry.print, List.append_assoc] <;> exact hname.beginsToken _

theorem beginsToken_entries {entries : List Entry} (he : ∀ e ∈ entries, e.Fits) :
    BeginsToken (entries.flatMap Entry.print) := by
  cases entries with
  | nil => exact fun c hc => absurd hc (by simp)
  | cons e entries => exact beginsToken_entry (he e List.mem_cons_self) _

theorem reachesLine_entries {entries : List Entry} (he : ∀ e ∈ entries, e.Fits)
    (hmargin : margins.headD 0 = 1) :
    ReachesLine (ready margins tokens ⟨entries.flatMap Entry.print, line, 0⟩) margins
      ((entries.flatMap Entry.tokens).reverse ++ tokens) [] := by
  induction entries generalizing tokens line with
  | nil => exact ⟨line, .of_advance rfl (Nat.le_refl _)⟩
  | cons e entries ih =>
    obtain ⟨hfirst, hothers⟩ := List.forall_mem_cons.1 he
    rw [List.flatMap_cons, List.flatMap_cons, List.reverse_append, List.append_assoc]
    exact (reachesLine_entry hfirst (.later hmargin) (beginsToken_entries hothers)).bind
      fun _ => ih hothers

/-- The end of the text ends the block of the document. -/
theorem run_end (fuel : Nat) :
    run (fuel + 1) (ready [1] tokens ⟨[], line, 0⟩) =
      .ok (ready [] (.blockEnd :: tokens) ⟨[], line, 0⟩) := by
  have hend : BeginsToken [] := fun c hc => absurd hc (by simp)
  rw [run, advance_token _ _ _ hend (Nat.le_refl 1)]
  simp [bind, Except.bind, finish, closeBlocks, between, inFlow, closeMargins, dropKey, giveUp, pure,
    Except.pure]

/-- The tokens of a document, the latest first. -/
theorem run_entries {entries : List Entry} (he : ∀ e ∈ entries, e.Fits) :
    (run ((entries.flatMap Entry.print).length + 1)
        { input := ⟨entries.flatMap Entry.print, 0, 0⟩ }).map (·.tokens.reverse) =
      .ok (documentTokens entries) := by
  cases entries with
  | nil => rfl
  | cons e entries =>
    obtain ⟨hfirst, hothers⟩ := List.forall_mem_cons.1 he
    have hreaches : ReachesLine (ready [] [] ⟨(e :: entries).flatMap Entry.print, 0, 0⟩) [1]
        (((e :: entries).flatMap Entry.tokens).reverse ++ [.blockMappingStart]) [] := by
      rw [List.flatMap_cons, List.flatMap_cons, List.reverse_append, List.append_assoc]
      exact (reachesLine_entry hfirst (.first (by simp)) (beginsToken_entries hothers)).bind
        fun _ => reachesLine_entries hothers rfl
    obtain ⟨line, n, hn, hrun⟩ := hreaches
    obtain ⟨k, hk⟩ : ∃ k, ((e :: entries).flatMap Entry.print).length = k + n :=
      ⟨_, (Nat.sub_add_cancel (Nat.le_of_add_right_le hn)).symm⟩
    show (run _ (ready [] [] _)).map _ = _
    rw [hk, Nat.add_right_comm, hrun, run_end]
    simp [Except.map, documentTokens, between]

end

end Lexer

theorem Field.Fits.isPrintable_of_mem {f : Field} (hf : f.Fits) (n : Nat) :
    ∀ c ∈ f.print (spaces n), isPrintable c = true :=
  List.forall_mem_append.2
    ⟨List.forall_mem_append.2 ⟨hf.name.plain.printable, List.all_eq_true.1 (by decide)⟩,
    hf.value.isPrintable_of_mem n⟩

theorem isPrintable_of_mem_printFields {column : Nat} {fields : List Field}
    (hf : ∀ f ∈ fields, f.Fits) : ∀ c ∈ printFields column fields, isPrintable c = true := by
  intro c hc
  obtain ⟨f, hmem, hc⟩ := List.mem_flatMap.1 hc
  obtain hc | hc := List.mem_append.1 hc
  · exact isPrintable_of_mem_spaces c hc
  · exact (hf f hmem).isPrintable_of_mem _ c hc

theorem Record.isPrintable_of_mem {r : Record} (hr : ∀ f ∈ r.fields, f.Fits) :
    ∀ c ∈ r.print, isPrintable c = true := by
  obtain ⟨hfirst, hothers⟩ := List.forall_mem_cons.1 hr
  exact List.forall_mem_append.2
    ⟨List.forall_mem_append.2 ⟨List.all_eq_true.1 (by decide), hfirst.isPrintable_of_mem 4⟩,
    isPrintable_of_mem_printFields hothers⟩

theorem Entry.Fits.isPrintable_of_mem {e : Entry} (he : e.Fits) :
    ∀ c ∈ e.print, isPrintable c = true := by
  cases he with
  | field hf => exact hf.isPrintable_of_mem 2
  | @list name records hname hr =>
    cases records with
    | nil =>
      exact List.forall_mem_append.2 ⟨hname.plain.printable, List.all_eq_true.1 (by decide)⟩
    | cons r records =>
      refine List.forall_mem_append.2 ⟨List.forall_mem_append.2
        ⟨hname.plain.printable, List.all_eq_true.1 (by decide)⟩, fun c hc => ?_⟩
      obtain ⟨r, hmem, hc⟩ := List.mem_flatMap.1 hc
      exact Record.isPrintable_of_mem (hr r hmem) c hc

theorem startOfText_eq {s : List Char} (h : ∀ c ∈ s, isPrintable c = true) :
    startOfText s = ⟨s, 0, 0⟩ := by
  unfold startOfText
  split
  · exact absurd (h _ List.mem_cons_self) (by decide)
  · rfl

/-- **The tokens of a document of records are those of its entries.** -/
theorem tokens_print {entries : List Entry} (he : ∀ e ∈ entries, e.Fits) :
    Yaml.tokens (String.ofList (entries.flatMap Entry.print)) = .ok (documentTokens entries) := by
  have hprintable : ∀ c ∈ entries.flatMap Entry.print, isPrintable c = true := by
    intro c hc
    obtain ⟨e, hmem, hc⟩ := List.mem_flatMap.1 hc
    exact (he e hmem).isPrintable_of_mem c hc
  have hallowed : (entries.flatMap Entry.print).all isAllowed = true :=
    List.all_eq_true.2 fun c hc => isAllowed_of_isPrintable (hprintable c hc)
  rw [Yaml.tokens, String.toList_ofList, if_pos hallowed, unifyBreaks_eq_self hprintable,
    ← Lexer.run_entries he]
  dsimp only
  rw [startOfText_eq hprintable]
  rfl

end CommentTags.Yaml
