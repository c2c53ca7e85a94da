import CommentTags.Proofs.Yaml.Block
import CommentTags.Proofs.Yaml.Plain
import CommentTags.Proofs.Yaml.Quoted
import CommentTags.Yaml.Lexer

/-!
# Cutting a written text into tokens

A text that is written in block style is cut into tokens piece by piece: a key with its colon, a
scalar up to the start of the next line, the dash of an item.

* `ready`, `awaiting` — the two states of the lexer between two pieces: a key may begin, or the
  value of a key is awaited.
* `Reaches` — the lexer comes from one state to another.  How many tokens it reads on its way does
  not matter, since it never reads more tokens than characters.
* `Reaches.of_token` — one token, and what is passed over before the next one.
* `advance_break`, `advance_closes` — the line after a value, and what ends a block.
* `reaches_key` — a key with its colon.
-/

set_option autoImplicit false

namespace CommentTags.Yaml.Lexer

/-! ## States -/

/-- Between pieces of a text, outside flow collections. -/
def between (keyAllowed : Bool) (margins : List Nat) (tokens : List Token) (i : Input) : Lexer where
  input := i
  tokens := tokens
  count := tokens.length
  margins := margins
  keyAllowed := keyAllowed

@[simp]
theorem between_input (keyAllowed : Bool) (margins : List Nat) (tokens : List Token) (i : Input) :
    (between keyAllowed margins tokens i).input = i := rfl

/-- Where a key may begin. -/
abbrev ready : List Nat → List Token → Input → Lexer := between true

/-- After the colon of a key. -/
abbrev awaiting : List Nat → List Token → Input → Lexer := between false

/-- The lexer comes from one state to another, with at most one token for each character. -/
def Reaches (l l' : Lexer) : Prop :=
  ∃ n, n + l'.input.rest.length ≤ l.input.rest.length ∧ ∀ fuel, run (fuel + n) l = run fuel l'

/-- What the lexer passes over before a token does not matter. -/
theorem run_congr {l l' : Lexer} (h : l.advance = l'.advance) (fuel : Nat) :
    run fuel l = run fuel l' := by
  cases fuel with
  | zero => rfl
  | succ fuel => rw [run, run, h]

namespace Reaches

variable {l l' l'' : Lexer}

theorem trans (h : Reaches l l') (h' : Reaches l' l'') : Reaches l l'' := by
  obtain ⟨n, hn, hrun⟩ := h
  obtain ⟨k, hk, hrun'⟩ := h'
  refine ⟨k + n, by omega, fun fuel => ?_⟩
  rw [← Nat.add_assoc, hrun, hrun']

theorem of_advance (h : l.advance = l'.advance)
    (hlen : l'.input.rest.length ≤ l.input.rest.length) : Reaches l l' :=
  ⟨0, by omega, run_congr h⟩

/-- A token is read, and what follows it up to the next token may be passed over or not. -/
theorem of_token {next : Lexer} {c : Char} {r : List Char} (h : l.advance = .ok l')
    (hrest : l'.input.rest = c :: r) (htoken : l'.token c = .ok next)
    (hnext : next.advance = l''.advance)
    (hlen : l''.input.rest.length < l.input.rest.length) : Reaches l l'' := by
  refine ⟨1, by omega, fun fuel => ?_⟩
  rw [run, h]
  simp only [bind, Except.bind, hrest, htoken]
  exact run_congr hnext fuel

end Reaches

/-! ## Moving to the next token -/

/-- A text that begins with a token. -/
def BeginsToken (s : List Char) : Prop := ∀ c ∈ s.head?, isSpacing c = false ∧ c ≠ '#'

theorem BeginsToken.beginsWord {s : List Char} (h : BeginsToken s) : BeginsWord s :=
  fun c hc => (h c hc).1

theorem beginsToken_cons {c : Char} {s : List Char} :
    BeginsToken (c :: s) ↔ isSpacing c = false ∧ c ≠ '#' := by
  simp [BeginsToken]

section

variable (inFlow keyAllowed : Bool) (line column : Nat)

theorem toNextToken_of_beginsToken {s : List Char} (h : BeginsToken s) :
    toNextToken inFlow keyAllowed line column false s = (keyAllowed, ⟨s, line, column⟩) := by
  cases s with
  | nil => rfl
  | cons c s =>
    obtain ⟨hspacing, hcomment⟩ := beginsToken_cons.1 h
    obtain ⟨hblank, hbreak⟩ := Bool.or_eq_false_iff.1 hspacing
    have hblank' : c ≠ ' ' ∧ c ≠ '\t' := by simpa [isBlank] using hblank
    simp [toNextToken, hbreak, hblank', hcomment]

theorem toNextToken_spaces (n : Nat) (s : List Char) :
    toNextToken inFlow keyAllowed line column false (spaces n ++ s) =
      toNextToken inFlow keyAllowed line (column + n) false s := by
  induction n generalizing column with
  | zero => rfl
  | succ n ih =>
    have hspace : isBreak ' ' = false := by decide
    rw [spaces_succ, List.cons_append, toNextToken, ih]
    simp [hspace, Nat.add_assoc, Nat.add_comm 1]

theorem toNextToken_break (s : List Char) :
    toNextToken inFlow keyAllowed line column false ('\n' :: s) =
      toNextToken inFlow (keyAllowed || !inFlow) (line + 1) 0 false s := by
  rw [toNextToken, if_pos (by decide)]

end

theorem closeMargins_eq {margins : List Nat} {column : Nat} (h : margins.headD 0 ≤ column) :
    closeMargins column margins = (0, margins) := by
  cases margins with
  | nil => rfl
  | cons m margins => exact if_neg (Nat.not_lt.2 h)

section

variable (keyAllowed : Bool) (margins : List Nat) (tokens : List Token) (s : List Char)
  (line column : Nat)

/-- Between pieces, moving to the next token ends blocks and nothing else. -/
theorem advance_between (i : Input) :
    (between keyAllowed margins tokens i).advance =
      let next := toNextToken false keyAllowed i.line i.column false i.rest
      let closed := closeMargins (next.2.column + 1) margins
      .ok (between next.1 closed.2 (List.replicate closed.1 .blockEnd ++ tokens) next.2) := by
  simp only [advance, between, dropStaleKeys, giveUpIfStale, closeBlocks, inFlow, bind, Except.bind,
    pure, Except.pure, List.mapM_nil, List.isEmpty_nil, Bool.not_true, Option.any_none, if_false,
    Bool.false_eq_true, List.length_append, List.length_replicate, Nat.add_comm tokens.length]

theorem advance_spaces (n : Nat) :
    (between keyAllowed margins tokens ⟨spaces n ++ s, line, column⟩).advance =
      (between keyAllowed margins tokens ⟨s, line, column + n⟩).advance := by
  simp only [advance_between, toNextToken_spaces]

/-- The line after a value is one where a key may begin. -/
theorem advance_break :
    (between keyAllowed margins tokens ⟨'\n' :: s, line, column⟩).advance =
      (ready margins tokens ⟨s, line + 1, 0⟩).advance := by
  simp only [advance_between, toNextToken_break, Bool.not_false, Bool.or_true]

variable {margins s column}

theorem advance_token (hs : BeginsToken s) (hmargin : margins.headD 0 ≤ column + 1) :
    (between keyAllowed margins tokens ⟨s, line, column⟩).advance =
      .ok (between keyAllowed margins tokens ⟨s, line, column⟩) := by
  simp only [advance_between, toNextToken_of_beginsToken _ _ _ _ hs, closeMargins_eq hmargin]
  rfl

/-- A token to the left of a block ends it. -/
theorem advance_closes {m : Nat} (hs : BeginsToken s) (hmargin : column + 1 < m) :
    (between keyAllowed (m :: margins) tokens ⟨s, line, column⟩).advance =
      (between keyAllowed margins (.blockEnd :: tokens) ⟨s, line, column⟩).advance := by
  simp only [advance_between, toNextToken_of_beginsToken _ _ _ _ hs, closeMargins, if_pos hmargin]
  rw [List.replicate_succ', List.append_assoc]
  rfl

end

/-! ## Keys -/

theorem indicators_subset :
    ∀ c ∈ indicators, c ∈ plainBarriers ∨ c = '?' ∨ c = ':' ∨ c = '-' := by
  have h : (indicators.all fun c => c ∈ plainBarriers ∨ c = '?' ∨ c = ':' ∨ c = '-') = true := by
    decide
  exact fun c hc => of_decide_eq_true (List.all_eq_true.1 h c hc)

/-- The characters that begin other tokens wherever they stand. -/
theorem ne_of_notMem_barriers {c : Char} (h : c ∉ plainBarriers) :
    c ≠ '%' ∧ c ≠ '[' ∧ c ≠ '\x7b' ∧ c ≠ ']' ∧ c ≠ '\x7d' ∧ c ≠ ',' ∧ c ≠ '*' ∧ c ≠ '&' ∧
      c ≠ '!' ∧ c ≠ '|' ∧ c ≠ '>' ∧ c ≠ '\'' ∧ c ≠ '"' := by
  have hne {d : Char} (hd : d ∈ plainBarriers) : c ≠ d := fun hc => h (hc ▸ hd)
  exact ⟨hne (by decide), hne (by decide), hne (by decide), hne (by decide), hne (by decide),
    hne (by decide), hne (by decide), hne (by decide), hne (by decide), hne (by decide),
    hne (by decide), hne (by decide), hne (by decide)⟩

/-- A text that is written plain does not begin with an indicator. -/
theorem beginsPlain_append {c : Char} {s t : List Char} (hs : PlainText (c :: s))
    (hends : c = '?' ∨ c = ':' ∨ c = '-' → endsWord (s ++ t) = false) :
    beginsPlain false (c :: (s ++ t)) = true := by
  have hspacing := hs.isSpacing_head
  by_cases hc : c ∈ indicators
  · have hc' := (indicators_subset c hc).resolve_left hs.beginning_cons.1
    have hblank : (s ++ t).head?.any isBlank = false := by
      have hnot := hends hc'
      generalize s ++ t = r at hnot
      cases r with
      | nil => exact Bool.noConfusion hnot
      | cons d r => exact (Bool.or_eq_false_iff.1 hnot).1
    obtain rfl | rfl | rfl := hc'
    · simp [beginsPlain, hends]
    · simp [beginsPlain, hends]
    · simp only [beginsPlain, hblank]
      rfl
  · simp [beginsPlain, hspacing, hc]

/-- A text that is written plain is read as a plain scalar. -/
theorem token_plain {l : Lexer} {c : Char} {s t : List Char} (hs : PlainText (c :: s))
    (hflow : l.outerKeys = []) (hrest : l.input.rest = c :: (s ++ t))
    (hmark : l.input.atDocumentMark = false) : l.token c = l.plain := by
  obtain ⟨hbarrier, hindicator⟩ := hs.beginning_cons
  have hends : c = '?' ∨ c = ':' ∨ c = '-' → endsWord (s ++ t) = false := by
    intro hc
    cases s with
    | nil => exact absurd (hindicator hc) (by simp [endsWord])
    | cons d s => exact hindicator hc
  have hmaybe {d : Char} (hd : d = '?' ∨ d = ':' ∨ d = '-') :
      (decide (c = d) && endsWord (s ++ t)) = false := by
    by_cases hc : c = d
    · rw [hends (hc ▸ hd), Bool.and_false]
    · rw [decide_eq_false hc, Bool.false_and]
  obtain ⟨hpercent, hbracket, hbrace, hbracket', hbrace', hcomma, hstar, hampersand, hbang, hbar,
    hgreater, hquote, hquotes⟩ := ne_of_notMem_barriers hbarrier
  obtain ⟨hdashes, hdots⟩ := Bool.or_eq_false_iff.1 hmark
  have hflow' : l.inFlow = false := by rw [inFlow, hflow]; rfl
  simp only [token, hrest, hpercent, hbracket, hbrace, hbracket', hbrace', hcomma, hstar, hampersand,
    hbang, hbar, hgreater, hquote, hquotes, hdashes, hdots, hflow', beginsPlain_append hs hends,
    List.drop_succ_cons, List.drop_zero, decide_false, Bool.and_false, Bool.false_or,
    Bool.false_and, Bool.false_eq_true, if_false, if_true, hmaybe (.inl rfl),
    hmaybe (.inr (.inl rfl)), hmaybe (.inr (.inr rfl))]

theorem beginsToken_plain {c : Char} {s t : List Char} (hs : PlainText (c :: s)) :
    BeginsToken (c :: (s ++ t)) :=
  beginsToken_cons.2 ⟨hs.isSpacing_head, fun hc => hs.beginning_cons.1 (hc ▸ by decide)⟩

/-- A word that can be a key in any column. -/
structure KeyName (name : List Char) : Prop where
  plain : PlainText name
  short : name.length ≤ maxKeyLength
  beginning : ∃ c s, name = c :: s ∧ c ≠ '-' ∧ c ≠ '.'

theorem keyName_of_fitsPlain {name : List Char} (hplain : fitsPlain name = true)
    (hshort : name.length ≤ maxKeyLength)
    (hhead : name.head?.any (fun c => c != '-' && c != '.') = true) : KeyName name := by
  refine ⟨plainText_of_fitsPlain hplain, hshort, ?_⟩
  cases name with
  | nil => exact Bool.noConfusion hhead
  | cons c s => exact ⟨c, s, rfl, by simpa using hhead⟩

/-- The key of a mapping in a column is the first one, with which a block begins, or a later one. -/
inductive BlockAt (column : Nat) (margins : List Nat) (tokens : List Token) :
    List Nat → List Token → Prop
  | first : margins.headD 0 ≤ column →
      BlockAt column margins tokens ((column + 1) :: margins) (.blockMappingStart :: tokens)
  | later : margins.headD 0 = column + 1 → BlockAt column margins tokens margins tokens

section

variable {margins margins' : List Nat} {tokens tokens' : List Token} {name : List Char}
  {line column : Nat}

/-- A key that has been read, before its colon. -/
def named (margins : List Nat) (tokens : List Token) (name : List Char) (key : PossibleKey)
    (i : Input) : Lexer :=
  { awaiting margins (.scalar ⟨name, .plain⟩ :: tokens) i with possibleKey := some key }

theorem atDocumentMark_cons {c : Char} {s : List Char} (hdash : c ≠ '-') (hdot : c ≠ '.') :
    Input.atDocumentMark ⟨c :: s, line, column⟩ = false := by
  simp [Input.atDocumentMark, Input.atMark, hdash, hdot]

/-- A key is read as a plain scalar that ends before the colon. -/
theorem plain_key (tokens : List Token) (line : Nat) (hname : KeyName name)
    (hmargin : margins.headD 0 ≤ column + 1) {t : List Char} (ht : endsWord t = true) :
    (ready margins tokens ⟨name ++ ':' :: t, line, column⟩).plain =
      .ok (named margins tokens name ⟨margins.headD 0 == column + 1, tokens.length, line, column⟩
        ⟨':' :: t, line, column + name.length⟩) := by
  have hread : readPlain false (margins.headD 0) ⟨name ++ ':' :: t, line, column⟩ = _ :=
    readPlain_append hname.plain.toPlainWords hname.plain.past hmargin (plainPart_colon ht)
  simp only [plain, saveKey, between, dropKey, giveUp, inFlow, margin, Option.any_none, pure,
    Except.pure, bind, Except.bind, List.isEmpty_nil, Bool.not_true, Bool.false_eq_true, if_true,
    if_false, hread]
  rfl

/-- The colon is not too far from a key that is short enough. -/
theorem advance_named {key : Bool} {column' : Nat} {t : List Char}
    (hmargin : margins.headD 0 ≤ column' + 1) (hshort : column' ≤ column + maxKeyLength) :
    (named margins tokens name ⟨key, tokens.length, line, column⟩
        ⟨':' :: t, line, column'⟩).advance =
      .ok (named margins tokens name ⟨key, tokens.length, line, column⟩
        ⟨':' :: t, line, column'⟩) := by
  have hcolon : BeginsToken (':' :: t) := beginsToken_cons.2 (by decide)
  simp only [advance, named, between, toNextToken_of_beginsToken _ _ _ _ hcolon]
  simp [dropStaleKeys, giveUpIfStale, isStale, Nat.not_lt.2 hshort, closeBlocks, inFlow,
    closeMargins_eq hmargin, bind, Except.bind, pure, Except.pure]

/-- The colon after a key tells that it is one, and begins a block if it is the first one. -/
theorem token_colon (hblock : BlockAt column margins tokens margins' tokens') (key : Bool)
    (column' : Nat) {t : List Char} (ht : endsWord t = true) :
    (named margins tokens name ⟨key, tokens.length, line, column⟩
        ⟨':' :: t, line, column'⟩).token ':' =
      .ok (awaiting margins' (.value :: .scalar ⟨name, .plain⟩ :: .key :: tokens')
        ⟨t, line, column' + 1⟩) := by
  have htoken (l : Lexer) (hrest : l.input.rest = ':' :: t) : l.token ':' = l.value := by
    simp [token, hrest, Input.atMark, ht]
  rw [htoken _ rfl]
  cases hblock with
  | first h =>
    have hopen : ¬ column < margins.headD 0 := Nat.not_lt.2 h
    simp [value, named, between, openBlock, insert, inFlow, margin, push, pushAt, Input.skip, pure,
      Except.pure, hopen, Nat.add_assoc, -List.headD_eq_head?_getD]
  | later h =>
    have hopen : column < margins.headD 0 := by omega
    simp [value, named, between, openBlock, insert, inFlow, margin, push, pushAt, Input.skip, pure,
      Except.pure, hopen, Nat.add_assoc, -List.headD_eq_head?_getD]

/-- **A key with its colon.** -/
theorem reaches_key (hname : KeyName name) (hblock : BlockAt column margins tokens margins' tokens')
    {t : List Char} (ht : endsWord t = true) :
    Reaches (ready margins tokens ⟨name ++ ':' :: t, line, column⟩)
      (awaiting margins' (.value :: .scalar ⟨name, .plain⟩ :: .key :: tokens')
        ⟨t, line, column + name.length + 1⟩) := by
  have hmargin : margins.headD 0 ≤ column + 1 := by
    cases hblock with
    | first h => exact Nat.le_succ_of_le h
    | later h => exact Nat.le_of_eq h
  have hplain := plain_key tokens line hname hmargin ht
  have hshort := hname.short
  obtain ⟨c, s, rfl, hdash, hdot⟩ := hname.beginning
  have htoken : (ready margins tokens ⟨c :: (s ++ ':' :: t), line, column⟩).token c = _ :=
    (token_plain hname.plain rfl rfl (atDocumentMark_cons hdash hdot)).trans hplain
  have hbegins : BeginsToken (c :: (s ++ ':' :: t)) := beginsToken_plain hname.plain
  have hcolon : margins.headD 0 ≤ column + (c :: s).length + 1 := by omega
  refine .trans (.of_token (advance_token true tokens line hbegins hmargin) rfl htoken rfl ?_)
    (.of_token (advance_named hcolon (by omega)) rfl (token_colon hblock _ _ ht) rfl ?_)
  · simp only [named, awaiting, ready, between, List.length_append, List.length_cons]
    omega
  · simp [named]

end

end CommentTags.Yaml.Lexer
