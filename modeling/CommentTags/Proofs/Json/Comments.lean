import CommentTags.Json.Commented
import CommentTags.Proofs.Json.Reading

/-!
# JSON with comments

A text may have comments between its tokens, and a comma after the last item of an array or an
object.  They are taken out in two passes, first the comments and then the commas, and what is left
is read.  What is put in between the tokens of a text that can be read makes no difference.

* `Gap`, `LastGap` — blanks and comments between two tokens, and after the last one.
* `Extends` — a sequence of tokens with commas after some last items; `Loosened` puts both together.
* `Written.dropComments` — taking the comments out leaves the tokens with blanks between them.
* `Plain.dropLastCommas` — taking the commas out leaves the tokens without commas before an end.
* `parse_withoutComments` — so a loosened text is read as the text that it was made from.

A string is passed over as a whole by both passes (`Closed.dropComments_append`,
`Token.dropLastCommas_append`); what looks like a comment or a comma inside it stays.
-/

set_option autoImplicit false

namespace CommentTags.Json

/-! ## What may be put in -/

/-- Blanks and comments between two tokens. -/
inductive Gap : List Char → Prop
  | nil : Gap []
  | blank {c : Char} {w : List Char} : isBlank c = true → Gap w → Gap (c :: w)
  /-- A comment between two delimiters. Its text may be anything without the closing one. -/
  | block {body w : List Char} :
      ¬ ['*', '/'] <:+: body → Gap w → Gap ('/' :: '*' :: (body ++ '*' :: '/' :: w))
  /-- A comment to the end of the line. -/
  | line {body w : List Char} :
      '\n' ∉ body → Gap w → Gap ('/' :: '/' :: (body ++ '\n' :: w))

/-- Blanks and comments after the last token, where the last line may be a comment without a line
feed. -/
inductive LastGap : List Char → Prop
  | gap {w : List Char} : Gap w → LastGap w
  | line {w body : List Char} : Gap w → '\n' ∉ body → LastGap (w ++ '/' :: '/' :: body)

/-- Whether an item of an array or a field of an object may end with the token. -/
def Token.endsItem : Token → Bool
  | .mark m => m.closes
  | _ => true

/-- The second sequence is the first one with commas after some last items. -/
inductive Extends : List Token → List Token → Prop
  | nil : Extends [] []
  | token {t : Token} {ts us : List Token} : Extends ts us → Extends (t :: ts) (t :: us)
  | comma {t : Token} {m : Mark} {ts us : List Token} :
      t.endsItem = true → m.closes = true → Extends (.mark m :: ts) us →
      Extends (t :: .mark m :: ts) (t :: .mark .comma :: us)

/-- The second text has the tokens of the first one, which has nothing but blanks between them. It
may have comments and other blanks between its tokens, and commas after last items. -/
def Loosened (s r : List Char) : Prop :=
  ∃ ts us, Plain ts s ∧ Extends ts us ∧ Written Gap LastGap us r

/-! ## Taking comments out -/

attribute [simp] dropComments

theorem dropComments_cons {c : Char} {s : List Char} (hslash : c ≠ '/') (hquote : c ≠ '"') :
    dropComments .plain (c :: s) = c :: dropComments .plain s := by
  simp [hslash, hquote]

theorem dropComments_append {n s : List Char} (hn : ∀ c ∈ n, c ≠ '/' ∧ c ≠ '"') :
    dropComments .plain (n ++ s) = n ++ dropComments .plain s := by
  induction n with
  | nil => rfl
  | cons c n ih =>
    obtain ⟨⟨hslash, hquote⟩, hn⟩ := List.forall_mem_cons.mp hn
    rw [List.cons_append, dropComments_cons hslash hquote, ih hn, List.cons_append]

/-- What stands inside a string is kept as it is. -/
theorem Closed.dropComments_inString {body : List Char} (h : Closed body) (s : List Char) :
    dropComments .inString (body ++ s) = body ++ dropComments .inString s := by
  induction h with
  | nil => rfl
  | char hquote hslash _ ih => simp [hquote, hslash, ih]
  | escape _ ih => simp [ih]

/-- A string is kept as it is. -/
theorem Closed.dropComments_append {body s : List Char} (h : Closed body) :
    dropComments .inString (body ++ '"' :: s) = body ++ '"' :: dropComments .plain s := by
  rw [h.dropComments_inString]
  simp

/-- A comment to the end of the line is left out. -/
theorem dropComments_lineComment {body s : List Char} (h : '\n' ∉ body) :
    dropComments .lineComment (body ++ s) = dropComments .lineComment s := by
  induction body with
  | nil => rfl
  | cons c body ih =>
    simp only [List.mem_cons, not_or] at h
    simp [Ne.symm h.1, ih h.2]

/-- A comment between two delimiters goes on behind a character that does not close it. -/
theorem dropComments_blockComment_cons {c : Char} {body : List Char} {starred : Bool}
    (h : ¬ ['*', '/'] <:+: c :: body) (hstar : starred = true → (c :: body).head? ≠ some '/') :
    (∀ s, dropComments (.blockComment starred) (c :: s) =
      dropComments (.blockComment (c = '*')) s) ∧
    ¬ ['*', '/'] <:+: body ∧ (decide (c = '*') = true → body.head? ≠ some '/') := by
  have hslash : (starred && decide (c = '/')) = false := by
    cases starred with
    | false => rfl
    | true => simpa using hstar rfl
  refine ⟨fun s => by rw [dropComments, hslash, if_neg (by decide)],
    fun hin => h (hin.trans (List.suffix_cons c body).isInfix), fun hc hhead => ?_⟩
  obtain ⟨r, rfl⟩ := List.head?_eq_some_iff.mp hhead
  obtain rfl : c = '*' := by simpa using hc
  exact h ⟨[], r, rfl⟩

/-- A comment between two delimiters becomes a space. After a star its text does not begin with a
slash. -/
theorem dropComments_blockComment {body s : List Char} {starred : Bool}
    (h : ¬ ['*', '/'] <:+: body) (hstar : starred = true → body.head? ≠ some '/') :
    dropComments (.blockComment starred) (body ++ '*' :: '/' :: s) =
      ' ' :: dropComments .plain s := by
  induction body generalizing starred with
  | nil => simp
  | cons c body ih =>
    obtain ⟨hdrop, hbody, hstar⟩ := dropComments_blockComment_cons h hstar
    rw [List.cons_append, hdrop]
    exact ih hbody hstar

/-- A comment that the end of the text cuts off becomes a space as well. -/
theorem dropComments_openBlock {body : List Char} {starred : Bool} (h : ¬ ['*', '/'] <:+: body)
    (hstar : starred = true → body.head? ≠ some '/') :
    dropComments (.blockComment starred) body = [' '] := by
  induction body generalizing starred with
  | nil => rfl
  | cons c body ih =>
    obtain ⟨hdrop, hbody, hstar⟩ := dropComments_blockComment_cons h hstar
    rw [hdrop]
    exact ih hbody hstar

theorem Token.dropComments_append (t : Token) (s : List Char) :
    dropComments .plain (t.text ++ s) = t.text ++ dropComments .plain s := by
  cases t with
  | mark m => cases m <;> exact dropComments_cons (by decide) (by decide)
  | string body closed =>
    have h := closed.dropComments_append (s := s)
    simpa [Token.text] using h
  | word letters nonempty wordChars =>
    refine Json.dropComments_append fun c hc => ?_
    have hword := wordChars c hc
    constructor <;> rintro rfl <;> exact absurd hword (by decide)

/-- A gap leaves blanks. -/
theorem Gap.dropComments_append {w : List Char} (h : Gap w) :
    ∃ g, Blank g ∧ ∀ s, dropComments .plain (w ++ s) = g ++ dropComments .plain s := by
  induction h with
  | nil => exact ⟨[], blank_nil, fun s => rfl⟩
  | @blank c w hc _ ih =>
    obtain ⟨g, hg, ih⟩ := ih
    refine ⟨c :: g, blank_cons.mpr ⟨hc, hg⟩, fun s => ?_⟩
    rw [List.cons_append, dropComments_cons, ih, List.cons_append] <;>
      rintro rfl <;> exact absurd hc (by decide)
  | block hbody _ ih =>
    obtain ⟨g, hg, ih⟩ := ih
    refine ⟨' ' :: g, blank_cons.mpr ⟨rfl, hg⟩, fun s => ?_⟩
    simp [dropComments_blockComment hbody, ih]
  | line hbody _ ih =>
    obtain ⟨g, hg, ih⟩ := ih
    refine ⟨'\n' :: g, blank_cons.mpr ⟨rfl, hg⟩, fun s => ?_⟩
    simp [dropComments_lineComment hbody, ih]

theorem LastGap.blank_dropComments {w : List Char} (h : LastGap w) :
    Blank (dropComments .plain w) := by
  cases h with
  | gap hw =>
    obtain ⟨g, hg, hdrop⟩ := hw.dropComments_append
    have hnil := hdrop []
    rw [List.append_nil, dropComments, List.append_nil] at hnil
    · exact hnil ▸ hg
    · simp
  | @line w body hw hbody =>
    obtain ⟨g, hg, hdrop⟩ := hw.dropComments_append
    have hnil := dropComments_lineComment (s := []) hbody
    rw [List.append_nil] at hnil
    rw [hdrop]
    simpa [hnil] using hg

/-- What is left of a text in which no word goes on begins in the same way. -/
theorem Stopped.dropComments {s : List Char} (h : Stopped s) : Stopped (dropComments .plain s) := by
  have hline : ∀ r, Stopped (Json.dropComments .lineComment r) := by
    intro r
    induction r with
    | nil => exact stopped_nil
    | cons c r ih =>
      rw [Json.dropComments]
      split
      · exact stopped_cons.mpr (by decide)
      · exact ih
  have hblock : ∀ r starred, Stopped (Json.dropComments (.blockComment starred) r) := by
    intro r
    induction r with
    | nil => exact fun starred => stopped_cons.mpr (by decide)
    | cons c r ih =>
      intro starred
      rw [Json.dropComments]
      split
      · exact stopped_cons.mpr (by decide)
      · exact ih _
  rw [Json.dropComments.eq_def]
  split
  case h_3 r _ => exact hline r
  case h_4 r _ => exact hblock r false
  all_goals simp_all

/-- **Taking the comments out leaves the tokens with blanks between them.** -/
theorem Written.dropComments {ts : List Token} {s : List Char} (h : Written Gap LastGap ts s) :
    Plain ts (dropComments .plain s) := by
  induction h with
  | last hw => exact .last hw.blank_dropComments
  | cons hw ht _ ih =>
    obtain ⟨g, hg, hdrop⟩ := hw.dropComments_append
    rw [hdrop, Token.dropComments_append]
    exact .cons hg (ht.imp Stopped.dropComments) ih

/-! ## Taking commas out -/

attribute [simp] dropLastCommas

theorem isWhite_of_isBlank {c : Char} (h : isBlank c = true) : Text.isWhite c = true := by
  simp only [isBlank, Bool.or_eq_true, beq_iff_eq] at h
  obtain ((rfl | rfl) | rfl) | rfl := h <;> decide

theorem isWhite_eq_false_of_isWordChar {c : Char} (h : isWordChar c = true) :
    Text.isWhite c = false := by
  have hapart : ∀ r ∈ wordRanges, ∀ w ∈ Text.whiteRanges, w.last < r.first ∨ r.last < w.first := by
    decide
  obtain ⟨r, hr, hc⟩ := List.any_eq_true.mp h
  rw [Text.isWhite, Text.inRanges, List.any_eq_false]
  intro w hw
  have := hapart r hr w hw
  simp only [Text.CodeRange.contains, Bool.and_eq_true, decide_eq_true_eq] at hc ⊢
  omega

theorem Token.exists_text_eq_cons_not_white (t : Token) :
    ∃ c s, t.text = c :: s ∧ Text.isWhite c = false := by
  cases t with
  | mark m => exact ⟨m.char, [], rfl, by cases m <;> decide⟩
  | string body closed => exact ⟨'"', body ++ ['"'], rfl, by decide⟩
  | word letters nonempty wordChars =>
    obtain ⟨c, s, rfl⟩ := List.exists_cons_of_ne_nil nonempty
    exact ⟨c, s, rfl, isWhite_eq_false_of_isWordChar (wordChars c List.mem_cons_self)⟩

theorem closesNext_eq_head? (s : List Char) :
    closesNext s = (Text.trimStart s).head?.any fun c => c = ']' || c = '\x7d' := by
  unfold closesNext
  split
  · simp [*]
  · simp [*]
  · cases h : Text.trimStart s <;> simp_all

theorem Token.head?_text_any (t : Token) (s : List Char) :
    ((t.text ++ s).head?.any fun c => c = ']' || c = '\x7d') = t.closes := by
  cases t with
  | mark m => cases m <;> rfl
  | string body closed => rfl
  | word letters nonempty wordChars =>
    obtain ⟨c, r, rfl⟩ := List.exists_cons_of_ne_nil nonempty
    have hc := wordChars c List.mem_cons_self
    simp only [text, closes, List.cons_append, List.head?_cons, Option.any_some,
      Bool.or_eq_false_iff, decide_eq_false_iff_not]
    constructor <;> rintro rfl <;> exact absurd hc (by decide)

/-- An array or an object ends next in the text if it ends next in its tokens. -/
theorem Plain.closesNext_eq {ts : List Token} {s : List Char} (h : Plain ts s) :
    closesNext s = endsNext ts := by
  have hblank : ∀ {w : List Char}, Blank w → ∀ c ∈ w, Text.isWhite c = true :=
    fun hw c hc => isWhite_of_isBlank (hw c hc)
  rw [closesNext_eq_head?, Text.trimStart]
  cases h with
  | last hw => simp [List.dropWhile_eq_nil_iff.mpr (hblank hw), endsNext]
  | @cons w r t ts hw ht hr =>
    obtain ⟨c, x, htext, hc⟩ := t.exists_text_eq_cons_not_white
    have hdrop : (t.text ++ r).dropWhile Text.isWhite = t.text ++ r := by simp [htext, hc]
    rw [List.dropWhile_append_of_pos (hblank hw), hdrop, t.head?_text_any, endsNext_cons]

theorem dropLastCommas_cons {c : Char} {s : List Char} (hcomma : c ≠ ',') (hquote : c ≠ '"') :
    dropLastCommas .plain (c :: s) = c :: dropLastCommas .plain s := by
  simp [hcomma, hquote]

theorem dropLastCommas_append {n s : List Char} (hn : ∀ c ∈ n, c ≠ ',' ∧ c ≠ '"') :
    dropLastCommas .plain (n ++ s) = n ++ dropLastCommas .plain s := by
  induction n with
  | nil => rfl
  | cons c n ih =>
    obtain ⟨⟨hcomma, hquote⟩, hn⟩ := List.forall_mem_cons.mp hn
    rw [List.cons_append, dropLastCommas_cons hcomma hquote, ih hn, List.cons_append]

theorem Blank.dropLastCommas_append {w : List Char} (h : Blank w) (s : List Char) :
    dropLastCommas .plain (w ++ s) = w ++ dropLastCommas .plain s := by
  refine Json.dropLastCommas_append fun c hc => ?_
  have hblank := h c hc
  constructor <;> rintro rfl <;> exact absurd hblank (by decide)

theorem Closed.dropLastCommas_inString {body : List Char} (h : Closed body) (s : List Char) :
    dropLastCommas .inString (body ++ s) = body ++ dropLastCommas .inString s := by
  induction h with
  | nil => rfl
  | char hquote hslash _ ih => simp [hquote, hslash, ih]
  | escape _ ih => simp [ih]

theorem Closed.dropLastCommas_append {body s : List Char} (h : Closed body) :
    dropLastCommas .inString (body ++ '"' :: s) = body ++ '"' :: dropLastCommas .plain s := by
  rw [h.dropLastCommas_inString]
  simp

/-- A token that is not a comma is kept as it is. -/
theorem Token.dropLastCommas_append {t : Token} (ht : t.isComma = false) (s : List Char) :
    dropLastCommas .plain (t.text ++ s) = t.text ++ dropLastCommas .plain s := by
  cases t with
  | mark m =>
    cases m with
    | comma => exact absurd ht (by decide)
    | _ => exact dropLastCommas_cons (by decide) (by decide)
  | string body closed =>
    have h := closed.dropLastCommas_append (s := s)
    simpa [Token.text] using h
  | word letters nonempty wordChars =>
    refine Json.dropLastCommas_append fun c hc => ?_
    have hword := wordChars c hc
    constructor <;> rintro rfl <;> exact absurd hword (by decide)

/-- Before the end of an array or an object, a text begins with white space or with the end. -/
theorem exists_cons_of_closesNext {s : List Char} (h : closesNext s = true) :
    ∃ c r, s = c :: r ∧ c ≠ ',' ∧ c ≠ '"' ∧ isWordChar c = false := by
  rw [closesNext_eq_head?, Text.trimStart] at h
  cases s with
  | nil => exact absurd h (by decide)
  | cons c r =>
    refine ⟨c, r, rfl, ?_⟩
    rw [List.dropWhile_cons] at h
    split at h
    · rename_i hwhite
      refine ⟨?_, ?_, Bool.eq_false_iff.mpr fun hword => ?_⟩
      · rintro rfl
        exact absurd hwhite (by decide)
      · rintro rfl
        exact absurd hwhite (by decide)
      · rw [isWhite_eq_false_of_isWordChar hword] at hwhite
        exact absurd hwhite (by decide)
    · simp only [List.head?_cons, Option.any_some, Bool.or_eq_true, decide_eq_true_eq] at h
      obtain rfl | rfl := h <;> decide

theorem Stopped.dropLastCommas {s : List Char} (h : Stopped s) :
    Stopped (dropLastCommas .plain s) := by
  cases s with
  | nil => exact stopped_nil
  | cons c s =>
    rw [Json.dropLastCommas]
    split
    · rename_i hdrop
      obtain ⟨-, hclose⟩ := (Bool.and_eq_true ..).mp hdrop
      obtain ⟨d, r, rfl, hcomma, hquote, hd⟩ := exists_cons_of_closesNext hclose
      rw [dropLastCommas_cons hcomma hquote]
      exact stopped_cons.mpr hd
    · exact stopped_cons.mpr (stopped_cons.mp h)

/-- **Taking the commas out leaves the tokens without commas before an end.** -/
theorem Plain.dropLastCommas {ts : List Token} {s : List Char} (h : Plain ts s) :
    Plain (dropTrailing ts) (dropLastCommas .plain s) := by
  induction h with
  | @last w hw =>
    have hkeep := hw.dropLastCommas_append []
    rw [List.append_nil] at hkeep
    rw [hkeep]
    simpa [dropTrailing] using hw
  | @cons w s t ts hw ht hs ih =>
    rw [hw.dropLastCommas_append]
    refine Plain.blank_append hw ?_
    cases hcomma : t.isComma with
    | false =>
      rw [Token.dropLastCommas_append hcomma, dropTrailing_cons hcomma]
      exact Plain.token (ht.imp Stopped.dropLastCommas) ih
    | true =>
      obtain rfl : t = .mark .comma := by
        unfold Token.isComma at hcomma
        split at hcomma <;> simp_all
      rw [dropTrailing, ← Plain.closesNext_eq hs]
      change Plain _ (Json.dropLastCommas .plain (',' :: s))
      rw [Json.dropLastCommas]
      cases hclose : closesNext s with
      | true => simpa [Token.isComma] using ih
      | false => exact Plain.mark .comma ih

/-! ## Reading what is left -/

theorem Extends.head?_eq {ts us : List Token} (h : Extends ts us) : us.head? = ts.head? := by
  cases h <;> rfl

theorem Extends.dropTrailing_eq {ts us : List Token} (h : Extends ts us) :
    dropTrailing us = dropTrailing ts := by
  induction h with
  | nil => rfl
  | token h ih => rw [dropTrailing, dropTrailing, ih, endsNext, endsNext, h.head?_eq]
  | @comma t m ts us ht hm h ih =>
    have htcomma : t.isComma = false := by
      unfold Token.isComma
      split
      · exact absurd ht (by decide)
      · rfl
    have hends : endsNext us = true := by
      rw [endsNext, h.head?_eq]
      exact hm
    rw [dropTrailing_cons htcomma, dropTrailing_cons htcomma, ← ih]
    simp [dropTrailing, Token.isComma, hends]

theorem Extends.refl (ts : List Token) : Extends ts ts := by
  induction ts with
  | nil => exact .nil
  | cons t ts ih => exact .token ih

theorem Blank.gap {w : List Char} (h : Blank w) : Gap w := by
  induction w with
  | nil => exact .nil
  | cons c w ih => exact .blank (blank_cons.mp h).1 (ih (blank_cons.mp h).2)

theorem Plain.written {ts : List Token} {s : List Char} (h : Plain ts s) :
    Written Gap LastGap ts s := by
  induction h with
  | last hw => exact .last (.gap hw.gap)
  | cons hw ht _ ih => exact .cons hw.gap ht ih

theorem Plain.loosened {ts : List Token} {s : List Char} (h : Plain ts s) : Loosened s s :=
  ⟨ts, ts, h, .refl ts, h.written⟩

/-- **Comments, white space and commas after last items make no difference** to a text that is
read without them. -/
theorem parse_withoutComments {text other : String} {v : Json} (hv : parse text = .ok v)
    (h : Loosened text.toList other.toList) : parse (withoutComments other) = .ok v := by
  obtain ⟨ts, hts, hplain⟩ := parse_eq_ok_iff.mp hv
  obtain ⟨ts', us, hplain', hextends, hwritten⟩ := h
  obtain rfl : ts = ts' := hplain.unique hplain'
  have hleft := hwritten.dropComments.dropLastCommas
  rw [hextends.dropTrailing_eq, hts.dropTrailing_eq] at hleft
  refine parse_eq_ok_iff.mpr ⟨ts, hts, ?_⟩
  rwa [withoutComments, String.toList_ofList]

end CommentTags.Json
