import CommentTags.Json.Reader
import CommentTags.Text.CodeRange
import Mathlib.Data.List.TakeWhile

/-!
# Tokens of a JSON text

A text is a sequence of tokens with gaps between them. Whoever puts tokens and gaps together chooses
what a gap may be: blanks only, or comments too. A text leaves no choice which tokens it is made of
when the gaps are blanks: `Plain.unique`.

* `Token` is a punctuation mark, a string or a word; a word is all that is written without quotes,
  that is a literal or a number.
* `Token.Apart` says that a token ends where its text ends. Only a word can go on.
* `Written gap last ts s` says that `s` is made of the tokens `ts` and of gaps.
-/

set_option autoImplicit false

namespace CommentTags.Json

/-! ## Characters -/

/-- The characters that may stand between tokens. -/
def isBlank (c : Char) : Bool := c == ' ' || c == '\n' || c == '\t' || c == '\r'

/-- The characters of literals and numbers: letters, digits, signs and the point. -/
def wordRanges : List Text.CodeRange :=
  [⟨0x2B, 0x2B⟩, ⟨0x2D, 0x2E⟩, ⟨0x30, 0x39⟩, ⟨0x41, 0x5A⟩, ⟨0x61, 0x7A⟩]

def isWordChar (c : Char) : Bool := Text.inRanges wordRanges c

/-- A text of blanks. -/
def Blank (s : List Char) : Prop := ∀ c ∈ s, isBlank c = true

/-- No word goes on at the start of the text. -/
def Stopped (s : List Char) : Prop := ∀ c ∈ s.head?, isWordChar c = false

theorem isWordChar_eq_false_of_isBlank {c : Char} (h : isBlank c = true) :
    isWordChar c = false := by
  simp only [isBlank, Bool.or_eq_true, beq_iff_eq] at h
  rcases h with ((rfl | rfl) | rfl) | rfl <;> decide

@[simp] theorem blank_nil : Blank [] := by simp [Blank]

@[simp] theorem blank_cons {c : Char} {s : List Char} :
    Blank (c :: s) ↔ isBlank c = true ∧ Blank s := by
  simp [Blank]

theorem Blank.append {s r : List Char} (hs : Blank s) (hr : Blank r) : Blank (s ++ r) := by
  intro c hc
  exact (List.mem_append.mp hc).elim (hs c) (hr c)

theorem Blank.dropWhile_eq_nil {s : List Char} (h : Blank s) : s.dropWhile isBlank = [] :=
  List.dropWhile_eq_nil_iff.mpr h

@[simp] theorem stopped_nil : Stopped [] := by simp [Stopped]

@[simp] theorem stopped_cons {c : Char} {s : List Char} :
    Stopped (c :: s) ↔ isWordChar c = false := by
  simp [Stopped]

theorem Stopped.blank_append {w s : List Char} (hw : Blank w) (hs : Stopped s) :
    Stopped (w ++ s) := by
  cases w with
  | nil => exact hs
  | cons c w => exact stopped_cons.mpr (isWordChar_eq_false_of_isBlank (blank_cons.mp hw).1)

/-! ## Tokens -/

/-- A punctuation mark. -/
inductive Mark
  | beginArray
  | endArray
  | beginObject
  | endObject
  | colon
  | comma
  deriving Repr, DecidableEq

/-- A mark as it is written. -/
def Mark.char : Mark → Char
  | .beginArray => '['
  | .endArray => ']'
  | .beginObject => '\x7b'
  | .endObject => '\x7d'
  | .colon => ':'
  | .comma => ','

/-- Whether a mark ends an array or an object. -/
def Mark.closes : Mark → Bool
  | .endArray => true
  | .endObject => true
  | _ => false

theorem Mark.char_injective : Function.Injective Mark.char := by
  intro m n h
  cases m <;> cases n <;> first | rfl | exact absurd h (by decide)

theorem Mark.isBlank_char (m : Mark) : isBlank m.char = false := by cases m <;> rfl

theorem Mark.isWordChar_char (m : Mark) : isWordChar m.char = false := by cases m <;> rfl

theorem Mark.char_ne_quote (m : Mark) : m.char ≠ '"' := by cases m <;> decide

/-- What may stand between the quotes of a string as far as its end is concerned: a backslash takes
the next character with it. -/
inductive Closed : List Char → Prop
  | nil : Closed []
  | char {c : Char} {s : List Char} : c ≠ '"' → c ≠ '\\' → Closed s → Closed (c :: s)
  | escape {c : Char} {s : List Char} : Closed s → Closed ('\\' :: c :: s)

/-- The smallest parts of a text that mean something. -/
inductive Token
  | mark (m : Mark)
  /-- A string with the given text between its quotes. -/
  | string (body : List Char) (closed : Closed body)
  /-- A literal or a number. -/
  | word (letters : List Char) (nonempty : letters ≠ [])
    (wordChars : ∀ c ∈ letters, isWordChar c = true)

namespace Token

/-- A token as it is written. -/
def text : Token → List Char
  | .mark m => [m.char]
  | .string body _ => '"' :: (body ++ ['"'])
  | .word letters _ _ => letters

/-- The token ends before the given text. -/
def Apart : Token → List Char → Prop
  | .word _ _ _, s => Stopped s
  | _, _ => True

/-- Whether the token ends an array or an object. -/
def closes : Token → Bool
  | .mark m => m.closes
  | _ => false

/-- Whether the token is a comma. -/
def isComma : Token → Bool
  | .mark .comma => true
  | _ => false

theorem apart_of_stopped (t : Token) {s : List Char} (h : Stopped s) : t.Apart s := by
  cases t with
  | word letters nonempty wordChars => exact h
  | _ => trivial

theorem Apart.imp {t : Token} {s r : List Char} (h : t.Apart s) (hr : Stopped s → Stopped r) :
    t.Apart r := by
  cases t with
  | word letters nonempty wordChars => exact hr h
  | _ => trivial

/-- A token starts with a character that is not blank. -/
theorem exists_text_eq_cons (t : Token) : ∃ c s, t.text = c :: s ∧ isBlank c = false := by
  cases t with
  | mark m => exact ⟨m.char, [], rfl, m.isBlank_char⟩
  | string body closed => exact ⟨'"', body ++ ['"'], rfl, rfl⟩
  | word letters nonempty wordChars =>
    obtain ⟨c, s, rfl⟩ := List.exists_cons_of_ne_nil nonempty
    refine ⟨c, s, rfl, Bool.eq_false_iff.mpr fun hblank => ?_⟩
    have hc := isWordChar_eq_false_of_isBlank hblank
    rw [wordChars c List.mem_cons_self] at hc
    exact absurd hc (by decide)

theorem ne_of_text_eq_cons {t : Token} {m : Mark} {c : Char} {s : List Char} (hm : m.closes = true)
    (ht : t.closes = false) (h : t.text = c :: s) : c ≠ m.char := by
  rintro rfl
  cases t with
  | mark n =>
    rw [Mark.char_injective (List.cons.inj h).1, closes, hm] at ht
    exact absurd ht (by decide)
  | string body closed => exact absurd (List.cons.inj h).1.symm m.char_ne_quote
  | word letters nonempty wordChars =>
    have hc := wordChars m.char (by rw [show letters = _ from h]; exact List.mem_cons_self)
    rw [m.isWordChar_char] at hc
    exact absurd hc (by decide)

theorem dropWhile_text_append (t : Token) (s : List Char) :
    (t.text ++ s).dropWhile isBlank = t.text ++ s := by
  obtain ⟨c, r, htext, hc⟩ := t.exists_text_eq_cons
  simp [htext, hc]

end Token

/-! ## Where a token ends -/

/-- A string ends at the first quote that is not escaped. -/
theorem Closed.append_quote_inj {a b s r : List Char} (ha : Closed a) (hb : Closed b)
    (h : a ++ '"' :: s = b ++ '"' :: r) : a = b ∧ s = r := by
  induction ha generalizing b with
  | nil =>
    cases hb with
    | nil => simpa using h
    | char hc _ _ => exact absurd (List.cons.inj h).1.symm hc
    | escape => simp at h
  | char hc hslash _ ih =>
    cases hb with
    | nil => exact absurd (List.cons.inj h).1 hc
    | char _ _ hb =>
      obtain ⟨hhead, htail⟩ := List.cons.inj h
      simpa [hhead] using ih hb htail
    | escape => exact absurd (List.cons.inj h).1 hslash
  | escape _ ih =>
    cases hb with
    | nil => simp at h
    | char _ hslash _ => exact absurd (List.cons.inj h).1.symm hslash
    | escape hb =>
      obtain ⟨hhead, htail⟩ := List.cons.inj (List.cons.inj h).2
      simpa [hhead] using ih hb htail

theorem takeWhile_append_of_stopped {n s : List Char} (hn : ∀ c ∈ n, isWordChar c = true)
    (hs : Stopped s) : (n ++ s).takeWhile isWordChar = n := by
  rw [List.takeWhile_append_of_pos hn]
  cases s with
  | nil => simp
  | cons c s => simp [stopped_cons.mp hs]

/-- A word ends where the characters of words end. -/
theorem word_append_inj {m n s r : List Char} (hm : ∀ c ∈ m, isWordChar c = true)
    (hn : ∀ c ∈ n, isWordChar c = true) (hs : Stopped s) (hr : Stopped r) (h : m ++ s = n ++ r) :
    m = n ∧ s = r := by
  have hmn : m = n := by
    rw [← takeWhile_append_of_stopped hm hs, h, takeWhile_append_of_stopped hn hr]
  exact ⟨hmn, by simpa [hmn] using h⟩

/-- A text that starts with a token leaves no choice which one it is. -/
theorem Token.text_append_inj {t u : Token} {s r : List Char} (ht : t.Apart s) (hu : u.Apart r)
    (h : t.text ++ s = u.text ++ r) : t = u ∧ s = r := by
  have hword : ∀ {l : List Char} {c : Char}, l ≠ [] → (∀ a ∈ l, isWordChar a = true) →
      isWordChar c = false → ∀ x y, l ++ x ≠ c :: y := by
    intro l c hl hall hc x y hxy
    obtain ⟨a, l, rfl⟩ := List.exists_cons_of_ne_nil hl
    rw [← (List.cons.inj hxy).1, hall a List.mem_cons_self] at hc
    exact absurd hc (by decide)
  cases t with
  | mark m =>
    cases u with
    | mark n =>
      obtain ⟨hc, rfl⟩ := List.cons.inj h
      exact ⟨by rw [Mark.char_injective hc], rfl⟩
    | string body closed => exact absurd (List.cons.inj h).1 m.char_ne_quote
    | word letters nonempty wordChars =>
      exact absurd h.symm (hword nonempty wordChars m.isWordChar_char _ _)
  | string body closed =>
    cases u with
    | mark n => exact absurd (List.cons.inj h).1.symm n.char_ne_quote
    | string other closed' =>
      have hbody : body ++ '"' :: s = other ++ '"' :: r := by simpa [Token.text] using h
      obtain ⟨rfl, rfl⟩ := closed.append_quote_inj closed' hbody
      exact ⟨rfl, rfl⟩
    | word letters nonempty wordChars =>
      exact absurd h.symm (hword nonempty wordChars (by decide) _ _)
  | word letters nonempty wordChars =>
    cases u with
    | mark n => exact absurd h (hword nonempty wordChars n.isWordChar_char _ _)
    | string other closed => exact absurd h (hword nonempty wordChars (by decide) _ _)
    | word other nonempty' wordChars' =>
      obtain ⟨rfl, rfl⟩ := word_append_inj wordChars wordChars' ht hu h
      exact ⟨rfl, rfl⟩

/-! ## Texts made of tokens -/

/-- A text is made of the given tokens, with a gap before each of them and a last gap after them. -/
inductive Written (gap last : List Char → Prop) : List Token → List Char → Prop
  | last {w : List Char} : last w → Written gap last [] w
  | cons {w s : List Char} {t : Token} {ts : List Token} :
      gap w → t.Apart s → Written gap last ts s → Written gap last (t :: ts) (w ++ (t.text ++ s))

/-- A text of tokens with nothing but blanks between them. -/
abbrev Plain : List Token → List Char → Prop := Written Blank Blank

namespace Plain

variable {ts us : List Token} {t : Token} {s r w : List Char}

@[simp] theorem nil_iff : Plain [] s ↔ Blank s :=
  ⟨fun h => by cases h; assumption, .last⟩

theorem cons_iff : Plain (t :: ts) s ↔
    ∃ w r, s = w ++ (t.text ++ r) ∧ Blank w ∧ t.Apart r ∧ Plain ts r := by
  constructor
  · rintro ⟨⟩
    exact ⟨_, _, rfl, ‹_›, ‹_›, ‹_›⟩
  · rintro ⟨w, r, rfl, hw, ht, hr⟩
    exact .cons hw ht hr

/-- A token in front, without a gap. -/
theorem token (ht : t.Apart s) (h : Plain ts s) : Plain (t :: ts) (t.text ++ s) :=
  .cons blank_nil ht h

/-- A mark in front, without a gap. -/
theorem mark (m : Mark) (h : Plain ts s) : Plain (.mark m :: ts) (m.char :: s) :=
  token (t := .mark m) trivial h

theorem blank_append (hw : Blank w) (h : Plain ts s) : Plain ts (w ++ s) := by
  cases h with
  | last hs => exact .last (hw.append hs)
  | cons hg ht hs =>
    rw [← List.append_assoc]
    exact .cons (hw.append hg) ht hs

/-- The blanks at the start do not count. -/
theorem dropWhile_iff : Plain ts (s.dropWhile isBlank) ↔ Plain ts s := by
  constructor
  · intro h
    rw [← List.takeWhile_append_dropWhile (p := isBlank) (l := s)]
    exact blank_append (fun c hc => List.mem_takeWhile_imp hc) h
  · rintro (hs | ⟨hg, ht, hs⟩)
    · rw [Blank.dropWhile_eq_nil hs]
      exact .last blank_nil
    · rw [List.dropWhile_append_of_pos hg, Token.dropWhile_text_append]
      exact token ht hs

/-- Without the blanks at its start, a text starts with its first token. -/
theorem dropWhile_cons_iff : Plain (t :: ts) s ↔
    ∃ r, s.dropWhile isBlank = t.text ++ r ∧ t.Apart r ∧ Plain ts r := by
  constructor
  · rintro ⟨⟩
    rename_i w r hg ht hr
    exact ⟨r, by rw [List.dropWhile_append_of_pos hg, Token.dropWhile_text_append], ht, hr⟩
  · rintro ⟨r, hs, ht, hr⟩
    exact dropWhile_iff.mp (hs ▸ token ht hr)

/-- **The tokens of a text with nothing but blanks between them are determined.** -/
theorem unique (h : Plain ts s) (h' : Plain us s) : ts = us := by
  induction ts generalizing us s with
  | nil =>
    cases us with
    | nil => rfl
    | cons u us =>
      obtain ⟨r, hs, -, -⟩ := dropWhile_cons_iff.mp h'
      obtain ⟨c, x, htext, -⟩ := u.exists_text_eq_cons
      rw [(nil_iff.mp h).dropWhile_eq_nil, htext] at hs
      exact absurd hs (by simp)
  | cons t ts ih =>
    obtain ⟨r, hs, ht, hr⟩ := dropWhile_cons_iff.mp h
    cases us with
    | nil =>
      obtain ⟨c, x, htext, -⟩ := t.exists_text_eq_cons
      rw [(nil_iff.mp h').dropWhile_eq_nil, htext] at hs
      exact absurd hs (by simp)
    | cons u us =>
      obtain ⟨r', hs', hu, hr'⟩ := dropWhile_cons_iff.mp h'
      obtain ⟨rfl, rfl⟩ := Token.text_append_inj ht hu (hs ▸ hs')
      rw [ih hr hr']

end Plain

end CommentTags.Json
