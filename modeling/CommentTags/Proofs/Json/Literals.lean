import CommentTags.Proofs.Json.Comments

/-!
# String literals in a text with comments

A text need not be JSON to have its comments taken out.  Whatever it is, it is made of string
literals, comments and other characters in one way only, where the end of the text may cut off the
last literal or comment.

Taking out comments and commas goes segment by segment: a comment between delimiters becomes a
space, and a comment to the end of the line vanishes, as does a comma before a closing bracket.  So
the literals outside comments are left as they are, and no comment comes about where something was
taken out.

* `Literal`, `Comment`, `Segment`, `Segments` — the segments of a text.  `Segment.Before` says where
  a segment ends; it is what makes the cut unique.
* `Segments.existsUnique` — every text is made of segments in exactly one way.
* `Segments.dropComments`, `Segments.dropLastCommas` — the two passes, segment by segment, and
  `Segments.withoutComments` for both of them.
* `withoutComments_eq_self` — a text in which there is nothing to take out stays as it is.
* `withoutComments_literals` — the literals are unchanged and in order, and no comment and no comma
  before a closing bracket is left outside them.
-/

set_option autoImplicit false

namespace CommentTags.Json

/-! ## Segments of a text -/

/-- What a string literal ends in, with the text behind it. -/
inductive EndsLiteral : List Char → List Char → Prop
  | quote (rest : List Char) : EndsLiteral ['"'] rest
  /-- The text ends inside the literal. -/
  | endOfText : EndsLiteral [] []
  /-- The text ends inside the literal, after a backslash. -/
  | backslash : EndsLiteral ['\\'] []

/-- A string literal with the text behind it. -/
inductive Literal : List Char → List Char → Prop
  | mk {body stop rest : List Char} : Closed body → EndsLiteral stop rest →
      Literal ('"' :: (body ++ stop)) rest

/-- A comment with the text behind it. -/
inductive Comment : List Char → List Char → Prop
  /-- Up to the end of the line, or of the text. -/
  | line {body rest : List Char} : '\n' ∉ body → (∀ c ∈ rest.head?, c = '\n') →
      Comment ('/' :: '/' :: body) rest
  | block {body rest : List Char} : ¬['*', '/'] <:+: body →
      Comment ('/' :: '*' :: (body ++ ['*', '/'])) rest
  /-- The text ends inside the comment. -/
  | openBlock {body : List Char} : ¬['*', '/'] <:+: body → Comment ('/' :: '*' :: body) []

/-- A comment begins here, if no string literal is open. -/
def OpensComment (s : List Char) : Prop :=
  ['/', '/'] <+: s ∨ ['/', '*'] <+: s

/-- A part of a text. -/
inductive Segment
  /-- A character outside literals and comments. -/
  | other (c : Char)
  | literal (s : List Char)
  | comment (s : List Char)
  deriving Repr, DecidableEq

namespace Segment

def text : Segment → List Char
  | other c => [c]
  | literal s => s
  | comment s => s

/-- The text of a literal. -/
def literal? : Segment → Option (List Char)
  | literal s => some s
  | _ => none

/-- The segment ends before the given text.  Comments are told from other characters only if
`comments` is set. -/
def Before (comments : Bool) : Segment → List Char → Prop
  | other c, rest => c ≠ '"' ∧ (comments = true → ¬OpensComment (c :: rest))
  | literal s, rest => Literal s rest
  | comment s, rest => comments = true ∧ Comment s rest

end Segment

/-- The text is made of the segments. -/
inductive Segments (comments : Bool) : List Char → List Segment → Prop
  | nil : Segments comments [] []
  | cons {g : Segment} {s : List Char} {l : List Segment} : g.Before comments s →
      Segments comments s l → Segments comments (g.text ++ s) (g :: l)

/-- Nothing outside the literals begins a comment. -/
def NoOpener (l : List Segment) : Prop :=
  ∀ c ∈ ['/', '*'], ¬[.other '/', .other c] <:+: l

/-- No comma outside the literals stands before a closing bracket, with or without white space
between them. -/
def NoLastComma (l : List Segment) : Prop :=
  ∀ white : List Char, (∀ a ∈ white, Text.isWhite a = true) → ∀ c ∈ [']', '\x7d'],
    ¬(.other ',' :: (white.map .other ++ [.other c])) <:+: l

/-! ## Every text is made of segments -/

theorem exists_literal (s : List Char) :
    ∃ body stop rest, s = body ++ (stop ++ rest) ∧ Closed body ∧ EndsLiteral stop rest := by
  match s with
  | [] => exact ⟨[], [], [], rfl, .nil, .endOfText⟩
  | c :: s =>
    by_cases hquote : c = '"'
    · exact ⟨[], ['"'], s, by rw [hquote]; rfl, .nil, .quote s⟩
    by_cases hslash : c = '\\'
    · subst hslash
      match s with
      | [] => exact ⟨[], ['\\'], [], rfl, .nil, .backslash⟩
      | d :: s =>
        obtain ⟨body, stop, rest, rfl, hbody, hstop⟩ := exists_literal s
        exact ⟨'\\' :: d :: body, stop, rest, rfl, .escape hbody, hstop⟩
    · obtain ⟨body, stop, rest, rfl, hbody, hstop⟩ := exists_literal s
      exact ⟨c :: body, stop, rest, rfl, .char hquote hslash hbody, hstop⟩

/-- The first place where a comment between delimiters is closed. -/
theorem exists_close (s : List Char) :
    (∃ body rest, s = body ++ '*' :: '/' :: rest ∧ ¬['*', '/'] <:+: body) ∨ ¬['*', '/'] <:+: s := by
  induction s with
  | nil => exact .inr (by simp)
  | cons c s ih =>
    by_cases hclose : ['*', '/'] <+: c :: s
    · obtain ⟨rest, hrest⟩ := hclose
      exact .inl ⟨[], rest, hrest.symm, by simp⟩
    · obtain ⟨body, rest, rfl, hbody⟩ | hs := ih
      · refine .inl ⟨c :: body, rest, rfl, fun hin => ?_⟩
        rcases List.infix_cons_iff.1 hin with hin | hin
        · exact hclose (hin.trans (List.prefix_append (c :: body) ('*' :: '/' :: rest)))
        · exact hbody hin
      · exact .inr fun hin => (List.infix_cons_iff.1 hin).elim hclose hs

theorem exists_comment {s : List Char} (h : OpensComment s) :
    ∃ t rest, s = t ++ rest ∧ Comment t rest := by
  obtain ⟨s, rfl⟩ | ⟨s, rfl⟩ := h
  · refine ⟨'/' :: '/' :: s.takeWhile (· ≠ '\n'), s.dropWhile (· ≠ '\n'), by simp, .line ?_ ?_⟩
    · exact fun h => by simpa using List.mem_takeWhile_imp h
    · intro c hc
      have hnot := List.head?_dropWhile_not (· ≠ '\n') s
      rw [Option.mem_def.1 hc] at hnot
      simpa using hnot
  · obtain ⟨body, rest, rfl, hbody⟩ | hs := exists_close s
    · exact ⟨_, rest, by simp, .block hbody⟩
    · exact ⟨_, [], by simp, .openBlock hs⟩

/-! ## Segments are determined -/

theorem Closed.append_stop_inj {a b s t r q : List Char} (ha : Closed a) (hb : Closed b)
    (hs : EndsLiteral s r) (ht : EndsLiteral t q) (h : a ++ (s ++ r) = b ++ (t ++ q)) :
    a = b ∧ s = t ∧ r = q := by
  have hnil {c : Char} {u v w : List Char} (hu : EndsLiteral u v) (hquote : c ≠ '"')
      (hslash : c ≠ '\\') : u ++ v ≠ c :: w := by
    cases hu <;> simp [hquote.symm, hslash.symm]
  have hescape {c : Char} {u v w : List Char} (hu : EndsLiteral u v) : u ++ v ≠ '\\' :: c :: w := by
    cases hu <;> simp
  induction ha generalizing b with
  | nil =>
    cases hb with
    | nil => cases hs <;> cases ht <;> simp_all
    | char hquote hslash _ => exact (hnil hs hquote hslash h).elim
    | escape _ => exact (hescape hs h).elim
  | char hquote hslash _ ih =>
    cases hb with
    | nil => exact (hnil ht hquote hslash h.symm).elim
    | char _ _ hb =>
      obtain ⟨hhead, htail⟩ := List.cons.inj h
      simpa [hhead] using ih hb htail
    | escape hb => exact absurd (List.cons.inj h).1 hslash
  | escape _ ih =>
    cases hb with
    | nil => exact (hescape ht h.symm).elim
    | char _ hslash _ => exact absurd (List.cons.inj h).1.symm hslash
    | escape hb =>
      obtain ⟨hhead, htail⟩ := List.cons.inj (List.cons.inj h).2
      simpa [hhead] using ih hb htail

theorem Literal.append_inj {t u r q : List Char} (ht : Literal t r) (hu : Literal u q)
    (h : t ++ r = u ++ q) : t = u ∧ r = q := by
  obtain ⟨ha, hs⟩ := ht
  obtain ⟨hb, hs'⟩ := hu
  simp only [List.cons_append, List.cons.injEq, true_and, List.append_assoc] at h
  obtain ⟨rfl, rfl, rfl⟩ := ha.append_stop_inj hb hs hs' h
  exact ⟨rfl, rfl⟩

theorem append_close_inj {a b r q : List Char} (ha : ¬['*', '/'] <:+: a) (hb : ¬['*', '/'] <:+: b)
    (h : a ++ '*' :: '/' :: r = b ++ '*' :: '/' :: q) : a = b ∧ r = q := by
  have hlonger {a b w r q : List Char} (hb : ¬['*', '/'] <:+: b) (hab : b = a ++ w)
      (hw : '*' :: '/' :: r = w ++ '*' :: '/' :: q) : w = [] := by
    match w, hw with
    | [], _ => rfl
    | [c], hw => simp at hw
    | c :: d :: w, hw =>
      simp only [List.cons_append, List.cons.injEq] at hw
      obtain ⟨rfl, rfl, -⟩ := hw
      exact absurd ⟨a, w, by simp [hab]⟩ hb
  -- if one body were longer, the comment would be closed inside it
  rcases List.append_eq_append_iff.1 h with ⟨w, hab, hw⟩ | ⟨w, hab, hw⟩
  · obtain rfl := hlonger hb hab hw
    simp_all
  · obtain rfl := hlonger ha hab hw
    simp_all

theorem Literal.exists_cons {t r : List Char} (h : Literal t r) : ∃ u, t = '"' :: u := by
  obtain ⟨-, -⟩ := h
  exact ⟨_, rfl⟩

theorem Comment.opens {t r : List Char} (h : Comment t r) : OpensComment (t ++ r) := by
  cases h with
  | line => exact .inl ⟨_, rfl⟩
  | block => exact .inr ⟨_, rfl⟩
  | openBlock => exact .inr ⟨_, rfl⟩

theorem Comment.exists_cons {t r : List Char} (h : Comment t r) : ∃ u, t = '/' :: u := by
  cases h <;> exact ⟨_, rfl⟩

theorem takeWhile_line {body rest : List Char} (hbody : '\n' ∉ body)
    (hrest : ∀ c ∈ rest.head?, c = '\n') : (body ++ rest).takeWhile (· ≠ '\n') = body := by
  have hpos : ∀ c ∈ body, decide (c ≠ '\n') = true :=
    fun c hc => decide_eq_true fun h => hbody (h ▸ hc)
  rw [List.takeWhile_append_of_pos hpos]
  cases rest with
  | nil => simp
  | cons c rest => simp [hrest c rfl]

theorem Comment.append_inj {t u r q : List Char} (ht : Comment t r) (hu : Comment u q)
    (h : t ++ r = u ++ q) : t = u ∧ r = q := by
  have hopen {a b r : List Char} (hb : ¬['*', '/'] <:+: b) : a ++ '*' :: '/' :: r ≠ b :=
    fun hab => hb ⟨a, r, by simp [← hab]⟩
  cases ht with
  | @line a _ ha hr =>
    cases hu with
    | @line b _ hb hq =>
      have hab : a ++ r = b ++ q := by simpa using h
      have htake := congrArg (List.takeWhile (· ≠ '\n')) hab
      rw [takeWhile_line ha hr, takeWhile_line hb hq] at htake
      subst htake
      exact ⟨rfl, List.append_cancel_left hab⟩
    | _ => simp at h
  | block ha =>
    cases hu with
    | line => simp at h
    | block hb =>
      obtain ⟨rfl, rfl⟩ := append_close_inj ha hb (by simpa using h)
      exact ⟨rfl, rfl⟩
    | openBlock hb => exact (hopen hb (by simpa using h)).elim
  | openBlock ha =>
    cases hu with
    | line => simp at h
    | block hb => exact (hopen ha (by simpa using h.symm)).elim
    | openBlock hb => simpa using h

namespace Segment.Before

variable {comments : Bool} {c : Char} {g g' : Segment} {t u r q : List Char}

theorem other_ne_literal (hg : (other c).Before comments r) (ht : Literal t q) :
    c :: r ≠ t ++ q := by
  obtain ⟨u, rfl⟩ := ht.exists_cons
  exact fun h => hg.1 (List.cons.inj h).1

theorem other_ne_comment (hg : (other c).Before comments r)
    (ht : (comment t).Before comments q) : c :: r ≠ t ++ q :=
  fun h => hg.2 ht.1 (h ▸ ht.2.opens)

theorem literal_ne_comment (ht : Literal t r) (hu : Comment u q) : t ++ r ≠ u ++ q := by
  obtain ⟨_, rfl⟩ := ht.exists_cons
  obtain ⟨_, rfl⟩ := hu.exists_cons
  simp

/-- A text that starts with a segment leaves no choice which one it is. -/
theorem append_inj (hg : g.Before comments r) (hg' : g'.Before comments q)
    (h : g.text ++ r = g'.text ++ q) : g = g' ∧ r = q := by
  cases g with
  | other c =>
    cases g' with
    | other d => simpa [text] using h
    | literal t => exact (other_ne_literal hg hg' h).elim
    | comment t => exact (other_ne_comment hg hg' h).elim
  | literal t =>
    cases g' with
    | other d => exact (other_ne_literal hg' hg h.symm).elim
    | literal u =>
      obtain ⟨rfl, rfl⟩ := Literal.append_inj hg hg' h
      exact ⟨rfl, rfl⟩
    | comment u => exact (literal_ne_comment hg hg'.2 h).elim
  | comment t =>
    cases g' with
    | other d => exact (other_ne_comment hg' hg h.symm).elim
    | literal u => exact (literal_ne_comment hg' hg.2 h.symm).elim
    | comment u =>
      obtain ⟨rfl, rfl⟩ := hg.2.append_inj hg'.2 h
      exact ⟨rfl, rfl⟩

theorem text_ne_nil (hg : g.Before comments r) : g.text ≠ [] := by
  cases g with
  | other c => exact List.cons_ne_nil c []
  | literal t =>
    obtain ⟨_, rfl⟩ := Literal.exists_cons hg
    exact List.cons_ne_nil _ _
  | comment t =>
    obtain ⟨_, rfl⟩ := hg.2.exists_cons
    exact List.cons_ne_nil _ _

end Segment.Before

/-- Every text that is not empty starts with a segment. -/
theorem exists_before (comments : Bool) {s : List Char} (hs : s ≠ []) :
    ∃ (g : Segment) (r : List Char), s = g.text ++ r ∧ g.Before comments r := by
  obtain ⟨c, s, rfl⟩ := List.exists_cons_of_ne_nil hs
  by_cases hquote : c = '"'
  · obtain ⟨body, stop, rest, rfl, hbody, hstop⟩ := exists_literal s
    exact ⟨.literal ('"' :: (body ++ stop)), rest, by simp [hquote, Segment.text],
      .mk hbody hstop⟩
  by_cases hopens : comments = true ∧ OpensComment (c :: s)
  · obtain ⟨t, r, htext, ht⟩ := exists_comment hopens.2
    exact ⟨.comment t, r, htext, hopens.1, ht⟩
  · exact ⟨.other c, s, rfl, hquote, fun hcomments h => hopens ⟨hcomments, h⟩⟩

namespace Segments

variable {comments : Bool} {s : List Char} {g : Segment} {l l' : List Segment}

@[simp] theorem nil_iff : Segments comments s [] ↔ s = [] :=
  ⟨fun h => by cases h; rfl, fun h => h ▸ .nil⟩

theorem cons_iff : Segments comments s (g :: l) ↔
    ∃ r, s = g.text ++ r ∧ g.Before comments r ∧ Segments comments r l := by
  constructor
  · rintro ⟨⟩
    exact ⟨_, rfl, ‹_›, ‹_›⟩
  · rintro ⟨r, rfl, hg, hl⟩
    exact .cons hg hl

theorem text_eq (h : Segments comments s l) : l.flatMap Segment.text = s := by
  induction h with
  | nil => rfl
  | cons _ _ ih => rw [List.flatMap_cons, ih]

theorem unique (h : Segments comments s l) (h' : Segments comments s l') : l = l' := by
  induction l generalizing s l' with
  | nil =>
    cases l' with
    | nil => rfl
    | cons g' l' =>
      obtain ⟨r, htext, hg', -⟩ := cons_iff.1 h'
      rw [nil_iff.1 h] at htext
      exact absurd (List.append_eq_nil_iff.1 htext.symm).1 hg'.text_ne_nil
  | cons g l ih =>
    obtain ⟨r, rfl, hg, hr⟩ := cons_iff.1 h
    cases l' with
    | nil => exact absurd (List.append_eq_nil_iff.1 (nil_iff.1 h')).1 hg.text_ne_nil
    | cons g' l' =>
      obtain ⟨r', htext, hg', hr'⟩ := cons_iff.1 h'
      obtain ⟨rfl, rfl⟩ := hg.append_inj hg' htext
      rw [ih hr hr']

theorem exists_of_text (comments : Bool) (s : List Char) : ∃ l, Segments comments s l := by
  by_cases hs : s = []
  · exact ⟨[], nil_iff.2 hs⟩
  · obtain ⟨g, r, htext, hg⟩ := exists_before comments hs
    have hshorter : r.length < s.length := by
      have hpos := List.length_pos_of_ne_nil hg.text_ne_nil
      rw [htext, List.length_append]
      omega
    obtain ⟨l, hl⟩ := exists_of_text comments r
    exact ⟨g :: l, htext ▸ .cons hg hl⟩
termination_by s.length

/-- **A text is made of segments in one way and in one way only.** -/
theorem existsUnique (comments : Bool) (s : List Char) : ∃! l, Segments comments s l := by
  obtain ⟨l, hl⟩ := exists_of_text comments s
  exact ⟨l, hl, fun _ h => h.unique hl⟩

end Segments

/-! ## Taking comments out -/

/-- What is left of a segment when comments are taken out: of a comment between delimiters a space,
of one up to the end of the line nothing. -/
def Segment.withoutComment : Segment → List Segment
  | .comment ('/' :: '*' :: _) => [.other ' ']
  | .comment _ => []
  | g => [g]

theorem dropComments_inString {body stop rest : List Char} (hbody : Closed body)
    (hstop : EndsLiteral stop rest) :
    dropComments .inString (body ++ (stop ++ rest)) = body ++ (stop ++ dropComments .plain rest) := by
  rw [hbody.dropComments_inString]
  cases hstop <;> simp

theorem dropLastCommas_inString {body stop rest : List Char} (hbody : Closed body)
    (hstop : EndsLiteral stop rest) : dropLastCommas .inString (body ++ (stop ++ rest)) =
      body ++ (stop ++ dropLastCommas .plain rest) := by
  rw [hbody.dropLastCommas_inString]
  cases hstop <;> simp

theorem dropComments_other {c : Char} {s : List Char} (hquote : c ≠ '"')
    (hopens : ¬OpensComment (c :: s)) : dropComments .plain (c :: s) = c :: dropComments .plain s := by
  rw [dropComments, if_neg hquote]
  · rintro s rfl rfl
    exact hopens (.inl ⟨s, rfl⟩)
  · rintro s rfl rfl
    exact hopens (.inr ⟨s, rfl⟩)

theorem dropComments_line {body rest : List Char} (hbody : '\n' ∉ body)
    (hrest : ∀ c ∈ rest.head?, c = '\n') :
    dropComments .lineComment (body ++ rest) = dropComments .plain rest := by
  rw [dropComments_lineComment hbody]
  cases rest with
  | nil => rfl
  | cons c rest =>
    obtain rfl : c = '\n' := hrest c rfl
    simp

theorem Segment.Before.dropComments_eq {g : Segment} {s : List Char} (hg : g.Before true s) :
    dropComments .plain (g.text ++ s) =
      g.withoutComment.flatMap Segment.text ++ dropComments .plain s := by
  cases g with
  | other c => simpa [text, withoutComment] using dropComments_other hg.1 (hg.2 rfl)
  | literal t =>
    obtain ⟨hbody, hstop⟩ := hg
    simpa [text, withoutComment] using dropComments_inString hbody hstop
  | comment t =>
    obtain ⟨-, hcomment⟩ := hg
    cases hcomment with
    | line hbody hrest => simpa [text, withoutComment] using dropComments_line hbody hrest
    | block hbody => simpa [text, withoutComment] using dropComments_blockComment hbody (by simp)
    | openBlock hbody => simpa [text, withoutComment] using dropComments_openBlock hbody (by simp)

/-- A literal stays one if the end of the text stays where it is. -/
theorem Literal.before {t r q : List Char} (h : Literal t r) (hq : r = [] → q = []) :
    Literal t q := by
  obtain ⟨hbody, hstop⟩ := h
  refine .mk hbody ?_
  cases hstop with
  | quote => exact .quote q
  | endOfText => exact hq rfl ▸ .endOfText
  | backslash => exact hq rfl ▸ .backslash

/-- Nothing outside the literals begins a comment, at the start of the segments or later. -/
theorem noOpener_cons {g : Segment} {l : List Segment} : NoOpener (g :: l) ↔
    (g = .other '/' → ∀ c ∈ ['/', '*'], l.head? ≠ some (.other c)) ∧ NoOpener l := by
  have hnext (c : Char) : [.other c] <+: l ↔ l.head? = some (.other c) := by
    cases l <;> simp [eq_comm]
  simp only [NoOpener, List.infix_cons_iff, not_or, List.cons_prefix_cons, hnext, not_and]
  constructor
  · exact fun h => ⟨fun hg c hc => (h c hc).1 hg.symm, fun c hc => (h c hc).2⟩
  · exact fun h c hc => ⟨fun hg => h.1 hg.symm c hc, h.2 c hc⟩

theorem noOpener_nil : NoOpener [] := by
  simp [NoOpener]

namespace Segments

variable {s : List Char} {l : List Segment}

/-- What is left without comments is made of what is left of the segments. -/
theorem dropComments (h : Segments true s l) :
    Segments false (Json.dropComments .plain s) (l.flatMap Segment.withoutComment) := by
  induction h with
  | nil => exact .nil
  | @cons g s l hg _ ih =>
    rw [hg.dropComments_eq, List.flatMap_cons]
    cases g with
    | other c => exact .cons (g := .other c) ⟨hg.1, by simp⟩ ih
    | literal t =>
      have ht : (Segment.literal t).Before false (Json.dropComments .plain s) := by
        refine Literal.before hg ?_
        rintro rfl
        rfl
      simpa [Segment.withoutComment] using Segments.cons ht ih
    | comment t =>
      obtain ⟨-, hcomment⟩ := hg
      cases hcomment with
      | line => exact ih
      | _ => exact .cons (g := .other ' ') ⟨by decide, by simp⟩ ih

/-- Behind a slash that begins no comment, nothing that is left begins one. -/
theorem head?_withoutComment_ne (h : Segments true s l) (hopens : ¬OpensComment ('/' :: s)) :
    ∀ c ∈ ['/', '*'], (l.flatMap Segment.withoutComment).head? ≠ some (.other c) := by
  intro c hc hhead
  cases h with
  | nil => simp at hhead
  | @cons g r l hg hr =>
    cases g with
    | other d =>
      obtain rfl : d = c := by simpa [Segment.withoutComment] using hhead
      refine hopens ?_
      rcases List.mem_pair.1 hc with rfl | rfl
      · exact .inl ⟨r, rfl⟩
      · exact .inr ⟨r, rfl⟩
    | literal t => simp [Segment.withoutComment] at hhead
    | comment t =>
      -- with the slash before it, a comment would have begun earlier
      obtain ⟨u, rfl⟩ := hg.2.exists_cons
      exact hopens (.inl ⟨u ++ r, rfl⟩)

/-- No comment comes about where others are taken out. -/
theorem noOpener_withoutComment (h : Segments true s l) :
    NoOpener (l.flatMap Segment.withoutComment) := by
  induction h with
  | nil => exact noOpener_nil
  | @cons g s l hg hl ih =>
    rw [List.flatMap_cons]
    cases g with
    | other c =>
      refine noOpener_cons.2 ⟨fun hslash => ?_, ih⟩
      obtain rfl : c = '/' := Segment.other.inj hslash
      exact hl.head?_withoutComment_ne (hg.2 rfl)
    | literal t => exact noOpener_cons.2 ⟨nofun, ih⟩
    | comment t =>
      obtain ⟨-, hcomment⟩ := hg
      cases hcomment with
      | line => exact ih
      | _ => exact noOpener_cons.2 ⟨fun hslash => by simp at hslash, ih⟩

end Segments

theorem filterMap_withoutComment (l : List Segment) :
    (l.flatMap Segment.withoutComment).filterMap Segment.literal? =
      l.filterMap Segment.literal? := by
  have hsegment (g : Segment) : g.withoutComment.filterMap Segment.literal? = g.literal?.toList := by
    unfold Segment.withoutComment
    split <;> rfl
  rw [List.filterMap_flatMap, List.filterMap_eq_flatMap_toList]
  exact List.flatMap_congr fun g _ => hsegment g

/-! ## Taking commas out -/

namespace Segment

def isWhite : Segment → Bool
  | other c => Text.isWhite c
  | _ => false

/-- Whether the segment closes an array or an object. -/
def closes : Segment → Bool
  | other c => c = ']' || c = '\x7d'
  | _ => false

end Segment

/-- Whether the first segment that is not white space closes an array or an object. -/
def bracketNext (l : List Segment) : Bool :=
  (l.dropWhile Segment.isWhite).head?.any Segment.closes

/-- What is left when the commas before a closing bracket are taken out. -/
def withoutLastCommas : List Segment → List Segment
  | [] => []
  | g :: l =>
    if g = .other ',' && bracketNext l then withoutLastCommas l else g :: withoutLastCommas l

theorem bracketNext_cons (g : Segment) (l : List Segment) :
    bracketNext (g :: l) = if g.isWhite then bracketNext l else g.closes := by
  rw [bracketNext, bracketNext, List.dropWhile_cons]
  split <;> rfl

theorem closesNext_cons (c : Char) (s : List Char) :
    closesNext (c :: s) = if Text.isWhite c then closesNext s else c = ']' || c = '\x7d' := by
  rw [closesNext_eq_head?, closesNext_eq_head?, Text.trimStart, Text.trimStart,
    List.dropWhile_cons]
  split <;> rfl

/-- What stands before a closing bracket that is next. -/
theorem exists_of_bracketNext {l : List Segment} (h : bracketNext l = true) :
    ∃ (white : List Char) (c : Char), (∀ a ∈ white, Text.isWhite a = true) ∧ c ∈ [']', '\x7d'] ∧
      white.map Segment.other ++ [.other c] <+: l := by
  induction l with
  | nil => simp [bracketNext] at h
  | cons g l ih =>
    cases g with
    | other d =>
      rw [bracketNext_cons] at h
      split at h
      · rename_i hd
        obtain ⟨white, c, hwhite, hc, hl⟩ := ih h
        exact ⟨d :: white, c, List.forall_mem_cons.2 ⟨hd, hwhite⟩, hc,
          List.cons_prefix_cons.2 ⟨rfl, hl⟩⟩
      · exact ⟨[], d, by simp, by simpa [Segment.closes] using h, ⟨l, rfl⟩⟩
    | _ => simp [bracketNext_cons, Segment.isWhite, Segment.closes] at h

theorem NoLastComma.bracketNext_eq_false {l : List Segment} (h : NoLastComma (.other ',' :: l)) :
    bracketNext l = false := by
  rw [Bool.eq_false_iff]
  intro hnext
  obtain ⟨white, c, hwhite, hc, hl⟩ := exists_of_bracketNext hnext
  exact h white hwhite c hc (List.cons_prefix_cons.2 ⟨rfl, hl⟩).isInfix

/-- Where no comma stands before a closing bracket, none is taken out. -/
theorem NoLastComma.withoutLastCommas_eq {l : List Segment} (h : NoLastComma l) :
    withoutLastCommas l = l := by
  induction l with
  | nil => rfl
  | cons g l ih =>
    have hl : NoLastComma l := fun white hwhite c hc hin =>
      h white hwhite c hc (hin.trans (List.suffix_cons g l).isInfix)
    have hkeep : (g = .other ',' && bracketNext l) = false := by
      by_cases hg : g = .other ','
      · subst hg
        simpa using h.bracketNext_eq_false
      · simp [hg]
    rw [withoutLastCommas, hkeep, if_neg (by decide), ih hl]

theorem filterMap_withoutLastCommas (l : List Segment) :
    (withoutLastCommas l).filterMap Segment.literal? = l.filterMap Segment.literal? := by
  induction l with
  | nil => rfl
  | cons g l ih =>
    rw [withoutLastCommas]
    split
    · rename_i hdrop
      obtain ⟨rfl, -⟩ : g = .other ',' ∧ bracketNext l = true := by simpa using hdrop
      exact ih
    · rw [List.filterMap_cons, List.filterMap_cons, ih]

theorem ne_of_bracketNext {g : Segment} {l : List Segment} {c : Char}
    (h : bracketNext (g :: l) = true) (hc : c ∈ [',', '/', '*']) : g ≠ .other c := by
  have hapart : ([',', '/', '*'].all fun c =>
      !(Segment.other c).isWhite && !(Segment.other c).closes) = true := by decide
  rintro rfl
  have hc := List.all_eq_true.1 hapart c hc
  rw [bracketNext_cons] at h
  split at h <;> simp_all

/-- Where a comma is taken out, white space or a bracket follows. -/
theorem head?_withoutLastCommas_ne {l : List Segment} {c : Char} (hc : c ∈ ['/', '*'])
    (hl : l.head? ≠ some (.other c)) : (withoutLastCommas l).head? ≠ some (.other c) := by
  have hbracket {l : List Segment} (h : bracketNext l = true) :
      (withoutLastCommas l).head? ≠ some (.other c) := by
    cases l with
    | nil => simp [withoutLastCommas]
    | cons g l =>
      have hcomma : g ≠ .other ',' := ne_of_bracketNext h (by simp)
      simpa [withoutLastCommas, hcomma] using ne_of_bracketNext h (List.mem_cons_of_mem _ hc)
  cases l with
  | nil => simp [withoutLastCommas]
  | cons g l =>
    rw [withoutLastCommas]
    split
    · rename_i hdrop
      exact hbracket (Bool.and_eq_true_iff.1 hdrop).2
    · simpa using hl

/-- No comment comes about where commas are taken out. -/
theorem NoOpener.withoutLastCommas {l : List Segment} (h : NoOpener l) :
    NoOpener (withoutLastCommas l) := by
  induction l with
  | nil => exact h
  | cons g l ih =>
    obtain ⟨hg, hl⟩ := noOpener_cons.1 h
    rw [Json.withoutLastCommas]
    split
    · exact ih hl
    · exact noOpener_cons.2 ⟨fun hslash c hc => head?_withoutLastCommas_ne hc (hg hslash c hc), ih hl⟩

namespace Segments

variable {s : List Char} {l : List Segment}

theorem closesNext_eq (h : Segments false s l) : closesNext s = bracketNext l := by
  induction h with
  | nil => rfl
  | @cons g s l hg _ ih =>
    cases g with
    | other c => rw [Segment.text, List.singleton_append, closesNext_cons, bracketNext_cons, ih]; rfl
    | literal t =>
      obtain ⟨u, rfl⟩ := Literal.exists_cons hg
      rw [Segment.text, List.cons_append, closesNext_cons, bracketNext_cons]
      rfl
    | comment t => exact absurd hg.1 (by decide)

/-- What is left without commas is made of what is left of the segments. -/
theorem dropLastCommas (h : Segments false s l) :
    Segments false (Json.dropLastCommas .plain s) (withoutLastCommas l) := by
  induction h with
  | nil => exact .nil
  | @cons g s l hg hl ih =>
    rw [withoutLastCommas]
    cases g with
    | other c =>
      rw [Segment.text, List.singleton_append, Json.dropLastCommas, hl.closesNext_eq, if_neg hg.1]
      simp only [Segment.other.injEq]
      split
      · exact ih
      · exact .cons (g := .other c) ⟨hg.1, by simp⟩ ih
    | literal t =>
      have ht : (Segment.literal t).Before false (Json.dropLastCommas .plain s) := by
        refine Literal.before hg ?_
        rintro rfl
        rfl
      obtain ⟨hbody, hstop⟩ := hg
      simpa [Segment.text, dropLastCommas_inString hbody hstop] using Segments.cons ht ih
    | comment t => exact absurd hg.1 (by decide)

/-- **What is left of a text without comments and commas** is made of what is left of its
segments. -/
theorem withoutComments {text : String} (h : Segments true text.toList l) :
    Segments false (withoutComments text).toList
      (withoutLastCommas (l.flatMap Segment.withoutComment)) := by
  rw [Json.withoutComments, String.toList_ofList]
  exact h.dropComments.dropLastCommas

/-! ## Texts that stay as they are -/

theorem flatMap_withoutComment_eq (h : Segments false s l) :
    l.flatMap Segment.withoutComment = l := by
  induction h with
  | nil => rfl
  | @cons g s l hg _ ih =>
    cases g with
    | comment t => exact absurd hg.1 (by decide)
    | _ => rw [List.flatMap_cons, ih]; rfl

theorem head?_eq_other {c : Char} (h : Segments false (c :: s) l) (hc : c ≠ '"') :
    l.head? = some (.other c) := by
  cases l with
  | nil => exact absurd (nil_iff.1 h) (List.cons_ne_nil c s)
  | cons g l =>
    obtain ⟨r, htext, hg, -⟩ := cons_iff.1 h
    cases g with
    | other d =>
      obtain rfl : c = d := (List.cons.inj htext).1
      rfl
    | literal t =>
      obtain ⟨u, rfl⟩ := Literal.exists_cons hg
      exact absurd (List.cons.inj htext).1 hc
    | comment t => exact absurd hg.1 (by decide)

/-- If no comment begins outside the literals, the text is made of the same segments whether or not
comments are told from other characters. -/
theorem of_noOpener (h : Segments false s l) (hl : NoOpener l) : Segments true s l := by
  induction h with
  | nil => exact .nil
  | @cons g s l hg hs ih =>
    obtain ⟨hnext, hl⟩ := noOpener_cons.1 hl
    refine .cons ?_ (ih hl)
    cases g with
    | other c =>
      -- both characters that begin a comment would stand outside the literals
      refine ⟨hg.1, fun _ hopens => ?_⟩
      obtain ⟨r, hr⟩ | ⟨r, hr⟩ := hopens <;> obtain ⟨rfl, rfl⟩ := List.cons.inj hr
      · exact hnext rfl '/' (by simp) (hs.head?_eq_other (by decide))
      · exact hnext rfl '*' (by simp) (hs.head?_eq_other (by decide))
    | literal t => exact hg
    | comment t => exact absurd hg.1 (by decide)

end Segments

/-- **A text outside whose literals no comment begins and no comma stands before a closing bracket
stays as it is.** -/
theorem withoutComments_eq_self {text : String} {l : List Segment}
    (hl : Segments false text.toList l) (hopener : NoOpener l) (hcomma : NoLastComma l) :
    withoutComments text = text := by
  have hleft := (hl.of_noOpener hopener).withoutComments
  rw [hl.flatMap_withoutComment_eq, hcomma.withoutLastCommas_eq] at hleft
  rw [← String.toList_inj, ← hleft.text_eq, hl.text_eq]

/-- **Only comments and commas before closing brackets are taken out.**  The segments of what is left
have the literals that stand outside comments, unchanged and in order.  Outside them, nothing begins a
comment, and a text that has neither such a comma nor the beginning of a comment outside its literals
stays as it is. -/
theorem withoutComments_literals (text : String) :
    ∃ read left, (∀ l, Segments true text.toList l ↔ l = read) ∧
      (∀ l, Segments false (withoutComments text).toList l ↔ l = left) ∧
      left.filterMap Segment.literal? = read.filterMap Segment.literal? ∧ NoOpener left ∧
      ∀ l, Segments false text.toList l → NoOpener l → NoLastComma l →
        withoutComments text = text := by
  obtain ⟨read, hread⟩ := Segments.exists_of_text true text.toList
  refine ⟨read, _, fun l => ⟨fun h => h.unique hread, fun h => h ▸ hread⟩,
    fun l => ⟨fun h => h.unique hread.withoutComments, fun h => h ▸ hread.withoutComments⟩, ?_,
    hread.noOpener_withoutComment.withoutLastCommas, fun _ => withoutComments_eq_self⟩
  rw [filterMap_withoutLastCommas, filterMap_withoutComment]

end CommentTags.Json
