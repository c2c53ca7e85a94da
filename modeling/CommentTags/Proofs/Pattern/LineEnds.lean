import CommentTags.Proofs.Pattern.Parts
import CommentTags.Proofs.Text.LineEnds

/-!
# Patterns in a text with carriage returns

A carriage return before each line feed is seen by few patterns.  One that can read neither of the
two characters, and does not ask for the end of a line, stops at the same places.

* `Cursor.crlf` — the place in the text with carriage returns that corresponds to a place of the
  text.
* `Pattern.WithinLine`, `Pattern.ends_crlf` — such a pattern, and that it stops at the same places.
* `Expression.partsAt_crlf` — an expression of such patterns has the same parts.
* `Expression.partsAt_append_rel` — what comes after such an expression can be looked at on its own.
* `Pattern.BeginsOnLine`, `Expression.Splits.advances` — a match that reads something, and begins on
  a line, cannot begin at a carriage return or a line feed.
-/

set_option autoImplicit false

namespace CommentTags

open Text

/-! ## Places -/

/-- What stands before the place where reading begins: a line feed, or nothing. -/
def feedBefore (fed : Bool) : Option Char :=
  if fed then some '\n' else none

/-- The same place in the text with carriage returns, where each of the lines that end before it has
one more character.  `fed` says that reading begins after a line feed. -/
def Cursor.crlf (fed : Bool) (lines : Nat) (c : Cursor) : Cursor :=
  ⟨c.offset + lines, c.before.or (feedBefore fed), Text.crlf c.rest⟩

/-- The same place in the text with carriage returns, but after the carriage return if the line ends
here. -/
def Cursor.crlfFeed (fed : Bool) (lines : Nat) (c : Cursor) : Cursor :=
  match c.rest with
  | '\n' :: rest => ⟨c.offset + lines + 1, some '\r', '\n' :: Text.crlf rest⟩
  | _ => c.crlf fed lines

section

variable {fed : Bool} {lines : Nat}

@[simp] theorem Cursor.crlf_rest (c : Cursor) : (c.crlf fed lines).rest = Text.crlf c.rest := rfl

@[simp] theorem Cursor.crlf_offset (c : Cursor) :
    (c.crlf fed lines).offset = c.offset + lines := rfl

theorem Cursor.atLineStart_crlf (c : Cursor) :
    (c.crlf fed lines).atLineStart = c.atLineStart := by
  obtain ⟨offset, before, rest⟩ := c
  cases before <;> cases fed <;> rfl

/-- The place after a character that is not a line feed. -/
theorem Cursor.crlf_next (offset : Nat) (a : Char) (rest : List Char) :
    Cursor.crlf fed lines ⟨offset + a.utf8Size, some a, rest⟩ =
      ⟨offset + lines + a.utf8Size, some a, Text.crlf rest⟩ := by
  rw [Cursor.crlf, Nat.add_right_comm]
  rfl

theorem offset_next_feed (offset lines : Nat) : offset + '\n'.utf8Size + (lines + 1) =
    offset + lines + '\r'.utf8Size + '\n'.utf8Size := by
  have hsize : '\n'.utf8Size = 1 ∧ '\r'.utf8Size = 1 := ⟨rfl, rfl⟩
  omega

/-- The place after a line feed, which ends one line more. -/
theorem Cursor.crlf_next_feed (offset : Nat) (rest : List Char) :
    Cursor.crlf fed (lines + 1) ⟨offset + '\n'.utf8Size, some '\n', rest⟩ =
      ⟨offset + lines + '\r'.utf8Size + '\n'.utf8Size, some '\n', Text.crlf rest⟩ := by
  rw [Cursor.crlf, offset_next_feed]
  rfl

theorem Cursor.Reads.crlf {c d : Cursor} {w : List Char} (h : c.Reads w d) :
    (c.crlf fed lines).Reads (Text.crlf w) (d.crlf fed (lines + w.count '\n')) where
  rest := by rw [Cursor.crlf_rest, Cursor.crlf_rest, ← crlf_append, h.rest]
  offset := by
    rw [Cursor.crlf_offset, Cursor.crlf_offset, h.offset, byteLength_crlf]
    omega
  before := by
    rw [getLast?_crlf, Cursor.crlf, Cursor.crlf, h.before, Option.or_assoc]

/-- What is read on one line is read in the same way. -/
theorem Cursor.Reads.crlf_line {c d : Cursor} {w : List Char} (h : c.Reads w d) (hw : '\n' ∉ w) :
    (c.crlf fed lines).Reads w (d.crlf fed lines) := by
  have h' : (c.crlf fed lines).Reads (Text.crlf w) _ := h.crlf
  rwa [crlf_of_not_mem hw, List.count_eq_zero_of_not_mem hw, Nat.add_zero] at h'

end

/-! ## Patterns that stay within a line -/

/-- The pattern can read neither of the characters that end a line, and does not ask for a line
end. -/
def Pattern.WithinLine : Pattern → Prop
  | .lineStart => True
  | .lineEnd => False
  | .one k | .run k | .lazyRun k => k.contains '\r' = false ∧ k.contains '\n' = false
  | .literal s => '\r' ∉ s ∧ '\n' ∉ s
  | .oneOf words => ∀ s ∈ words, '\r' ∉ s ∧ '\n' ∉ s
  | .seq p q | .alt p q => p.WithinLine ∧ q.WithinLine
  | .opt p | .plus p | .group p => p.WithinLine

instance Pattern.decidableWithinLine : (p : Pattern) → Decidable p.WithinLine
  | .lineStart => .isTrue trivial
  | .lineEnd => .isFalse id
  | .one k | .run k | .lazyRun k =>
    inferInstanceAs (Decidable (k.contains '\r' = false ∧ k.contains '\n' = false))
  | .literal s => inferInstanceAs (Decidable ('\r' ∉ s ∧ '\n' ∉ s))
  | .oneOf words => inferInstanceAs (Decidable (∀ s ∈ words, '\r' ∉ s ∧ '\n' ∉ s))
  | .seq p q | .alt p q =>
    have := decidableWithinLine p
    have := decidableWithinLine q
    inferInstanceAs (Decidable (p.WithinLine ∧ q.WithinLine))
  | .opt p | .plus p | .group p => decidableWithinLine p

/-- Neither a carriage return nor a line feed. -/
def NoBreak (a : Char) : Prop := a ≠ '\r' ∧ a ≠ '\n'

theorem noBreak_of_contains {k : CharClass} (hk : k.contains '\r' = false ∧ k.contains '\n' = false)
    {a : Char} (ha : k.contains a = true) : NoBreak a := by
  refine ⟨?_, ?_⟩
  · rintro rfl
    rw [hk.1] at ha
    exact Bool.noConfusion ha
  · rintro rfl
    rw [hk.2] at ha
    exact Bool.noConfusion ha

theorem noBreak_of_sameLetter {s : List Char} (hs : '\r' ∉ s ∧ '\n' ∉ s) {b a : Char} (hb : b ∈ s)
    (h : sameLetter b a = true) : NoBreak a := by
  refine ⟨?_, ?_⟩
  · rintro rfl
    exact hs.1 (eq_of_sameLetter h (.inl rfl) ▸ hb)
  · rintro rfl
    exact hs.2 (eq_of_sameLetter h (.inr rfl) ▸ hb)

theorem Pattern.WithinLine.readsOnly {p : Pattern} (hp : p.WithinLine) : p.ReadsOnly NoBreak := by
  induction p with
  | lineStart => trivial
  | lineEnd => trivial
  | one k | run k | lazyRun k => exact fun a ha => noBreak_of_contains hp ha
  | literal s => exact fun b hb a h => noBreak_of_sameLetter hp hb h
  | oneOf words => exact fun s hs b hb a h => noBreak_of_sameLetter (hp s hs) hb h
  | seq p q ihp ihq | alt p q ihp ihq => exact ⟨ihp hp.1, ihq hp.2⟩
  | opt p ih | plus p ih | group p ih => exact ih hp

theorem not_mem_of_noBreak {w : List Char} (h : ∀ a ∈ w, NoBreak a) : '\n' ∉ w :=
  fun hn => (h _ hn).2 rfl

section

variable {fed : Bool} {lines : Nat}

theorem classRuns_crlf {k : CharClass} (hk : k.contains '\r' = false ∧ k.contains '\n' = false)
    (s : List Char) : ∀ (offset : Nat) (before : Option Char),
      classRuns k (offset + lines) (before.or (feedBefore fed)) (crlf s) =
        (classRuns k offset before s).map (·.crlf fed lines) := by
  induction s with
  | nil => exact fun _ _ => rfl
  | cons a s ih =>
    intro offset before
    by_cases ha : a = '\n'
    · subst ha
      rw [crlf_cons_feed, classRuns.eq_def, classRuns.eq_def]
      simp only [hk.1, hk.2]
      rfl
    · have h := ih (offset + a.utf8Size) (some a)
      rw [Option.some_or, Nat.add_right_comm] at h
      rw [crlf_cons ha, classRuns, classRuns, h, List.map_cons, Cursor.crlf, crlf_cons ha]
      split
      · rfl
      · rfl

theorem literalEnd_crlf {s : List Char} (hs : '\r' ∉ s ∧ '\n' ∉ s) :
    ∀ (offset : Nat) (before : Option Char) (rest : List Char),
      literalEnd (offset + lines) (before.or (feedBefore fed)) s (crlf rest) =
        (literalEnd offset before s rest).map (·.crlf fed lines) := by
  induction s with
  | nil => exact fun _ _ _ => rfl
  | cons b s ih =>
    intro offset before rest
    cases rest with
    | nil => rfl
    | cons a rest =>
      have hbreak (h : ¬NoBreak a) : sameLetter b a = false :=
        Bool.eq_false_iff.2 fun hba => h (noBreak_of_sameLetter hs List.mem_cons_self hba)
      by_cases ha : a = '\n'
      · subst ha
        have hreturn : sameLetter b '\r' = false := Bool.eq_false_iff.2 fun hba =>
          (noBreak_of_sameLetter hs List.mem_cons_self hba).1 rfl
        rw [crlf_cons_feed, literalEnd, literalEnd, hreturn, hbreak fun h => h.2 rfl]
        rfl
      · rw [List.mem_cons, List.mem_cons, not_or, not_or] at hs
        have h := ih ⟨hs.1.2, hs.2.2⟩ (offset + a.utf8Size) (some a) rest
        rw [Option.some_or, Nat.add_right_comm] at h
        rw [crlf_cons ha, literalEnd, literalEnd, h]
        split <;> rfl

theorem Pattern.one_ends_crlf {k : CharClass}
    (hk : k.contains '\r' = false ∧ k.contains '\n' = false) (c : Cursor) :
    (Pattern.one k).ends (c.crlf fed lines) = ((Pattern.one k).ends c).map (·.crlf fed lines) := by
  obtain ⟨offset, before, rest⟩ := c
  cases rest with
  | nil => rfl
  | cons a rest =>
    by_cases ha : a = '\n'
    · -- neither the line feed nor the carriage return before it can be read
      subst ha
      simp only [Pattern.ends, Cursor.crlf_rest, crlf_cons_feed, hk.1, hk.2]
      rfl
    · simp only [Pattern.ends, Cursor.crlf_rest, crlf_cons ha, Cursor.crlf_offset]
      split
      · rw [List.map_singleton, Cursor.crlf_next]
      · rfl

/-- **A pattern that stays within a line stops at the same places.** -/
theorem Pattern.ends_crlf {p : Pattern} (hp : p.WithinLine) :
    ∀ c : Cursor, p.ends (c.crlf fed lines) = (p.ends c).map (·.crlf fed lines) := by
  induction p with
  | lineStart =>
    intro c
    rw [Pattern.ends, Pattern.ends, Cursor.atLineStart_crlf]
    split <;> rfl
  | lineEnd => exact hp.elim
  | one k => exact one_ends_crlf hp
  | run k =>
    intro c
    rw [Pattern.ends, Pattern.ends, List.map_reverse, ← classRuns_crlf hp]
    rfl
  | lazyRun k => exact fun c => classRuns_crlf hp _ _ _
  | literal s =>
    intro c
    rw [Pattern.ends, Pattern.ends, ← Option.toList_map, ← literalEnd_crlf hp]
    rfl
  | oneOf words =>
    intro c
    rw [Pattern.ends, Pattern.ends, List.map_filterMap]
    exact List.filterMap_congr fun s hs => literalEnd_crlf (hp s hs) _ _ _
  | seq p q ihp ihq =>
    intro c
    rw [Pattern.ends, Pattern.ends, ihp hp.1, List.flatMap_map, List.map_flatMap]
    exact List.flatMap_congr fun d _ => ihq hp.2 d
  | alt p q ihp ihq =>
    intro c
    rw [Pattern.ends, Pattern.ends, ihp hp.1, ihq hp.2, List.map_append]
  | opt p ih =>
    intro c
    rw [Pattern.ends, Pattern.ends, ih hp, List.map_append, List.map_singleton]
  | plus p ih =>
    intro c
    -- all places that are reached have the same lines after them
    refine oneOrMore_map (S := fun d => d.rest.count '\n' = c.rest.count '\n') ?_ ?_
      (fun d _ => ih hp d) c rfl
    · intro d e hd he
      rw [Cursor.crlf_rest, Cursor.crlf_rest, length_crlf, length_crlf, hd, he]
      omega
    · intro d hd e he
      obtain ⟨w, hw, hbreak⟩ := Pattern.exists_reads_of_mem_ends (p := p) (WithinLine.readsOnly hp) he
      rw [hw.rest, List.count_append,
        List.count_eq_zero_of_not_mem (not_mem_of_noBreak hbreak)] at hd
      rw [← hd, Nat.zero_add]
  | group p ih => exact fun c => ih hp c

end

/-! ## Expressions -/

/-- Every piece of the expression stays within a line. -/
def Expression.WithinLine (e : Expression) : Prop :=
  ∀ p ∈ e, p.pattern.WithinLine

instance (e : Expression) : Decidable e.WithinLine :=
  inferInstanceAs (Decidable (∀ p ∈ e, p.pattern.WithinLine))

/-- The same part in the text with carriage returns. -/
def Part.crlf (fed : Bool) (lines : Nat) (p : Part) : Part :=
  ⟨p.name, p.start.crlf fed lines, p.stop.crlf fed lines⟩

theorem Expression.Splits.exists_reads_noBreak {e : Expression} {c d : Cursor} {parts : List Part}
    (h : e.Splits c parts d) (he : e.WithinLine) : ∃ w, c.Reads w d ∧ ∀ a ∈ w, NoBreak a :=
  h.exists_reads_of_readsOnly fun p hp => (he p hp).readsOnly

/-- What is read on one line is the same text. -/
theorem Part.text_crlf {fed : Bool} {lines : Nat} {p : Part} {w : List Char}
    (hw : p.start.Reads w p.stop) (hline : '\n' ∉ w) : (p.crlf fed lines).text = p.text :=
  (hw.crlf_line hline).upTo_eq.trans hw.upTo_eq.symm

theorem Expression.Splits.text_crlf {fed : Bool} {lines : Nat} {e : Expression} {c d : Cursor}
    {parts : List Part} (h : e.Splits c parts d) (he : e.WithinLine) :
    ∀ p ∈ parts, (p.crlf fed lines).text = p.text := by
  induction h with
  | nil => simp
  | cons hd _ ih =>
    obtain ⟨hp, he⟩ := List.forall_mem_cons.1 he
    obtain ⟨w, hw, hline⟩ := Pattern.exists_reads_of_mem_ends hp.readsOnly hd
    exact List.forall_mem_cons.2 ⟨Part.text_crlf hw (not_mem_of_noBreak hline), ih he⟩

theorem find?_map_crlf (fed : Bool) (lines : Nat) (n : PieceName) (parts : List Part) :
    (parts.map (·.crlf fed lines)).find? (·.name == some n) =
      (parts.find? (·.name == some n)).map (·.crlf fed lines) := by
  rw [List.find?_map]
  rfl

theorem Expression.Splits.find?_append_crlf {fed : Bool} {lines : Nat} {e : Expression}
    {c d : Cursor} {parts : List Part} {n : PieceName} (h : e.Splits c parts d)
    (hn : e.all (·.name != some n)) (qs : List Part) :
    (parts.map (·.crlf fed lines) ++ qs).find? (·.name == some n) =
      qs.find? (·.name == some n) := by
  rw [List.find?_append, find?_map_crlf, h.find?_eq_none hn, Option.map_none, Option.none_or]

theorem rel_imp {α β : Type} {R S : α → β → Prop} {x : Option α} {y : Option β}
    (h : Option.Rel R x y) (hRS : ∀ a b, R a b → S a b) : Option.Rel S x y := by
  cases h with
  | some h => exact .some (hRS _ _ h)
  | none => exact .none

theorem rel_map {α β γ δ : Type} {R : α → β → Prop} {S : γ → δ → Prop} {f : α → γ} {g : β → δ}
    {x : Option α} {y : Option β} (h : Option.Rel R x y) (hfg : ∀ a b, R a b → S (f a) (g b)) :
    Option.Rel S (x.map f) (y.map g) := by
  cases h with
  | some h => exact .some (hfg _ _ h)
  | none => exact .none

/-- Two searches of lists side by side.  What is asked of the result is asked of nothing that comes
after it in the list. -/
theorem findSome?_rel {α β γ δ : Type} {f : α → Option γ} {g : β → Option δ} {P : γ → Prop}
    {R : γ → δ → Prop} {l : List α} {l' : List β}
    (h : List.Forall₂ (fun a b => (∀ r, f a = some r → P r) → Option.Rel R (f a) (g b)) l l')
    (hP : ∀ r, l.findSome? f = some r → P r) :
    Option.Rel R (l.findSome? f) (l'.findSome? g) := by
  induction h with
  | nil => exact .none
  | @cons a b l l' hab _ ih =>
    rw [List.findSome?_cons] at hP
    rw [List.findSome?_cons, List.findSome?_cons]
    generalize f a = x, g b = y at hab hP
    cases x with
    | some r =>
      have hrel := hab hP
      cases hrel with
      | some hr => exact .some hr
    | none =>
      have hrel := hab fun r hr => (Option.some_ne_none r hr.symm).elim
      cases hrel with
      | none => exact ih hP

section

variable {fed : Bool} {lines : Nat} {e f : Expression}

theorem Expression.partsAt_crlf (he : e.WithinLine) (c : Cursor) :
    e.partsAt (c.crlf fed lines) = (e.partsAt c).map fun (parts, stop) =>
      (parts.map (·.crlf fed lines), stop.crlf fed lines) := by
  induction e generalizing c with
  | nil => rfl
  | cons p e ih =>
    obtain ⟨hp, he⟩ := List.forall_mem_cons.1 he
    rw [partsAt, partsAt, Pattern.ends_crlf hp, List.findSome?_map]
    induction p.pattern.ends c with
    | nil => rfl
    | cons d ds ihd =>
      rw [List.findSome?_cons, List.findSome?_cons, Function.comp_apply, ih he d]
      cases partsAt e d with
      | none => exact ihd
      | some _ => rfl

/-- What stays within a line leads to corresponding places, so it is enough to look at the rest of
the expression from there.  `P` is what is known of the match that is found. -/
theorem Expression.partsAt_append_rel (he : e.WithinLine)
    {T : Cursor → List Part × Cursor → List Part × Cursor → Prop}
    {P : List Part × Cursor → Prop} {c : Cursor}
    (hf : ∀ ps d, e.Splits c ps d → (∀ r, f.partsAt d = some r → P (ps ++ r.1, r.2)) →
      Option.Rel (T d) (f.partsAt d) (f.partsAt (d.crlf fed lines)))
    (hP : ∀ r, partsAt (e ++ f) c = some r → P r) :
    Option.Rel
      (fun r r' => ∃ ps d qs qs', e.Splits c ps d ∧ r.1 = ps ++ qs ∧
        r'.1 = ps.map (·.crlf fed lines) ++ qs' ∧ T d (qs, r.2) (qs', r'.2))
      (partsAt (e ++ f) c) (partsAt (e ++ f) (c.crlf fed lines)) := by
  induction e generalizing P c with
  | nil =>
    refine rel_imp (hf [] c (.nil c) hP) fun r r' hT => ?_
    exact ⟨[], c, r.1, r'.1, .nil c, rfl, rfl, hT⟩
  | cons p e ih =>
    obtain ⟨hp, he⟩ := List.forall_mem_cons.1 he
    rw [List.cons_append, partsAt] at hP
    rw [List.cons_append, partsAt, partsAt, Pattern.ends_crlf hp]
    refine findSome?_rel
      (List.forall₂_map_right_iff.2 (List.forall₂_same.2 fun d hd hfound => ?_)) hP
    have hrec := ih he (P := fun r => P (⟨p.name, c, d⟩ :: r.1, r.2))
      (fun ps d' hps => hf _ d' (.cons hd hps))
      fun r hr => hfound _ (Option.map_eq_some_iff.2 ⟨r, hr, rfl⟩)
    refine rel_map hrec ?_
    rintro ⟨_, stop⟩ ⟨_, stop'⟩ ⟨ps, d', qs, qs', hps, rfl, rfl, hT⟩
    exact ⟨⟨p.name, c, d⟩ :: ps, d', qs, qs', .cons hd hps, rfl, rfl, hT⟩

end

/-! ## What begins on a line -/

/-- A character that ends no line stands here. -/
def Cursor.OnLine (c : Cursor) : Prop :=
  ∃ a rest, c.rest = a :: rest ∧ NoBreak a

theorem Cursor.not_onLine_of_nil {c : Cursor} (hc : c.rest = []) : ¬c.OnLine := by
  rintro ⟨a, rest, hrest, -⟩
  rw [hc] at hrest
  exact List.cons_ne_nil _ _ hrest.symm

theorem Cursor.not_onLine_of_break {a : Char} (ha : a = '\r' ∨ a = '\n') (offset : Nat)
    (before : Option Char) (rest : List Char) : ¬Cursor.OnLine ⟨offset, before, a :: rest⟩ := by
  rintro ⟨b, rest', hrest, hb⟩
  obtain ⟨rfl, -⟩ := List.cons.inj hrest
  exact ha.elim hb.1 hb.2

/-- Whatever the pattern reads is not empty, and it begins with a character that ends no line. -/
def Pattern.BeginsOnLine : Pattern → Prop
  | .lineStart | .lineEnd | .run _ | .lazyRun _ | .opt _ => False
  | .one k => k.contains '\r' = false ∧ k.contains '\n' = false
  | .literal s => Inline s
  | .oneOf words => ∀ s ∈ words, Inline s
  | .seq p q => p.BeginsOnLine ∨ p.WithinLine ∧ q.BeginsOnLine
  | .alt p q => p.BeginsOnLine ∧ q.BeginsOnLine
  | .plus p | .group p => p.BeginsOnLine

/-- The same of the text of a match: it is not empty, and it begins on a line. -/
def Expression.BeginsOnLine : Expression → Prop
  | [] => False
  | p :: e => p.pattern.BeginsOnLine ∨ p.pattern.WithinLine ∧ BeginsOnLine e

instance Pattern.decidableBeginsOnLine : (p : Pattern) → Decidable p.BeginsOnLine
  | .lineStart | .lineEnd | .run _ | .lazyRun _ | .opt _ => .isFalse id
  | .one k => inferInstanceAs (Decidable (k.contains '\r' = false ∧ k.contains '\n' = false))
  | .literal s => inferInstanceAs (Decidable (Inline s))
  | .oneOf words => inferInstanceAs (Decidable (∀ s ∈ words, Inline s))
  | .seq p q =>
    have := decidableBeginsOnLine p
    have := decidableBeginsOnLine q
    inferInstanceAs (Decidable (p.BeginsOnLine ∨ p.WithinLine ∧ q.BeginsOnLine))
  | .alt p q =>
    have := decidableBeginsOnLine p
    have := decidableBeginsOnLine q
    inferInstanceAs (Decidable (p.BeginsOnLine ∧ q.BeginsOnLine))
  | .plus p | .group p => decidableBeginsOnLine p

instance Expression.decidableBeginsOnLine : (e : Expression) → Decidable e.BeginsOnLine
  | [] => .isFalse id
  | p :: e =>
    have := decidableBeginsOnLine e
    inferInstanceAs (Decidable
      (p.pattern.BeginsOnLine ∨ p.pattern.WithinLine ∧ Expression.BeginsOnLine e))

/-- The second place lies behind the first one, where a line goes on. -/
def Cursor.Advances (c d : Cursor) : Prop :=
  c.OnLine ∧ d.rest.length < c.rest.length

theorem Cursor.Advances.trans_reads {c d e : Cursor} {w : List Char} (h : c.Advances d)
    (hw : d.Reads w e) : c.Advances e :=
  ⟨h.1, hw.length_le.trans_lt h.2⟩

/-- A step on a line may come before. -/
theorem Cursor.Advances.of_reads {c d e : Cursor} {w : List Char} (hw : c.Reads w d)
    (hline : ∀ a ∈ w, NoBreak a) (h : d.Advances e) : c.Advances e := by
  refine ⟨?_, h.2.trans_le hw.length_le⟩
  cases w with
  | nil =>
    rw [Cursor.OnLine, hw.rest]
    exact h.1
  | cons a w => exact ⟨a, w ++ d.rest, hw.rest, hline a List.mem_cons_self⟩

theorem Cursor.advances_of_reads_cons {c d : Cursor} {a : Char} {w : List Char}
    (hw : c.Reads (a :: w) d) (ha : NoBreak a) : c.Advances d := by
  refine ⟨⟨a, w ++ d.rest, hw.rest, ha⟩, ?_⟩
  rw [hw.length_eq, List.length_cons]
  omega

theorem advances_of_literalEnd {s : List Char} (hs : Inline s) {c d : Cursor}
    (hd : literalEnd c.offset c.before s c.rest = some d) : c.Advances d := by
  obtain ⟨w, hw, hsw⟩ := exists_reads_of_literalEnd hd
  cases hsw with
  | nil => exact absurd rfl hs.1
  | cons hba _ =>
    exact Cursor.advances_of_reads_cons hw (noBreak_of_sameLetter hs.2 List.mem_cons_self hba)

theorem Pattern.advances_of_mem_ends {p : Pattern} (hp : p.BeginsOnLine) :
    ∀ {c d : Cursor}, d ∈ p.ends c → c.Advances d := by
  induction p with
  | lineStart | lineEnd | run k | lazyRun k | opt p => exact hp.elim
  | one k =>
    intro c d hd
    obtain ⟨a, ha, hk⟩ := exists_reads_of_mem_ends_one hd
    exact Cursor.advances_of_reads_cons ha (noBreak_of_contains hp hk)
  | literal s =>
    intro c d hd
    rw [Pattern.ends, Option.mem_toList] at hd
    exact advances_of_literalEnd hp hd
  | oneOf words =>
    intro c d hd
    rw [Pattern.ends, List.mem_filterMap] at hd
    obtain ⟨s, hs, hd⟩ := hd
    exact advances_of_literalEnd (hp s hs) hd
  | seq p q ihp ihq =>
    intro c e he
    rw [Pattern.ends, List.mem_flatMap] at he
    obtain ⟨d, hd, he⟩ := he
    rcases hp with hp | ⟨hp, hq⟩
    · obtain ⟨w, hw⟩ := Pattern.exists_reads he
      exact (ihp hp hd).trans_reads hw
    · obtain ⟨w, hw, hline⟩ := Pattern.exists_reads_of_mem_ends hp.readsOnly hd
      exact .of_reads hw hline (ihq hq he)
  | alt p q ihp ihq =>
    intro c d hd
    rw [Pattern.ends, List.mem_append] at hd
    exact hd.elim (ihp hp.1) (ihq hp.2)
  | plus p ih =>
    intro c e he
    have htrans (c d e : Cursor) : (∃ v, c.Reads v d) → (∃ w, d.Reads w e) → ∃ w, c.Reads w e := by
      rintro ⟨v, hv⟩ ⟨w, hw⟩
      exact ⟨v ++ w, hv.trans hw⟩
    rw [Pattern.ends] at he
    obtain ⟨d, hd, w, hw⟩ := exists_step_of_mem_oneOrMore (fun c => ⟨[], .refl c⟩) htrans
      (fun c d hd => Pattern.exists_reads hd) he
    exact (ih hp hd).trans_reads hw
  | group p ih => exact ih hp

/-- What comes before may be empty, so it has to stay on its line. -/
theorem Expression.BeginsOnLine.append {e f : Expression} (he : e.WithinLine)
    (hf : f.BeginsOnLine) : Expression.BeginsOnLine (e ++ f) := by
  induction e with
  | nil => exact hf
  | cons p e ih =>
    obtain ⟨hp, he⟩ := List.forall_mem_cons.1 he
    exact .inr ⟨hp, ih he⟩

theorem Expression.Splits.advances {e : Expression} (he : e.BeginsOnLine) {c stop : Cursor}
    {parts : List Part} (h : e.Splits c parts stop) : c.Advances stop := by
  induction h with
  | nil => exact he.elim
  | cons hd h ih =>
    rcases he with hp | ⟨hp, he⟩
    · obtain ⟨w, hw⟩ := h.exists_reads
      exact (Pattern.advances_of_mem_ends hp hd).trans_reads hw
    · obtain ⟨w, hw, hline⟩ := Pattern.exists_reads_of_mem_ends hp.readsOnly hd
      exact .of_reads hw hline (ih he)

theorem Expression.partsAt_eq_none {e : Expression} (he : e.BeginsOnLine) {c : Cursor}
    (hc : ¬c.OnLine) : e.partsAt c = none :=
  Option.eq_none_iff_forall_ne_some.2 fun _ h => hc ((splits_of_partsAt h).advances he).1

end CommentTags
