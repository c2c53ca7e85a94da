import CommentTags.Proofs.Yaml.Characters
import CommentTags.Yaml.Block

/-!
# Literal blocks are read back

A text with line feeds is written as lines of its own, each indented.  The header says how the line
breaks at the end are meant, and how far the text is indented if this cannot be seen from its first
line.

The lines are read one after the other, with the line breaks before them; the induction is on the
gaps of line breaks, for a line of which a first part has been passed.

* `readBlockLines_line`, `readBlockLines_last`, `readBlockLines_end` — one line, the last one, and
  what comes after it.
* `readBlockLines_core` — the lines up to the end of the block.
* `chompingSign_append` — the sign in the header tells what the line breaks at the end are.
* `LiteralParts` — a text with the line breaks before its first line and after its last one.
* `readBlock_literal` — a text is read back from a literal block with all its line breaks.
-/

set_option autoImplicit false

namespace CommentTags.Yaml

/-! ## Indented lines -/

section

variable (indent : List Char) {s breaks : List Char}

theorem printLines_breaks (hne : breaks ≠ []) (hbreaks : ∀ c ∈ breaks, isBreak c = true)
    (lineStart : Bool) (r : List Char) :
    printLines indent lineStart (breaks ++ r) = breaks ++ printLines indent true r := by
  induction breaks generalizing lineStart with
  | nil => exact absurd rfl hne
  | cons c breaks ih =>
    rw [List.cons_append, printLines, if_pos (hbreaks c List.mem_cons_self)]
    by_cases hnil : breaks = []
    · rw [hnil]
      rfl
    · rw [ih hnil fun d hd => hbreaks d (List.mem_cons_of_mem _ hd)]
      rfl

theorem printLines_indent {c : Char} (hc : isBreak c = false) (r : List Char) :
    printLines indent true (c :: r) = indent ++ printLines indent false (c :: r) := by
  simp [printLines, hc]

/-- The line after a gap of line breaks is indented. -/
theorem printLines_gap {b c d : Char} {gap : List Char} (hc : isBreak c = false)
    (hgap : ∀ y ∈ b :: gap, isBreak y = true) (hd : isBreak d = false) (r : List Char) :
    printLines indent false (c :: (b :: gap ++ d :: r)) =
      c :: (b :: gap) ++ (indent ++ printLines indent false (d :: r)) := by
  rw [printLines, if_neg (by simp [hc]), printLines_breaks _ (List.cons_ne_nil _ _) hgap,
    printLines_indent _ hd]
  rfl

theorem past_printLines {c : Char} (hc : isBreak c = false) (r t : List Char) :
    Past isBreak (printLines indent false (c :: r) ++ t) := by
  rw [printLines, if_neg (by simp [hc])]
  exact past_cons.2 hc

end

/-! ## Empty lines -/

/-- The indent of a line is passed over as far as it goes. -/
theorem readEmptyLines_indent (indent : Option Nat) (widest line column n : Nat) {r : List Char}
    (hn : indent.all (column + n ≤ ·) = true)
    (hr : Past isBreak r) (hword : indent.all (column + n < ·) = true → BeginsWord r) :
    readEmptyLines indent widest line column (spaces n ++ r) =
      .ok ⟨[], max widest (column + n), ⟨r, line, column + n⟩⟩ := by
  induction n generalizing column with
  | zero =>
    cases r with
    | nil => rfl
    | cons c r =>
      have hbreak : isBreak c = false := past_cons.1 hr
      have hblank (h : indent.all (column < ·) = true) : c ≠ ' ' ∧ c ≠ '\t' := by
        have hspacing := (Bool.or_eq_false_iff.1 (past_cons.1 (hword h))).1
        simpa [isBlank] using hspacing
      rw [show spaces 0 ++ c :: r = c :: r from rfl, readEmptyLines, hbreak]
      cases hin : indent.all (column < ·) with
      | false => simp
      | true => simp [hblank hin]
  | succ n ih =>
    have hin : indent.all (column < ·) = true := by
      cases indent with
      | none => rfl
      | some m =>
        simp only [Option.all_some, decide_eq_true_eq] at hn ⊢
        omega
    rw [spaces_succ, List.cons_append, readEmptyLines, hin]
    have hrest := ih (column + 1) (by rwa [Nat.add_assoc, Nat.add_comm 1])
      (by rwa [Nat.add_assoc, Nat.add_comm 1])
    rw [Nat.add_assoc, Nat.add_comm 1] at hrest
    simpa using hrest

/-- Line breaks before a line that is indented as far as it is known, or less. -/
theorem readEmptyLines_breaks (widest line : Nat) {breaks r : List Char} {n k : Nat}
    (hbreaks : ∀ c ∈ breaks, isBreak c = true) (hk : k ≤ n) (hr : Past isBreak r)
    (hword : k < n → BeginsWord r) :
    ∃ widest', readEmptyLines (some n) widest line 0 (breaks ++ (spaces k ++ r)) =
      .ok ⟨breaks, widest', ⟨r, line + breaks.length, k⟩⟩ := by
  induction breaks generalizing widest line with
  | nil =>
    refine ⟨max widest k, ?_⟩
    have hread := readEmptyLines_indent (some n) widest line 0 k (by simpa using hk) hr
      (by simpa using hword)
    rwa [Nat.zero_add] at hread
  | cons c breaks ih =>
    have hc : isBreak c = true := hbreaks c List.mem_cons_self
    have hspace : c ≠ ' ' := fun h => absurd hc (by rw [h]; decide)
    have htab : c ≠ '\t' := fun h => absurd hc (by rw [h]; decide)
    obtain ⟨widest', hread⟩ := ih (max widest 0) (line + 1)
      fun d hd => hbreaks d (List.mem_cons_of_mem _ hd)
    refine ⟨widest', ?_⟩
    rw [List.cons_append, readEmptyLines, hread, hc]
    simp [hspace, htab, Except.map, Nat.add_assoc, Nat.add_comm 1]

/-! ## Lines -/

section

variable {n : Nat} (line : Nat) (plainBefore : Bool) (lineEnd empty : List Char)

/-- One line of a literal block, with the line breaks before it. -/
theorem readBlockLines_line {content tail : List Char} {b : Char} {e : EmptyLines}
    (hcontent : ∀ c ∈ content, isBreak c = false) (hb : isBreak b = true)
    (he : readEmptyLines (some n) 0 (line + 1) 0 tail = .ok e) :
    readBlockLines false n plainBefore lineEnd empty ⟨content ++ b :: tail, line, n⟩ =
      (readBlockLines false n (!startsBlank content) [b] e.breaks e.next).map fun t =>
        { t with text := lineEnd ++ empty ++ content ++ t.text } := by
  have htake : (content ++ b :: tail).takeWhile (fun c => !isBreak c) = content := by
    rw [List.takeWhile_append_of_pos fun c hc => by rw [hcontent c hc]; rfl,
      List.takeWhile_cons_of_neg (by simp [hb]), List.append_nil]
  have hdrop : (content ++ b :: tail).drop content.length = b :: tail := List.drop_left
  rw [readBlockLines, dif_pos ⟨rfl, by simp⟩]
  simp only [Input.skip, htake, hdrop]
  split
  · next h =>
    rw [htake, hdrop, List.tail_cons, he] at h
    cases h
  · next h =>
    rw [htake, hdrop, List.tail_cons, he] at h
    obtain rfl := Except.ok.inj h
    rfl

/-- The lines of a literal block end where a line is not indented enough. -/
theorem readBlockLines_end {k : Nat} {r : List Char} (hk : k < n) :
    readBlockLines false n plainBefore lineEnd empty ⟨r, line, k⟩ =
      .ok ⟨[], lineEnd, empty, ⟨r, line, k⟩⟩ := by
  rw [readBlockLines, dif_neg fun h => Nat.ne_of_lt hk h.1]

/-- The last line of a literal block, with the line breaks after it. -/
theorem readBlockLines_last {content breaks r : List Char} {b : Char} {k : Nat}
    (hcontent : ∀ c ∈ content, isBreak c = false) (hbreaks : ∀ c ∈ b :: breaks, isBreak c = true)
    (hk : k < n) (hr : BeginsWord r) :
    readBlockLines false n plainBefore lineEnd empty
        ⟨content ++ b :: (breaks ++ (spaces k ++ r)), line, n⟩ =
      .ok ⟨lineEnd ++ empty ++ content, [b], breaks, ⟨r, line + 1 + breaks.length, k⟩⟩ := by
  obtain ⟨hb, hbreaks⟩ := List.forall_mem_cons.1 hbreaks
  have hpast : Past isBreak r := fun c hc => (Bool.or_eq_false_iff.1 (hr c hc)).2
  obtain ⟨widest, he⟩ := readEmptyLines_breaks 0 (line + 1) hbreaks (Nat.le_of_lt hk) hpast
    fun _ => hr
  rw [readBlockLines_line _ _ _ _ hcontent hb he, readBlockLines_end _ _ _ _ hk]
  simp [Except.map]

/-- The lines of a literal block up to its end, from a place in a line of which `first` has been
passed. -/
theorem readBlockLines_core {core : List Char} (hcore : Past isBreak core)
    (hlast : ∀ c ∈ core.getLast?, isBreak c = false) {b : Char} {breaks : List Char}
    (hbreaks : ∀ c ∈ b :: breaks, isBreak c = true) {k : Nat} {r : List Char} (hk : k < n)
    (hr : BeginsWord r) (first : List Char) (hfirst : ∀ c ∈ first, isBreak c = false) :
    ∃ line', readBlockLines false n plainBefore lineEnd empty
        ⟨first ++ (printLines (spaces n) false core ++ b :: (breaks ++ (spaces k ++ r))), line, n⟩ =
      .ok ⟨lineEnd ++ empty ++ first ++ core, [b], breaks, ⟨r, line', k⟩⟩ := by
  induction core, hcore using gaps_induction
    generalizing line plainBefore lineEnd empty first with
  | nil =>
    refine ⟨line + 1 + breaks.length, ?_⟩
    rw [printLines, List.nil_append, List.append_nil]
    exact readBlockLines_last line plainBefore lineEnd empty hfirst hbreaks hk hr
  | word c gap s hc hs hgap ih =>
    have hlast' : ∀ d ∈ s.getLast?, isBreak d = false := fun d hd =>
      hlast d (by rw [← List.cons_append, List.getLast?_append, Option.mem_def.1 hd]; rfl)
    have hfirst' : ∀ d ∈ first ++ [c], isBreak d = false :=
      List.forall_mem_append.2 ⟨hfirst, List.forall_mem_singleton.2 hc⟩
    cases gap with
    | nil =>
      -- the line goes on, so one more character of it has been passed
      obtain ⟨line', hread⟩ := ih line plainBefore lineEnd empty hlast' (first ++ [c]) hfirst'
      refine ⟨line', ?_⟩
      rw [printLines, if_neg (by simp [hc])]
      simpa using hread
    | cons d gap =>
      obtain ⟨x, s, rfl⟩ := List.exists_cons_of_ne_nil
        (ne_nil_of_getLast? (a := [c]) (List.cons_ne_nil d gap) hgap hlast)
      have hx : isBreak x = false := past_cons.1 hs
      obtain ⟨widest, he⟩ := readEmptyLines_breaks 0 (line + 1)
        (fun y hy => hgap y (List.mem_cons_of_mem _ hy)) (Nat.le_refl n)
        (past_printLines (spaces n) hx s (b :: (breaks ++ (spaces k ++ r))))
        fun h => absurd h (Nat.lt_irrefl n)
      -- the line ends here, and its breaks are what the next line has before it
      obtain ⟨line', hread⟩ := ih (line + 1 + gap.length) (!startsBlank (first ++ [c])) [d] gap
        hlast' [] (by simp)
      have hline := readBlockLines_line line plainBefore lineEnd empty hfirst'
        (hgap d List.mem_cons_self) he
      refine ⟨line', ?_⟩
      rw [printLines_gap _ hc hgap hx]
      simp only [List.append_assoc, List.cons_append, List.nil_append] at hline hread ⊢
      rw [hline, hread]
      simp [Except.map]

end

/-! ## Headers -/

/-- The sign for a chomping. -/
def Chomping.sign : Chomping → List Char
  | .strip => ['-']
  | .clip => []
  | .keep => ['+']

theorem readBlockHeader_signs (known : Bool) (chomping : Chomping) (t : List Char)
    (line column : Nat) :
    readBlockHeader ⟨(if known then ['2'] else []) ++ chomping.sign ++ '\n' :: t, line, column⟩ =
      .ok (⟨chomping, if known then some 2 else none⟩, ⟨t, line + 1, 0⟩) := by
  cases known <;> cases chomping <;> rfl

/-- A block scalar is read by its header, the line breaks before it and its lines. -/
theorem readBlock_of_lines (known : Bool) (chomping : Chomping) (line column : Nat) {margin : Nat}
    {body : List Char} {e : EmptyLines} {b : BlockText} (hmargin : 0 < margin)
    (he : readEmptyLines (if known then some (margin + 1) else none) 0 (line + 1) 0 body = .ok e)
    (hwidest : known = false → e.widest = margin + 1)
    (hb : readBlockLines false (margin + 1) true [] e.breaks e.next = .ok b) :
    readBlock false margin
        ⟨(if known then ['2'] else []) ++ chomping.sign ++ '\n' :: body, line, column⟩ =
      .ok (b.chomped chomping, b.next) := by
  rw [readBlock, readBlockHeader_signs]
  cases known with
  | false =>
    have hindent : max e.widest (max margin 1) = margin + 1 := by
      rw [hwidest rfl]
      omega
    simp only [Bool.false_eq_true, if_false] at he
    simp [bind, Except.bind, he, hindent, hb, pure, Except.pure]
  | true =>
    have hindent : margin - 1 + 2 = margin + 1 := by omega
    simp only [if_true] at he
    simp [bind, Except.bind, hindent, he, hb, pure, Except.pure]

/-! ## The line breaks at the end -/

/-- What becomes of the line breaks at the end of a text, if they are these. -/
def chompingFor : List Char → Chomping
  | [] => .strip
  | [_] => .clip
  | _ => .keep

theorem chompingSign_concat (s : List Char) (d c : Char) :
    chompingSign (s ++ [d, c]) =
      if !isBreak c then ['-'] else if isBreak d then ['+'] else [] := by
  simp [chompingSign]

/-- A text of more than one character has a last one and one before it. -/
theorem exists_concat {c : Char} {s : List Char} (hne : s ≠ []) :
    ∃ t x y, c :: s = t ++ [x, y] := by
  obtain ⟨s, y, rfl⟩ := (List.eq_nil_or_concat s).resolve_left hne
  obtain rfl | ⟨s, x, rfl⟩ := List.eq_nil_or_concat s
  · exact ⟨[], c, y, rfl⟩
  · exact ⟨c :: s, x, y, by simp⟩

/-- All line breaks of a text that has nothing else are kept. -/
theorem chompingSign_breaks {s : List Char} (hne : s ≠ []) (hs : ∀ c ∈ s, isBreak c = true) :
    chompingSign s = Chomping.keep.sign := by
  match s, hne with
  | [c], _ => simp [chompingSign, hs c, Chomping.sign]
  | c :: d :: s, _ =>
    obtain ⟨t, x, y, heq⟩ := exists_concat (c := c) (List.cons_ne_nil d s)
    rw [heq] at hs ⊢
    rw [chompingSign_concat, hs x (by simp), hs y (by simp)]
    rfl

/-- The sign tells what the line breaks at the end of a text are. -/
theorem chompingSign_append {s ends : List Char} (hne : s ≠ [])
    (hlast : ∀ c ∈ s.getLast?, isBreak c = false) (hends : ∀ c ∈ ends, isBreak c = true) :
    chompingSign (s ++ ends) = (chompingFor ends).sign := by
  obtain ⟨s, x, rfl⟩ := (List.eq_nil_or_concat s).resolve_left hne
  have hx : isBreak x = false := hlast x (by simp)
  rw [List.concat_eq_append, List.append_assoc, List.singleton_append]
  match ends, hends with
  | [], _ =>
    obtain rfl | ⟨s, y, rfl⟩ := List.eq_nil_or_concat s
    · simp [chompingSign, hx, chompingFor, Chomping.sign]
    · rw [List.concat_eq_append, List.append_assoc, List.singleton_append, chompingSign_concat, hx]
      rfl
  | [b], hends =>
    rw [chompingSign_concat, hx, hends b (by simp)]
    rfl
  | a :: b :: ends, hends =>
    show chompingSign (s ++ x :: a :: b :: ends) = Chomping.keep.sign
    obtain ⟨t, y, z, heq⟩ := exists_concat (c := a) (List.cons_ne_nil b ends)
    rw [heq] at hends ⊢
    rw [← List.cons_append, ← List.append_assoc, chompingSign_concat, hends y (by simp),
      hends z (by simp)]
    rfl

/-! ## The whole block -/

/-- The line break that ends the last line of a literal block, if the text does not. -/
def finalBreak (s : List Char) : List Char := if s.getLast?.any isBreak then [] else ['\n']

theorem printLines_append_breaks {indent s breaks : List Char}
    (hbreaks : ∀ c ∈ breaks, isBreak c = true) (lineStart : Bool) :
    printLines indent lineStart (s ++ breaks) = printLines indent lineStart s ++ breaks := by
  induction s generalizing lineStart with
  | nil =>
    by_cases hne : breaks = []
    · rw [hne]
      rfl
    · have h := printLines_breaks indent hne hbreaks lineStart []
      rwa [List.append_nil, printLines, List.append_nil] at h
  | cons c s ih =>
    rw [List.cons_append, printLines, printLines, ih, ih]
    split <;> simp

/-- A text of line breaks only. -/
theorem readBlock_breaks {s r : List Char} {margin k : Nat} (hne : s ≠ [])
    (hs : ∀ c ∈ s, isBreak c = true) (hmargin : 0 < margin) (hk : k ≤ margin) (hr : BeginsWord r)
    (line column : Nat) :
    ∃ line', readBlock false margin
        ⟨indentSign s ++ chompingSign s ++ '\n' :: (s ++ (spaces k ++ r)), line, column⟩ =
      .ok (s, ⟨r, line', k⟩) := by
  have hpast : Past isBreak r := fun c hc => (Bool.or_eq_false_iff.1 (hr c hc)).2
  obtain ⟨widest, he⟩ := readEmptyLines_breaks 0 (line + 1) hs (Nat.le_succ_of_le hk) hpast
    fun _ => hr
  have hsign : indentSign s = if true then ['2'] else [] := by
    obtain ⟨c, s, rfl⟩ := List.exists_cons_of_ne_nil hne
    simp [indentSign, hs c]
  have hlines := readBlockLines_end (line + 1 + s.length) true [] s (r := r) (Nat.lt_succ_of_le hk)
  refine ⟨line + 1 + s.length, ?_⟩
  rw [hsign, chompingSign_breaks hne hs]
  exact readBlock_of_lines true .keep line column hmargin he (fun h => Bool.noConfusion h) hlines

/-- A text with the line breaks before its first line and after its last one that is not empty. -/
structure LiteralParts (lead core ends : List Char) : Prop where
  lead : ∀ c ∈ lead, isBreak c = true
  ne_nil : core ≠ []
  past : Past isBreak core
  last : ∀ c ∈ core.getLast?, isBreak c = false
  ends : ∀ c ∈ ends, isBreak c = true

theorem breaks_or_parts (s : List Char) :
    (∀ c ∈ s, isBreak c = true) ∨
      ∃ lead core ends, s = lead ++ core ++ ends ∧ LiteralParts lead core ends := by
  obtain ⟨lead, rest, rfl, hlead, hrest⟩ := exists_past isBreak s
  by_cases hnil : rest = []
  · left
    rwa [hnil, List.append_nil]
  · right
    obtain ⟨ends, core, hsplit, hends, hcore⟩ := exists_past isBreak rest.reverse
    obtain rfl : rest = core.reverse ++ ends.reverse := by
      rw [← List.reverse_append, ← hsplit, List.reverse_reverse]
    have hne : core.reverse ≠ [] := by
      intro h
      rw [h, List.nil_append] at hrest hnil
      obtain ⟨c, t, ht⟩ := List.exists_cons_of_ne_nil hnil
      have hbreak := hends c (List.mem_reverse.1 (ht ▸ List.mem_cons_self))
      rw [hrest c (by rw [ht]; rfl)] at hbreak
      exact Bool.noConfusion hbreak
    refine ⟨lead, core.reverse, ends.reverse, by rw [List.append_assoc], hlead, hne, ?_, ?_, ?_⟩
    · exact fun c hc => hrest c (by rw [List.head?_append, Option.mem_def.1 hc]; rfl)
    · exact fun c hc => hcore c (by rwa [List.getLast?_reverse] at hc)
    · exact fun c hc => hends c (List.mem_reverse.1 hc)

namespace LiteralParts

variable {lead core ends : List Char}

theorem last_append (h : LiteralParts lead core ends) :
    ∀ c ∈ (lead ++ core).getLast?, isBreak c = false := by
  intro c hc
  rw [List.getLast?_append, List.getLast?_eq_some_getLast h.ne_nil, Option.some_or] at hc
  exact h.last c (by rwa [List.getLast?_eq_some_getLast h.ne_nil])

theorem finalBreak_eq (h : LiteralParts lead core ends) :
    finalBreak (lead ++ core ++ ends) = if ends = [] then ['\n'] else [] := by
  by_cases hnil : ends = []
  · have hnot : ¬ (lead ++ core ++ ends).getLast?.any isBreak = true := by
      rw [hnil, List.append_nil, Option.any_eq_true]
      rintro ⟨c, hc, hbreak⟩
      rw [h.last_append c hc] at hbreak
      exact Bool.noConfusion hbreak
    rw [finalBreak, if_pos hnil, if_neg hnot]
  · have hlast : (lead ++ core ++ ends).getLast?.any isBreak = true := by
      rw [List.getLast?_append, List.getLast?_eq_some_getLast hnil, Option.some_or]
      exact h.ends _ (List.getLast_mem hnil)
    rw [finalBreak, if_neg hnil, if_pos hlast]

/-- The lines as they are written. -/
theorem printLines_eq (h : LiteralParts lead core ends) (indent : List Char) :
    printLines indent true (lead ++ core ++ ends) =
      lead ++ (indent ++ (printLines indent false core ++ ends)) := by
  have hcore : printLines indent true core = indent ++ printLines indent false core := by
    obtain ⟨c, core, rfl⟩ := List.exists_cons_of_ne_nil h.ne_nil
    exact printLines_indent indent (past_cons.1 h.past) core
  rw [printLines_append_breaks h.ends, ← List.append_assoc indent, ← hcore, ← List.append_assoc]
  congr 1
  by_cases hnil : lead = []
  · rw [hnil]
    rfl
  · exact printLines_breaks indent hnil h.lead true core

/-- The text has a line break at its end when it is written, and keeps those that it had. -/
theorem exists_breaks (h : LiteralParts lead core ends) :
    ∃ b breaks, ends ++ finalBreak (lead ++ core ++ ends) = b :: breaks ∧
      (∀ c ∈ b :: breaks, isBreak c = true) ∧
      ∀ text next,
        BlockText.chomped ⟨text, [b], breaks, next⟩ (chompingFor ends) = text ++ ends := by
  rw [h.finalBreak_eq]
  match ends, h.ends with
  | [], _ => exact ⟨'\n', [], rfl, List.all_eq_true.1 (by decide),
      fun _ _ => by simp [chompingFor, BlockText.chomped]⟩
  | [b], hends => exact ⟨b, [], rfl, hends, fun _ _ => rfl⟩
  | b :: a :: ends, hends =>
    refine ⟨b, a :: ends, by simp, hends, fun _ _ => ?_⟩
    simp [chompingFor, BlockText.chomped]

/-- The line breaks before the first line of a text that is not empty, and its indent. -/
theorem exists_readEmptyLines (h : LiteralParts lead core ends)
    (hs : ∀ c ∈ core, isPrintable c = true) (margin line : Nat) (t : List Char) :
    let known := (lead ++ core ++ ends).head?.any fun c => c = ' ' || isBreak c
    let lines := printLines (spaces (margin + 1)) false core ++ t
    ∃ widest, readEmptyLines (if known then some (margin + 1) else none) 0 line 0
        (lead ++ (spaces (margin + 1) ++ lines)) =
          .ok ⟨lead, widest, ⟨lines, line + lead.length, margin + 1⟩⟩ ∧
      (known = false → widest = margin + 1) := by
  intro known lines
  obtain ⟨c, core, rfl⟩ := List.exists_cons_of_ne_nil h.ne_nil
  have hc : isBreak c = false := past_cons.1 h.past
  have hlines : lines = c :: (printLines (spaces (margin + 1)) false core ++ t) := by
    simp [lines, printLines, hc]
  cases hknown : known with
  | true =>
    obtain ⟨widest, he⟩ := readEmptyLines_breaks 0 line h.lead (Nat.le_refl (margin + 1))
      (hlines ▸ past_cons.2 hc) fun h => absurd h (Nat.lt_irrefl _)
    exact ⟨widest, he, fun h => Bool.noConfusion h⟩
  | false =>
    -- Without a sign for the indent, the text begins with a character of a word.
    obtain ⟨rfl, hspace⟩ : lead = [] ∧ c ≠ ' ' := by
      have hlead := h.lead
      clear_value lines
      cases lead with
      | nil => exact ⟨rfl, by simpa [known, hc] using hknown⟩
      | cons b lead => exact absurd hknown (by simp [known, hlead b List.mem_cons_self])
    have hword : BeginsWord lines := hlines ▸ past_cons.2
      ((isSpacing_eq_false_iff (hs c List.mem_cons_self)).2 ⟨hspace, hc⟩)
    have he := readEmptyLines_indent none 0 line 0 (margin + 1) rfl
      (hlines ▸ past_cons.2 hc) fun _ => hword
    rw [Nat.zero_add, Nat.zero_max] at he
    exact ⟨margin + 1, he, fun _ => rfl⟩

end LiteralParts

/-- **A text is read back from a literal block.** -/
theorem readBlock_literal {s r : List Char} {margin k : Nat} (hne : s ≠ [])
    (hs : ∀ c ∈ s, isPrintable c = true) (hmargin : 0 < margin) (hk : k ≤ margin)
    (hr : BeginsWord r) (line column : Nat) :
    ∃ line', readBlock false margin
        ⟨indentSign s ++ chompingSign s ++ '\n' ::
          (printLines (spaces (margin + 1)) true s ++ finalBreak s ++ (spaces k ++ r)),
          line, column⟩ =
      .ok (s, ⟨r, line', k⟩) := by
  obtain hbreaks | ⟨lead, core, ends, rfl, h⟩ := breaks_or_parts s
  · have hlast : s.getLast?.any isBreak = true := by
      rw [List.getLast?_eq_some_getLast hne]
      exact hbreaks _ (List.getLast_mem hne)
    have hlines := printLines_breaks (spaces (margin + 1)) hne hbreaks true []
    rw [List.append_nil, printLines, List.append_nil] at hlines
    rw [hlines, finalBreak, if_pos hlast, List.append_nil]
    exact readBlock_breaks hne hbreaks hmargin hk hr line column
  · obtain ⟨b, breaks, hends, hbreaks, hchomped⟩ := h.exists_breaks
    obtain ⟨widest, he, hwidest⟩ := h.exists_readEmptyLines (fun c hc => hs c (by simp [hc])) margin
      (line + 1) (b :: (breaks ++ (spaces k ++ r)))
    obtain ⟨line', hlines⟩ := readBlockLines_core (line + 1 + lead.length) true [] lead h.past
      h.last hbreaks (Nat.lt_succ_of_le hk) hr [] (by simp)
    have hblock := readBlock_of_lines _ (chompingFor ends) line column hmargin he hwidest hlines
    have hne' : lead ++ core ≠ [] := fun hnil => h.ne_nil (List.append_eq_nil_iff.1 hnil).2
    have hbody : printLines (spaces (margin + 1)) true (lead ++ core ++ ends) ++
        finalBreak (lead ++ core ++ ends) ++ (spaces k ++ r) =
          lead ++ (spaces (margin + 1) ++ (printLines (spaces (margin + 1)) false core ++
            b :: (breaks ++ (spaces k ++ r)))) := by
      rw [h.printLines_eq, ← List.cons_append, ← hends]
      simp only [List.append_assoc]
    refine ⟨line', ?_⟩
    rw [hbody, chompingSign_append hne' h.last_append h.ends]
    refine hblock.trans ?_
    rw [hchomped]
    simp

end CommentTags.Yaml
