import CommentTags.Proofs.Pattern.Preference
import CommentTags.Proofs.Scan.Placement

/-!
# Searching line by line

An expression whose matches stay on a line is searched for line by line: if a search takes at most
one match on each line, the matches in a scope are those of its lines, one after another.  This is
so for an expression that runs from somewhere on a line to the end of that line, and also for one
that begins at the start of a line, even if its match may be empty.

* `Scope.lines`, `Cursor.lines` — the lines of a scope, and those from a place on.
* `Cursor.ReadsLine` — the rest of a line is read.
* `Expression.SearchesLines` — a search takes at most one match on each line, and
  `Expression.SearchesLines.findAll_lines` is what follows from it.
* `Expression.FirstOn`, `Expression.TakesLine` — the match begins at the first place on the line
  where it can, and goes on to the end of the line.
* `Expression.TakesWholeLine` — every match begins at the start of a line.  On an empty line the
  match may be empty, but it is not taken again.
-/

set_option autoImplicit false

namespace CommentTags

open Text

/-! ## The lines of a scope -/

/-- Lines that begin at the given offset, each with a line feed after it. -/
def placeLines (offset : Nat) : List (List Char) → List Scope
  | [] => []
  | line :: lines => ⟨offset, line⟩ :: placeLines (offset + byteLength line + 1) lines

/-- The lines of a scope: what stands between its line feeds. -/
def Scope.lines (s : Scope) : List Scope :=
  placeLines s.offset (s.text.splitOn '\n')

/-- The lines from the place on. -/
def Cursor.lines (c : Cursor) : List Scope :=
  placeLines c.offset (c.rest.splitOn '\n')

/-- The place behind a line feed. -/
def Cursor.nextLine (c : Cursor) : Cursor :=
  ⟨c.offset + 1, some '\n', c.rest.tail⟩

theorem Cursor.lines_of_not_mem {c : Cursor} (h : '\n' ∉ c.rest) :
    c.lines = [⟨c.offset, c.rest⟩] := by
  rw [Cursor.lines, List.splitOn_eq_singleton h]
  rfl

theorem Cursor.lines_of_reads {c d : Cursor} {line rest : List Char} (h : c.Reads line d)
    (hline : '\n' ∉ line) (hd : d.rest = '\n' :: rest) :
    c.lines = ⟨c.offset, line⟩ :: d.nextLine.lines := by
  rw [Cursor.lines, h.rest, hd, List.splitOn_append_cons_self_of_not_mem hline, placeLines,
    Cursor.lines, Cursor.nextLine, h.offset, hd]
  rfl

theorem Cursor.reads_nextLine {c : Cursor} {rest : List Char} (h : c.rest = '\n' :: rest) :
    c.Reads ['\n'] c.nextLine := by
  obtain ⟨offset, before, _⟩ := c
  cases h
  exact .step offset before '\n' rest

/-- Induction from the last line back to the first one. -/
theorem Cursor.lines_induction {motive : Cursor → Prop} (last : ∀ c, '\n' ∉ c.rest → motive c)
    (more : ∀ c d line rest, '\n' ∉ line → c.Reads line d → d.rest = '\n' :: rest →
      motive d.nextLine → motive c) (c : Cursor) : motive c := by
  induction hn : c.rest.length using Nat.strongRecOn generalizing c with
  | ind n ih =>
    by_cases hfeed : '\n' ∈ c.rest
    · obtain ⟨line, rest, hrest, hline⟩ := List.eq_append_cons_of_mem hfeed
      obtain ⟨d, hread, hd⟩ := Cursor.exists_reads hrest
      have hlen := hread.length_eq
      have hnext : d.nextLine.rest = rest := congrArg List.tail hd
      rw [hd, List.length_cons] at hlen
      exact more c d line rest hline hread hd (ih _ (by rw [hnext]; omega) _ rfl)
    · exact last c hfeed

/-- **The lines lie in the scope**, at their offsets. -/
theorem Scope.within_of_mem_lines {s line : Scope} (h : line ∈ s.lines) : line.Within s := by
  have hlines (c : Cursor) : ∀ line ∈ c.lines, line.Within ⟨c.offset, c.rest⟩ := by
    induction c using Cursor.lines_induction with
    | last c hfeed =>
      rw [Cursor.lines_of_not_mem hfeed, List.forall_mem_singleton]
      exact .refl _
    | more c d line rest hline hread hd ih =>
      have hrest := hread.rest
      rw [hd] at hrest
      rw [Cursor.lines_of_reads hread hline hd, List.forall_mem_cons]
      refine ⟨⟨[], '\n' :: rest, hrest, rfl⟩, fun x hx => (ih x hx).trans ?_⟩
      refine ⟨line ++ ['\n'], [], ?_, ?_⟩
      · simp [hrest, Cursor.nextLine, hd]
      · simp only [Cursor.nextLine, hread.offset, byteLength_append, Nat.add_assoc]
        rfl
  exact hlines s.start line h

theorem Scope.feed_not_mem_of_mem_lines {s line : Scope} (h : line ∈ s.lines) :
    '\n' ∉ line.text := by
  have hlines (c : Cursor) : ∀ line ∈ c.lines, '\n' ∉ line.text := by
    induction c using Cursor.lines_induction with
    | last c hfeed =>
      rw [Cursor.lines_of_not_mem hfeed, List.forall_mem_singleton]
      exact hfeed
    | more c d line rest hline hread hd ih =>
      rw [Cursor.lines_of_reads hread hline hd, List.forall_mem_cons]
      exact ⟨hline, ih⟩
  exact hlines s.start line h

/-- The line begins at the place and goes on up to the next line feed, or to the end. -/
structure Cursor.BeginsLine (c : Cursor) (line : Scope) (tail : List Char) : Prop where
  atLineStart : c.atLineStart = true
  offset : c.offset = line.offset
  rest : c.rest = line.text ++ tail
  inLine : '\n' ∉ line.text
  tail : ∀ a ∈ tail.head?, a = '\n'

/-- Where a text without line feeds goes on up to a line feed or to the end, it is the whole
line. -/
theorem append_line_inj {v w s t : List Char} (h : v ++ s = w ++ t) (hv : '\n' ∉ v) (hw : '\n' ∉ w)
    (hs : ∀ a ∈ s.head?, a = '\n') (ht : ∀ a ∈ t.head?, a = '\n') : v = w ∧ s = t := by
  have hnil {u z : List Char} (hu : '\n' ∉ u) (hz : ∀ a ∈ (u ++ z).head?, a = '\n') : u = [] := by
    cases u with
    | nil => rfl
    | cons a u => exact absurd (hz a rfl ▸ List.mem_cons_self) hu
  rcases List.append_eq_append_iff.1 h with ⟨z, rfl, rfl⟩ | ⟨z, rfl, rfl⟩
  · obtain rfl := hnil (fun hz => hw (List.mem_append_right v hz)) hs
    exact ⟨(List.append_nil v).symm, rfl⟩
  · obtain rfl := hnil (fun hz => hv (List.mem_append_right w hz)) ht
    exact ⟨List.append_nil w, rfl⟩

theorem Cursor.head?_of_atLineEnd {c : Cursor} (h : c.atLineEnd = true) :
    ∀ a ∈ c.rest.head?, a = '\n' := by
  rw [Cursor.atLineEnd] at h
  cases hrest : c.rest with
  | nil => simp
  | cons a rest =>
    rw [hrest] at h
    simpa using h

/-- The rest of a line is read, up to the place where the line ends. -/
structure Cursor.ReadsLine (c : Cursor) (w : List Char) (d : Cursor) : Prop where
  reads : c.Reads w d
  inLine : '\n' ∉ w
  atLineEnd : d.atLineEnd = true

namespace Cursor.ReadsLine

variable {c d e : Cursor} {v w : List Char}

/-- A line ends at one place. -/
theorem unique (hd : c.ReadsLine v d) (he : c.ReadsLine w e) : v = w ∧ d = e := by
  obtain ⟨rfl, -⟩ := append_line_inj (hd.reads.rest.symm.trans he.reads.rest) hd.inLine he.inLine
    (Cursor.head?_of_atLineEnd hd.atLineEnd) (Cursor.head?_of_atLineEnd he.atLineEnd)
  exact ⟨rfl, hd.reads.unique he.reads⟩

theorem trans (hd : c.Reads v d) (hv : '\n' ∉ v) (he : d.ReadsLine w e) :
    c.ReadsLine (v ++ w) e :=
  ⟨hd.trans he.reads, fun h => (List.mem_append.1 h).elim hv he.inLine, he.atLineEnd⟩

/-- The rest of the line after a first part of it. -/
theorem of_append (hd : c.Reads v d) (he : c.ReadsLine (v ++ w) e) : d.ReadsLine w e :=
  ⟨hd.of_append he.reads, fun h => he.inLine (List.mem_append_right v h), he.atLineEnd⟩

theorem nil (hd : d.atLineEnd = true) : d.ReadsLine [] d :=
  ⟨.refl d, List.not_mem_nil, hd⟩

/-- What is read without a line feed is a first part of the line. -/
theorem exists_append (hd : c.ReadsLine w d) (he : c.Reads v e) (hv : '\n' ∉ v) :
    ∃ u, w = v ++ u ∧ e.ReadsLine u d := by
  rcases List.append_eq_append_iff.1 (he.rest.symm.trans hd.reads.rest) with
    ⟨u, rfl, -⟩ | ⟨u, rfl, hu⟩
  · exact ⟨u, rfl, of_append he hd⟩
  · cases u with
    | nil => exact ⟨[], by simp, of_append he (by simpa using hd)⟩
    | cons a u =>
      -- the line would go on
      obtain rfl := Cursor.head?_of_atLineEnd hd.atLineEnd a (by rw [hu]; rfl)
      simp at hv

end Cursor.ReadsLine

theorem Cursor.exists_readsLine (c : Cursor) : ∃ line d, c.ReadsLine line d := by
  by_cases hfeed : '\n' ∈ c.rest
  · obtain ⟨line, rest, hrest, hline⟩ := List.eq_append_cons_of_mem hfeed
    obtain ⟨d, hread, hd⟩ := Cursor.exists_reads hrest
    exact ⟨line, d, hread, hline, by rw [Cursor.atLineEnd, hd]; rfl⟩
  · obtain ⟨d, hread, hd⟩ := Cursor.exists_reads (List.append_nil c.rest).symm
    exact ⟨c.rest, d, hread, hfeed, by rw [Cursor.atLineEnd, hd]⟩

/-- The lines behind the end of a line. -/
def Cursor.linesBehind (c : Cursor) : List Scope :=
  match c.rest with
  | [] => []
  | _ :: _ => c.nextLine.lines

theorem Cursor.ReadsLine.lines_eq {c d : Cursor} {line : List Char} (h : c.ReadsLine line d) :
    c.lines = ⟨c.offset, line⟩ :: d.linesBehind := by
  rw [Cursor.linesBehind]
  cases hrest : d.rest with
  | nil =>
    have hline := h.reads.rest
    rw [hrest, List.append_nil] at hline
    rw [Cursor.lines_of_not_mem (hline ▸ h.inLine), hline]
  | cons a rest =>
    obtain rfl := Cursor.head?_of_atLineEnd h.atLineEnd a (by rw [hrest]; rfl)
    exact Cursor.lines_of_reads h.reads h.inLine hrest

/-- The line that begins at a place is read from there. -/
theorem Cursor.BeginsLine.exists_readsLine {c : Cursor} {line : Scope} {tail : List Char}
    (hc : c.BeginsLine line tail) : ∃ d, c.ReadsLine line.text d := by
  obtain ⟨d, hread, hd⟩ := Cursor.exists_reads hc.rest
  refine ⟨d, hread, hc.inLine, ?_⟩
  rw [Cursor.atLineEnd, hd]
  cases tail with
  | nil => rfl
  | cons a tail => exact beq_iff_eq.2 (hc.tail a rfl)

/-! ## Searches that go from line to line -/

namespace Expression

variable {e : Expression} {c d : Cursor} {line rest : List Char}

/-- From the start of each line, the search takes at most one match, of which `P` holds, and goes on
behind the end of the line. -/
def SearchesLines (e : Expression) (P : Cursor → List Char → Option Match → Prop) : Prop :=
  ∀ ⦃c d : Cursor⦄ ⦃line : List Char⦄, c.atLineStart = true → c.ReadsLine line d →
    ∃ m?, P c line m? ∧ e.matchesFrom true c = m?.toList ++ e.matchesBehind d

/-- Behind a line feed the next line begins. -/
theorem matchesBehind_of_feed (hd : d.rest = '\n' :: rest) :
    e.matchesBehind d = e.matchesFrom true d.nextLine := by
  rw [matchesBehind, Cursor.next?, hd, Cursor.nextLine, hd]
  rfl

theorem matchesBehind_of_end (hd : d.rest = []) : e.matchesBehind d = [] := by
  rw [matchesBehind, Cursor.next?, hd]

namespace SearchesLines

variable {P : Cursor → List Char → Option Match → Prop} (h : e.SearchesLines P)
include h

/-- **A search goes line by line.**  It takes at most one match on each line. -/
theorem matchesFrom_lines (hc : c.atLineStart = true) :
    ∃ ms, List.Forall₂
        (fun line m? => ∃ d tail, d.BeginsLine line tail ∧ P d line.text m?) c.lines ms ∧
      e.matchesFrom true c = ms.reduceOption := by
  induction c using Cursor.lines_induction with
  | last c hfeed =>
    obtain ⟨d, hread, hd⟩ := Cursor.exists_reads (List.append_nil c.rest).symm
    obtain ⟨m?, hm, hsearch⟩ := h hc ⟨hread, hfeed, by rw [Cursor.atLineEnd, hd]⟩
    refine ⟨[m?], ?_, ?_⟩
    · rw [Cursor.lines_of_not_mem hfeed]
      exact .cons ⟨c, [], ⟨hc, rfl, (List.append_nil _).symm, hfeed, by simp⟩, hm⟩ .nil
    · rw [hsearch, matchesBehind_of_end hd, List.append_nil]
      cases m? <;> rfl
  | more c d line rest hline hread hd ih =>
    obtain ⟨m?, hm, hsearch⟩ := h hc ⟨hread, hline, by rw [Cursor.atLineEnd, hd]; rfl⟩
    obtain ⟨ms, hms, hmatches⟩ := ih rfl
    refine ⟨m? :: ms, ?_, ?_⟩
    · rw [Cursor.lines_of_reads hread hline hd]
      refine .cons ⟨c, '\n' :: rest, ⟨hc, rfl, ?_, hline, by simp⟩, hm⟩ hms
      rw [hread.rest, hd]
    · rw [hsearch, matchesBehind_of_feed hd, hmatches]
      cases m? <;> rfl

theorem findAll_lines (s : Scope) :
    ∃ ms, List.Forall₂
        (fun line m? => ∃ d tail, d.BeginsLine line tail ∧ P d line.text m?) s.lines ms ∧
      e.findAll s.offset s.text = ms.reduceOption :=
  h.matchesFrom_lines (c := .atStart s.offset s.text) rfl

end SearchesLines

end Expression

/-! ## The first match on a line -/

namespace Expression

/-- The match begins at the first place on the line where there is one; or there is none on the
whole line. -/
def FirstOn (e : Expression) (c : Cursor) (line : List Char) : Option Match → Prop
  | none => ∀ u v d, line = u ++ v → c.Reads u d → e.partsAt d = none
  | some m => e.partsAt m.start = some (m.parts, m.stop) ∧
    ∃ w v, line = w ++ v ∧ c.Reads w m.start ∧
      ∀ u v d, line = u ++ v → u.length < w.length → c.Reads u d → e.partsAt d = none

/-- Every match reads something and goes on to the end of the line where it begins. -/
def TakesLine (e : Expression) : Prop :=
  ∀ ⦃c stop : Cursor⦄ ⦃parts : List Part⦄, e.partsAt c = some (parts, stop) →
    ∃ w, w ≠ [] ∧ c.ReadsLine w stop

variable {e : Expression} {c d : Cursor} {line : List Char} {m? : Option Match}

/-- A character where no match begins may come before. -/
theorem FirstOn.cons {a : Char} (hc : e.partsAt c = none) (hd : c.Reads [a] d)
    (h : e.FirstOn d line m?) : e.FirstOn c (a :: line) m? := by
  -- every other place of the line is one of the places after the character
  have hlater {u v : List Char} {x : Cursor} (huv : a :: line = u ++ v) (hx : c.Reads u x) :
      x = c ∨ ∃ u', u = a :: u' ∧ line = u' ++ v ∧ d.Reads u' x := by
    cases u with
    | nil => exact .inl (hx.unique (.refl c))
    | cons b u =>
      obtain ⟨rfl, rfl⟩ := List.cons.inj huv
      exact .inr ⟨u, rfl, rfl, hd.of_append hx⟩
  cases m? with
  | none =>
    intro u v x huv hx
    rcases hlater huv hx with rfl | ⟨u, rfl, hline, hx⟩
    · exact hc
    · exact h u v x hline hx
  | some m =>
    obtain ⟨hm, w, v, hwv, hw, hleast⟩ := h
    refine ⟨hm, a :: w, v, by rw [hwv, List.cons_append], hd.trans hw, ?_⟩
    intro u v x huv hlt hx
    rcases hlater huv hx with rfl | ⟨u, rfl, hline, hx⟩
    · exact hc
    · exact hleast u v x hline (Nat.lt_of_succ_lt_succ hlt) hx

namespace TakesLine

variable (he : e.TakesLine)
include he

theorem neverEmpty : e.NeverEmpty := by
  intro c stop parts h
  obtain ⟨w, hne, hw⟩ := he h
  have hpos := List.length_pos_of_ne_nil hne
  have hlen := hw.reads.length_eq
  omega

/-- Nothing begins at the end of a line. -/
theorem partsAt_of_atLineEnd (hc : c.atLineEnd = true) : e.partsAt c = none := by
  refine Option.eq_none_iff_forall_ne_some.2 fun r hr => ?_
  obtain ⟨parts, stop⟩ := r
  obtain ⟨w, hne, hw⟩ := he hr
  exact hne (hw.unique (.nil hc)).1

/-- The search on one line takes the first match on it and goes on behind the end of the line. -/
theorem exists_firstOn (hread : c.ReadsLine line d) (fresh : Bool) :
    ∃ m?, e.FirstOn c line m? ∧ e.matchesFrom fresh c = m?.toList ++ e.matchesBehind d := by
  induction line generalizing c fresh with
  | nil =>
    obtain rfl := hread.reads.unique (.refl c)
    have hnone := he.partsAt_of_atLineEnd hread.atLineEnd
    refine ⟨none, fun u v x huv hx => ?_, he.neverEmpty.matchesFrom_of_none fresh hnone⟩
    obtain ⟨rfl, rfl⟩ := List.append_eq_nil_iff.1 huv.symm
    exact hx.unique (.refl d) ▸ hnone
  | cons a line ih =>
    cases h : e.partsAt c with
    | some r =>
      obtain ⟨parts, stop⟩ := r
      obtain ⟨w, -, hw⟩ := he h
      obtain ⟨-, rfl⟩ := hw.unique hread
      refine ⟨some ⟨c, parts, stop⟩, ⟨h, [], a :: line, rfl, .refl c, ?_⟩, ?_⟩
      · exact fun _ _ _ _ hlt => absurd hlt (Nat.not_lt_zero _)
      · rw [he.neverEmpty.matchesFrom_of_some fresh h,
          he.neverEmpty.matchesFrom_of_none false (he.partsAt_of_atLineEnd hread.atLineEnd)]
        rfl
    | none =>
      obtain ⟨offset, before, rest⟩ := c
      obtain ⟨rest, rfl, hnext⟩ := hread.reads.exists_step
      obtain ⟨m?, hfirst, hsearch⟩ :=
        ih ⟨hnext, fun h => hread.inLine (.tail a h), hread.atLineEnd⟩ true
      refine ⟨m?, .cons h (.step offset before a rest) hfirst, ?_⟩
      rw [he.neverEmpty.matchesFrom_of_none fresh h, ← hsearch]
      rfl

theorem searchesLines : e.SearchesLines e.FirstOn := fun _ _ _ _ hread =>
  he.exists_firstOn hread true

theorem findAll_lines (s : Scope) :
    ∃ ms, List.Forall₂
        (fun line m? => ∃ d tail, d.BeginsLine line tail ∧ e.FirstOn d line.text m?) s.lines ms ∧
      e.findAll s.offset s.text = ms.reduceOption :=
  he.searchesLines.findAll_lines s

end TakesLine

/-! ## Matches that begin at the start of a line -/

/-- Every match begins at the start of a line. -/
def StartsLine (e : Expression) : Prop :=
  ∀ c, (e.partsAt c).isSome → c.atLineStart = true

/-- Inside a line nothing begins, so the search goes on behind what is read of it. -/
theorem StartsLine.matchesFrom_eq (he : e.StartsLine) {fresh : Bool}
    (hc : e.acceptedAt fresh c = none) (hline : '\n' ∉ line) (hread : c.Reads line d) :
    e.matchesFrom fresh c = e.matchesBehind d := by
  induction line generalizing c fresh with
  | nil =>
    obtain rfl := hread.unique (.refl c)
    exact matchesFrom_of_acceptedAt hc
  | cons a line ih =>
    obtain ⟨offset, before, rest⟩ := c
    obtain ⟨rest, rfl, hnext⟩ := hread.exists_step
    rw [List.mem_cons, not_or] at hline
    -- the place after a character of the line is not the start of a line
    have hnone : e.partsAt ⟨offset + a.utf8Size, some a, rest⟩ = none := by
      refine Option.not_isSome_iff_eq_none.1 fun hsome => hline.1 ?_
      exact (beq_iff_eq.1 (he _ hsome)).symm
    have hnext' : e.acceptedAt true ⟨offset + a.utf8Size, some a, rest⟩ = none := by
      rw [acceptedAt, matchAt, hnone]
      rfl
    rw [matchesFrom_of_acceptedAt hc]
    exact ih hnext' hline.2 hnext

/-- Every match begins at the start of a line and goes on to the end of that line. -/
structure TakesWholeLine (e : Expression) : Prop where
  starts : e.StartsLine
  stops : ∀ ⦃c stop : Cursor⦄ ⦃parts : List Part⦄, e.partsAt c = some (parts, stop) →
    ∃ w, c.ReadsLine w stop

/-- The match of each line is the one that begins at its start.  On an empty line it may be empty,
but it is not taken again. -/
theorem TakesWholeLine.searchesLines (he : e.TakesWholeLine) :
    e.SearchesLines fun c _ m? => e.matchAt c = m? := by
  intro c d line hc hread
  refine ⟨e.matchAt c, rfl, ?_⟩
  have haccepted : e.acceptedAt true c = e.matchAt c := by
    rw [acceptedAt]
    cases e.matchAt c <;> rfl
  cases h : e.matchAt c with
  | none => exact he.starts.matchesFrom_eq (haccepted.trans h) hread.inLine hread.reads
  | some m =>
    obtain ⟨⟨parts, stop⟩, hparts, rfl⟩ := Option.map_eq_some_iff.1 h
    obtain ⟨w, hw⟩ := he.stops hparts
    obtain ⟨rfl, rfl⟩ := hw.unique hread
    -- what matches at the end of the line matches nothing
    have hagain : e.acceptedAt false stop = none := by
      rw [acceptedAt, Option.filter_eq_none_iff]
      intro m hm
      obtain ⟨⟨parts', stop'⟩, hparts', rfl⟩ := Option.map_eq_some_iff.1 hm
      obtain ⟨w', hw'⟩ := he.stops hparts'
      obtain ⟨-, rfl⟩ := hw'.unique (.nil hread.atLineEnd)
      simp
    have hbehind := he.starts.matchesFrom_eq hagain List.not_mem_nil (.refl stop)
    rw [matchesFrom, haccepted, h]
    cases w with
    | nil =>
      obtain rfl := hw.reads.unique (.refl c)
      simp [hbehind]
    | cons a w =>
      have hlt : stop.rest.length < c.rest.length := by
        have hlen := hw.reads.length_eq
        rw [List.length_cons] at hlen
        omega
      simp [hlt, hbehind]

end Expression

end CommentTags
