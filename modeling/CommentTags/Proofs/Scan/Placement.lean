import CommentTags.Proofs.Scan.Equivariance

/-!
# Where the parts of a scan lie

A scan looks at a scope, at the interiors of the block comments in it and at the bodies of its
fences.  Each of these is again a part of the document with the offset where it begins.

* `Scope.Within` — one scope lies inside another, and `Scope.Within.slice?_eq`: what lies within a
  document is read from it by its offsets.
* `Expression.exists_part_of_mem_findAll` — the part of a named piece, and where it lies.
* `Match.TaggedUpTo` — a tagged comment lies on one line of its scope, whatever kind of comment it
  is.
* `interior_within`, `blockRegion_within`, `docRegion_within` — interiors lie inside the scope.
* `mem_fences` — so do the bodies of fences, and a body never begins where the scope begins, since
  its opening line stands before it.
-/

set_option autoImplicit false

namespace CommentTags

/-- Where the scope stops. -/
def Scope.stop (s : Scope) : Nat :=
  s.offset + Text.byteLength s.text

/-- The inner scope is a part of the outer one. -/
def Scope.Within (inner outer : Scope) : Prop :=
  ∃ front back, outer.text = front ++ (inner.text ++ back) ∧
    inner.offset = outer.offset + Text.byteLength front

namespace Scope.Within

variable {a b c : Scope}

theorem refl (a : Scope) : a.Within a := ⟨[], [], by simp, rfl⟩

theorem trans (hab : a.Within b) (hbc : b.Within c) : a.Within c := by
  obtain ⟨front, back, hb, ha⟩ := hab
  obtain ⟨front', back', hc, hb'⟩ := hbc
  refine ⟨front' ++ front, back ++ back', by simp [hc, hb], ?_⟩
  rw [ha, hb', Text.byteLength_append, Nat.add_assoc]

theorem offset_le (h : a.Within b) : b.offset ≤ a.offset := by
  obtain ⟨front, back, -, ha⟩ := h
  omega

theorem stop_le (h : a.Within b) : a.stop ≤ b.stop := by
  obtain ⟨front, back, hb, ha⟩ := h
  rw [Scope.stop, Scope.stop, hb, ha, Text.byteLength_append, Text.byteLength_append]
  omega

/-- What lies within a document is read from it by its offsets. -/
theorem slice?_eq {text : List Char} (h : a.Within (.document text)) :
    Text.slice? text a.offset a.stop = some a.text := by
  obtain ⟨front, back, hb, ha⟩ := h
  refine Text.slice?_eq_some_iff.2 ⟨front, back, hb, ?_, rfl⟩
  rw [ha, Scope.document, Nat.zero_add]

end Scope.Within

theorem Scope.within_document (text : List Char) (start stop : Nat) :
    (Scope.within text start stop).Within (.document text) := by
  rw [Scope.within]
  split
  · next part h =>
    obtain ⟨front, back, hs, hf, -⟩ := Text.slice?_eq_some_iff.1 h
    exact ⟨front, back, hs, by rw [hf, Scope.document, Nat.zero_add]⟩
  · exact ⟨[], text, rfl, rfl⟩

/-! ## Places of a scope -/

/-- Where a search in the scope begins. -/
def Scope.start (s : Scope) : Cursor :=
  .atStart s.offset s.text

/-- The text between two places of a scope lies within it. -/
theorem Cursor.Reads.within {s : Scope} {c d : Cursor} {u v : List Char} (hc : s.start.Reads u c)
    (hd : c.Reads v d) : Scope.Within ⟨c.offset, v⟩ s :=
  ⟨u, d.rest, hc.rest.trans (by rw [hd.rest]), hc.offset⟩

theorem Expression.exists_reads_of_mem_findAll {e : Expression} {s : Scope} {m : Match}
    (h : m ∈ e.findAll s.offset s.text) :
    ∃ w, s.start.Reads w m.start ∧ e.Splits m.start m.parts m.stop :=
  exists_reads_of_mem_matchesFrom h

/-- The part of a named piece of a match, and where it lies in the scope. -/
theorem Expression.exists_part_of_mem_findAll {e f : Expression} {p : Piece} {n : PieceName}
    {s : Scope} {m : Match} (h : m ∈ Expression.findAll (e ++ p :: f) s.offset s.text)
    (hp : p.name = some n) (hn : e.all (·.name != some n)) :
    ∃ part u v w, m.part? n = some part ∧ s.start.Reads u part.start ∧
      part.start.Reads v part.stop ∧ part.stop.Reads w m.stop := by
  obtain ⟨u, hu, hs⟩ := exists_reads_of_mem_findAll h
  obtain ⟨ps, part, qs, -, hpart, he, hd, hf⟩ := hs.exists_part hp hn
  obtain ⟨u', hu'⟩ := he.exists_reads
  obtain ⟨v, hv⟩ := Pattern.exists_reads hd
  obtain ⟨w, hw⟩ := hf.exists_reads
  exact ⟨part, u ++ u', v, w, hpart, hu.trans hu', hv, hw⟩

/-! ## Tagged comments -/

/-- The match has a tag, and what stands between the tag and the given place is on one line. -/
def Match.TaggedUpTo (m : Match) (s : Scope) (stop : Cursor) : Prop :=
  ∃ tag u v w, m.part? .tag = some tag ∧ s.start.Reads u tag.start ∧ tag.start.Reads v tag.stop ∧
    tag.stop.Reads w stop ∧ '\n' ∉ w

section

variable {tags : Registry} {s : Scope} {e f : Expression} {m : Match}

/-- The tag of a match, and the cut of what follows it. -/
theorem exists_tag_of_mem_findAll
    (hm : m ∈ Expression.findAll (e ++ tagPiece tags :: f) s.offset s.text)
    (he : e.all (·.name != some .tag)) :
    ∃ ps tag qs u v, m.parts = ps ++ tag :: qs ∧ m.part? .tag = some tag ∧
      e.Splits m.start ps tag.start ∧ s.start.Reads u tag.start ∧ tag.start.Reads v tag.stop ∧
      f.Splits tag.stop qs m.stop := by
  obtain ⟨u, hu, hs⟩ := Expression.exists_reads_of_mem_findAll hm
  obtain ⟨ps, tag, qs, hparts, htag, hps, hd, hf⟩ := hs.exists_part (n := .tag) rfl he
  obtain ⟨u', hu'⟩ := hps.exists_reads
  obtain ⟨v, hv⟩ := Pattern.exists_reads hd
  exact ⟨ps, tag, qs, u ++ u', v, hparts, htag, hps, hu.trans hu', hv, hf⟩

theorem taggedUpTo_stop (hm : m ∈ Expression.findAll (e ++ tagPiece tags :: f) s.offset s.text)
    (he : e.all (·.name != some .tag)) (hf : ∀ p ∈ f, p.pattern.ReadsOnly (· ≠ '\n')) :
    m.TaggedUpTo s m.stop := by
  obtain ⟨ps, tag, qs, u, v, -, htag, -, hu, hv, hqs⟩ := exists_tag_of_mem_findAll hm he
  obtain ⟨w, hw, hline⟩ := hqs.exists_reads_of_readsOnly hf
  exact ⟨tag, u, v, w, htag, hu, hv, hw, fun hn => hline _ hn rfl⟩

/-- A comment that ends with a named rest may be followed by what is not a part of it. -/
theorem taggedUpTo_lineStop {p : Piece}
    (hm : m ∈ Expression.findAll (e ++ tagPiece tags :: p :: f) s.offset s.text)
    (het : e.all (·.name != some .tag)) (her : e.all (·.name != some .rest))
    (hp : p.name = some .rest) (hpline : p.pattern.ReadsOnly (· ≠ '\n')) :
    m.TaggedUpTo s m.lineStop := by
  obtain ⟨ps, tag, qs, u, v, hparts, htag, hps, hu, hv, hqs⟩ := exists_tag_of_mem_findAll hm het
  cases hqs with
  | @cons _ _ _ d _ qs hd hqs =>
    obtain ⟨w, hw, hline⟩ := Pattern.exists_reads_of_mem_ends hpline hd
    have hname : tag.name = some .tag := by simpa using List.find?_some htag
    have hrest : m.part? .rest = some ⟨p.name, tag.stop, d⟩ := by
      rw [Match.part?, hparts, List.find?_append, hps.find?_eq_none her, Option.none_or,
        List.find?_cons_of_neg (by rw [hname]; decide), List.find?_cons_of_pos (by simp [hp])]
    refine ⟨tag, u, v, w, htag, hu, hv, ?_, fun hn => hline _ hn rfl⟩
    rw [Match.lineStop, hrest]
    exact hw

/-- What stands before the tag of a line comment has no name. -/
theorem lineOpening_unnamed (p : Profile) (n : PieceName) :
    (lineOpening p).all (·.name != some n) := by
  rw [lineOpening]
  split <;> rfl

theorem taggedUpTo_of_mem_lineExpression {p : Profile}
    (hm : m ∈ (lineExpression p tags).findAll s.offset s.text) : m.TaggedUpTo s m.lineStop := by
  have het := lineOpening_unnamed p .tag
  have her := lineOpening_unnamed p .rest
  have hin : ∀ a, CharClass.inLine.contains a → a ≠ '\n' := by simp [CharClass.contains]
  rw [lineExpression, lineRest] at hm
  split at hm
  · exact taggedUpTo_lineStop hm het her rfl hin
  · exact taggedUpTo_lineStop hm het her rfl hin

theorem taggedUpTo_of_mem_listExpression
    (hm : m ∈ (listExpression tags).findAll s.offset s.text) : m.TaggedUpTo s m.stop := by
  refine taggedUpTo_stop (e := (listExpression tags).take 5) hm rfl ?_
  simp [Pattern.named, Pattern.ReadsOnly, CharClass.contains]

theorem lineBody_readsOnly : ∀ p ∈ lineBody, p.pattern.ReadsOnly (· ≠ '\n') := by
  simp [lineBody, Pattern.piece, Pattern.ReadsOnly, CharClass.contains]

theorem taggedUpTo_of_mem_blockLineExpression
    (hm : m ∈ (blockLineExpression tags).findAll s.offset s.text) : m.TaggedUpTo s m.stop :=
  taggedUpTo_stop (e := (blockLineExpression tags).take 2) hm rfl lineBody_readsOnly

theorem taggedUpTo_of_mem_docLineExpression
    (hm : m ∈ (docLineExpression tags).findAll s.offset s.text) : m.TaggedUpTo s m.stop :=
  taggedUpTo_stop (e := (docLineExpression tags).take 4) hm rfl lineBody_readsOnly

end

/-! ## Interiors and bodies -/

/-- The interior of a region as a part of the document. -/
def Region.scope (r : Region) : Scope :=
  ⟨r.interior.start.offset, r.interior.text⟩

theorem Region.scope_rename (ρ : Renaming) (r : Region) :
    (r.rename ρ).scope = r.scope.rename ρ :=
  congrArg (Scope.mk _) (Part.text_rename r.interior)

theorem interior_within {e f : Expression} {p : Piece} {s : Scope} {r : Region}
    (hp : p.name = some .interior) (hn : e.all (·.name != some .interior))
    (h : r ∈ regions (e ++ p :: f) s) : r.scope.Within s := by
  rw [regions, List.mem_filterMap] at h
  obtain ⟨m, hm, h⟩ := h
  obtain ⟨part, u, v, w, hpart, hu, hv, -⟩ := Expression.exists_part_of_mem_findAll hm hp hn
  rw [hpart, Option.map_some, Option.some_inj] at h
  subst h
  rw [Region.scope, Part.text, hv.upTo_eq]
  exact hu.within hv

theorem blockRegion_within {p : Profile} {s : Scope} {r : Region} (h : r ∈ blockRegions p s) :
    r.scope.Within s := by
  rw [blockRegions] at h
  split at h
  · exact interior_within (e := (blockExpression p).take 2) rfl rfl h
  · simp at h

theorem docRegion_within {s : Scope} {r : Region} (h : r ∈ regions docExpression s) :
    r.scope.Within s :=
  interior_within (e := docExpression.take 2) rfl rfl h

/-- The pieces of a fence before its body. -/
def fenceOpening : Expression := fenceExpression.take 8

theorem fenceExpression_eq :
    fenceExpression = fenceOpening ++ (Pattern.lazyRun .any).named .body :: fenceMark := rfl

/-- The opening line of a fence is not empty: it ends in a line feed. -/
theorem exists_reads_of_splits_fenceOpening {c d : Cursor} {parts : List Part}
    (h : fenceOpening.Splits c parts d) : ∃ w, c.Reads w d ∧ w ≠ [] := by
  obtain ⟨ps, c', qs, -, hopen, hlf⟩ := h.of_append (e := fenceOpening.take 7)
  obtain ⟨w, hw⟩ := hopen.exists_reads
  cases hlf with
  | cons hlf hnil =>
    cases hnil
    obtain ⟨a, ha, -⟩ := exists_reads_of_mem_ends_one hlf
    exact ⟨w ++ [a], hw.trans ha, by simp⟩

/-- **The body of a fence** lies in the scope, but never at its start. -/
theorem mem_fences {s : Scope} {f : Fence} (h : f ∈ fences s) :
    f.body.Within s ∧ s.offset < f.body.offset ∧ f.language = Language.canonical f.hint := by
  rw [fences, List.mem_filterMap] at h
  obtain ⟨m, hm, h⟩ := h
  obtain ⟨u, hu, hs⟩ := Expression.exists_reads_of_mem_findAll hm
  rw [fenceExpression_eq] at hs
  obtain ⟨ps, body, qs, -, hpart, he, hd, -⟩ := hs.exists_part (n := .body) rfl rfl
  replace hpart : m.part? .body = some body := hpart
  obtain ⟨v, hv⟩ := Pattern.exists_reads hd
  obtain ⟨w, hw, hne⟩ := exists_reads_of_splits_fenceOpening he
  rw [hpart, Option.map_some, Option.some_inj] at h
  have hscope : f.body = ⟨body.start.offset, body.text⟩ := by rw [← h]
  have hlang : f.language = Language.canonical f.hint := by rw [← h]
  have hbody := hu.trans hw
  rw [hscope]
  refine ⟨?_, ?_, hlang⟩
  · rw [Part.text, hv.upTo_eq]
    exact hbody.within hv
  · have h1 := hbody.offset
    have h2 := Text.length_le_byteLength w
    have h3 := List.length_pos_iff.2 hne
    rw [Text.byteLength_append, show s.start.offset = s.offset from rfl] at h1
    simp only
    omega

end CommentTags
