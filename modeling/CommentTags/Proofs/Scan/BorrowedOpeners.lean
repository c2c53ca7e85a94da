import CommentTags.Proofs.Findings.Order
import CommentTags.Proofs.Pattern.LineTails
import CommentTags.Proofs.Scan.LineComments
import CommentTags.Proofs.Scan.Regions
import CommentTags.Proofs.Scan.Soundness

/-!
# Line comments with the opener of a block comment

In a language without line comments, what opens a block comment opens a line comment too.  The same
comment is then found twice, once as a line comment and once as a line of a block comment.  In both
ways its body goes on to where something closes the block comment, or to the end of the line, and
there is only one such body after a tag.  So the two findings are one.

* `StopsBefore`, `StopsBefore.unique` — the line up to a word or to its end, and that this is one
  text.
* `Finding.EndsBefore` — what both kinds of findings have in common.
* `PrefixFree` — no tag is the beginning of a longer one; otherwise the two scans could take
  different tags at one place.
* `Finding.EndsBefore.eq` — two findings that begin at one place are the same.
* `lineFindings_borrowed` — a borrowed opener never finds a comment twice.
-/

set_option autoImplicit false

namespace CommentTags

open Text

/-! ## Bodies of comments -/

/-- The line goes on to where the word first stands, or to its end. -/
structure StopsBefore (word line back : List Char) : Prop where
  inLine : '\n' ∉ line
  stop : StandsAt word back ∨ ∀ a ∈ back.head?, a = '\n'
  first : ∀ u v, line = u ++ v → v ≠ [] → ¬StandsAt word (v ++ back)

theorem StopsBefore.eq_nil {word v s z t : List Char} (h : StopsBefore word v s)
    (h' : StopsBefore word (v ++ z) t) (hs : s = z ++ t) : z = [] := by
  by_contra hz
  rcases h.stop with hstop | hstop
  · exact h'.first v z rfl hz (hs ▸ hstop)
  · obtain ⟨a, z, rfl⟩ := List.exists_cons_of_ne_nil hz
    obtain rfl : a = '\n' := hstop a (by rw [hs]; rfl)
    exact h'.inLine (by simp)

/-- **Only one body stops before a word.** -/
theorem StopsBefore.unique {word v w s t : List Char} (h : StopsBefore word v s)
    (h' : StopsBefore word w t) (heq : v ++ s = w ++ t) : v = w := by
  rcases List.append_eq_append_iff.1 heq with ⟨z, rfl, hs⟩ | ⟨z, rfl, ht⟩
  · rw [h.eq_nil h' hs, List.append_nil]
  · rw [h'.eq_nil h ht, List.append_nil]

/-- A scope cut at a finding: the text that is matched by a tag, and the body after it. -/
structure Finding.CutAt (tags : Registry) (s : Scope) (f : Finding)
    (front word body back : List Char) : Prop where
  text : s.text = front ++ (word ++ (body ++ back))
  start : f.start = s.offset + byteLength front
  stop : f.stop = f.start + byteLength (word ++ body)
  spells : SpellsOneOf tags.words word
  style : tags.find? word = some f.style

/-- What is cut in a part of a scope is cut in the scope. -/
theorem Finding.CutAt.mono {tags : Registry} {inner outer : Scope} {f : Finding}
    {front word body back u v : List Char} (h : f.CutAt tags inner front word body back)
    (htext : outer.text = u ++ (inner.text ++ v))
    (hoffset : inner.offset = outer.offset + byteLength u) :
    f.CutAt tags outer (u ++ front) word body (back ++ v) where
  text := by
    rw [htext, h.text]
    simp only [List.append_assoc]
  start := by rw [h.start, hoffset, byteLength_append, Nat.add_assoc]
  stop := h.stop
  spells := h.spells
  style := h.style

/-- After its tag the finding goes on up to the given word, or to the end of the line, but for white
space. -/
def Finding.EndsBefore (close : List Char) (tags : Registry) (s : Scope) (f : Finding) : Prop :=
  ∃ front word line white back, f.CutAt tags s front word (trimEnd line) (white ++ back) ∧
    line = trimEnd line ++ white ∧ StopsBefore close line back

/-- No word is the beginning of a longer one, up to letter case. -/
def PrefixFree (words : List (List Char)) : Prop :=
  ∀ v ∈ words, ∀ w ∈ words, v.map fold <+: w.map fold → v.length = w.length

instance (words : List (List Char)) : Decidable (PrefixFree words) :=
  inferInstanceAs (Decidable (∀ v ∈ words, ∀ w ∈ words,
    v.map fold <+: w.map fold → v.length = w.length))

/-- Of such words only one stands at the beginning of a text. -/
theorem PrefixFree.append_inj {words : List (List Char)} (h : PrefixFree words)
    {v w s t : List Char} (hv : SpellsOneOf words v) (hw : SpellsOneOf words w)
    (heq : v ++ s = w ++ t) : v = w ∧ s = t := by
  obtain ⟨v', hv', hvs⟩ := hv
  obtain ⟨w', hw', hws⟩ := hw
  have hlen : v'.length = w'.length := by
    have hstarts {u u' s : List Char} (hu : Spells u' u) : u'.map fold <+: (u ++ s).map fold := by
      rw [spells_iff.1 hu, List.map_append]
      exact List.prefix_append _ _
    rcases List.prefix_or_prefix_of_prefix (hstarts hvs (s := s)) (heq ▸ hstarts hws (s := t)) with
      hpre | hpre
    · exact h v' hv' w' hw' hpre
    · exact (h w' hw' v' hv' hpre).symm
  exact List.append_inj heq (hvs.length_eq.trans (hlen.trans hws.length_eq.symm))

/-- **Where two findings begin at one place, they are the same.** -/
theorem Finding.EndsBefore.eq {close : List Char} {tags : Registry} {s : Scope} {f g : Finding}
    (htags : PrefixFree tags.words) (hf : f.EndsBefore close tags s)
    (hg : g.EndsBefore close tags s) (h : f.start = g.start) : f = g := by
  obtain ⟨front, word, line, white, back, hcut, hline, hstops⟩ := hf
  obtain ⟨front', word', line', white', back', hcut', hline', hstops'⟩ := hg
  have hbytes : byteLength front = byteLength front' := by
    have h1 := hcut.start
    have h2 := hcut'.start
    omega
  obtain ⟨rfl, hrest⟩ := append_inj_of_byteLength (hcut.text.symm.trans hcut'.text) hbytes
  obtain ⟨rfl, hbodies⟩ := htags.append_inj hcut.spells hcut'.spells hrest
  rw [← List.append_assoc, ← List.append_assoc, ← hline, ← hline'] at hbodies
  obtain rfl := hstops.unique hstops' hbodies
  obtain ⟨style, start, stop⟩ := f
  obtain ⟨style', start', stop'⟩ := g
  obtain rfl : start = start' := h
  obtain rfl : style = style' := Option.some_inj.1 (hcut.style.symm.trans hcut'.style)
  obtain rfl : stop = stop' := hcut.stop.trans hcut'.stop.symm
  rfl

/-! ## Both ways to find a comment -/

section

variable {tags : Registry} {s : Scope} {f : Finding}

/-- The tag of a match, and what is taken for the rest of the expression after it. -/
theorem exists_tag_of_mem_matches {opening tail : Expression} {m : Match}
    (hopening : opening.all (·.name != some .tag))
    (hm : m ∈ Expression.findAll (opening ++ tagPiece tags :: tail) s.offset s.text) :
    ∃ ps d e qs front word, m.parts = ps ++ ⟨some .tag, d, e⟩ :: qs ∧
      m.part? .tag = some ⟨some .tag, d, e⟩ ∧ opening.Splits m.start ps d ∧
      tail.partsAt e = some (qs, m.stop) ∧ s.start.Reads front d ∧ d.Reads word e ∧
      SpellsOneOf tags.words word := by
  obtain ⟨u, hu, -⟩ := Expression.exists_reads_of_mem_findAll hm
  obtain ⟨ps, d, qs, hparts, hps, h⟩ :=
    Expression.exists_of_partsAt_append (Expression.partsAt_of_mem_matchesFrom hm)
  obtain ⟨e, he, qs, rfl, hqs⟩ := Expression.exists_mem_of_partsAt_cons h
  obtain ⟨v, hv⟩ := hps.exists_reads
  obtain ⟨word, hword, hspells⟩ := (Pattern.accepts_oneOf tags.words d e).1 he
  refine ⟨ps, d, e, qs, u ++ v, word, hparts, ?_, hps, hqs, hu.trans hv, hword, hspells⟩
  rw [Match.part?, hparts, hps.find?_append hopening]
  rfl

variable {p : Profile}

/-- The rest of a line comment with a borrowed opener stops where the block comment is closed. -/
theorem exists_of_lineRest (hborrows : p.borrowsOpener = true) {e stop : Cursor} {qs : List Part}
    (h : (lineRest p).partsAt e = some (qs, stop)) :
    ∃ d line ps, qs = ⟨some .rest, e, d⟩ :: ps ∧ e.Reads line d ∧
      StopsBefore p.blockEnd line d.rest := by
  rw [lineRest, if_pos hborrows] at h
  obtain ⟨d, line, ps, rfl, hps, hline, hin, hfirst⟩ := Expression.exists_of_partsAt_lazyRun h
  have hstop (x : Cursor) : ((lineEndOr p.blockEnd).partsAt x).isSome ↔
      StandsAt p.blockEnd x.rest ∨ x.atLineEnd = true := by
    rw [lineEndOr_partsAt, Option.isSome_map, Option.isSome_or, Bool.or_eq_true,
      isSome_literalEnd_iff]
    cases x.atLineEnd <;> simp
  refine ⟨d, line, ps, rfl, hline, forall_inLine_iff.1 hin, ?_, fun u v huv hv hstands => ?_⟩
  · have hsome : ((lineEndOr p.blockEnd).partsAt d).isSome := by
      rw [lineEndOr, hps]
      rfl
    exact ((hstop d).1 hsome).imp_right Cursor.head?_of_atLineEnd
  · obtain ⟨x, hx, hnone⟩ := hfirst u v huv hv
    have hsome := (hstop x).2 (.inl (hx.rest ▸ hstands))
    rw [lineEndOr, hnone] at hsome
    exact Bool.noConfusion hsome

theorem endsBefore_of_mem_lineFindings (hborrows : p.borrowsOpener = true)
    (hf : f ∈ lineFindings p tags s) : f.EndsBefore p.blockEnd tags s := by
  rw [lineFindings] at hf
  split at hf
  · obtain ⟨m, hm, hf⟩ := List.mem_filterMap.1 hf
    split at hf
    · simp at hf
    · obtain ⟨ps, d, e, qs, front, word, hparts, htag, hps, hqs, hd, he, hword⟩ :=
        exists_tag_of_mem_matches (lineOpening_unnamed p .tag) hm
      obtain ⟨stop, line, rs, rfl, hline, hstops⟩ := exists_of_lineRest hborrows hqs
      have hrest : m.part? .rest = some ⟨some .rest, e, stop⟩ := by
        rw [Match.part?, hparts, hps.find?_append (lineOpening_unnamed p .rest)]
        rfl
      rw [htag, hrest] at hf
      obtain ⟨white, hwhite, htext, hstart, hstop, hstyle⟩ :=
        exists_cut_of_findingAt? hd he hline hf
      exact ⟨front, word, line, white, stop.rest, ⟨htext, hstart, hstop, hword, hstyle⟩, hwhite,
        hstops⟩
  · simp at hf

/-- A line of a block comment goes on to the end of the line, or of the interior. -/
theorem exists_of_lineBody {e stop : Cursor} {qs : List Part}
    (h : lineBody.partsAt e = some (qs, stop)) :
    ∃ line, e.ReadsLine line stop := by
  have hsplits := Expression.splits_of_partsAt h
  obtain ⟨line, hline, hfeed⟩ := hsplits.exists_reads_of_readsOnly lineBody_readsOnly
  refine ⟨line, hline, fun hn => hfeed _ hn rfl, ?_⟩
  obtain ⟨_, d, _, -, -, hend⟩ := Expression.Splits.of_append (e := lineBody.take 3) hsplits
  cases hend with
  | cons hd hnil =>
    cases hnil
    rw [Pattern.piece, Pattern.ends] at hd
    split at hd
    · next hatEnd => rwa [List.mem_singleton.1 hd]
    · simp at hd

theorem endsBefore_of_mem_blockFindings (hf : f ∈ blockFindings p tags s) :
    f.EndsBefore p.blockEnd tags s := by
  obtain ⟨r, hr, hf⟩ := List.mem_flatMap.1 hf
  obtain ⟨x, hx, hcovers⟩ := exists_enclosure_of_mem_blockRegions hr
  obtain ⟨m, hm, hf⟩ := List.mem_filterMap.1 hf
  have hm' : m ∈ Expression.findAll
      ([Pattern.lineStart.piece, (Pattern.run .blank).piece] ++ tagPiece tags :: lineBody)
      r.scope.offset r.scope.text := hm
  obtain ⟨ps, d, e, qs, front, word, -, htag, -, hqs, hd, he, hword⟩ :=
    exists_tag_of_mem_matches rfl hm'
  obtain ⟨line, hline, hfeed, hend⟩ := exists_of_lineBody hqs
  rw [Match.finding?, htag, Option.bind_some] at hf
  obtain ⟨white, hwhite, htext, hstart, hstop, hstyle⟩ := exists_cut_of_findingAt? hd he hline hf
  have hinterior : x.interior = front ++ (word ++ (line ++ m.stop.rest)) := by
    rw [← hline.rest, ← he.rest, ← hd.rest]
    exact hcovers.interior_text.symm
  obtain ⟨hscope, hoffset⟩ := hcovers.scope_eq hx
  have hcut : f.CutAt tags r.scope front word (trimEnd line) (white ++ m.stop.rest) :=
    ⟨htext, hstart, hstop, hword, hstyle⟩
  have hcut' := hcut.mono hscope hoffset
  rw [List.append_assoc white] at hcut'
  refine ⟨_, word, line, white, _, hcut', hwhite, hfeed, ?_, fun u v huv hv => ?_⟩
  · cases hrest : m.stop.rest with
    | nil => exact .inl ⟨x.close, x.back, rfl, hx.close⟩
    | cons a rest =>
      refine .inr fun b hb => ?_
      exact Cursor.head?_of_atLineEnd hend b (hrest ▸ hb)
  · -- the rest of the interior follows the line
    have h := hx.interior (front ++ (word ++ u)) (v ++ m.stop.rest)
      (by rw [hinterior, huv]; simp only [List.append_assoc])
      (List.append_ne_nil_of_left_ne_nil hv _)
    rwa [List.append_assoc] at h

end

/-- **A borrowed opener never finds a comment twice.**  The body of a line comment has no place
where something closes the block comment, and a line of a block comment that begins where a line
comment begins is the same finding, so one range is collected for both. -/
theorem lineFindings_borrowed {p : Profile} {tags : Registry} (hborrows : p.borrowsOpener = true)
    (htags : PrefixFree tags.words) (s : Scope) :
    (∀ f ∈ lineFindings p tags s, ∃ front word body back, f.CutAt tags s front word body back ∧
      ∀ u v, body = u ++ v → v ≠ [] → ¬StandsAt p.blockEnd (v ++ back)) ∧
    ∀ f ∈ lineFindings p tags s, ∀ g ∈ blockFindings p tags s, f.start = g.start →
      f = g ∧ ((Collected.collect tags
        (lineFindings p tags s ++ blockFindings p tags s)).rangesFor f.style).count f.span = 1 := by
  refine ⟨fun f hf => ?_, fun f hf g hg h => ⟨?_, ?_⟩⟩
  · obtain ⟨front, word, line, white, back, hcut, hline, hstops⟩ :=
      endsBefore_of_mem_lineFindings hborrows hf
    refine ⟨front, word, trimEnd line, white ++ back, hcut, fun u v huv hv => ?_⟩
    have h := hstops.first u (v ++ white) (by rw [← List.append_assoc, ← huv, ← hline])
      (List.append_ne_nil_of_left_ne_nil hv _)
    rwa [List.append_assoc] at h
  · exact (endsBefore_of_mem_lineFindings hborrows hf).eq htags
      (endsBefore_of_mem_blockFindings hg) h
  · obtain ⟨front, word, line, white, back, hcut, -⟩ := endsBefore_of_mem_lineFindings hborrows hf
    obtain ⟨⟨tag, htag, -⟩, -⟩ := Registry.exists_tag_of_find? hcut.style
    rw [Collected.rangesFor, Collected.getElem?_groups_collect, htag]
    refine List.count_eq_one_of_mem (Collected.nodup_rangesOf _ _) ?_
    exact Collected.mem_rangesOf.2 (List.mem_append_left _ hf)

set_option maxRecDepth 20000 in
/-- A comment that is closed on its line, and one that is closed on the next one. -/
theorem lineFindings_borrowed_html :
    let p := Profile.of "html" (some ⟨none, some ("<!--", "-->")⟩) {}
    let tags : Registry := ⟨[⟨"todo", {}⟩, ⟨"!", {}⟩]⟩
    let s : Scope := .document "<!-- TODO a --> x\n<!-- ! b\n -->".toList
    p.borrowsOpener = true ∧ PrefixFree tags.words ∧
      lineFindings p tags s = [⟨0, 5, 11⟩, ⟨1, 23, 26⟩] ∧
      blockFindings p tags s = [⟨0, 5, 11⟩, ⟨1, 23, 26⟩] ∧
      ((Collected.collect tags
        (lineFindings p tags s ++ blockFindings p tags s)).rangesFor 0).count ⟨5, 11⟩ = 1 := by
  intro p tags s
  have hfree : PrefixFree tags.words := by decide
  have hlines : lineFindings p tags s = [⟨0, 5, 11⟩, ⟨1, 23, 26⟩] := by cbv
  have hblocks : blockFindings p tags s = [⟨0, 5, 11⟩, ⟨1, 23, 26⟩] := by cbv
  exact ⟨by decide, hfree, hlines, hblocks, ((lineFindings_borrowed (by decide) hfree s).2
    ⟨0, 5, 11⟩ (hlines ▸ List.mem_cons_self) ⟨0, 5, 11⟩ (hblocks ▸ List.mem_cons_self) rfl).2⟩

end CommentTags
