import Mathlib
import CommentTags.Proofs.Findings.Collection
import CommentTags.Proofs.Pattern.Alternatives
import CommentTags.Proofs.Scan.Runs
import CommentTags.Proofs.Text.Lowercase

/-!
# The order of tags decides ties only

If no tag is the beginning of another one, a comment has one tag at most, and declaring the tags in
another order only numbers the groups anew.  The order of the tags is looked at in two ways: it is
the order in which a pattern tries the tags, and the position of a tag is its number in a finding.
Nothing else in a scan has to know the order, so each kind of comment is found again with its number
changed.

* `Registry.Relabels` — the two ways in one: patterns stop first where they did, and a tag is found
  at its new place.
* `lineFindings_relabel` and its like — each function finds the same, with new numbers.
* `Highlighter.CompilesAlike` — the engine does not tell the two lists of tags apart.
* `NoPrefix`, `Registry.relabels_perm` — a permutation of such tags only gives them other numbers.
* `Highlighter.scanRange_perm` — what two scans report.
-/

set_option autoImplicit false

namespace CommentTags

/-- The finding with another number for its tag. -/
def Finding.relabel (place : Nat → Nat) (f : Finding) : Finding :=
  { f with style := place f.style }

/-- The second registry has the tags of the first one at other places: patterns stop first where they
did, and the tag of a text is found at its new place. -/
structure Registry.Relabels (place : Nat → Nat) (r r' : Registry) : Prop where
  isEmpty_eq : r'.isEmpty = r.isEmpty
  sameFirst : ∀ c, SameFirst ((Pattern.oneOf r'.words).ends c) ((Pattern.oneOf r.words).ends c)
  find?_eq : ∀ text, r'.find? text = (r.find? text).map place

/-! ## Comments -/

section

variable {place : Nat → Nat} {tags tags' : Registry} (h : tags.Relabels place tags')
include h

theorem Registry.Relabels.findAll_eq (e f : Expression) (s : Scope) :
    Expression.findAll (e ++ tagPiece tags' :: f) s.offset s.text =
      Expression.findAll (e ++ tagPiece tags :: f) s.offset s.text :=
  Expression.findAll_congr
    (Expression.partsAt_congr (p := tagPiece tags') (q := tagPiece tags) rfl h.sameFirst e f) _ _

theorem findingAt?_relabel (tag : Part) (stop : Cursor) :
    findingAt? tags' tag stop = (findingAt? tags tag stop).map (·.relabel place) := by
  rw [findingAt?, findingAt?, h.find?_eq, Option.map_map, Option.map_map]
  rfl

theorem Match.finding?_relabel (m : Match) :
    m.finding? tags' = (m.finding? tags).map (·.relabel place) := by
  rw [Match.finding?, Match.finding?, Option.map_bind]
  simp only [findingAt?_relabel h]
  rfl

theorem lineFindings_relabel (p : Profile) (s : Scope) :
    lineFindings p tags' s = (lineFindings p tags s).map (·.relabel place) := by
  rw [lineFindings, lineFindings, lineExpression, h.findAll_eq,
    lineExpression]
  split
  · rw [List.map_filterMap]
    refine List.filterMap_congr fun m _ => ?_
    split
    · rfl
    · rw [Option.map_bind]
      simp only [findingAt?_relabel h]
      rfl
  · rfl

theorem Region.findings_relabel (e f : Expression) (r : Region) :
    r.findings tags' (e ++ tagPiece tags' :: f) =
      (r.findings tags (e ++ tagPiece tags :: f)).map (·.relabel place) := by
  rw [Region.findings, Region.findings, List.map_filterMap,
    h.findAll_eq e f ⟨r.interior.start.offset, r.interior.text⟩]
  exact List.filterMap_congr fun m _ => Match.finding?_relabel h m

theorem blockFindings_relabel (p : Profile) (s : Scope) :
    blockFindings p tags' s = (blockFindings p tags s).map (·.relabel place) := by
  rw [blockFindings, blockFindings, List.map_flatMap]
  exact List.flatMap_congr fun r _ => Region.findings_relabel h [_, _] lineBody r

theorem docFindings_relabel (p : Profile) (s : Scope) :
    docFindings p tags' s = (docFindings p tags s).map (·.relabel place) := by
  rw [docFindings, docFindings]
  split
  · rw [List.map_flatMap]
    exact List.flatMap_congr fun r _ => Region.findings_relabel h [_, _, _, _] lineBody r
  · rfl

theorem listFindings_relabel (p : Profile) (s : Scope) :
    listFindings p tags' s = (listFindings p tags s).map (·.relabel place) := by
  rw [listFindings, listFindings]
  split
  · rw [List.map_filterMap]
    have hall : (listExpression tags').findAll s.offset s.text =
        (listExpression tags).findAll s.offset s.text := h.findAll_eq [_, _, _, _, _] [_] s
    rw [hall]
    exact List.filterMap_congr fun m _ => Match.finding?_relabel h m
  · rfl

end

/-! ## Scans -/

namespace Highlighter

section

variable {m : Type → Type} [Monad m] [Engine]

/-- The engine does not tell the two lists of tags apart: the grammars of a language compile with both
of them or with neither, whatever the source answers. -/
def CompilesAlike (tags tags' : Registry) (t : Toggles) (resolve : SyntaxSource m)
    (languages : List String) : Prop :=
  ∀ language ∈ languages,
    Ensures (fun answer => (grammarOf ⟨tags', t⟩ language answer).compiles =
        (grammarOf ⟨tags, t⟩ language answer).compiles)
      (resolve (Language.canonical language))

theorem CompilesAlike.mono {tags tags' : Registry} {t : Toggles} {resolve : SyntaxSource m}
    {languages languages' : List String} (h : CompilesAlike tags tags' t resolve languages)
    (hsub : languages' ⊆ languages) : CompilesAlike tags tags' t resolve languages' :=
  fun _ hl => h _ (hsub hl)

end

variable {place : Nat → Nat} {tags tags' : Registry} {t : Toggles}
  (h : tags.Relabels place tags')
include h

theorem commentFindings_relabel (p : Profile) (s : Scope) :
    commentFindings ⟨tags', t⟩ p s =
      (commentFindings ⟨tags, t⟩ p s).map (·.relabel place) := by
  rw [commentFindings, commentFindings, lineFindings_relabel h, blockFindings_relabel h,
    List.map_append]

variable {m : Type → Type} [Monad m] [LawfulMonad m] [Engine] {resolve : SyntaxSource m}

theorem fenceFindings_relabel {f : Fence}
    (halike : CompilesAlike tags tags' t resolve [f.language]) :
    fenceFindings ⟨tags', t⟩ resolve f =
      List.map (·.relabel place) <$> fenceFindings ⟨tags, t⟩ resolve f := by
  rw [fenceFindings, fenceFindings, map_bind]
  refine profile_bind_eq_bind (h := ⟨tags, t⟩) (halike _ (List.mem_singleton_self _))
    fun answer hanswer => ?_
  rw [grammarOf, grammarOf] at hanswer
  rw [map_pure, commentFindings_relabel h, looksAt, looksAt, hanswer]
  split <;> rfl

theorem findingsIn_relabel {p : Profile} {s : Scope}
    (hp : (Grammar.of p tags').compiles = (Grammar.of p tags).compiles)
    (halike : p.markdown = true →
      CompilesAlike tags tags' t resolve ((fences s).map (·.language))) :
    findingsIn ⟨tags', t⟩ resolve p s =
      List.map (·.relabel place) <$> findingsIn ⟨tags, t⟩ resolve p s := by
  rw [findingsIn, findingsIn, commentFindings_relabel h, docFindings_relabel h,
    listFindings_relabel h, ← List.map_append, ← List.map_append, looksAt, looksAt, hp]
  split
  · rw [map_pure]; rfl
  split
  · rw [map_pure]
  next hmarkdown =>
  have hfences : ∀ f ∈ fences s, fenceFindings ⟨tags', t⟩ resolve f =
      List.map (·.relabel place) <$> fenceFindings ⟨tags, t⟩ resolve f := fun f hf =>
    fenceFindings_relabel h (List.forall_mem_singleton.2
      (halike (by simpa using hmarkdown) _ (List.mem_map_of_mem hf)))
  rw [mapM_congr hfences, mapM_map_result, bind_map_left, map_bind]
  refine bind_congr fun found => ?_
  simp only [map_pure, List.map_append, List.map_flatten]

theorem findings_relabel {text : String} {start stop : Nat} {language : String}
    (halike : CompilesAlike tags tags' t resolve (languages ⟨tags, t⟩ text start stop language)) :
    findings ⟨tags', t⟩ resolve language (Scope.within text.toList start stop) =
      List.map (·.relabel place) <$>
        findings ⟨tags, t⟩ resolve language (Scope.within text.toList start stop) := by
  rw [findings_eq_bind, findings_eq_bind, h.isEmpty_eq]
  split
  · rw [map_pure]; rfl
  next htags =>
  rw [map_bind]
  exact profile_bind_eq_bind (h := ⟨tags, t⟩) (halike _ (mem_languages htags)) fun answer hanswer =>
    findingsIn_relabel h hanswer fun hp => halike.mono (fences_subset_languages htags hp)

end Highlighter

/-! ## Tags in another order -/

section

variable {n : Nat} {t : Fin n → Tag} (σ : Equiv.Perm (Fin n))

/-- Where the tag with a number stands after the permutation. -/
def newPlace (i : Nat) : Nat :=
  if h : i < n then σ.symm ⟨i, h⟩ else i

theorem newPlace_eq_iff {i : Fin n} {j : Nat} : newPlace σ j = i ↔ j = σ i := by
  rw [newPlace]
  split
  · next hj => rw [← Fin.ext_iff, Equiv.symm_apply_eq, Fin.ext_iff]
  · next hj => 
    have h1 := i.isLt
    have h2 := (σ i).isLt
    omega

/-- The tags are written in ASCII, and none of them is, in whatever case, where another one
begins. -/
structure NoPrefix (t : Fin n → Tag) : Prop where
  ascii : ∀ i, ∀ a ∈ (t i).marker.toList, a.toNat < 0x80
  apart : ∀ i j, i ≠ j →
    ¬(t i).marker.toList.map Char.toLower <+: (t j).marker.toList.map Char.toLower

theorem words_ofFn : (⟨List.ofFn t⟩ : Registry).words = List.ofFn fun i => (t i).marker.toList :=
  List.map_ofFn

/-- Different tags are different in lowercase. -/
theorem NoPrefix.eq_of_lowercase_eq (h : NoPrefix t) {i j : Fin n}
    (hij : Text.lowercase (t i).marker.toList = Text.lowercase (t j).marker.toList) : i = j := by
  rw [Text.lowercase, Text.lowercase, Text.lowercaseAfter_of_ascii (h.ascii i),
    Text.lowercaseAfter_of_ascii (h.ascii j)] at hij
  by_contra hne
  exact h.apart i j hne (hij ▸ List.prefix_rfl)

theorem find?_ofFn_eq_some_iff (h : NoPrefix t) {text : List Char} {i : Nat} :
    (⟨List.ofFn t⟩ : Registry).find? text = some i ↔
      ∃ hi : i < n, Text.lowercase (t ⟨i, hi⟩).marker.toList = Text.lowercase text := by
  rw [Registry.find?, words_ofFn, List.findIdx?_eq_some_iff_getElem]
  simp only [List.length_ofFn, List.getElem_ofFn, beq_iff_eq]
  refine ⟨?_, ?_⟩
  · rintro ⟨hi, htext, -⟩
    exact ⟨hi, htext⟩
  rintro ⟨hi, htext⟩
  refine ⟨hi, htext, fun j hj hj' => ?_⟩
  -- an earlier tag with the same lowercase would be this one
  have heq := h.eq_of_lowercase_eq (hj'.trans htext.symm)
  exact Nat.lt_irrefl _ (Fin.mk.inj heq ▸ hj)

theorem NoPrefix.perm (h : NoPrefix t) : NoPrefix (t ∘ σ) where
  ascii i := h.ascii (σ i)
  apart i j hij := h.apart (σ i) (σ j) (σ.injective.ne hij)

/-- **Another order of the tags only gives them other numbers.** -/
theorem Registry.relabels_perm (h : NoPrefix t) :
    (⟨List.ofFn t⟩ : Registry).Relabels (newPlace σ) ⟨List.ofFn (t ∘ σ)⟩ where
  isEmpty_eq := by
    cases n with
    | zero => rfl
    | succ n => rw [Registry.isEmpty, Registry.isEmpty, List.ofFn_succ, List.ofFn_succ]; rfl
  sameFirst c := by
    refine .of_eq ?_
    rw [words_ofFn, words_ofFn]
    refine (Pattern.ends_oneOf_perm (σ.ofFn_comp_perm fun i => (t i).marker.toList).symm
      ?_ ?_ c).symm
    · rw [List.forall_mem_ofFn_iff]
      exact h.ascii
    · rw [List.pairwise_ofFn]
      exact fun i j hij => ⟨h.apart i j hij.ne, h.apart j i hij.ne'⟩
  find?_eq text := by
    refine Option.ext fun i => ?_
    rw [find?_ofFn_eq_some_iff (h.perm σ), Option.map_eq_some_iff]
    simp only [find?_ofFn_eq_some_iff h]
    constructor
    · rintro ⟨hi, htext⟩
      refine ⟨σ ⟨i, hi⟩, ⟨(σ ⟨i, hi⟩).isLt, htext⟩, ?_⟩
      exact (newPlace_eq_iff σ (i := ⟨i, hi⟩)).2 rfl
    · rintro ⟨j, ⟨hj, htext⟩, rfl⟩
      have hplace : newPlace σ j = (σ.symm ⟨j, hj⟩ : Nat) := dif_pos hj
      rw [hplace]
      refine ⟨(σ.symm ⟨j, hj⟩).isLt, ?_⟩
      rw [Function.comp_apply, Fin.eta, Equiv.apply_symm_apply]
      exact htext

end

/-- The groups of the tags in another order: each tag keeps its ranges. -/
def Collected.reorder {n : Nat} (t : Fin n → Tag) (σ : Equiv.Perm (Fin n)) (c : Collected) :
    Collected :=
  ⟨List.ofFn fun i => ⟨i, (t (σ i)).marker, c.rangesFor (σ i)⟩⟩

namespace Collected

variable {n : Nat} (t : Fin n → Tag) (σ : Equiv.Perm (Fin n))

/-- The ranges of a tag stay its ranges, if its number is given to no other tag. -/
theorem rangesOf_relabel {place : Nat → Nat} {i j : Nat} (h : ∀ k, place k = i ↔ k = j)
    (found : List Finding) : rangesOf i (found.map (·.relabel place)) = rangesOf j found := by
  have hfilter : (found.map (·.relabel place)).filter (·.style == i) =
      (found.filter (·.style == j)).map (·.relabel place) := by
    rw [List.filter_map]
    congr 2
    funext f
    rw [Function.comp_apply, Bool.eq_iff_iff, beq_iff_eq, beq_iff_eq]
    exact h f.style
  rw [rangesOf, rangesOf, hfilter, List.map_map]
  rfl

theorem collect_reorder (found : List Finding) :
    collect ⟨List.ofFn (t ∘ σ)⟩ (found.map (·.relabel (newPlace σ))) =
      (collect ⟨List.ofFn t⟩ found).reorder t σ := by
  have hranges (j : Fin n) : (collect ⟨List.ofFn t⟩ found).rangesFor j = rangesOf j found := by
    rw [rangesFor, getElem?_groups_collect, Registry.tag?, List.getElem?_ofFn, dif_pos j.isLt]
    rfl
  simp only [reorder, hranges]
  refine congrArg Collected.mk (List.ext_getElem? fun i => ?_)
  rw [List.getElem?_mapIdx, List.getElem?_ofFn, List.getElem?_ofFn]
  split
  · next hi => rw [← rangesOf_relabel fun _ => newPlace_eq_iff σ (i := ⟨i, hi⟩)]; rfl
  · rfl

end Collected

namespace Highlighter

/-- **The order of tags decides ties only.**  Let the tags be written in ASCII, and let none of them
be a beginning of another one, in whatever case.  In another order they have the same ranges, if the
engine compiles the grammars of the languages with the tags in both orders or in neither. -/
theorem scanRange_perm {m : Type → Type} [Monad m] [LawfulMonad m] [Engine] {n : Nat}
    (t : Fin n → Tag)
    (hascii : ∀ i, ∀ a ∈ (t i).marker.toList, a.toNat < 0x80)
    (hapart : ∀ i j, i ≠ j →
      ¬(t i).marker.toList.map Char.toLower <+: (t j).marker.toList.map Char.toLower)
    (σ : Equiv.Perm (Fin n)) (toggles : Toggles) (resolve : SyntaxSource m) (text : String)
    (start stop : Nat) (language : String)
    (hengine : CompilesAlike ⟨List.ofFn t⟩ ⟨List.ofFn (t ∘ σ)⟩ toggles resolve
      (languages ⟨⟨List.ofFn t⟩, toggles⟩ text start stop language)) :
    scanRange ⟨⟨List.ofFn (t ∘ σ)⟩, toggles⟩ resolve text start stop language =
      (·.reorder t σ) <$> scanRange ⟨⟨List.ofFn t⟩, toggles⟩ resolve text start stop language := by
  rw [scanRange_eq_map, scanRange_eq_map,
    findings_relabel (Registry.relabels_perm σ ⟨hascii, hapart⟩) hengine, Functor.map_map,
    Functor.map_map]
  exact congrArg (· <$> _) (funext fun found => Collected.collect_reorder t σ found)

set_option maxRecDepth 20000 in
/-- Two tags that change places. -/
theorem scanRange_perm_swap :
    let t : Fin 2 → Tag := ![⟨"todo", {}⟩, ⟨"FIXME", {}⟩]
    let σ : Equiv.Perm (Fin 2) := Equiv.swap 0 1
    let resolve := SyntaxSource.builtin (m := Id)
    let text := "// TODO a\n/* \nfixme b */\n"
    scanRange ⟨⟨List.ofFn (t ∘ σ)⟩, {}⟩ resolve text 0 25 "c" =
        (·.reorder t σ) <$> scanRange ⟨⟨List.ofFn t⟩, {}⟩ resolve text 0 25 "c" ∧
      (scanRange ⟨⟨List.ofFn t⟩, {}⟩ resolve text 0 25 "c").run.groups =
        [⟨0, "todo", [⟨3, 9⟩]⟩, ⟨1, "FIXME", [⟨14, 21⟩]⟩] := by
  have hengine {tags tags' : Registry} {languages : List String} :
      CompilesAlike tags tags' {} (SyntaxSource.builtin (m := Id)) languages := fun _ _ =>
    .of_forall (fun _ => by rw [Grammar.compiles_unbounded, Grammar.compiles_unbounded]) _
  refine ⟨scanRange_perm _ (Fin.forall_fin_two.2 ⟨by simp, by simp⟩) (by decide +kernel)
    _ _ _ _ _ _ _ hengine, by cbv⟩

end Highlighter

end CommentTags
