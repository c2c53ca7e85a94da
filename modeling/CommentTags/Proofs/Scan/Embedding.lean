import CommentTags.Proofs.Language.Names
import CommentTags.Proofs.Scan.Soundness
import CommentTags.Proofs.Scan.Translation

/-!
# Code fences

The code fences of a Markdown text are scanned as texts of their own.

* `Highlighter.bodyFindings` are the line and block comments of the body of a fence, taken as a
  document in the language of the fence.  There are none if the document is given up.
* `Highlighter.markdownProfiles` is all that a scan of a Markdown text has to ask for: the profile
  of Markdown, and that of the language of each fence.
* `Highlighter.fenceFindings_eq`: a fence is scanned like the document that is its body.  The body
  never begins at the start of the text, so a comment in its first line counts in every language.
* `Highlighter.scanRange_markdown`: what a scan reports is what the four kinds of comments make out
  in the whole text, and for each fence the comments of its body.

A Markdown text is given up as a whole if its own grammar does not compile, and then the fences are
not looked at.  So the last statement asks that the grammar of Markdown compiles; the grammars of the
fences need not.
-/

set_option autoImplicit false

namespace CommentTags

namespace Highlighter

section

variable [Engine] (h : Highlighter)

/-- The line and block comments of the body of a fence, taken as a document of its own in which a
comment at the start counts, at the places where they stand in the text around the fence.  There are
none if the engine does not compile the grammar. -/
def bodyFindings (p : Profile) (f : Fence) : List Finding :=
  if (Grammar.of p.unsuppressed h.tags).compiles then
    (lineFindings p.unsuppressed h.tags (.document f.body.text) ++
      blockFindings p.unsuppressed h.tags (.document f.body.text)).map (·.move f.body.offset)
  else []

theorem bodyFindings_eq (p : Profile) {f : Fence} (hf : 0 < f.body.offset) :
    h.bodyFindings p f =
      if (Grammar.of p h.tags).compiles then h.commentFindings p f.body else [] := by
  have hmove := h.commentFindings_rename (ρ := .move f.body.offset) p.unsuppressed
    (.document f.body.text) fun hp => Bool.noConfusion hp
  rw [rename_move, Profile.rename_move, Scope.document_rename_move,
    commentFindings_unsuppressed hf] at hmove
  rw [hmove]
  rfl

theorem bodyFindings_of_not_supported {language : String} {c : Option CommentSyntax} (f : Fence)
    (hp : (Profile.of language c h.toggles).supported = false) :
    h.bodyFindings (Profile.of language c h.toggles) f = [] := by
  obtain ⟨hlines, hblocks⟩ := Profile.scans_of_not_supported hp
  have hlines' : (Profile.of language c h.toggles).unsuppressed.scansLines = false := hlines
  have hblocks' : (Profile.of language c h.toggles).unsuppressed.scansBlocks = false := hblocks
  rw [bodyFindings, lineFindings, blockFindings, blockRegions, hlines', hblocks']
  exact ite_self _

/-- What is found in a fence is found in the document that is its body. -/
theorem exists_of_mem_bodyFindings {p : Profile} {f : Fence} {g : Finding}
    (hg : g ∈ h.bodyFindings p f) :
    ∃ g' ∈ h.commentFindings p.unsuppressed (.document f.body.text),
      g'.move f.body.offset = g := by
  rw [bodyFindings] at hg
  split at hg
  · exact List.mem_map.1 hg
  · exact absurd hg List.not_mem_nil

/-- What is found in a fence lies in its body. -/
theorem mem_bodyFindings {p : Profile} {f : Fence} {g : Finding} (hg : g ∈ h.bodyFindings p f) :
    f.body.offset ≤ g.start ∧ g.start ≤ g.stop ∧ g.stop ≤ f.bodyStop := by
  obtain ⟨g', hg', rfl⟩ := h.exists_of_mem_bodyFindings hg
  obtain ⟨word, body, -, -, -, hin, hstop⟩ := commentFindings_sound hg'
  have hle := hin.stop_le
  rw [Scope.stop, Scope.stop, ← hstop, Scope.document, Nat.zero_add] at hle
  rw [Finding.move, Fence.bodyStop]
  simp only at hle ⊢
  omega

end

/-! ## The profiles of a Markdown text -/

section

variable {m : Type → Type} [Monad m]

/-- The profile of a language that is given by its canonical name. -/
def profileNamed (h : Highlighter) (resolve : SyntaxSource m) (language : String) : m Profile := do
  return Profile.of language (← resolve language) h.toggles

/-- The profile of Markdown, and each fence of the scope with the profile of its language. -/
def markdownProfiles (h : Highlighter) (resolve : SyntaxSource m) (scope : Scope) :
    m (Profile × List (Fence × Profile)) := do
  let own ← h.profileNamed resolve Language.markdown
  let embedded ← (fences scope).mapM fun f => (f, ·) <$> h.profileNamed resolve f.language
  return (own, embedded)

variable [LawfulMonad m] [Engine]

/-- The language of a fence is not changed by being looked up once more, and an unknown one is not
looked at. -/
theorem fenceFindings_eq (h : Highlighter) (resolve : SyntaxSource m) {scope : Scope} {f : Fence}
    (hf : f ∈ fences scope) :
    h.fenceFindings resolve f = (h.bodyFindings · f) <$> h.profileNamed resolve f.language := by
  obtain ⟨-, hpos, hlang⟩ := mem_fences hf
  have hcanonical : Language.canonical f.language = f.language := by
    rw [hlang, Language.canonical_canonical]
  rw [fenceFindings, profile, hcanonical, profileNamed, map_bind, bind_assoc]
  refine bind_congr fun c => ?_
  rw [pure_bind, map_pure, looksAt]
  cases hlooks : (Profile.of f.language c h.toggles).supported ||
      (Profile.of f.language c h.toggles).markdown with
  | true => rw [Bool.true_and, bodyFindings_eq h _ (by omega)]
  | false =>
    rw [bodyFindings_of_not_supported h f (Bool.or_eq_false_iff.1 hlooks).1]
    rfl

theorem mapM_fenceFindings (h : Highlighter) (resolve : SyntaxSource m) (scope : Scope) :
    (fences scope).mapM (h.fenceFindings resolve) =
      List.map (fun r => h.bodyFindings r.2 r.1) <$>
        (fences scope).mapM fun f => (f, ·) <$> h.profileNamed resolve f.language := by
  rw [← mapM_map_result]
  refine mapM_congr fun f hf => ?_
  rw [fenceFindings_eq h resolve hf, Functor.map_map]

/-- The comments of the whole scope, and those in the bodies of its fences. -/
def markdownFindings (h : Highlighter) (scope : Scope) (own : Profile)
    (embedded : List (Fence × Profile)) : List Finding :=
  h.commentFindings own scope ++ docFindings own h.tags scope ++ listFindings own h.tags scope ++
    (embedded.map fun r => h.bodyFindings r.2 r.1).flatten

theorem findings_markdown (h : Highlighter) (resolve : SyntaxSource m) (scope : Scope)
    {language : String} (hl : Language.canonical language = Language.markdown)
    (ht : h.toggles.highlightMarkdown = true) (htags : h.tags.isEmpty = false)
    (hengine : h.Compiles resolve [language]) :
    h.findings resolve language scope =
      (fun r => h.markdownFindings scope r.1 r.2) <$> h.markdownProfiles resolve scope := by
  have hcompiles := hengine language (List.mem_singleton_self _)
  rw [findings_eq_bind, htags, if_neg Bool.false_ne_true, markdownProfiles, profile, profileNamed,
    map_bind, bind_assoc, bind_assoc]
  rw [hl] at hcompiles ⊢
  refine hcompiles.bind_eq_bind fun c hc => ?_
  rw [grammarOf, hl] at hc
  have hmarkdown : (Profile.of Language.markdown c h.toggles).markdown = true := by
    rw [Profile.markdown_of, ht, beq_self_eq_true, Bool.and_true]
  rw [pure_bind, pure_bind, findingsIn, looksAt, hmarkdown, hc, Bool.or_true, Bool.and_true,
    Bool.not_true, if_neg Bool.false_ne_true, if_neg Bool.false_ne_true, mapM_fenceFindings,
    bind_map_left, map_bind]
  refine bind_congr fun embedded => ?_
  rw [map_pure, markdownFindings]

/-- What is reported is what is found: every finding is one of a registered tag. -/
theorem mem_sorted_collect_markdownFindings {h : Highlighter} {scope : Scope} {own : Profile}
    {embedded : List (Fence × Profile)} {g : Finding} :
    g ∈ (Collected.collect h.tags (h.markdownFindings scope own embedded)).sorted ↔
      g ∈ lineFindings own h.tags scope ∨ g ∈ blockFindings own h.tags scope ∨
      g ∈ docFindings own h.tags scope ∨ g ∈ listFindings own h.tags scope ∨
      ∃ f p, (f, p) ∈ embedded ∧ g ∈ h.bodyFindings p f := by
  have hmem : g ∈ h.markdownFindings scope own embedded ↔
      g ∈ lineFindings own h.tags scope ∨ g ∈ blockFindings own h.tags scope ∨
      g ∈ docFindings own h.tags scope ∨ g ∈ listFindings own h.tags scope ∨
      ∃ f p, (f, p) ∈ embedded ∧ g ∈ h.bodyFindings p f := by
    have hembedded : g ∈ (embedded.map fun r => h.bodyFindings r.2 r.1).flatten ↔
        ∃ f p, (f, p) ∈ embedded ∧ g ∈ h.bodyFindings p f := by
      rw [← List.flatMap_def, List.mem_flatMap, Prod.exists]
    rw [markdownFindings, commentFindings, List.mem_append, List.mem_append, List.mem_append,
      List.mem_append, hembedded, or_assoc, or_assoc, or_assoc]
  rw [Collected.mem_sorted_collect, hmem, and_iff_left_iff_imp]
  rintro (hg | hg | hg | hg | ⟨f, p, -, hg⟩)
  · exact (lineFindings_sound hg).style_lt
  · exact (blockFindings_sound hg).style_lt
  · exact (docFindings_sound hg).style_lt
  · exact (listFindings_sound hg).style_lt
  · obtain ⟨g', hg', rfl⟩ := h.exists_of_mem_bodyFindings hg
    exact (commentFindings_sound hg').style_lt

/-- **Code fences are embedded texts.**  If the engine compiles the grammar of Markdown, what a scan of
a Markdown text reports follows from the profiles of Markdown and of the languages of its fences: the
line, block, documentation and list comments of the whole scope, and the line and block comments of
the body of each fence, which lie in the body.  There are none in a fence of an unknown language. -/
theorem scanRange_markdown (h : Highlighter) (resolve : SyntaxSource m) (text : String)
    (start stop : Nat) {language : String} (hl : Language.canonical language = Language.markdown)
    (ht : h.toggles.highlightMarkdown = true) (hengine : h.Compiles resolve [language]) :
    ∃ reported : Profile → List (Fence × Profile) → Collected,
      (h.tags.isEmpty = false → h.scanRange resolve text start stop language =
        (fun r => reported r.1 r.2) <$>
          h.markdownProfiles resolve (Scope.within text.toList start stop)) ∧
      (h.tags.isEmpty = true → ∀ own embedded,
        h.scanRange resolve text start stop language = pure (reported own embedded)) ∧
      (∀ own embedded g, g ∈ (reported own embedded).sorted ↔
        g ∈ lineFindings own h.tags (Scope.within text.toList start stop) ∨
        g ∈ blockFindings own h.tags (Scope.within text.toList start stop) ∨
        g ∈ docFindings own h.tags (Scope.within text.toList start stop) ∨
        g ∈ listFindings own h.tags (Scope.within text.toList start stop) ∨
        ∃ f p, (f, p) ∈ embedded ∧ g ∈ h.bodyFindings p f) ∧
      (∀ f p, ∀ g ∈ h.bodyFindings p f,
        f.body.offset ≤ g.start ∧ g.start ≤ g.stop ∧ g.stop ≤ f.bodyStop) ∧
      ∀ f name c, (Profile.of name c h.toggles).supported = false →
        h.bodyFindings (Profile.of name c h.toggles) f = [] := by
  refine ⟨fun own embedded => Collected.collect h.tags
    (h.markdownFindings (Scope.within text.toList start stop) own embedded), fun htags => ?_,
    fun htags own embedded => ?_, fun own embedded g => mem_sorted_collect_markdownFindings,
    fun f p g hg => h.mem_bodyFindings hg, fun f name c => h.bodyFindings_of_not_supported f⟩
  · rw [scanRange_eq_map, h.findings_markdown resolve _ hl ht htags hengine, Functor.map_map]
  · rw [scanRange_eq_map, findings_eq_bind, if_pos htags, map_pure,
      Collected.collect_of_isEmpty htags]
    exact congrArg pure (Collected.collect_of_isEmpty htags _).symm

end

set_option maxRecDepth 20000 in
/-- A Python comment in the first line of a fence, and a fence in an unknown language. -/
theorem scanRange_markdown_python :
    let h : Highlighter := ⟨⟨[⟨"todo", {}⟩]⟩, {}⟩
    let resolve := SyntaxSource.builtin (m := Id)
    let text := "```py\n# TODO: x\n```\n```q\n# todo\n```\n"
    let found : Collected := (h.scanRange resolve text 0 36 "md").run
    let profiles := (h.markdownProfiles resolve (Scope.within text.toList 0 36)).run
    found.groups = [⟨0, "todo", [⟨8, 15⟩]⟩] ∧
      ∀ g, g ∈ found.sorted ↔
        g ∈ lineFindings profiles.1 h.tags (Scope.within text.toList 0 36) ∨
        g ∈ blockFindings profiles.1 h.tags (Scope.within text.toList 0 36) ∨
        g ∈ docFindings profiles.1 h.tags (Scope.within text.toList 0 36) ∨
        g ∈ listFindings profiles.1 h.tags (Scope.within text.toList 0 36) ∨
        ∃ f p, (f, p) ∈ profiles.2 ∧ g ∈ h.bodyFindings p f := by
  have hl : Language.canonical "md" = Language.markdown := by cbv
  refine ⟨by cbv, ?_⟩
  obtain ⟨reported, hscan, -, hmem, -⟩ := scanRange_markdown ⟨⟨[⟨"todo", {}⟩]⟩, {}⟩
    (SyntaxSource.builtin (m := Id)) "```py\n# TODO: x\n```\n```q\n# todo\n```\n" 0 36 hl rfl
    fun _ _ => .of_forall (fun _ => Grammar.compiles_unbounded _) _
  intro g
  rw [hscan rfl]
  exact hmem _ _ g

end Highlighter

end CommentTags
