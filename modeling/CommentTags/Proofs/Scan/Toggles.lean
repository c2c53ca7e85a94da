import Mathlib
import CommentTags.CommandLine.Arguments
import CommentTags.Proofs.Scan.Soundness

/-!
# More switches, more comments

A switch that is put on only adds comments: what is found with fewer switches is found with more of
them too.  The switches do not act on the same things: one of them may make a language known, another
one lets its block comments or its fences be looked at.

* `Toggles.Below` and `Profile.Below` are the two orders.  What carries the proof is that a profile
  with more switches looks for everything that the profile with fewer switches looks for, with the
  same delimiters (`Profile.of_mono`).
* `Grammar.sources_mono`: so it has all the notations of the other one, and where the larger grammar
  compiles, the smaller one does.
* `lineFindings_mono` and its like say for each kind of comment that nothing is lost.
* `Highlighter.ReportsBelow` compares two scans.  A scan that looks at fences asks for the syntax of
  their languages, and one that does not look at them does not ask.  So the two scans are compared
  with these questions asked in both of them.
* `Highlighter.scanRange_mono` is the main statement, and `ReportsBelow.mem` what it comes to where
  asking has no effects.

A switch may also make a grammar so large that the engine refuses it, and then nothing at all is
found.  So the grammars of the scan with more switches are asked to compile.
-/

set_option autoImplicit false

namespace CommentTags

/-- Every switch that is on in the first is on in the second. -/
structure Toggles.Below (t t' : Toggles) : Prop where
  markdown : t.highlightMarkdown = true → t'.highlightMarkdown = true
  multiline : t.multilineComments = true → t'.multilineComments = true
  plainText : t.highlightPlainText = true → t'.highlightPlainText = true
  docs : t.useDocStyle = true → t'.useDocStyle = true

/-! ## Profiles -/

/-- The second profile looks for everything that the first one looks for, and if the first one looks
for anything, it has the same delimiters. -/
structure Profile.Below (p p' : Profile) : Prop where
  markdown : p.markdown = true → p'.markdown = true
  supported : p.supported = true → p' =
    { p with markdown := p'.markdown, scansBlocks := p'.scansBlocks, scansDocs := p'.scansDocs }
  blocks : p.scansBlocks = true → p'.scansBlocks = true
  docs : p.scansDocs = true → p'.scansDocs = true
  unsupported : p.supported = false → p.scansLines = false ∧ p.scansBlocks = false

section

variable {language : String} {c : Option CommentSyntax} {t t' : Toggles}

/-- Whether the comments of a language are known. -/
def Toggles.knows (t : Toggles) (language : String) (c : Option CommentSyntax) : Bool :=
  if language == Language.plainText then t.highlightPlainText else c.isSome

theorem Profile.of_unknown (h : t.knows language c = false) : Profile.of language c t =
    { language
      plainText := language == Language.plainText
      markdown := language == Language.markdown && t.highlightMarkdown } := by
  rw [Toggles.knows] at h
  rw [Profile.of, h]
  rfl

theorem Profile.of_known (ht : t.knows language c = true) (ht' : t'.knows language c = true) :
    Profile.of language c t' =
      { Profile.of language c t with
        markdown := language == Language.markdown && t'.highlightMarkdown
        scansBlocks := (c.bind (·.blockPair)).isSome && t'.multilineComments
        scansDocs := Language.usesDocBlocks language && t'.useDocStyle } := by
  rw [Toggles.knows] at ht ht'
  rw [Profile.of, ht', Profile.of, ht]
  rfl

theorem Profile.of_mono (ht : t.Below t') :
    (Profile.of language c t).Below (Profile.of language c t') := by
  have hmarkdown : (Profile.of language c t).markdown = true →
      (Profile.of language c t').markdown = true := by
    rw [Profile.markdown_of, Profile.markdown_of, Bool.and_eq_true, Bool.and_eq_true]
    exact And.imp_right ht.markdown
  cases hk : t.knows language c with
  | false =>
    rw [Profile.of_unknown hk] at hmarkdown ⊢
    exact ⟨hmarkdown, nofun, nofun, nofun, fun _ => ⟨rfl, rfl⟩⟩
  | true =>
    have hk' : t'.knows language c = true := by
      rw [Toggles.knows] at hk ⊢
      split at hk
      · next hl => rw [if_pos hl, ht.plainText hk]
      · next hl => rw [if_neg hl, hk]
    have hblocks := congrArg Profile.scansBlocks (Profile.of_known hk hk)
    have hdocs := congrArg Profile.scansDocs (Profile.of_known hk hk)
    rw [Profile.of_known hk hk'] at hmarkdown ⊢
    refine ⟨hmarkdown, fun _ => rfl, ?_, ?_, Profile.scans_of_not_supported⟩
    · rw [hblocks, Bool.and_eq_true, Bool.and_eq_true]
      exact And.imp_right ht.multiline
    · rw [hdocs, Bool.and_eq_true, Bool.and_eq_true]
      exact And.imp_right ht.docs

end

/-! ## Kinds of comments -/

section

variable {p p' : Profile} {tags : Registry} {s : Scope}

theorem lineFindings_mono (hp : p.Below p') : lineFindings p tags s ⊆ lineFindings p' tags s := by
  cases hs : p.supported with
  | false =>
    rw [lineFindings, (hp.unsupported hs).1]
    exact List.nil_subset _
  | true =>
    -- none of the fields that may differ is looked at
    rw [hp.supported hs]
    exact List.Subset.refl _

theorem blockFindings_mono (hp : p.Below p') :
    blockFindings p tags s ⊆ blockFindings p' tags s := by
  cases hb : p.scansBlocks with
  | false =>
    rw [blockFindings, blockRegions, hb]
    exact List.nil_subset _
  | true =>
    have hs : p.supported = true := by
      by_contra hs
      rw [Bool.not_eq_true] at hs
      rw [(hp.unsupported hs).2] at hb
      exact Bool.noConfusion hb
    rw [blockFindings, blockFindings, blockRegions, blockRegions, hb, hp.blocks hb, hp.supported hs]
    exact List.Subset.refl _

theorem docFindings_mono (hp : p.Below p') : docFindings p tags s ⊆ docFindings p' tags s := by
  cases hd : p.scansDocBlocks with
  | false =>
    rw [docFindings, hd]
    exact List.nil_subset _
  | true =>
    have hd' : p'.scansDocBlocks = true := by
      rw [Profile.scansDocBlocks, Bool.or_eq_true] at hd ⊢
      exact hd.imp hp.docs hp.blocks
    rw [docFindings, docFindings, hd, hd']
    exact List.Subset.refl _

theorem listFindings_mono (hp : p.Below p') : listFindings p tags s ⊆ listFindings p' tags s := by
  cases hm : p.markdown with
  | false =>
    rw [listFindings, hm]
    exact List.nil_subset _
  | true =>
    rw [listFindings, listFindings, hm, hp.markdown hm]
    exact List.Subset.refl _

theorem Profile.Below.known (hp : p.Below p') (h : (p.supported || p.markdown) = true) :
    (p'.supported || p'.markdown) = true := by
  rw [Bool.or_eq_true] at h ⊢
  refine h.imp (fun hs => ?_) hp.markdown
  rw [hp.supported hs]
  exact hs

/-- More switches only add notations to the grammar. -/
theorem Grammar.sources_mono (hp : p.Below p') :
    (Grammar.of p tags).sources ⊆ (Grammar.of p' tags).sources := by
  cases hs : p.supported with
  | false =>
    have hown : (Grammar.of p tags).line = none ∧ (Grammar.of p tags).block = none := by
      rw [Grammar.of, (hp.unsupported hs).1, (hp.unsupported hs).2]
      exact ⟨rfl, rfl⟩
    rw [sources, hown.1, hown.2]
    intro source hsource
    exact List.mem_append_right _ (List.mem_append_right _ hsource)
  | true =>
    intro source hsource
    rw [sources, List.mem_append, List.mem_append] at hsource ⊢
    refine hsource.imp (fun h => ?_) (Or.imp_left fun h => ?_)
    · rw [hp.supported hs]
      exact h
    · -- the only part that may be new
      cases hb : p.scansBlocks with
      | false => simp [Grammar.of, hb] at h
      | true =>
        rw [hp.supported hs, Grammar.of, hp.blocks hb]
        rw [Grammar.of, hb] at h
        exact h

theorem Grammar.compiles_of_below [Engine] (hp : p.Below p')
    (h : (Grammar.of p' tags).compiles = true) : (Grammar.of p tags).compiles = true :=
  compiles_iff.2 fun _ hsource => compiles_iff.1 h _ (sources_mono hp hsource)

end

/-! ## Scans -/

namespace Highlighter

/-- All findings outside code fences. -/
def ownFindings (h : Highlighter) (p : Profile) (scope : Scope) : List Finding :=
  h.commentFindings p scope ++ docFindings p h.tags scope ++ listFindings p h.tags scope

section

variable {tags : Registry} {t t' : Toggles} {p p' : Profile} {scope : Scope}

theorem commentFindings_mono (hp : p.Below p') :
    commentFindings ⟨tags, t⟩ p scope ⊆ commentFindings ⟨tags, t'⟩ p' scope := by
  intro f hf
  rw [commentFindings, List.mem_append] at hf ⊢
  exact hf.imp (fun h => lineFindings_mono hp h) (fun h => blockFindings_mono hp h)

theorem ownFindings_mono (hp : p.Below p') :
    ownFindings ⟨tags, t⟩ p scope ⊆ ownFindings ⟨tags, t'⟩ p' scope := by
  intro f hf
  rw [ownFindings, List.mem_append, List.mem_append] at hf ⊢
  exact hf.imp (Or.imp (fun h => commentFindings_mono hp h) (fun h => docFindings_mono hp h))
    (fun h => listFindings_mono hp h)

theorem supportedFindings_mono (hp : p.Below p') :
    (if p.supported then ownFindings ⟨tags, t⟩ p scope else []) ⊆
      ownFindings ⟨tags, t'⟩ p' scope := by
  split
  · exact ownFindings_mono hp
  · exact List.nil_subset _

theorem flatten_subset_flatten {l l' : List (List Finding)} (h : List.Forall₂ (· ⊆ ·) l l') :
    l.flatten ⊆ l'.flatten := by
  induction h with
  | nil => exact List.Subset.refl _
  | cons hab _ ih =>
    intro f hf
    rw [List.flatten_cons, List.mem_append] at hf ⊢
    exact hf.imp (fun h => hab h) (fun h => ih h)

variable {m : Type → Type} [Monad m] [Engine]

theorem findingsIn_of_markdown {h : Highlighter} (hp : p.markdown = true)
    (hc : (Grammar.of p h.tags).compiles = true) (resolve : SyntaxSource m) (scope : Scope) :
    h.findingsIn resolve p scope = do
      let embedded ← (fences scope).mapM (h.fenceFindings resolve)
      return h.ownFindings p scope ++ embedded.flatten := by
  rw [findingsIn, looksAt, hp, hc, Bool.or_true, if_neg (by decide), if_neg (by decide)]
  rfl

theorem findingsIn_of_not_markdown {h : Highlighter} (hp : p.markdown = false)
    (hc : (Grammar.of p h.tags).compiles = true) (resolve : SyntaxSource m) (scope : Scope) :
    h.findingsIn resolve p scope = pure (if p.supported then h.ownFindings p scope else []) := by
  rw [findingsIn, looksAt, hp, hc, Bool.or_false, Bool.and_true]
  cases p.supported <;> rfl

/-- Scan the fences of a scope and forget what is found in them. -/
def visitFences (h : Highlighter) (resolve : SyntaxSource m) (scope : Scope) : m Unit := do
  let _ ← (fences scope).mapM (h.fenceFindings resolve)

variable [LawfulMonad m] {resolve : SyntaxSource m}

theorem fenceFindings_mono (ht : t.Below t') {f : Fence}
    (hengine : Compiles ⟨tags, t'⟩ resolve [f.language]) :
    Together (· ⊆ ·) (fenceFindings ⟨tags, t⟩ resolve f) (fenceFindings ⟨tags, t'⟩ resolve f) := by
  rw [fenceFindings, fenceFindings, profile, profile, bind_assoc, bind_assoc]
  refine Together.bind_left_of_ensures (hengine _ (List.mem_singleton_self _)) fun c hc => ?_
  have hp : (Profile.of (Language.canonical f.language) c t).Below
      (Profile.of (Language.canonical f.language) c t') := Profile.of_mono ht
  rw [grammarOf] at hc
  rw [pure_bind, pure_bind]
  refine .pure ?_
  rw [looksAt, looksAt, hc, Grammar.compiles_of_below hp hc, Bool.and_true, Bool.and_true]
  split
  · next hknown =>
    rw [if_pos (hp.known hknown)]
    exact commentFindings_mono hp
  · exact List.nil_subset _

/-- If both profiles look at fences, both scans ask for the syntax of the same languages. -/
theorem findingsIn_mono_of_markdown {scope : Scope} (ht : t.Below t') (hp : p.Below p')
    (hc : (Grammar.of p' tags).compiles = true) (hm : p.markdown = true)
    (hengine : Compiles ⟨tags, t'⟩ resolve ((fences scope).map (·.language))) :
    Together (· ⊆ ·) (findingsIn ⟨tags, t⟩ resolve p scope)
      (findingsIn ⟨tags, t'⟩ resolve p' scope) := by
  rw [findingsIn_of_markdown (h := ⟨tags, t⟩) hm (Grammar.compiles_of_below hp hc),
    findingsIn_of_markdown (h := ⟨tags, t'⟩) (hp.markdown hm) hc]
  have hfences : ∀ f ∈ fences scope, Together (· ⊆ ·) (fenceFindings ⟨tags, t⟩ resolve f)
      (fenceFindings ⟨tags, t'⟩ resolve f) := fun f hf =>
    fenceFindings_mono ht (List.forall_mem_singleton.2 (hengine _ (List.mem_map_of_mem hf)))
  refine (Together.mapM hfences).bind fun few many h => ?_
  refine .pure fun f hf => ?_
  rw [List.mem_append] at hf ⊢
  exact hf.imp (fun h => ownFindings_mono hp h) (fun hf => flatten_subset_flatten h hf)

variable (tags scope) in
/-- If only the second profile looks at fences, the fences are visited after the first scan. -/
theorem findingsIn_mono (ht : t.Below t') (hp : p.Below p')
    (hc : (Grammar.of p' tags).compiles = true)
    (hengine : p'.markdown = true →
      Compiles ⟨tags, t'⟩ resolve ((fences scope).map (·.language))) :
    Together (· ⊆ ·)
      (do
        let few ← findingsIn ⟨tags, t⟩ resolve p scope
        if p'.markdown && !p.markdown then visitFences ⟨tags, t'⟩ resolve scope
        return few)
      (findingsIn ⟨tags, t'⟩ resolve p' scope) := by
  have hc₀ := Grammar.compiles_of_below hp hc
  cases hm : p.markdown with
  | true =>
    have hm' := hp.markdown hm
    simp only [hm', Bool.not_true, Bool.and_false, Bool.false_eq_true, if_false, bind_pure]
    exact findingsIn_mono_of_markdown ht hp hc hm (hengine hm')
  | false =>
    rw [findingsIn_of_not_markdown (h := ⟨tags, t⟩) hm hc₀, pure_bind]
    cases hm' : p'.markdown with
    | true =>
      rw [findingsIn_of_markdown (h := ⟨tags, t'⟩) hm' hc]
      simp only [Bool.not_false, Bool.and_true, if_true, visitFences, bind_assoc]
      -- what the fences have is left aside: the first scan has only what comes before it
      refine Together.bind_left fun many => ?_
      rw [pure_bind]
      exact .pure fun f hf => List.mem_append_left _ (supportedFindings_mono hp hf)
    | false =>
      rw [findingsIn_of_not_markdown (h := ⟨tags, t'⟩) hm' hc]
      simp only [Bool.false_and, Bool.false_eq_true, if_false]
      refine .pure fun f hf => ?_
      split at hf
      · next hs =>
        have hs' : p'.supported = true := by rw [hp.supported hs]; exact hs
        rw [if_pos hs']
        exact ownFindings_mono hp hf
      · simp at hf

end

section

variable {m : Type → Type} [Monad m] [Engine]

/-- Whatever a scan reports with the first switches, it reports with the second ones.  If only the
second scan looks at fences, the fences are visited after the first scan, so that the source is
asked the same questions. -/
def ReportsBelow (tags : Registry) (resolve : SyntaxSource m) (text : String) (start stop : Nat)
    (language : String) (t t' : Toggles) : Prop :=
  Together (fun few many => ∀ f ∈ few.sorted, f ∈ many.sorted)
    (do
      let few ← scanRange ⟨tags, t⟩ resolve text start stop language
      if looksAtFences ⟨tags, t'⟩ language && !looksAtFences ⟨tags, t⟩ language then
        visitFences ⟨tags, t'⟩ resolve (Scope.within text.toList start stop)
      return few)
    (scanRange ⟨tags, t'⟩ resolve text start stop language)

variable [LawfulMonad m] {tags : Registry} {t t' : Toggles}

theorem findings_mono (ht : t.Below t') {resolve : SyntaxSource m} {text : String}
    {start stop : Nat} {language : String}
    (hengine : Compiles ⟨tags, t'⟩ resolve (languages ⟨tags, t'⟩ text start stop language)) :
    Together (· ⊆ ·)
      (do
        let few ← findings ⟨tags, t⟩ resolve language (Scope.within text.toList start stop)
        if looksAtFences ⟨tags, t'⟩ language && !looksAtFences ⟨tags, t⟩ language then
          visitFences ⟨tags, t'⟩ resolve (Scope.within text.toList start stop)
        return few)
      (findings ⟨tags, t'⟩ resolve language (Scope.within text.toList start stop)) := by
  rw [findings_eq_bind, findings_eq_bind, looksAtFences, looksAtFences]
  cases htags : tags.isEmpty with
  | true =>
    simp only [if_true, Bool.not_true, Bool.false_and, Bool.false_eq_true, if_false, pure_bind]
    exact .pure (List.Subset.refl _)
  | false =>
    simp only [Bool.false_eq_true, if_false, Bool.not_false, Bool.true_and, profile, bind_assoc,
      pure_bind]
    have hne : ¬tags.isEmpty := by rw [htags]; exact Bool.false_ne_true
    refine Together.bind_left_of_ensures (hengine _ (mem_languages hne)) fun c hc => ?_
    have hp : (Profile.of (Language.canonical language) c t).Below
        (Profile.of (Language.canonical language) c t') := Profile.of_mono ht
    have h := findingsIn_mono tags (Scope.within text.toList start stop) ht hp hc fun hp l hl =>
      hengine l (fences_subset_languages (h := ⟨tags, t'⟩) hne hp hl)
    rwa [Profile.markdown_of, Profile.markdown_of] at h

theorem scanRange_mono_of_below (ht : t.Below t') {resolve : SyntaxSource m} {text : String}
    {start stop : Nat} {language : String}
    (hengine : Compiles ⟨tags, t'⟩ resolve (languages ⟨tags, t'⟩ text start stop language)) :
    ReportsBelow tags resolve text start stop language t t' := by
  have h := (findings_mono ht hengine).bind
    (S := fun few many => ∀ f ∈ few.sorted, f ∈ many.sorted)
    (f := fun few => pure (Collected.collect tags few))
    (g := fun many => pure (Collected.collect tags many)) fun few many hsub => .pure fun f hf => ?_
  · rw [ReportsBelow, scanRange, scanRange]
    generalize (looksAtFences ⟨tags, t'⟩ language && !looksAtFences ⟨tags, t⟩ language) = more at h ⊢
    cases more <;>
      simpa only [Bool.false_eq_true, if_false, if_true, bind_assoc, pure_bind] using h
  · rw [Collected.mem_sorted_collect] at hf ⊢
    exact ⟨hsub hf.1, hf.2⟩

/-- **More switches, more comments.**  Whatever is reported with some switches is reported when more
of them are on, if the engine compiles the grammars of the languages with all of these.  So the
options that turn off block comments or Markdown only remove comments, and the option that turns on
plain texts only adds some. -/
theorem scanRange_mono (tags : Registry) (resolve : SyntaxSource m) (text : String)
    (start stop : Nat) (language : String) :
    (∀ t t' : Toggles, t.Below t' →
      Compiles ⟨tags, t'⟩ resolve (languages ⟨tags, t'⟩ text start stop language) →
      ReportsBelow tags resolve text start stop language t t') ∧
    ∀ (a a' : Arguments) (t : Toggles), (a'.noMultiline = true → a.noMultiline = true) →
      (a'.noMarkdown = true → a.noMarkdown = true) →
      (a.plainText = true → a'.plainText = true) →
      Compiles ⟨tags, a'.override t⟩ resolve
        (languages ⟨tags, a'.override t⟩ text start stop language) →
      ReportsBelow tags resolve text start stop language (a.override t) (a'.override t) := by
  refine ⟨fun t t' ht hengine => scanRange_mono_of_below ht hengine,
    fun a a' t hmultiline hmarkdown hplain hengine => scanRange_mono_of_below ?_ hengine⟩
  -- an option that is given switches off what it is about, whatever the switches were
  have hand {s x y : Bool} (hxy : y = true → x = true) (h : (s && !x) = true) : (s && !y) = true := by
    rw [Bool.and_eq_true, Bool.not_eq_true'] at h ⊢
    exact ⟨h.1, by_contra fun hy => by simp [hxy (by simpa using hy)] at h⟩
  refine ⟨hand hmarkdown, hand hmultiline, fun h => ?_, id⟩
  rw [Arguments.override, Bool.or_eq_true] at h ⊢
  exact h.imp_right hplain

/-- Where asking the source has no effects, the findings of the first scan are simply among those of
the second one. -/
theorem ReportsBelow.mem {resolve : SyntaxSource Id} {text : String} {start stop : Nat}
    {language : String} (h : ReportsBelow tags resolve text start stop language t t')
    {f : Finding} (hf : f ∈ (scanRange ⟨tags, t⟩ resolve text start stop language).run.sorted) :
    f ∈ (scanRange ⟨tags, t'⟩ resolve text start stop language).run.sorted := by
  obtain ⟨z, hfew, hmany⟩ := h
  have hscan : z.run.1.1 = (scanRange ⟨tags, t⟩ resolve text start stop language).run := by
    have hrun := congrArg Id.run hfew
    rw [Id.run_map] at hrun
    rw [hrun]
    cases looksAtFences ⟨tags, t'⟩ language && !looksAtFences ⟨tags, t⟩ language <;> rfl
  rw [← hmany]
  exact z.run.2 f (hscan ▸ hf)

end

set_option maxRecDepth 20000 in
/-- With its fences looked at, a Markdown text has a Python comment more.  The option that turns off
Markdown takes it away. -/
theorem scanRange_mono_fence :
    let tags : Registry := ⟨[⟨"todo", {}⟩]⟩
    let resolve := SyntaxSource.builtin (m := Id)
    let text := "<!-- todo a -->\n```py\n# TODO: b\n```\n"
    let few : Toggles := { highlightMarkdown := false }
    let noMarkdown : Arguments := { noMarkdown := true }
    few.Below {} ∧
      (∀ f ∈ (scanRange ⟨tags, few⟩ resolve text 0 36 "md").run.sorted,
        f ∈ (scanRange ⟨tags, {}⟩ resolve text 0 36 "md").run.sorted) ∧
      ReportsBelow tags resolve text 0 36 "md" (noMarkdown.override {}) (Arguments.override {} {}) ∧
      (scanRange ⟨tags, few⟩ resolve text 0 36 "md").run.groups = [⟨0, "todo", [⟨5, 11⟩]⟩] ∧
      (scanRange ⟨tags, {}⟩ resolve text 0 36 "md").run.groups =
        [⟨0, "todo", [⟨5, 11⟩, ⟨24, 31⟩]⟩] := by
  have hbelow : Toggles.Below { highlightMarkdown := false } {} := ⟨by decide, id, id, id⟩
  have hengine {h : Highlighter} {languages : List String} :
      h.Compiles (SyntaxSource.builtin (m := Id)) languages := fun _ _ =>
    .of_forall (fun _ => Grammar.compiles_unbounded _) _
  refine ⟨hbelow, fun f hf => ?_, ?_, by cbv, by cbv⟩
  · exact ((scanRange_mono _ _ _ _ _ _).1 _ _ hbelow hengine).mem hf
  · exact (scanRange_mono _ _ _ _ _ _).2 _ _ {} (by decide) (by decide) (by decide) hengine

end Highlighter

end CommentTags
