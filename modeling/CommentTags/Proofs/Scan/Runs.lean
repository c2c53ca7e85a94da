import CommentTags.Proofs.Effects
import CommentTags.Proofs.Scan.Placement
import CommentTags.Proofs.Scan.Profiles
import CommentTags.Scan.Highlighter

/-!
# Whole scans

A scan first asks for the comment syntax of its language and then goes on with the profile that
follows from the answer.

* `Highlighter.findingsIn` is the second step on its own, and `findings_eq_bind` takes a scan apart.
* `Highlighter.lookups` are the languages that a scan may ask for, each with the scope whose comments
  are written in it.  The source is asked for the languages of fences only if the scan looks at fences
  (`Highlighter.looksAtFences`).
* `Highlighter.Compiles` says of a scan that none of its texts is given up: the engine compiles the
  grammars of its languages, whatever the source answers.
* `findings_rename`: whole scans are equivariant too.  Written anew are the text, the tags and the
  answers of the source, and the findings only move.  The fences never stand in the way, since a body
  does not begin at the start of a document.  An engine may tell the two grammars apart, so it is
  asked to compile both or neither.
-/

set_option autoImplicit false

namespace CommentTags

variable {m : Type → Type} [Monad m]

/-- The source with its answers written anew. -/
def SyntaxSource.rename (ρ : Renaming) (resolve : SyntaxSource m) : SyntaxSource m :=
  fun language => Option.map (·.rename ρ) <$> resolve language

/-- The same switches, with the markers of the tags written anew. -/
def Highlighter.rename (ρ : Renaming) (h : Highlighter) : Highlighter :=
  { h with tags := h.tags.rename ρ }

/-! ## The two steps of a scan -/

namespace Highlighter

/-- Whether a scan of a text in the language looks at its fences. -/
def looksAtFences (h : Highlighter) (language : String) : Bool :=
  !h.tags.isEmpty &&
    (Language.canonical language == Language.markdown && h.toggles.highlightMarkdown)

/-- What a scan may look up: its own language for the scope and, if it looks at fences, the languages
of the fences for their bodies. -/
def lookups (h : Highlighter) (scope : Scope) (language : String) : List (String × Scope) :=
  (if h.tags.isEmpty then [] else [(language, scope)]) ++
    if h.looksAtFences language then (fences scope).map fun f => (f.language, f.body) else []

/-- The languages that a scan may look up. -/
def languages (h : Highlighter) (text : String) (start stop : Nat) (language : String) :
    List String :=
  (h.lookups (Scope.within text.toList start stop) language).map (·.1)

section

variable {h : Highlighter} {text language : String} {start stop : Nat} {scope : Scope}

theorem mem_lookups (htags : ¬h.tags.isEmpty) : (language, scope) ∈ h.lookups scope language := by
  rw [lookups, if_neg htags]
  exact List.mem_append_left _ (List.mem_singleton_self _)

/-- A text whose fences are not looked at is scanned in one language. -/
theorem lookups_eq_singleton (htags : ¬h.tags.isEmpty) (hfences : h.looksAtFences language = false) :
    h.lookups scope language = [(language, scope)] := by
  rw [lookups, if_neg htags, hfences]
  rfl

/-- The fences of a Markdown text are looked up. -/
theorem fence_mem_lookups (htags : ¬h.tags.isEmpty) {c : Option CommentSyntax}
    (hp : (Profile.of (Language.canonical language) c h.toggles).markdown = true) {f : Fence}
    (hf : f ∈ fences scope) : (f.language, f.body) ∈ h.lookups scope language := by
  rw [Profile.markdown_of] at hp
  rw [lookups, looksAtFences, hp, Bool.and_true, if_neg htags, if_pos (by simpa using htags)]
  exact List.mem_append_right _ (List.mem_map.2 ⟨f, hf, rfl⟩)

theorem mem_languages (htags : ¬h.tags.isEmpty) :
    language ∈ h.languages text start stop language :=
  List.mem_map.2 ⟨_, mem_lookups htags, rfl⟩

theorem fences_subset_languages (htags : ¬h.tags.isEmpty) {c : Option CommentSyntax}
    (hp : (Profile.of (Language.canonical language) c h.toggles).markdown = true) :
    (fences (Scope.within text.toList start stop)).map (·.language) ⊆
      h.languages text start stop language := by
  intro l hl
  obtain ⟨f, hf, rfl⟩ := List.mem_map.1 hl
  exact List.mem_map.2 ⟨_, fence_mem_lookups htags hp hf, rfl⟩

/-- Only what the source can answer matters for how a scan goes on. -/
theorem profile_bind_eq_bind [LawfulMonad m] {resolve : SyntaxSource m} {β : Type}
    {P : Option CommentSyntax → Prop} {f g : Profile → m β}
    (hresolve : Ensures P (resolve (Language.canonical language)))
    (hfg : ∀ c, P c → f (Profile.of (Language.canonical language) c h.toggles) =
      g (Profile.of (Language.canonical language) c h.toggles)) :
    h.profile resolve language >>= f = h.profile resolve language >>= g := by
  rw [profile, bind_assoc, bind_assoc]
  refine hresolve.bind_eq_bind fun c hc => ?_
  rw [pure_bind, pure_bind, hfg c hc]

end

/-- The grammar of a language whose comments are written as the answer of a source says. -/
def grammarOf (h : Highlighter) (language : String) (answer : Option CommentSyntax) : Grammar :=
  Grammar.of (Profile.of (Language.canonical language) answer h.toggles) h.tags

section

variable [Engine]

/-- The engine compiles the grammars of the languages, whatever the source answers. -/
def Compiles (h : Highlighter) (resolve : SyntaxSource m) (languages : List String) : Prop :=
  ∀ language ∈ languages, Ensures (fun answer => (h.grammarOf language answer).compiles = true)
    (resolve (Language.canonical language))

/-- The findings in a scope whose profile is known. -/
def findingsIn (h : Highlighter) (resolve : SyntaxSource m) (p : Profile) (scope : Scope) :
    m (List Finding) := do
  if !h.looksAt p then return []
  let own := h.commentFindings p scope ++ docFindings p h.tags scope ++ listFindings p h.tags scope
  if !p.markdown then return own
  let embedded ← (fences scope).mapM (h.fenceFindings resolve)
  return own ++ embedded.flatten

theorem findings_eq_bind (h : Highlighter) (resolve : SyntaxSource m) (language : String)
    (scope : Scope) :
    h.findings resolve language scope =
      if h.tags.isEmpty then pure []
      else h.profile resolve language >>= fun p => h.findingsIn resolve p scope := rfl

theorem scanRange_eq_map [LawfulMonad m] (h : Highlighter) (resolve : SyntaxSource m)
    (text : String) (start stop : Nat) (language : String) :
    h.scanRange resolve text start stop language =
      Collected.collect h.tags <$>
        h.findings resolve language (Scope.within text.toList start stop) := by
  rw [map_eq_pure_bind]
  rfl

end

theorem rename_move (shift : Nat) (h : Highlighter) : h.rename (.move shift) = h := by
  rw [rename, Registry.rename_move]

/-- A grammar does not know where the text stands. -/
theorem compiles_move [Engine] (h : Highlighter) (shift : Nat) (p : Profile) :
    (Grammar.of (p.rename (.move shift)) (h.tags.rename (.move shift))).compiles =
      (Grammar.of p h.tags).compiles := by
  rw [Profile.rename_move, Registry.rename_move]

end Highlighter

theorem SyntaxSource.rename_move [LawfulMonad m] (shift : Nat) (resolve : SyntaxSource m) :
    resolve.rename (.move shift) = resolve := by
  funext language
  have h : (fun c : CommentSyntax => c.rename (.move shift)) = id :=
    funext (CommentSyntax.rename_move shift)
  rw [SyntaxSource.rename, h, Option.map_id, id_map]

namespace Highlighter

section

variable {ρ : Renaming} [LawfulMonad m]

theorem profile_rename (h : Highlighter) (resolve : SyntaxSource m) (language : String) :
    (h.rename ρ).profile (resolve.rename ρ) language =
      Profile.rename ρ <$> h.profile resolve language := by
  rw [profile, profile, SyntaxSource.rename, bind_map_left, map_bind]
  refine bind_congr fun c => ?_
  rw [map_pure, Profile.of_rename]
  rfl

theorem commentFindings_rename (h : Highlighter) (p : Profile) (scope : Scope)
    (hp : p.ignoresFirstLine = true → ρ.shift = 0 ∨ 0 < scope.offset) :
    (h.rename ρ).commentFindings (p.rename ρ) (scope.rename ρ) =
      (h.commentFindings p scope).map (·.move ρ.shift) := by
  rw [commentFindings, commentFindings, Highlighter.rename, lineFindings_rename p _ _ hp,
    blockFindings_rename, List.map_append]

variable [Engine] (h : Highlighter)
  (hcompiles : ∀ p : Profile, (Grammar.of (p.rename ρ) (h.tags.rename ρ)).compiles =
    (Grammar.of p h.tags).compiles)
include hcompiles

omit [LawfulMonad m] [Monad m] in
theorem looksAt_rename (p : Profile) : (h.rename ρ).looksAt (p.rename ρ) = h.looksAt p :=
  congrArg ((p.supported || p.markdown) && ·) (hcompiles p)

theorem fenceFindings_rename (resolve : SyntaxSource m) {scope : Scope} {f : Fence}
    (hf : f ∈ fences scope) :
    (h.rename ρ).fenceFindings (resolve.rename ρ) (f.rename ρ) =
      List.map (·.move ρ.shift) <$> h.fenceFindings resolve f := by
  have hpos := (mem_fences hf).2.1
  rw [fenceFindings, fenceFindings, show (f.rename ρ).language = f.language from rfl,
    profile_rename, bind_map_left, map_bind]
  refine bind_congr fun p => ?_
  rw [map_pure, show (f.rename ρ).body = f.body.rename ρ from rfl,
    commentFindings_rename h p f.body fun _ => .inr (by omega), h.looksAt_rename hcompiles]
  split <;> rfl

theorem findingsIn_rename (resolve : SyntaxSource m) (p : Profile) (scope : Scope)
    (hp : p.ignoresFirstLine = true → ρ.shift = 0 ∨ 0 < scope.offset) :
    (h.rename ρ).findingsIn (resolve.rename ρ) (p.rename ρ) (scope.rename ρ) =
      List.map (·.move ρ.shift) <$> h.findingsIn resolve p scope := by
  have hembedded : (fences (scope.rename ρ)).mapM ((h.rename ρ).fenceFindings (resolve.rename ρ)) =
      List.map (List.map (·.move ρ.shift)) <$> (fences scope).mapM (h.fenceFindings resolve) := by
    rw [fences_rename, List.mapM_map, ← mapM_map_result]
    exact mapM_congr fun f hf => fenceFindings_rename h hcompiles resolve hf
  have hown : (h.rename ρ).commentFindings (p.rename ρ) (scope.rename ρ) ++
        docFindings (p.rename ρ) (h.rename ρ).tags (scope.rename ρ) ++
        listFindings (p.rename ρ) (h.rename ρ).tags (scope.rename ρ) =
      (h.commentFindings p scope ++ docFindings p h.tags scope ++
        listFindings p h.tags scope).map (·.move ρ.shift) := by
    rw [commentFindings_rename h p scope hp, show (h.rename ρ).tags = h.tags.rename ρ from rfl,
      docFindings_rename, listFindings_rename, List.map_append, List.map_append]
  rw [findingsIn, findingsIn, hown, hembedded, h.looksAt_rename hcompiles,
    show (p.rename ρ).markdown = p.markdown from rfl]
  split
  · rw [map_pure]; rfl
  · split
    · rw [map_pure]
    · rw [bind_map_left, map_bind]
      refine bind_congr fun embedded => ?_
      rw [map_pure, ← List.map_flatten, ← List.map_append]

/-- **Whole scans are equivariant**, unless a comment could come to stand at the start of the
document, or leave that place, in a language where it does not count there. -/
theorem findings_rename (resolve : SyntaxSource m) (language : String) (scope : Scope) (hl : Language.suppressesFirstLine (Language.canonical language) = true →
      ρ.shift = 0 ∨ 0 < scope.offset) :
    (h.rename ρ).findings (resolve.rename ρ) language (scope.rename ρ) =
      List.map (·.move ρ.shift) <$> h.findings resolve language scope := by
  rw [findings_eq_bind, findings_eq_bind, show (h.rename ρ).tags.isEmpty = h.tags.isEmpty from
    List.isEmpty_map]
  split
  · rw [map_pure]; rfl
  · rw [profile_rename, bind_map_left, map_bind, profile, bind_assoc, bind_assoc]
    refine bind_congr fun c => ?_
    rw [pure_bind, pure_bind]
    exact findingsIn_rename h hcompiles resolve _ scope fun hp => hl (Profile.suppresses_of_ignores hp)

end

end Highlighter

end CommentTags
