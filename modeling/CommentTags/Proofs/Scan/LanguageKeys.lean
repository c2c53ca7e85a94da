import CommentTags.Proofs.Scan.Cache
import CommentTags.Proofs.Scan.LetterCase
import CommentTags.Proofs.Scan.Placement

/-!
# One key for each language

White space around the name of a language and the case of its ASCII letters make no difference.  A
scan brings the name of its language to the canonical form, the resolver does so again, and a fence
has a canonical name from the start.  All of them arrive at one key: under it an answer is looked up
and remembered, and for it the source is asked.

* `Language.Respelled`, `Language.canonical_respelled` — a name may be spelled in many ways.
* `Resolver.LooksUp` — a computation looks up one key and goes on with the answer, be it remembered
  or given by the source, and leaves the other keys alone.
* `Highlighter.looksUp_fenceFindings` — a fence is scanned like this.
* `Highlighter.profile_looksUp` — so are the profile of a text and the resolver itself.
-/

set_option autoImplicit false

namespace CommentTags

namespace Language

/-- The second name is the first one with white space around it, where letters of ASCII may be in the
other case. -/
def Respelled (name name' : String) : Prop :=
  ∃ lead inner trail : List Char, name'.toList = lead ++ (inner ++ trail) ∧
    (∀ a ∈ lead, Text.isWhite a = true) ∧ (∀ a ∈ trail, Text.isWhite a = true) ∧
    SameButCase name (String.ofList inner)

theorem canonical_of_sameButCase {s t : String} (h : SameButCase s t) :
    canonical s = canonical t := by
  have hstring : Renaming.small.string s = Renaming.small.string t := congrArg String.ofList h
  rw [← canonical_string (ρ := .small) s, hstring, canonical_string]

/-- **A name may be spelled in many ways.** -/
theorem canonical_respelled {name name' : String} (h : Respelled name name') :
    canonical name' = canonical name := by
  obtain ⟨lead, inner, trail, hsplit, hlead, htrail, hinner⟩ := h
  have htrim : normalized name' = normalized (String.ofList inner) := by
    rw [normalized, normalized, hsplit, Text.trim_append_of_white hlead htrail,
      String.toList_ofList]
  rw [canonical_of_sameButCase hinner, canonical, canonical, htrim]

end Language

namespace Resolver

variable {m : Type → Type} [Monad m] {α β : Type} {source : SyntaxSource m} {key : String}

/-- The computation looks up a key and goes on with the answer.  An answer that is remembered under
the key counts; without one the source is asked for the key, and its answer is remembered under it. -/
def LooksUp (source : SyntaxSource m) (key : String) (goOn : Option CommentSyntax → α)
    (x : StateT Resolver m α) : Prop :=
  ∀ r : Resolver, x.run r =
    match r.peek? key with
    | some answer => pure (goOn answer, r)
    | none => (fun answer => (goOn answer, r.remember key answer)) <$> source key

variable [LawfulMonad m]

theorem looksUp_resolve (source : SyntaxSource m) (language : String) :
    LooksUp source (Language.canonical language) id (resolve source language) :=
  resolve_run source language

theorem LooksUp.map {goOn : Option CommentSyntax → α} {x : StateT Resolver m α}
    (h : LooksUp source key goOn x) (f : α → β) :
    LooksUp source key (fun answer => f (goOn answer)) (f <$> x) := by
  intro r
  rw [StateT.run_map, h r]
  cases r.peek? key with
  | some answer => rw [map_pure]
  | none => rw [Functor.map_map]

end Resolver

theorem Profile.language_of (language : String) (c : Option CommentSyntax) (toggles : Toggles) :
    (Profile.of language c toggles).language = language := by
  simp only [Profile.of, apply_ite Profile.language]
  exact ite_self _

namespace Highlighter

open Resolver

variable {m : Type → Type} [Monad m] [LawfulMonad m]

theorem looksUp_profile (h : Highlighter) (source : SyntaxSource m) (language : String) :
    LooksUp source (Language.canonical language)
      (fun answer => Profile.of (Language.canonical language) answer h.toggles)
      (h.profile (resolve source) language) := by
  have hresolve := looksUp_resolve source (Language.canonical language)
  rw [Language.canonical_canonical] at hresolve
  have hprofile := hresolve.map fun answer =>
    Profile.of (Language.canonical language) answer h.toggles
  rw [profile, ← map_eq_pure_bind]
  exact hprofile

/-- A fence is scanned with the answer for its language, as if that were the syntax of every
language. -/
theorem looksUp_fenceFindings [Engine] (h : Highlighter) (source : SyntaxSource m) (f : Fence) :
    LooksUp source (Language.canonical f.language)
      (fun answer => (h.fenceFindings (m := Id) (fun _ => pure answer) f).run)
      (h.fenceFindings (resolve source) f) := by
  have hscan := (h.looksUp_profile source f.language).map fun p =>
    if h.looksAt p then h.commentFindings p f.body else []
  simpa only [fenceFindings, profile, pure_bind, Id.run_pure, map_eq_pure_bind] using hscan

/-- **Language keys are canonical once.**  A canonical name is its own canonical form, and white space
around a name and the case of its ASCII letters do not change it.  So for all spellings of a name,
and for the canonical name itself, there is one key: it is the language of the profile, the key under
which the resolver looks up and remembers the syntax, and the language of every fence whose hint is
one of the spellings, so that the fence is scanned with the syntax under that key. -/
theorem profile_looksUp [Engine] (h : Highlighter) (source : SyntaxSource m)
    {name name' : String} (hname : Language.Respelled name name') :
    let key := Language.canonical name
    Language.canonical key = key ∧ Language.canonical name' = key ∧
    (∀ answer, (Profile.of key answer h.toggles).language = key) ∧
    (∀ language ∈ [name', key], LooksUp source key id (resolve source language) ∧
      LooksUp source key (fun answer => Profile.of key answer h.toggles)
        (h.profile (resolve source) language)) ∧
    ∀ scope, ∀ f ∈ fences scope, f.hint = name' → f.language = key ∧
      LooksUp source key (fun answer => (h.fenceFindings (m := Id) (fun _ => pure answer) f).run)
        (h.fenceFindings (resolve source) f) := by
  intro key
  have hkey : Language.canonical key = key := Language.canonical_canonical name
  have hname' : Language.canonical name' = key := Language.canonical_respelled hname
  have hlanguage : ∀ language ∈ [name', key], Language.canonical language = key := by
    rw [List.forall_mem_cons, List.forall_mem_singleton]
    exact ⟨hname', hkey⟩
  refine ⟨hkey, hname', fun answer => Profile.language_of _ _ _, fun language hl => ?_,
    fun scope f hf hhint => ?_⟩
  · rw [← hlanguage language hl]
    exact ⟨looksUp_resolve source language, h.looksUp_profile source language⟩
  · obtain ⟨-, -, hfence⟩ := mem_fences hf
    rw [hhint, hname'] at hfence
    have hscan := h.looksUp_fenceFindings source f
    rw [hfence, hkey] at hscan
    exact ⟨hfence, hscan⟩

/-- A short name with white space and a capital letter, and a fence with that name for its hint. -/
theorem profile_looksUp_js :
    let h : Highlighter := ⟨⟨[⟨"todo", {}⟩]⟩, {}⟩
    let source : SyntaxSource Id := SyntaxSource.builtin
    let s : Scope := .document "```Js\n// TODO\n```\n".toList
    Language.canonical "js" = "javascript" ∧ (fences s).map (·.hint) = ["Js"] ∧
      Language.Respelled "js" "\u3000Js\t" ∧
      LooksUp source "javascript" (fun answer => Profile.of "javascript" answer h.toggles)
        (h.profile (resolve source) "\u3000Js\t") ∧
      ∀ f ∈ fences s, f.language = "javascript" := by
  intro h source s
  have hkey : Language.canonical "js" = "javascript" := by decide +kernel
  have hhint : (fences s).map (·.hint) = ["Js"] := by cbv
  have hwide : Language.Respelled "js" "\u3000Js\t" :=
    ⟨['\u3000'], ['J', 's'], ['\t'], by decide, List.forall_mem_singleton.2 (by decide),
      List.forall_mem_singleton.2 (by decide), by decide⟩
  have hplain : Language.Respelled "js" "Js" :=
    ⟨[], ['J', 's'], [], by decide, List.forall_mem_nil _, List.forall_mem_nil _, by decide⟩
  have hlook := profile_looksUp h source hwide
  have hfence := (profile_looksUp h source hplain).2.2.2.2 s
  rw [hkey] at hlook hfence
  refine ⟨hkey, hhint, hwide, (hlook.2.2.2.1 _ List.mem_cons_self).2, fun f hf => ?_⟩
  have hmem : f.hint ∈ (fences s).map (·.hint) := List.mem_map_of_mem hf
  rw [hhint, List.mem_singleton] at hmem
  exact (hfence f hf hmem).1

end Highlighter

end CommentTags
