import Mathlib
import CommentTags.Comment.Resolver

/-!
# Look-ups at the same time

Several look-ups may use one resolver at the same time.  Each of them first reads what is
remembered; if there is nothing, it asks the source, and then it stores the answer.  No look-up
touches the remembered answers between these sections, so others may come in there, the resolver may
be invalidated, and the source may change.

An answer that was given before an invalidation can be stored after it, and later look-ups get it
then (`Shared.stale_of_invalidate_while_held`).  This is the only way in which they can get what was
answered before: `Shared.mem_questions_of_returned`.

## What is here

* `Shared.step` — what one section of a look-up does, and all else that can happen in between.  The
  sections of a look-up that is left alone make up `Resolver.resolve` (`Shared.run_alone`).
* `Shared.Fresh` — the invariant: what is remembered or held was answered since the invalidation.
-/

set_option autoImplicit false

namespace CommentTags.Resolver

/-! ## Look-ups in sections -/

/-- How far a look-up has got. -/
inductive Phase
  /-- What is remembered has not been read yet. -/
  | reading
  /-- Nothing was remembered, so the source is to be asked. -/
  | asking
  /-- The source has given an answer, which is not stored yet. -/
  | holding (answer : Option CommentSyntax)
  | returned (answer : Option CommentSyntax)
  deriving Repr, DecidableEq

/-- A look-up of a canonical name. -/
structure Call where
  key : String
  phase : Phase
  deriving Repr, DecidableEq

/-- A resolver with all the look-ups that were ever begun, and what the source answers now. -/
structure Shared where
  resolver : Resolver := {}
  answers : String → Option CommentSyntax
  /-- The look-ups in the order in which they were begun. -/
  calls : List Call := []

/-- What can happen next. -/
inductive Action
  /-- A new look-up of a language. -/
  | begin (language : String)
  /-- The next section of the look-up with a number. -/
  | proceed (i : Nat)
  | invalidate
  /-- The source answers something else from now on. -/
  | change (answers : String → Option CommentSyntax)

/-- The next section of a look-up. -/
def Call.proceed (answers : String → Option CommentSyntax) (c : Call) (r : Resolver) :
    Call × Resolver :=
  match c.phase with
  | .reading =>
    match r.peek? c.key with
    | some answer => ({ c with phase := .returned answer }, r)
    | none => ({ c with phase := .asking }, r)
  | .asking => ({ c with phase := .holding (answers c.key) }, r)
  | .holding answer =>
    ({ c with phase := .returned (r.store c.key answer).1 }, (r.store c.key answer).2)
  | .returned _ => (c, r)

/-- What the source is asked in the next section of a look-up, with its answer. -/
def Call.question? (answers : String → Option CommentSyntax) (c : Call) :
    Option (String × Option CommentSyntax) :=
  if c.phase = .asking then some (c.key, answers c.key) else none

namespace Shared

def step (s : Shared) : Action → Shared
  | .begin language =>
    { s with calls := s.calls ++ [⟨Language.canonical language, .reading⟩] }
  | .proceed i =>
    match s.calls[i]? with
    | none => s
    | some c =>
      { s with
        resolver := (c.proceed s.answers s.resolver).2
        calls := s.calls.set i (c.proceed s.answers s.resolver).1 }
  | .invalidate => { s with resolver := s.resolver.invalidate }
  | .change answers => { s with answers }

/-- One action after another. -/
def run (s : Shared) (actions : List Action) : Shared :=
  actions.foldl step s

/-- What the source is asked in a step, with its answer. -/
def question? (s : Shared) : Action → Option (String × Option CommentSyntax)
  | .proceed i => s.calls[i]?.bind (·.question? s.answers)
  | _ => none

/-- All that the source is asked while the actions are done. -/
def questions (s : Shared) : List Action → List (String × Option CommentSyntax)
  | [] => []
  | a :: actions => (s.question? a).toList ++ (s.step a).questions actions

end Shared

/-! ## A look-up on its own -/

variable {r : Resolver} {key key' : String} {answer : Option CommentSyntax}

/-- After an answer has been stored it is remembered, or else the one that was there before. -/
theorem peek?_store (r : Resolver) (key : String) (answer : Option CommentSyntax) (key' : String) :
    (r.store key answer).2.peek? key' =
      if key' = key then some (r.store key answer).1 else r.peek? key' := by
  cases h : r.peek? key with
  | some kept =>
    have hstore : r.store key answer = (kept, { r with asked := key :: r.asked }) := by
      rw [store, h]
    rw [hstore]
    by_cases hk : key' = key
    · rw [if_pos hk, hk]
      exact h
    · rw [if_neg hk]
      rfl
  | none =>
    have hstore : r.store key answer = (answer, ⟨(key, answer) :: r.cached, key :: r.asked⟩) := by
      rw [store, h]
    rw [hstore, peek?, List.lookup_cons]
    by_cases hk : key' = key
    · rw [if_pos hk, beq_iff_eq.2 hk]
    · rw [if_neg hk, beq_eq_false_iff_ne.2 hk]
      rfl

theorem store_fst_eq_or (r : Resolver) (key : String) (answer : Option CommentSyntax) :
    (r.store key answer).1 = answer ∨ r.peek? key = some (r.store key answer).1 := by
  rw [store]
  cases h : r.peek? key with
  | some kept => exact .inr rfl
  | none => exact .inl rfl

/-- **The sections of a look-up that is left alone are the whole look-up.** -/
theorem Shared.run_alone (s : Shared) (language : String) :
    s.run [.begin language, .proceed s.calls.length, .proceed s.calls.length,
        .proceed s.calls.length] =
      { s with
        resolver := ((resolve (m := Id) s.answers language).run s.resolver).2
        calls := s.calls ++ [⟨Language.canonical language,
          .returned ((resolve (m := Id) s.answers language).run s.resolver).1⟩] } := by
  obtain ⟨r, answers, calls⟩ := s
  have hresolve : (resolve (m := Id) answers language).run r =
      match r.peek? (Language.canonical language) with
      | some answer => (answer, r)
      | none => r.store (Language.canonical language) (answers (Language.canonical language)) := by
    simp only [resolve, StateT.run_bind, StateT.run_get]
    cases h : r.peek? (Language.canonical language) <;> simp [h] <;> rfl
  rw [hresolve]
  cases h : r.peek? (Language.canonical language) with
  | some answer => simp [run, step, Call.proceed, h]
  | none => simp [run, step, Call.proceed, h]

/-! ## Answers given since an invalidation -/

/-- A look-up with a number holds or has returned nothing but what was given.  Only those from
`first` on count as having returned something. -/
def Call.Fresh (given : List (String × Option CommentSyntax)) (first i : Nat) (c : Call) : Prop :=
  ∀ answer, c.phase = .holding answer ∨ first ≤ i ∧ c.phase = .returned answer →
    (c.key, answer) ∈ given

/-- What is remembered for a name was given, and so was what its look-ups hold, and what those that
were begun from `first` on have returned. -/
structure Shared.Fresh (key : String) (given : List (String × Option CommentSyntax)) (first : Nat)
    (s : Shared) : Prop where
  remembered : ∀ answer, s.resolver.peek? key = some answer → (key, answer) ∈ given
  calls : ∀ (i : Nat) (c : Call), s.calls[i]? = some c → c.key = key → c.Fresh given first i

section

variable {given : List (String × Option CommentSyntax)} {first i : Nat} {s : Shared} {c : Call}

theorem Call.Fresh.mono {given' : List (String × Option CommentSyntax)} (h : c.Fresh given first i)
    (hsub : given ⊆ given') : c.Fresh given' first i :=
  fun answer ha => hsub (h answer ha)

theorem Call.proceed_key (answers : String → Option CommentSyntax) (c : Call) (r : Resolver) :
    (c.proceed answers r).1.key = c.key := by
  rw [Call.proceed]
  split
  · split <;> rfl
  all_goals rfl

/-- A look-up goes on with what is remembered or with what the source answers now. -/
theorem Call.Fresh.proceed {answers : String → Option CommentSyntax} (h : c.Fresh given first i)
    (hr : ∀ answer, r.peek? c.key = some answer → (c.key, answer) ∈ given) :
    (c.proceed answers r).1.Fresh (given ++ (c.question? answers).toList) first i := by
  obtain ⟨key, phase⟩ := c
  cases phase with
  | reading =>
    rw [Call.proceed]
    cases hpeek : r.peek? key with
    | some kept =>
      rintro answer (ha | ⟨-, ha⟩)
      · simp at ha
      · obtain rfl : kept = answer := by simpa using ha
        exact List.mem_append_left _ (hr _ hpeek)
    | none => rintro answer (ha | ⟨-, ha⟩) <;> simp at ha
  | asking =>
    rintro answer (ha | ⟨-, ha⟩)
    · obtain rfl : answers key = answer := by simpa [Call.proceed] using ha
      simp [Call.question?, Call.proceed]
    · simp [Call.proceed] at ha
  | holding held =>
    rintro answer (ha | ⟨-, ha⟩)
    · simp [Call.proceed] at ha
    · obtain rfl : (r.store key held).1 = answer := by simpa [Call.proceed] using ha
      refine List.mem_append_left _ ?_
      rcases store_fst_eq_or r key held with hkept | hkept
      · rw [hkept]
        exact h held (.inl rfl)
      · exact hr _ hkept
  | returned => exact h.mono (List.subset_append_left _ _)

/-- What is remembered then was remembered before, or it is what the look-up has held. -/
theorem Call.Fresh.remembered {answers : String → Option CommentSyntax}
    (hc : c.key = key → c.Fresh given first i)
    (hr : ∀ answer, r.peek? key = some answer → (key, answer) ∈ given) :
    ∀ answer, (c.proceed answers r).2.peek? key = some answer → (key, answer) ∈ given := by
  intro answer ha
  obtain ⟨key', phase⟩ := c
  cases phase with
  | reading =>
    refine hr answer ?_
    rw [Call.proceed] at ha
    cases hpeek : r.peek? key' <;> simpa [hpeek] using ha
  | asking | returned => exact hr answer ha
  | holding held =>
    rw [Call.proceed, peek?_store] at ha
    split at ha
    · next hk =>
      subst hk
      rcases store_fst_eq_or r key held with hkept | hkept
      · rw [hkept, Option.some_inj] at ha
        exact ha ▸ hc rfl held (.inl rfl)
      · exact hr answer (hkept.trans ha)
    · exact hr answer ha

namespace Shared

theorem Fresh.mono {given' : List (String × Option CommentSyntax)} (h : s.Fresh key given first)
    (hsub : given ⊆ given') : s.Fresh key given' first where
  remembered answer ha := hsub (h.remembered answer ha)
  calls i c hi hc := (h.calls i c hi hc).mono hsub

/-- **One step keeps the invariant**, with what the source is asked in it. -/
theorem Fresh.step (h : s.Fresh key given first) (a : Action) :
    (s.step a).Fresh key (given ++ (s.question? a).toList) first := by
  cases a with
  | begin language =>
    refine Fresh.mono ⟨h.remembered, fun i c hi hc => ?_⟩ (List.subset_append_left _ _)
    rcases Nat.lt_or_ge i s.calls.length with hlt | hge
    · exact h.calls i c (by rwa [Shared.step, List.getElem?_append_left hlt] at hi) hc
    · -- the new look-up has nothing yet
      rw [Shared.step, List.getElem?_append_right hge, List.getElem?_singleton] at hi
      split at hi
      · rintro answer (ha | ⟨-, ha⟩) <;> simp [← Option.some_inj.1 hi] at ha
      · exact absurd hi (by simp)
  | proceed i =>
    rw [Shared.step, question?]
    cases hi : s.calls[i]? with
    | none => exact h.mono (List.subset_append_left _ _)
    | some c =>
      refine ⟨?_, fun j c' hj hc' => ?_⟩
      · -- what is remembered now was remembered before, or the look-up has held it
        intro answer ha
        refine List.mem_append_left _ ?_
        exact Call.Fresh.remembered (h.calls i c hi) h.remembered answer ha
      · rw [List.getElem?_set] at hj
        split at hj
        · next hij =>
          subst hij
          split at hj
          · obtain rfl := Option.some_inj.1 hj
            rw [Call.proceed_key] at hc'
            exact (h.calls i c hi hc').proceed (hc' ▸ h.remembered)
          · exact absurd hj (by simp)
        · exact (h.calls j c' hj hc').mono (List.subset_append_left _ _)
  | invalidate =>
    refine Fresh.mono ⟨fun answer ha => ?_, h.calls⟩ (List.subset_append_left _ _)
    exact absurd ha.symm (Option.some_ne_none _)
  | change answers => exact Fresh.mono ⟨h.remembered, h.calls⟩ (List.subset_append_left _ _)

theorem Fresh.run (h : s.Fresh key given first) (actions : List Action) :
    (s.run actions).Fresh key (given ++ s.questions actions) first := by
  induction actions generalizing s given with
  | nil => exact h.mono (List.subset_append_left _ _)
  | cons a actions ih =>
    rw [questions, ← List.append_assoc]
    exact ih (h.step a)

/-- What look-ups hold at the moment. -/
def held (s : Shared) : List (String × Option CommentSyntax) :=
  s.calls.filterMap fun c =>
    match c.phase with
    | .holding answer => some (c.key, answer)
    | _ => none

theorem mem_held_iff : (key, answer) ∈ s.held ↔ ⟨key, .holding answer⟩ ∈ s.calls := by
  rw [held, List.mem_filterMap]
  constructor
  · rintro ⟨⟨key', phase⟩, hc, h⟩
    cases phase with
    | holding held =>
      obtain ⟨rfl, rfl⟩ := Prod.mk.inj (Option.some_inj.1 h)
      exact hc
    | _ => exact absurd h.symm (Option.some_ne_none _)
  · exact fun hc => ⟨_, hc, rfl⟩

/-- An invalidation leaves nothing of what was given before, but for what is held. -/
theorem fresh_invalidate (s : Shared) (key : String) :
    (s.step .invalidate).Fresh key s.held s.calls.length where
  remembered answer ha := absurd ha.symm (Option.some_ne_none _)
  calls i c hi _ := by
    rintro answer (ha | ⟨hle, -⟩)
    · exact mem_held_iff.2 (ha ▸ List.mem_of_getElem? hi)
    · exact absurd (List.getElem?_eq_some_iff.1 hi).1 (Nat.not_lt.2 hle)

/-- **A look-up that is begun after an invalidation returns what was answered since then**, whatever
happens in whatever order, unless another look-up held the answer when the resolver was
invalidated. -/
theorem mem_questions_of_returned (s : Shared) (actions : List Action) (i : Nat) (key : String)
    (answer : Option CommentSyntax) (hlater : s.calls.length ≤ i)
    (hreturned : ((s.step .invalidate).run actions).calls[i]? = some ⟨key, .returned answer⟩)
    (hheld : ⟨key, .holding answer⟩ ∉ s.calls) :
    (key, answer) ∈ (s.step .invalidate).questions actions := by
  have hgiven := ((s.fresh_invalidate key).run actions).calls i _ hreturned rfl answer
    (.inr ⟨hlater, rfl⟩)
  exact (List.mem_append.1 hgiven).resolve_left fun h => hheld (mem_held_iff.1 h)

/-- A look-up is about to ask when the source changes and the resolver is invalidated.  It stores
the new answer, and this is what the next look-up is given. -/
theorem mem_questions_of_returned_asking :
    let hash : CommentSyntax := { line := some (.single "#") }
    let s := run { answers := fun _ => none } [.begin "py", .proceed 0, .change fun _ => some hash]
    let actions : List Action := [.proceed 0, .begin "Python", .proceed 0, .proceed 1]
    s.calls = [⟨"python", .asking⟩] ∧
      ((s.step .invalidate).run actions).calls[1]? = some ⟨"python", .returned (some hash)⟩ ∧
      ("python", some hash) ∈ (s.step .invalidate).questions actions := by
  intro hash s actions
  have hcalls : s.calls = [⟨"python", .asking⟩] := by cbv
  have hreturned : ((s.step .invalidate).run actions).calls[1]? =
      some ⟨"python", .returned (some hash)⟩ := by cbv
  refine ⟨hcalls, hreturned, mem_questions_of_returned s actions 1 "python" (some hash) ?_ hreturned
    ?_⟩
  · rw [hcalls]
    exact Nat.le_refl 1
  · rw [hcalls]
    decide

/-- A look-up has its answer when the source changes and the resolver is invalidated.  It stores the
answer all the same, and this is what the next look-up is given, though the source has not been
asked since and would answer something else. -/
theorem stale_of_invalidate_while_held :
    let hash : CommentSyntax := { line := some (.single "#") }
    let s := run { answers := fun _ => some hash }
      [.begin "py", .proceed 0, .proceed 0, .change fun _ => none]
    let actions : List Action := [.proceed 0, .begin "Python", .proceed 1]
    s.calls.length = 1 ∧
      ((s.step .invalidate).run actions).calls[1]? = some ⟨"python", .returned (some hash)⟩ ∧
      ("python", some hash) ∉ (s.step .invalidate).questions actions ∧
      (s.step .invalidate).answers "python" = none := by
  intro hash s actions
  have hquestions : (s.step .invalidate).questions actions = [] := by cbv
  refine ⟨by cbv, by cbv, ?_, rfl⟩
  rw [hquestions]
  exact List.not_mem_nil

end Shared

end

end CommentTags.Resolver
