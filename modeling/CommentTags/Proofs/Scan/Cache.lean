import Mathlib
import CommentTags.Proofs.Language.Names
import CommentTags.Proofs.Scan.Runs

/-!
# What a resolver answers

A program looks up languages, scans texts and invalidates its resolver, in any order, and meanwhile
the source may change.  Every look-up, also one that a scan makes for a fence, gets what the source
first answered for its canonical name since the resolver was last invalidated, and the source is
asked only once for it.

To speak of look-ups that a scan makes on its own, the look-ups and the questions are put on record
while the program runs.  A scan does nothing else with effects than look-ups
(`Highlighter.scanRange_rel`), so it is enough to follow a single look-up.

* `Step`, `Resolver.run` — what a program does with its resolver, and a run of it.
* `Event`, `Resolver.recordedRun` — the same run with everything on record.
* `Resolver.History` — what is said of a record: between two invalidations every look-up is answered
  as the first one was, and no name is asked for twice.
* `Resolver.Tracks` — the invariant: the answers that are remembered are the ones on record since
  the last invalidation.  `Resolver.Tracks.hit` and `Resolver.Tracks.miss` are the two cases of a
  look-up.
* `Resolver.run_history` — a run with a record gives what a run without one gives, and the record is
  such a history.
* `Resolver.Agrees` — every remembered answer is the one that the source always gives.  Scans then
  have the results that they have without a resolver.
-/

set_option autoImplicit false

namespace CommentTags

/-! ## Scans are made of look-ups -/

namespace Highlighter

variable {m n : Type → Type} [Monad m] [Monad n] (C : Comparison m n)
  {resolve : SyntaxSource m} {resolve' : SyntaxSource n}

theorem profile_rel (h : Highlighter) {language : String}
    (hresolve : C.Rel (resolve (Language.canonical language))
      (resolve' (Language.canonical language))) :
    C.Rel (h.profile resolve language) (h.profile resolve' language) :=
  C.bind hresolve fun _ => C.pure _

variable [Engine]

theorem fenceFindings_rel (h : Highlighter) {f : Fence}
    (hresolve : C.Rel (resolve (Language.canonical f.language))
      (resolve' (Language.canonical f.language))) :
    C.Rel (h.fenceFindings resolve f) (h.fenceFindings resolve' f) :=
  C.bind (h.profile_rel C hresolve) fun _ => C.pure _

variable [LawfulMonad m] [LawfulMonad n]

theorem findingsIn_rel (h : Highlighter) (p : Profile) {scope : Scope}
    (hresolve : p.markdown = true → ∀ f ∈ fences scope,
      C.Rel (resolve (Language.canonical f.language)) (resolve' (Language.canonical f.language))) :
    C.Rel (h.findingsIn resolve p scope) (h.findingsIn resolve' p scope) := by
  rw [findingsIn, findingsIn]
  split
  · exact C.pure []
  split
  · exact C.pure _
  next hmarkdown =>
  have hfences := hresolve (by simpa using hmarkdown)
  exact C.bind (C.mapM fun f hf => h.fenceFindings_rel C (hfences f hf)) fun _ => C.pure _

/-- **Scans compare as look-ups do.** -/
theorem scanRange_rel (h : Highlighter) {text : String} {start stop : Nat} {language : String}
    (hresolve : ∀ l ∈ h.languages text start stop language,
      C.Rel (resolve (Language.canonical l)) (resolve' (Language.canonical l))) :
    C.Rel (h.scanRange resolve text start stop language)
      (h.scanRange resolve' text start stop language) := by
  rw [scanRange, scanRange]
  refine C.bind ?_ fun _ => C.pure _
  rw [findings_eq_bind, findings_eq_bind]
  split
  · exact C.pure []
  next htags =>
  rw [profile, profile, bind_assoc, bind_assoc]
  refine C.bind (hresolve _ (mem_languages htags)) fun answer => ?_
  rw [pure_bind, pure_bind]
  exact h.findingsIn_rel C _ fun hp f hf =>
    hresolve _ (fences_subset_languages htags hp (List.mem_map_of_mem hf))

end Highlighter

namespace Resolver

variable {m n : Type → Type} [Monad m] [Monad n]

/-! ## Programs that use a resolver -/

/-- What a program does with its resolver. -/
inductive Step (m : Type → Type)
  | resolve (language : String)
  /-- Find out what is looked for in a language. -/
  | profile (h : Highlighter) (language : String)
  | scan (h : Highlighter) (text : String) (start stop : Nat) (language : String)
  | invalidate
  /-- Whatever happens elsewhere, such as a change of the source. -/
  | elsewhere (effect : m Unit)

/-- What comes of a step. -/
inductive Outcome
  | comments (answer : Option CommentSyntax)
  | profile (p : Profile)
  | found (c : Collected)
  | done
  deriving Repr, DecidableEq

/-- A step, in terms of how a language is looked up and how the answers are forgotten. -/
def Step.perform [Engine] (resolve : SyntaxSource n) (forget : n Unit) (embed : m Unit → n Unit) :
    Step m → n Outcome
  | .resolve language => do return .comments (← resolve language)
  | .profile h language => do return .profile (← h.profile resolve language)
  | .scan h text start stop language => do
    return .found (← h.scanRange resolve text start stop language)
  | .invalidate => do
    forget
    return .done
  | .elsewhere effect => do
    embed effect
    return .done

/-- The languages that a step may look up. -/
def Step.languages : Step m → List String
  | .resolve language | .profile _ language => [language]
  | .scan h text start stop language => h.languages text start stop language
  | .invalidate | .elsewhere _ => []

theorem Step.perform_rel [Engine] {k : Type → Type} [Monad k] [LawfulMonad m] [LawfulMonad n]
    (C : Comparison m n) {resolve : SyntaxSource m} {resolve' : SyntaxSource n}
    {forget : m Unit} {forget' : n Unit} {embed : k Unit → m Unit} {embed' : k Unit → n Unit}
    (step : Step k)
    (hresolve : ∀ language, Language.canonical language ∈ step.languages.map Language.canonical →
      C.Rel (resolve language) (resolve' language))
    (hforget : C.Rel forget forget') (hembed : ∀ effect, C.Rel (embed effect) (embed' effect)) :
    C.Rel (step.perform resolve forget embed) (step.perform resolve' forget' embed') := by
  have hkeys : ∀ l ∈ step.languages,
      C.Rel (resolve (Language.canonical l)) (resolve' (Language.canonical l)) := fun l hl =>
    hresolve _ (by rw [Language.canonical_canonical]; exact List.mem_map_of_mem hl)
  cases step with
  | resolve language =>
    exact C.bind (hresolve language (List.mem_singleton_self _)) fun _ => C.pure _
  | profile h language =>
    exact C.bind (h.profile_rel C (hkeys language (List.mem_singleton_self _))) fun _ => C.pure _
  | scan h text start stop language => exact C.bind (h.scanRange_rel C hkeys) fun _ => C.pure _
  | invalidate => exact C.bind hforget fun _ => C.pure _
  | elsewhere effect => exact C.bind (hembed effect) fun _ => C.pure _

/-- Do the steps one after another with a resolver in front of the source. -/
def run [Engine] (source : SyntaxSource m) (steps : List (Step m)) : StateT Resolver m (List Outcome) :=
  steps.mapM (Step.perform (resolve source) (modify invalidate) StateT.lift)

/-! ## Records -/

/-- What happens between a program, its resolver and the source. -/
inductive Event
  /-- The source is asked for a canonical name. -/
  | asked (key : String) (answer : Option CommentSyntax)
  /-- The resolver is asked for a language. -/
  | resolved (language : String) (answer : Option CommentSyntax)
  | invalidated
  deriving Repr, DecidableEq

/-- Put an event on record. -/
def record (e : Event) : StateT (List Event) m Unit :=
  modify (e :: ·)

/-- The source, with all questions on record. -/
def recordedSource (source : SyntaxSource m) : SyntaxSource (StateT (List Event) m) := fun key => do
  let answer ← StateT.lift (source key)
  record (.asked key answer)
  return answer

/-- The resolver in front of the source, with all look-ups and questions on record. -/
def recordedResolve (source : SyntaxSource m) :
    SyntaxSource (StateT Resolver (StateT (List Event) m)) := fun language => do
  let answer ← resolve (recordedSource source) language
  StateT.lift (record (.resolved language answer))
  return answer

/-- Do the steps one after another, with everything on record, the latest event first. -/
def recordedRun [Engine] (source : SyntaxSource m) (steps : List (Step m)) :
    StateT Resolver (StateT (List Event) m) (List Outcome) :=
  steps.mapM (Step.perform (recordedResolve source)
    (do
      modify invalidate
      StateT.lift (record .invalidated))
    fun effect => StateT.lift (StateT.lift effect))

/-- The events since the resolver was last invalidated, and those between the invalidations
before. -/
def periods : List Event → List Event × List (List Event)
  | [] => ([], [])
  | .invalidated :: log => ([], (periods log).1 :: (periods log).2)
  | e :: log => (e :: (periods log).1, (periods log).2)

/-- The questions to the source, each with its answer. -/
def questions (period : List Event) : List (String × Option CommentSyntax) :=
  period.filterMap fun
    | .asked key answer => some (key, answer)
    | _ => none

/-- The canonical names of the languages that were looked up. -/
def lookedUp (period : List Event) : List String :=
  period.filterMap fun
    | .resolved language _ => some (Language.canonical language)
    | _ => none

/-- What the source answered first for a canonical name. -/
def firstAnswer? (period : List Event) (key : String) : Option (Option CommentSyntax) :=
  (questions period).reverse.lookup key

/-- The source is asked once for each name that is looked up, and for no other name. -/
def AsksOnce (period : List Event) : Prop :=
  ∀ key, ((questions period).map (·.1)).count key = if key ∈ lookedUp period then 1 else 0

/-- A record of a resolver that remembers every answer until it is invalidated. -/
structure History (log : List Event) : Prop where
  /-- Each look-up gets what the source first answered for its canonical name since the last
  invalidation. -/
  answered : ∀ later language answer earlier, log = later ++ .resolved language answer :: earlier →
    firstAnswer? (periods earlier).1 (Language.canonical language) = some answer
  asksOnce : ∀ period ∈ (periods log).1 :: (periods log).2, AsksOnce period

/-! ## One look-up -/

variable {r : Resolver} {log : List Event} {language key : String} {answer : Option CommentSyntax}

/-- The resolver after the source has answered a question that it was not asked before. -/
def remember (r : Resolver) (key : String) (answer : Option CommentSyntax) : Resolver :=
  { cached := (key, answer) :: r.cached, asked := key :: r.asked }

theorem resolve_run [LawfulMonad m] (source : SyntaxSource m) (language : String) (r : Resolver) :
    (resolve source language).run r =
      match r.peek? (Language.canonical language) with
      | some answer => pure (answer, r)
      | none => (fun answer => (answer, r.remember (Language.canonical language) answer)) <$>
          source (Language.canonical language) := by
  rw [resolve, StateT.run_bind, StateT.run_get, pure_bind]
  cases h : r.peek? (Language.canonical language) with
  | some answer => rfl
  | none => simp [store, remember, h]

theorem recordedResolve_run [LawfulMonad m] (source : SyntaxSource m) (language : String)
    (r : Resolver) (log : List Event) :
    ((recordedResolve source language).run r).run log =
      match r.peek? (Language.canonical language) with
      | some answer => pure ((answer, r), .resolved language answer :: log)
      | none =>
        (fun answer => ((answer, r.remember (Language.canonical language) answer),
          .resolved language answer :: .asked (Language.canonical language) answer :: log)) <$>
          source (Language.canonical language) := by
  rw [recordedResolve, StateT.run_bind, resolve_run]
  cases h : r.peek? (Language.canonical language) with
  | some answer => simp [record]
  | none => simp [recordedSource, record]

/-! ## What is remembered -/

theorem AsksOnce.nodup {period : List Event} (h : AsksOnce period) :
    ((questions period).map (·.1)).Nodup := by
  rw [List.nodup_iff_count_le_one]
  intro key
  rw [h key]
  split <;> decide

theorem AsksOnce.mem_iff {period : List Event} (h : AsksOnce period) :
    key ∈ (questions period).map (·.1) ↔ key ∈ lookedUp period := by
  rw [← List.count_pos_iff, h key]
  split <;> simpa

theorem lookup_eq_some_iff_mem {l : List (String × Option CommentSyntax)}
    (h : (l.map (·.1)).Nodup) : l.lookup key = some answer ↔ (key, answer) ∈ l := by
  induction l with
  | nil => simp
  | cons pair l ih =>
    rw [List.map_cons, List.nodup_cons] at h
    rw [List.lookup_cons, List.mem_cons]
    by_cases hk : key = pair.1
    · subst hk
      have hnot : (pair.1, answer) ∉ l := fun hm => h.1 (List.mem_map.2 ⟨_, hm, rfl⟩)
      simp only [beq_self_eq_true, hnot, or_false, Option.some_inj]
      exact ⟨fun ha => ha ▸ rfl, fun ha => congrArg (·.2) ha.symm⟩
    · rw [beq_eq_false_iff_ne.2 hk, ih h.2]
      exact ⟨.inr, fun hm => hm.resolve_left fun ha => hk (congrArg (·.1) ha)⟩

/-- Where a name was asked for once, its first answer is its only one. -/
theorem firstAnswer?_eq_some_iff {period : List Event}
    (h : ((questions period).map (·.1)).Nodup) :
    firstAnswer? period key = some answer ↔ (key, answer) ∈ questions period := by
  rw [firstAnswer?, lookup_eq_some_iff_mem (by rwa [List.map_reverse, List.nodup_reverse]),
    List.mem_reverse]

/-- The answers that are remembered are those since the last invalidation. -/
structure Tracks (r : Resolver) (log : List Event) : Prop where
  cached : r.cached = questions (periods log).1
  history : History log

namespace Tracks

theorem start : Tracks {} [] where
  cached := rfl
  history :=
    { answered := fun later _ _ _ h => by simp at h
      asksOnce := fun period h => by
        rw [List.mem_singleton.1 h]
        exact fun _ => rfl }

/-- The look-ups on record have their answers if the latest one has. -/
theorem answered_cons (h : Tracks r log) {e : Event}
    (he : ∀ language answer, e = .resolved language answer →
      firstAnswer? (periods log).1 (Language.canonical language) = some answer) :
    ∀ later language answer earlier, e :: log = later ++ .resolved language answer :: earlier →
      firstAnswer? (periods earlier).1 (Language.canonical language) = some answer := by
  intro later language answer earlier hsplit
  cases later with
  | nil =>
    obtain ⟨rfl, rfl⟩ := List.cons.inj hsplit
    exact he language answer rfl
  | cons _ later => exact h.history.answered later _ _ _ (List.cons.inj hsplit).2

theorem asksOnce (h : Tracks r log) : AsksOnce (periods log).1 :=
  h.history.asksOnce _ List.mem_cons_self

theorem peek?_eq_some_iff (h : Tracks r log) :
    r.peek? key = some answer ↔ (key, answer) ∈ questions (periods log).1 := by
  rw [peek?, h.cached, lookup_eq_some_iff_mem h.asksOnce.nodup]

/-- A look-up that finds a remembered answer. -/
theorem hit (h : Tracks r log) (hr : r.peek? (Language.canonical language) = some answer) :
    Tracks r (.resolved language answer :: log) where
  cached := h.cached
  history :=
    { answered := h.answered_cons fun _ _ he => by
        obtain ⟨rfl, rfl⟩ := Event.resolved.inj he
        exact (firstAnswer?_eq_some_iff h.asksOnce.nodup).2 (h.peek?_eq_some_iff.1 hr)
      asksOnce := by
        have hmem : Language.canonical language ∈ lookedUp (periods log).1 :=
          h.asksOnce.mem_iff.1 (List.mem_map_of_mem (h.peek?_eq_some_iff.1 hr))
        refine List.forall_mem_cons.2
          ⟨fun key => ?_, fun period hp => h.history.asksOnce _ (List.mem_cons_of_mem _ hp)⟩
        show List.count key (List.map (·.1) (questions (periods log).1)) =
          if key ∈ Language.canonical language :: lookedUp (periods log).1 then 1 else 0
        rw [h.asksOnce key]
        congr 1
        rw [List.mem_cons, or_iff_right_of_imp]
        rintro rfl
        exact hmem }

/-- A look-up that asks the source. -/
theorem miss (h : Tracks r log) (hr : r.peek? (Language.canonical language) = none)
    (answer : Option CommentSyntax) :
    Tracks (r.remember (Language.canonical language) answer)
      (.resolved language answer :: .asked (Language.canonical language) answer :: log) := by
  -- a name that was asked for would be remembered
  have hnew : Language.canonical language ∉ (questions (periods log).1).map (·.1) := by
    rw [List.mem_map]
    rintro ⟨⟨_, kept⟩, hm, rfl⟩
    rw [h.peek?_eq_some_iff.2 hm] at hr
    exact Option.some_ne_none _ hr
  have hasked : ((questions (periods (.asked (Language.canonical language) answer :: log)).1).map
      (·.1)).Nodup := List.nodup_cons.2 ⟨hnew, h.asksOnce.nodup⟩
  refine ⟨congrArg (_ :: ·) h.cached, ?_, ?_⟩
  · intro later language' answer' earlier hsplit
    cases later with
    | nil =>
      obtain ⟨he, rfl⟩ := List.cons.inj hsplit
      obtain ⟨rfl, rfl⟩ := Event.resolved.inj he
      exact (firstAnswer?_eq_some_iff hasked).2 List.mem_cons_self
    | cons _ later =>
      -- earlier look-ups have their answers, since a question is no look-up
      refine h.answered_cons (e := .asked _ answer) (fun _ _ he => ?_) later _ _ _
        (List.cons.inj hsplit).2
      exact Event.noConfusion he
  · refine List.forall_mem_cons.2
      ⟨fun key => ?_, fun period hp => h.history.asksOnce _ (List.mem_cons_of_mem _ hp)⟩
    show List.count key (_ :: List.map (·.1) (questions (periods log).1)) =
      if key ∈ Language.canonical language :: lookedUp (periods log).1 then 1 else 0
    rw [List.count_cons, h.asksOnce key]
    rw [h.asksOnce.mem_iff] at hnew
    by_cases hk : key = Language.canonical language
    · subst hk
      simp [hnew]
    · simp [hk, Ne.symm hk]

theorem invalidate (h : Tracks r log) : Tracks r.invalidate (.invalidated :: log) where
  cached := rfl
  history :=
    { answered := h.answered_cons fun _ _ he => Event.noConfusion he
      asksOnce := List.forall_mem_cons.2 ⟨fun _ => rfl, h.history.asksOnce⟩ }

/-- As many answers are remembered as different names were looked up. -/
theorem cachedCount_eq (h : Tracks r log) :
    r.cachedCount = (lookedUp (periods log).1).dedup.length := by
  have hperm : ((questions (periods log).1).map (·.1)).Perm (lookedUp (periods log).1).dedup := by
    rw [List.perm_ext_iff_of_nodup h.asksOnce.nodup (List.nodup_dedup _)]
    intro key
    rw [h.asksOnce.mem_iff, List.mem_dedup]
  rw [cachedCount, h.cached, ← hperm.length_eq, List.length_map]

end Tracks

/-! ## Whole runs -/

variable [LawfulMonad m]

/-- Recorded computations that give the same results as computations without a record. -/
def erasing (m : Type → Type) [Monad m] [LawfulMonad m] :
    Comparison (StateT Resolver (StateT (List Event) m)) (StateT Resolver m) where
  Rel x y := ∀ r log, Prod.fst <$> (x.run r).run log = y.run r
  pure a r log := by simp
  bind hxy hfg r log := by
    simp only [StateT.run_bind, map_bind, hfg]
    rw [← hxy r log, bind_map_left]

/-- Recorded computations that keep what is remembered in step with the record. -/
def tracking (m : Type → Type) [Monad m] [LawfulMonad m] :
    Comparison (StateT Resolver (StateT (List Event) m)) Id where
  Rel x _ := ∀ r log, Tracks r log → Ensures (fun p => Tracks p.1.2 p.2) ((x.run r).run log)
  pure a r log h := .pure h
  bind hx hf r log h := by
    rw [StateT.run_bind, StateT.run_bind]
    exact (hx r log h).bind fun p hp => hf p.1.1 p.1.2 p.2 hp

/-- Every remembered answer is the one that the source always gives. -/
def Agrees (answers : SyntaxSource Id) (r : Resolver) : Prop :=
  ∀ key answer, r.peek? key = some answer → answer = (answers key).run

/-- Computations that give the same result, whatever answers are remembered, so long as these are
the ones that the source always gives. -/
def agreeing (m : Type → Type) [Monad m] [LawfulMonad m] (answers : SyntaxSource Id) :
    Comparison (StateT Resolver m) Id where
  Rel x y := ∀ r, Agrees answers r → Ensures (fun p => p.1 = y.run ∧ Agrees answers p.2) (x.run r)
  pure a r h := .pure ⟨rfl, h⟩
  bind hx hf r h := by
    rw [StateT.run_bind]
    refine (hx r h).bind fun p hp => ?_
    rw [Id.run_bind, ← hp.1]
    exact hf p.1 p.2 hp.2

theorem Agrees.remember {answers : SyntaxSource Id} (h : Agrees answers r)
    (ha : answer = (answers key).run) : Agrees answers (r.remember key answer) := by
  intro key' kept hk
  rw [peek?, Resolver.remember, List.lookup_cons] at hk
  split at hk
  · next heq => rw [← Option.some_inj.1 hk, ha, beq_iff_eq.1 heq]
  · exact h key' kept hk

theorem agrees_invalidate (answers : SyntaxSource Id) (r : Resolver) :
    Agrees answers r.invalidate :=
  fun _ _ h => (Option.some_ne_none _ h.symm).elim

theorem erasing_recordedRun [Engine] (source : SyntaxSource m) (steps : List (Step m)) :
    (erasing m).Rel (recordedRun source steps) (run source steps) := by
  refine (erasing m).mapM fun step _ => step.perform_rel _ (fun language _ r log => ?_)
    (fun r log => ?_) (fun effect r log => ?_)
  · rw [recordedResolve_run, resolve_run]
    cases r.peek? (Language.canonical language) <;> simp
  · simp [record]
  · simp

theorem tracking_recordedRun [Engine] (source : SyntaxSource m) (steps : List (Step m))
    {r : Resolver} {log : List Event} (h : Tracks r log) :
    Ensures (fun p => Tracks p.1.2 p.2) (((recordedRun source steps).run r).run log) := by
  refine (tracking m).mapM (g := Step.perform (fun _ => pure none) (pure ()) fun _ => pure ())
    (fun step _ => step.perform_rel _ (fun language _ r log h => ?_) (fun r log h => ?_)
      (fun effect r log h => ?_)) r log h
  · rw [recordedResolve_run]
    cases hr : r.peek? (Language.canonical language) with
    | some answer => exact .pure (h.hit hr)
    | none => exact .map_of_forall (fun answer => h.miss hr answer) _
  · simp only [StateT.run_bind, StateT.run_modify, pure_bind, StateT.run_lift, record]
    exact .pure h.invalidate
  · simp only [StateT.run_lift, StateT.run_map, bind_pure_comp, Functor.map_map]
    exact Ensures.map_of_forall (f := fun a => ((a, r), log)) (fun _ => h) effect

/-- What comes of a step without a resolver, when the source always gives the same answers. -/
def Step.alone [Engine] {k : Type → Type} (answers : SyntaxSource Id) : Step k → Outcome
  | .resolve language => .comments (answers (Language.canonical language)).run
  | .profile h language => .profile (h.profile answers language).run
  | .scan h text start stop language => .found (h.scanRange answers text start stop language).run
  | .invalidate | .elsewhere _ => .done

/-- Scans ask for canonical names only, so bringing names to their canonical form before asking makes
no difference. -/
theorem Step.perform_canonical [Engine] {k : Type → Type} (answers : SyntaxSource Id)
    (step : Step k) :
    (step.perform (n := Id) (fun language => answers (Language.canonical language)) (pure ())
      fun _ => pure ()).run = step.alone answers := by
  have hprofile (h : Highlighter) : (h.profile fun language => answers (Language.canonical language)) =
      h.profile answers := by
    funext language
    rw [Highlighter.profile, Highlighter.profile, Language.canonical_canonical]
  cases step with
  | profile h language => rw [perform, alone, hprofile]; rfl
  | scan h text start stop language =>
    have hfences : (h.fenceFindings fun language => answers (Language.canonical language)) =
        h.fenceFindings answers := by
      funext f
      rw [Highlighter.fenceFindings, Highlighter.fenceFindings, hprofile]
    rw [perform, alone, Highlighter.scanRange, Highlighter.scanRange, Highlighter.findings,
      Highlighter.findings, hprofile, hfences]
    rfl
  | _ => rfl

theorem run_agrees [Engine] {source : SyntaxSource m} {answers : SyntaxSource Id}
    (hsource : ∀ key, Ensures (· = (answers key).run) (source key)) (steps : List (Step m))
    {r : Resolver} (h : Agrees answers r) :
    Ensures (fun p => p.1 = steps.map (·.alone answers) ∧ Agrees answers p.2)
      ((run source steps).run r) := by
  have hrun := (agreeing m answers).mapM
    (f := Step.perform (resolve source) (modify Resolver.invalidate) StateT.lift)
    (g := Step.perform (fun language => answers (Language.canonical language)) (pure ())
      fun _ => pure ())
    (l := steps) (fun step _ => step.perform_rel _ (fun language _ r h => ?_) (fun r h => ?_)
      (fun effect r h => ?_)) r h
  · rw [List.idRun_mapM] at hrun
    simp only [Step.perform_canonical] at hrun
    exact hrun
  · rw [resolve_run]
    cases hr : r.peek? (Language.canonical language) with
    | some answer => exact .pure ⟨h _ _ hr, h⟩
    | none =>
      exact (hsource _).map fun answer ha => ⟨ha, h.remember ha⟩
  · exact .pure ⟨rfl, agrees_invalidate answers r⟩
  · rw [StateT.run_lift, bind_pure_comp]
    exact .map_of_forall (fun _ => ⟨rfl, h⟩) _

/-- **A resolver answers what its source first answered.**  Take any program that looks up languages,
scans texts and invalidates its resolver, while anything may happen to the source.  With everything
on record, it does what it does without a record; the record is that of a resolver that asks once for
each name that is looked up and remembers the answer until it is invalidated; and the number of
answers that are remembered is that of the names that were looked up since then.  So if the source
always gives the same answers, then after an invalidation each step has the result that it has on
its own. -/
theorem run_history [Engine] (source : SyntaxSource m) (steps : List (Step m)) :
    Prod.fst <$> ((recordedRun source steps).run {}).run [] = (run source steps).run {} ∧
    Ensures (fun p => History p.2 ∧ p.1.2.cachedCount = (lookedUp (periods p.2).1).dedup.length)
      (((recordedRun source steps).run {}).run []) ∧
    ∀ answers : SyntaxSource Id, (∀ key, Ensures (· = (answers key).run) (source key)) →
      ∀ r : Resolver, Ensures (fun p => p.1 = steps.map (·.alone answers))
        ((run source steps).run r.invalidate) := by
  refine ⟨erasing_recordedRun source steps {} [], ?_, fun answers hsource r => ?_⟩
  · exact (tracking_recordedRun source steps .start).imp fun p h => ⟨h.history, h.cachedCount_eq⟩
  · exact (run_agrees hsource steps (agrees_invalidate answers r)).imp fun p h => h.1

set_option maxRecDepth 20000 in
/-- A source that forgets what it knew, and a look-up of another name of the same language: what was
answered before is answered again until the resolver is invalidated.  With a source that always gives
the same answers, what an invalidated resolver has remembered does not matter. -/
theorem run_history_forgetful :
    let hash : CommentSyntax := { line := some (.single "#") }
    let h : Highlighter := ⟨⟨[⟨"TODO", {}⟩]⟩, {}⟩
    let source : SyntaxSource (StateM (Option CommentSyntax)) := fun _ => get
    let steps : List (Step (StateM (Option CommentSyntax))) :=
      [.resolve "py", .elsewhere (set (none : Option CommentSyntax)),
        .scan h "x\n# TODO: a\n" 0 12 "Python", .invalidate, .resolve "python3"]
    let stale : Resolver := { cached := [("python", none)] }
    (((run source steps).run {}).run (some hash)).run.1.1 =
        [.comments (some hash), .done, .found ⟨[⟨0, "TODO", [⟨4, 11⟩]⟩]⟩, .done, .comments none] ∧
      Ensures (fun p => History p.2 ∧ p.1.2.cachedCount = (lookedUp (periods p.2).1).dedup.length)
        (((recordedRun source steps).run {}).run []) ∧
      Ensures (fun p => p.1 = [Outcome.found ⟨[⟨0, "TODO", [⟨4, 11⟩]⟩]⟩])
        ((run (SyntaxSource.builtin (m := Id)) [.scan h "x\n# TODO: a\n" 0 12 "py"]).run
          stale.invalidate) := by
  refine ⟨by cbv, (run_history _ _).2.1, ?_⟩
  refine ((run_history SyntaxSource.builtin _).2.2 SyntaxSource.builtin (fun _ => .pure rfl) _).imp
    fun p h => h.trans ?_
  cbv

end Resolver

end CommentTags
