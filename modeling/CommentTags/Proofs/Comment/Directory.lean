import CommentTags.Comment.Directory
import CommentTags.Proofs.Files.Entries
import CommentTags.Proofs.Scan.Cache

/-!
# Files of languages stay in their directory

What a fence says about its language comes from the text that is scanned, and the name of a file is
made of it.  Still, whatever is scanned or looked up, only entries of the directory are read, each
named for the canonical form of a language that was asked for.  Other languages have no file, and
what the file of a language does not answer is left to the next source.

To speak of what is read, every use of a file is put on record.  A run with a record is compared
with the same run without one: the results are the same, and what is on record comes from single
look-ups.

* `HasFile`, `IsFileOf` — which languages have a file, and which path it has.
* `Files.fetch`, `layered_ofDirectory` — a directory in front of another source: a file that is
  missing or not well-formed leaves the question to that source.
* `Files.recorded`, `recording` — the operations on files with a record, and the comparison of the
  two kinds of runs.
* `fileRun_inDirectory` — the main statement, for any program of look-ups, scans and invalidations.
-/

set_option autoImplicit false

namespace CommentTags

/-! ## Names of files -/

/-- A language that has a file. -/
structure HasFile (language : String) : Prop where
  ne_empty : language ≠ ""
  chars : ∀ c ∈ language.toList, isFileNameChar c = true
  visible : language.toList.head? ≠ some '.'

theorem languageFile?_eq_some_iff {language name : String} :
    languageFile? language = some name ↔ HasFile language ∧ name = language ++ ".json" := by
  rw [languageFile?]
  split
  · next h =>
    simp only [Bool.and_eq_true, decide_eq_true_eq, List.all_eq_true] at h
    rw [Option.some_inj, eq_comm, and_iff_right ⟨h.1.1, h.1.2, h.2⟩]
  · next h =>
    simp only [reduceCtorEq, false_iff, not_and]
    refine fun hfile => absurd ?_ h
    simpa [List.all_eq_true] using ⟨⟨hfile.ne_empty, hfile.chars⟩, hfile.visible⟩

theorem languageFile?_eq_none_iff {language : String} :
    languageFile? language = none ↔ ¬HasFile language := by
  simp [Option.eq_none_iff_forall_ne_some, languageFile?_eq_some_iff]

theorem HasFile.exists_cons {language : String} (h : HasFile language) :
    ∃ c s, language.toList = c :: s ∧ c ≠ '.' := by
  obtain ⟨c, s, hs⟩ := List.exists_cons_of_ne_nil
    (mt String.toList_eq_nil_iff.1 h.ne_empty)
  refine ⟨c, s, hs, ?_⟩
  rintro rfl
  exact h.visible (by rw [hs]; rfl)

theorem HasFile.head?_ne {language : String} (h : HasFile language) :
    (language ++ ".json").toList.head? ≠ some '.' := by
  obtain ⟨c, s, hs, hc⟩ := h.exists_cons
  simp [hs, hc]

theorem HasFile.entryName {language : String} (h : HasFile language) :
    EntryName (language ++ ".json") := by
  obtain ⟨c, s, hs, hc⟩ := h.exists_cons
  have hchars : ∀ d ∈ ['/', '\\'], isFileNameChar d = false ∧ d ∉ ['.', 'j', 's', 'o', 'n'] := by
    simp [isFileNameChar]
  refine ⟨?_, ?_, ?_, fun d hd hmem => ?_⟩
  · exact fun heq => by simpa [hs] using congrArg String.toList heq
  · exact fun heq => by simpa [hs] using congrArg String.toList heq
  · exact fun heq => by simpa [hs, hc] using congrArg String.toList heq
  · rw [String.toList_append, List.mem_append] at hmem
    rcases hmem with hmem | hmem
    · exact Bool.false_ne_true ((hchars d hd).1.symm.trans (h.chars d hmem))
    · exact (hchars d hd).2 hmem

/-- The path is that of the file of the language, which is an entry of the directory. -/
structure IsFileOf (directory language path : String) : Prop where
  eq : path = joinPath directory (language ++ ".json")
  parts : FilePath.ofString path = (FilePath.ofString directory).entry (language ++ ".json")
  entryName : EntryName (language ++ ".json")
  visible : (language ++ ".json").toList.head? ≠ some '.'

theorem HasFile.isFileOf {language : String} (h : HasFile language) (directory : String) :
    IsFileOf directory language (joinPath directory (language ++ ".json")) :=
  ⟨rfl, FilePath.ofString_joinPath h.entryName directory, h.entryName, h.head?_ne⟩

variable {m n : Type → Type} [Monad m] [Monad n] {α : Type}

/-! ## What a file answers -/

/-- What is found where the file of a language should be. -/
inductive Fetched
  | missing
  | unreadable (e : FileError)
  | text (s : String)

/-- Look for a file and read it. -/
def Files.fetch (files : Files m) (path : String) : m Fetched := do
  if ← files.isPresent path then
    match ← files.readText path with
    | .error e => return .unreadable e
    | .ok s => return .text s
  else return .missing

/-- The comment syntax in a file that is well-formed. -/
def Fetched.comments? : Fetched → Option CommentSyntax
  | .missing | .unreadable _ => none
  | .text s => (CommentSyntax.parse s).toOption

namespace SyntaxSource

/-- A source that leaves what it does not know to another one. -/
def orElse (first second : SyntaxSource m) : SyntaxSource m := fun language => do
  match ← first language with
  | some answer => return some answer
  | none => second language

theorem layered_cons (source : SyntaxSource m) (sources : List (SyntaxSource m)) :
    layered (source :: sources) = source.orElse (layered sources) := rfl

/-- A language without a file is not looked for. -/
theorem ofDirectory_of_not_hasFile (files : Files m) (directory : String) {language : String}
    (h : ¬HasFile language) : ofDirectory files directory language = pure none := by
  rw [ofDirectory, languageFile?_eq_none_iff.2 h]

variable [LawfulMonad m]

theorem layered_append (sources others : List (SyntaxSource m)) :
    layered (sources ++ others) = (layered sources).orElse (layered others) := by
  funext language
  induction sources with
  | nil => simp [layered, orElse]
  | cons source sources ih =>
    simp only [List.cons_append, layered, orElse, ih, bind_assoc]
    refine bind_congr fun answer => ?_
    cases answer <;> simp

theorem ofDirectory_of_hasFile (files : Files m) (directory : String) {language : String}
    (h : HasFile language) : ofDirectory files directory language =
      Fetched.comments? <$> files.fetch (joinPath directory (language ++ ".json")) := by
  rw [ofDirectory, languageFile?_eq_some_iff.2 ⟨h, rfl⟩, Files.fetch]
  simp only [map_bind]
  refine bind_congr fun present => ?_
  cases present with
  | false => simp [Fetched.comments?]
  | true =>
    simp only [if_true, map_bind]
    refine bind_congr fun text => ?_
    cases text <;> simp [Fetched.comments?]

/-- What the file of a language does not answer is left to the sources behind the directory. -/
theorem layered_ofDirectory (files : Files m) (directory : String)
    (before after : List (SyntaxSource m)) {language : String} (h : HasFile language) :
    layered (before ++ ofDirectory files directory :: after) language = (do
      match ← layered before language with
      | some answer => return some answer
      | none =>
        match (← files.fetch (joinPath directory (language ++ ".json"))).comments? with
        | some answer => return some answer
        | none => layered after language) := by
  rw [layered_append, layered_cons]
  simp [orElse, ofDirectory_of_hasFile files directory h]

end SyntaxSource

/-! ## Files that are on record -/

/-- Do something with a path, which is put on record. -/
def onRecord (path : String) (x : m α) : StateT (List String) m α := do
  modify (path :: ·)
  StateT.lift x

/-- The operations on files, with every path that is used on record. -/
def Files.recorded (files : Files m) : Files (StateT (List String) m) where
  readText path := onRecord path (files.readText path)
  isPresent path := onRecord path (files.isPresent path)
  isDirectory path := onRecord path (files.isDirectory path)
  makeDirectories path := onRecord path (files.makeDirectories path)
  writeText path text := onRecord path (files.writeText path text)

/-- Computations with a record that have the same results as computations without one, and put on
record only what has the property. -/
def recording (P : String → Prop) (m : Type → Type) [Monad m] [LawfulMonad m] :
    Comparison (StateT (List String) m) m where
  Rel x y := ∀ log, Prod.fst <$> x.run log = y ∧
    ((∀ path ∈ log, P path) → Ensures (fun p => ∀ path ∈ p.2, P path) (x.run log))
  pure a log := by
    rw [StateT.run_pure]
    exact ⟨map_pure _ _, fun h => .pure h⟩
  bind hxy hfg log := by
    rw [StateT.run_bind]
    refine ⟨?_, fun h => ((hxy log).2 h).bind fun p hp => (hfg p.1 p.2).2 hp⟩
    rw [map_bind, ← (hxy log).1, bind_map_left]
    exact bind_congr fun p => (hfg p.1 p.2).1

namespace SyntaxSource

theorem layered_rel (C : Comparison m n) {language : String} {sources : List (SyntaxSource m)}
    {sources' : List (SyntaxSource n)}
    (h : List.Forall₂ (fun source source' => C.Rel (source language) (source' language)) sources
      sources') : C.Rel (layered sources language) (layered sources' language) := by
  induction h with
  | nil => exact C.pure none
  | cons h _ ih =>
    refine C.bind h fun answer => ?_
    cases answer with
    | some answer => exact C.pure _
    | none => exact ih

end SyntaxSource

theorem Resolver.resolve_rel (C : Comparison m n) {source : SyntaxSource m}
    {source' : SyntaxSource n} {language : String}
    (h : C.Rel (source (Language.canonical language)) (source' (Language.canonical language))) :
    (C.stateT Resolver).Rel (resolve source language) (resolve source' language) := by
  refine (C.stateT Resolver).bind (fun r => C.pure (r, r)) fun r => ?_
  split
  · exact (C.stateT Resolver).pure _
  · exact (C.stateT Resolver).bind (fun r => C.bind h fun answer => C.pure (answer, r))
      fun answer r => C.pure _

section

variable [LawfulMonad m] {P : String → Prop}

theorem recording_lift (x : m α) : (recording P m).Rel (StateT.lift x) x := fun log => by
  rw [StateT.run_lift, bind_pure_comp, Functor.map_map]
  exact ⟨id_map' x, fun h => .map_of_forall (fun _ => h) x⟩

theorem recording_onRecord {path : String} (h : P path) (x : m α) :
    (recording P m).Rel (onRecord path x) x := fun log => by
  rw [onRecord, StateT.run_bind, StateT.run_modify, pure_bind]
  exact ⟨(recording_lift (P := P) x _).1, fun hlog => (recording_lift x _).2 (by simpa using ⟨h, hlog⟩)⟩

theorem recording_ofDirectory (files : Files m) {directory language : String}
    (h : HasFile language → P (joinPath directory (language ++ ".json"))) :
    (recording P m).Rel (SyntaxSource.ofDirectory files.recorded directory language)
      (SyntaxSource.ofDirectory files directory language) := by
  rw [SyntaxSource.ofDirectory, SyntaxSource.ofDirectory]
  split
  · exact (recording P m).pure none
  · next name hname =>
    obtain ⟨hfile, rfl⟩ := languageFile?_eq_some_iff.1 hname
    refine (recording P m).bind (recording_onRecord (h hfile) _) fun present => ?_
    cases present with
    | false => exact (recording P m).pure none
    | true =>
      refine (recording P m).bind (recording_onRecord (h hfile) _) fun text => ?_
      cases text <;> exact (recording P m).pure _

end

namespace Resolver

variable [LawfulMonad m]

/-- Do the steps one after another with a resolver in front of the directory and of other sources.
Every use that the directory makes of a file is put on record, the latest first. -/
def fileRun [Engine] (files : Files m) (directory : String)
    (before after : List (SyntaxSource m)) (steps : List (Step m)) :
    StateT Resolver (StateT (List String) m) (List Outcome) :=
  let unrecorded (source : SyntaxSource m) : SyntaxSource (StateT (List String) m) :=
    fun language => StateT.lift (source language)
  let source := SyntaxSource.layered (before.map unrecorded ++
    SyntaxSource.ofDirectory files.recorded directory :: after.map unrecorded)
  steps.mapM (Step.perform (resolve source) (modify invalidate) fun effect =>
    StateT.lift (StateT.lift effect))

theorem recording_fileRun [Engine] (files : Files m) (directory : String)
    (before after : List (SyntaxSource m)) (steps : List (Step m)) :
    let asked := (steps.flatMap Step.languages).map Language.canonical
    ((recording (fun path => ∃ key ∈ asked, IsFileOf directory key path) m).stateT Resolver).Rel
      (fileRun files directory before after steps)
      (run (.layered (before ++ SyntaxSource.ofDirectory files directory :: after)) steps) := by
  intro asked
  have hothers (sources : List (SyntaxSource m)) (key : String) :
      List.Forall₂ (fun (source : SyntaxSource (StateT (List String) m)) (source' : SyntaxSource m) =>
          (recording (fun path => ∃ key ∈ asked, IsFileOf directory key path) m).Rel (source key)
            (source' key))
        (sources.map fun source language => StateT.lift (source language)) sources :=
    List.forall₂_map_left_iff.2 (List.forall₂_same.2 fun source _ => recording_lift _)
  refine Comparison.mapM _ fun step hstep => step.perform_rel _ (fun language hlanguage => ?_)
    (fun r => ?_) fun effect r => ?_
  · -- the other sources use no file that is on record
    refine resolve_rel _ (SyntaxSource.layered_rel _
      (List.rel_append (hothers before _) (.cons ?_ (hothers after _))))
    refine recording_ofDirectory files fun hfile => ⟨_, ?_, hfile.isFileOf directory⟩
    obtain ⟨l, hl, hcanonical⟩ := List.mem_map.1 hlanguage
    exact List.mem_map.2 ⟨l, List.mem_flatMap.2 ⟨step, hstep, hl⟩, hcanonical⟩
  · exact Comparison.pure _ ((), r.invalidate)
  · exact Comparison.bind _ (recording_lift effect) fun a => Comparison.pure _ (a, r)

/-- **Only files of the languages that are asked for are read.**  Take any program that looks up
languages, scans texts and invalidates its resolver, while anything may happen to the files.  With
every use of a file on record, it does what it does without a record; and each path on record is that
of the file of a language that a step asks for, by its canonical name, as an entry of the directory.
No other language is looked for, and where a file is missing, cannot be read or is malformed, the
sources behind the directory answer. -/
theorem fileRun_inDirectory [Engine] (files : Files m) (directory : String)
    (before after : List (SyntaxSource m)) (steps : List (Step m)) (r : Resolver) :
    let layers := before ++ SyntaxSource.ofDirectory files directory :: after
    Prod.fst <$> ((fileRun files directory before after steps).run r).run [] =
      (run (.layered layers) steps).run r ∧
    Ensures (fun p => ∀ path ∈ p.2, ∃ language ∈ steps.flatMap Step.languages,
        IsFileOf directory (Language.canonical language) path)
      (((fileRun files directory before after steps).run r).run []) ∧
    ∀ language,
      (¬HasFile language → SyntaxSource.ofDirectory files directory language = pure none) ∧
      (HasFile language → SyntaxSource.layered layers language = do
        match ← SyntaxSource.layered before language with
        | some answer => return some answer
        | none =>
          match (← files.fetch (joinPath directory (language ++ ".json"))).comments? with
          | some answer => return some answer
          | none => SyntaxSource.layered after language) := by
  obtain ⟨hsame, hrecord⟩ := recording_fileRun files directory before after steps r []
  refine ⟨hsame, (hrecord (by simp)).imp fun p hp path hpath => ?_, fun language =>
    ⟨SyntaxSource.ofDirectory_of_not_hasFile files directory,
      SyntaxSource.layered_ofDirectory files directory before after⟩⟩
  obtain ⟨key, hkey, hfile⟩ := hp path hpath
  obtain ⟨language, hlanguage, rfl⟩ := List.mem_map.1 hkey
  exact ⟨language, hlanguage, hfile⟩

set_option maxRecDepth 20000 in
/-- A scan of a fence that would like to read another file, and a look-up of a language whose file is
not well-formed: nothing but the files of Markdown and of the other language is looked for. -/
theorem fileRun_inDirectory_fence :
    let files : Files Id :=
      { readText := fun _ => pure (.ok "?")
        isPresent := fun path => pure (path == "lang/javascript.json")
        isDirectory := fun path => pure (path == "lang")
        makeDirectories := fun _ => pure (.ok ())
        writeText := fun _ _ => pure (.ok ()) }
    let h : Highlighter := ⟨⟨[⟨"a", {}⟩]⟩, {}⟩
    let steps : List (Step Id) := [.scan h "```../x\n```\n" 0 12 "md", .resolve "JS"]
    let run := ((fileRun files "lang" [] [.builtin] steps).run {}).run []
    (run.run.2 = ["lang/javascript.json", "lang/javascript.json", "lang/markdown.json"]) ∧
      Ensures (fun p => ∀ path ∈ p.2, ∃ language ∈ steps.flatMap Step.languages,
        IsFileOf "lang" (Language.canonical language) path) run := by
  refine ⟨by cbv, ?_⟩
  exact (fileRun_inDirectory _ "lang" [] [.builtin] _ {}).2.1

end Resolver

end CommentTags
