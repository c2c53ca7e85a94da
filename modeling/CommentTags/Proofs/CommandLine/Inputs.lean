import CommentTags.CommandLine.Run
import CommentTags.Proofs.Scan.Cache

/-!
# A command and its files

One command may scan many files, and they share a highlighter and a resolver that remembers what it
was told.  Where reading changes nothing and all that is written is taken, this cannot be seen: the
output is that of one command for each file, put together in order, and a file that cannot be read
costs one message and nothing else.

Only the log may be prepared at the start.  From there on a command reads and does not write to files
(`Host.ReadsQuietly`), so that the source of comment syntax answers the same whenever it is asked, and
what the resolver remembers are these answers (`settled`).

* `Host.settled_scanPlace`: a file that is scanned after others has the result that it has alone.
* `Host.settled_scanPlaces`: so the results of all files are those of the single ones.
* `Host.outcome_files`: so is what the command leaves behind.
* `Host.outcome_ne_join`: command lines that name no file, or do not ask for a scan, are different.
-/

set_option autoImplicit false

namespace CommentTags

/-! ## Computations that change nothing -/

section Quiet

variable {σ α β : Type}

/-- What a computation gives in a state. -/
def resultIn (d : σ) (x : StateM σ α) : α := (x.run d).run.1

theorem resultIn_bind (d : σ) (x : StateM σ α) (f : α → StateM σ β) :
    resultIn d (x >>= f) = resultIn (x.run d).run.2 (f (resultIn d x)) := rfl

/-- A computation that leaves every state as it is. -/
def Quiet (x : StateM σ α) : Prop := ∀ d, (x.run d).run.2 = d

namespace Quiet

theorem pure (a : α) : Quiet (Pure.pure a : StateM σ α) := fun _ => rfl

theorem bind {x : StateM σ α} {f : α → StateM σ β} (hx : Quiet x) (hf : ∀ a, Quiet (f a)) :
    Quiet (x >>= f) := fun d => by
  show ((f (resultIn d x)).run (x.run d).run.2).run.2 = d
  rw [hx d]
  exact hf _ d

theorem run_eq {x : StateM σ α} (hx : Quiet x) (d : σ) : x.run d = (resultIn d x, d) :=
  Prod.ext rfl (hx d)

theorem resultIn_bind {x : StateM σ α} (hx : Quiet x) (d : σ) (f : α → StateM σ β) :
    resultIn d (x >>= f) = resultIn d (f (resultIn d x)) := by
  rw [CommentTags.resultIn_bind, hx d]

end Quiet

end Quiet

/-- Reading a file or looking for it changes nothing. -/
structure Host.ReadsQuietly {σ : Type} (host : Host (StateM σ)) : Prop where
  readText (path : String) : Quiet (host.files.readText path)
  isPresent (path : String) : Quiet (host.files.isPresent path)

theorem Desk.readsQuietly_host (around : Surroundings) : (Desk.host around).ReadsQuietly where
  readText _ _ := rfl
  isPresent _ _ := rfl

/-- The standard output and the standard error take what is written to them. -/
structure Host.TakesAll {m : Type → Type} [Monad m] (host : Host m) : Prop where
  output (text : String) : host.writeOutput text = pure (.ok ())
  flush : host.flushOutput = pure (.ok ())
  message (line : String) : host.writeMessage line = pure (.ok ())

theorem Desk.takesAll_host (around : Surroundings) : (Desk.host around).TakesAll where
  output _ := rfl
  flush := rfl
  message _ := rfl

namespace Host.TakesAll

variable {m : Type → Type} [Monad m] [LawfulMonad m] {host : Host m} (h : host.TakesAll)
include h

theorem tell_eq (line : String) : host.tell line = pure [line] := by
  rw [tell, h.message, pure_bind]

theorem flush_eq : host.flush = pure none := by
  rw [Host.flush, h.flush, pure_bind]

theorem writeAll_eq (texts : List String) : host.writeAll texts = pure (String.join texts, none) := by
  induction texts with
  | nil => rfl
  | cons text texts ih =>
    rw [writeAll, h.output, pure_bind]
    simp only [ih, pure_bind, String.join_cons]

end Host.TakesAll

section

variable {σ : Type} {host : Host (StateM σ)}

namespace Host.ReadsQuietly

theorem ofDirectory (hquiet : host.ReadsQuietly) (directory language : String) :
    Quiet (SyntaxSource.ofDirectory host.files directory language) := by
  rw [SyntaxSource.ofDirectory]
  split
  · exact .pure _
  · refine (hquiet.isPresent _).bind fun present => ?_
    split
    · refine (hquiet.readText _).bind fun text => ?_
      split <;> exact .pure _
    · exact .pure _

theorem chooseSource (hquiet : host.ReadsQuietly) (a : Arguments) (language : String) :
    Quiet (CommentTags.chooseSource host a language) := by
  have hlayered (sources : List (SyntaxSource (StateM σ)))
      (h : ∀ source ∈ sources, Quiet (source language)) :
      Quiet (SyntaxSource.layered sources language) := by
    induction sources with
    | nil => exact .pure _
    | cons source sources ih =>
      refine (h source (by simp)).bind fun answer => ?_
      cases answer with
      | some answer => exact .pure _
      | none => exact ih fun source hs => h source (by simp [hs])
  refine hlayered _ fun source hs => ?_
  rw [List.mem_append, Option.mem_toList, Option.map_eq_some_iff, List.mem_singleton] at hs
  rcases hs with ⟨directory, -, rfl⟩ | rfl
  · exact hquiet.ofDirectory directory language
  · exact .pure _

theorem loadFrom (hquiet : host.ReadsQuietly) (path : String) :
    Quiet (Settings.loadFrom host.files path) := by
  refine (hquiet.readText path).bind fun text => ?_
  split <;> exact .pure _

theorem chooseSettings (hquiet : host.ReadsQuietly) (a : Arguments) :
    Quiet (CommentTags.chooseSettings host a) := by
  rw [CommentTags.chooseSettings]
  split
  · exact hquiet.loadFrom _
  · refine Quiet.bind ?_ fun _ => .pure _
    rw [Settings.load]
    split
    · exact .pure _
    · refine (hquiet.isPresent _).bind fun present => ?_
      split
      · refine (hquiet.loadFrom _).bind fun settings => ?_
        split <;> exact .pure _
      · exact .pure _

theorem readPlace (hquiet : host.ReadsQuietly) (language : Option String) (path : String) :
    Quiet (CommentTags.readPlace host language (.file path)) := by
  refine (hquiet.readText path).bind fun text => ?_
  split <;> exact .pure _

end Host.ReadsQuietly

/-! ## Scanning one file -/

/-- What a source answers in a state. -/
def SyntaxSource.answersIn (d : σ) (source : SyntaxSource (StateM σ)) : SyntaxSource Id :=
  fun language => resultIn d (source language)

/-- Computations that give the same result in a state which they do not change, whatever answers are
remembered, so long as these are the ones that the source gives. -/
def settled (d : σ) (answers : SyntaxSource Id) : Comparison (StateT Resolver (StateM σ)) Id where
  Rel x y := ∀ r, Resolver.Agrees answers r →
    ∃ r', Resolver.Agrees answers r' ∧ (x.run r).run d = ((y.run, r'), d)
  pure a r h := ⟨r, h, rfl⟩
  bind {_ _ x y f g} hx hf r h := by
    obtain ⟨r', h', hrun⟩ := hx r h
    obtain ⟨r'', h'', hrun'⟩ := hf y.run r' h'
    refine ⟨r'', h'', ?_⟩
    rw [StateT.run_bind, StateT.run_bind, hrun]
    exact hrun'

namespace settled

variable {d : σ} {answers : SyntaxSource Id}

/-- A computation that has no part in looking up languages. -/
theorem lift {α : Type} {x : StateM σ α} (hx : Quiet x) :
    (settled d answers).Rel (StateT.lift x) (resultIn d x) := fun r h => by
  refine ⟨r, h, ?_⟩
  rw [StateT.run_lift, StateT.run_bind, hx.run_eq d]
  rfl

theorem resolve {source : SyntaxSource (StateM σ)} (hsource : ∀ language, Quiet (source language))
    (language : String) :
    (settled d (source.answersIn d)).Rel (Resolver.resolve source language)
      (source.answersIn d (Language.canonical language)) := fun r h => by
  rw [Resolver.resolve_run]
  cases hr : r.peek? (Language.canonical language) with
  | some answer => exact ⟨r, h, by rw [h _ _ hr]; rfl⟩
  | none =>
    refine ⟨r.remember (Language.canonical language)
      (source.answersIn d (Language.canonical language)), h.remember rfl, ?_⟩
    rw [StateT.run_map, (hsource _).run_eq d]
    rfl

end settled

/-- How a command ends that has told `told` about its log, has written `output` and could not read some
texts because of `faults`: it fails if there are any, and then it tells their number. -/
def Outcome.ending (told : List String) (output : String) (faults : List String) : Outcome where
  exitCode := if faults = [] then 0 else 1
  output := output
  messages := told ++ faults ++
    if faults = [] then []
    else ["Error: " ++ toString faults.length ++ " input(s) could not be read"]

theorem Outcome.ending_append (told : List String) (output : String) (faults : List String) :
    { ending [] output faults with messages := told ++ (ending [] output faults).messages } =
      ending told output faults := by
  simp only [ending, List.nil_append, List.append_assoc]

namespace Host

/-- Why a file cannot be read, if it cannot. -/
def fault? (host : Host (StateM σ)) (d : σ) (path : String) : Option String :=
  match resultIn d (host.files.readText path) with
  | .error e => some ("tagline: Failed to read " ++ path ++ ": " ++ e.message)
  | .ok _ => none

/-- The state when the log has been prepared. -/
def started (host : Host (StateM σ)) (d : σ) : σ :=
  ((startLog host).run d).run.2

variable [Engine]

/-- What a command leaves behind when it is run in a state. -/
def outcome (host : Host (StateM σ)) (d : σ) (arguments : List String) : Outcome :=
  resultIn d (run host arguments)

/-- What comes of a text when nothing else is scanned with it. -/
def textResult (host : Host (StateM σ)) (d : σ) (a : Arguments) (h : Highlighter) :
    Except String LoadedText → TextResult
  | .error message => .failed ("tagline: " ++ message)
  | .ok t =>
    let resolve : SyntaxSource Id := fun language =>
      (chooseSource host a).answersIn d (Language.canonical language)
    .written (writeMatches a.format h.tags t
      (h.scan resolve t.document.text t.document.language).run)

/-- What comes of a file when nothing else is scanned with it. -/
def fileResult (host : Host (StateM σ)) (d : σ) (a : Arguments) (h : Highlighter) (path : String) :
    TextResult :=
  host.textResult d a h (resultIn d (readPlace host a.language (.file path)))

variable {d : σ} {a : Arguments} {h : Highlighter}

omit [Engine] in
theorem resultIn_readPlace (language : Option String) (path : String) :
    resultIn d (readPlace host language (.file path)) =
      match resultIn d (host.files.readText path) with
      | .error e => .error ("Failed to read " ++ path ++ ": " ++ e.message)
      | .ok text =>
        let document := Document.ofFile path text
        .ok ⟨path, (language.map document.withLanguage).getD document⟩ := by
  rw [readPlace, resultIn_bind]
  cases resultIn d (host.files.readText path) <;> rfl

theorem message?_fileResult (path : String) :
    (host.fileResult d a h path).message? = host.fault? d path := by
  rw [fileResult, fault?, resultIn_readPlace]
  cases resultIn d (host.files.readText path) with
  | error e =>
    show some ("tagline: " ++ ("Failed to read " ++ path ++ ": " ++ e.message)) = _
    simp only [← String.append_assoc, show "tagline: " ++ "Failed to read " =
      "tagline: Failed to read " from rfl]
  | ok text => rfl

theorem output_fileResult_of_fault {message : String} {path : String}
    (hfault : host.fault? d path = some message) : (host.fileResult d a h path).output = "" := by
  rw [← message?_fileResult (a := a) (h := h)] at hfault
  cases hresult : host.fileResult d a h path with
  | failed message => rfl
  | written output =>
    rw [hresult] at hfault
    exact (Option.some_ne_none _ hfault.symm).elim

section

variable (hquiet : host.ReadsQuietly) (htakes : host.TakesAll)
include hquiet htakes

omit hquiet in
/-- The results of the files make up the end of the command. -/
theorem conclude_fileResult (paths : List String) :
    conclude host (paths.map (host.fileResult d a h)) none =
      pure (.ending [] (String.join (paths.map fun path => (host.fileResult d a h path).output))
        (paths.filterMap (host.fault? d))) := by
  have hmessages : (paths.map (host.fileResult d a h)).filterMap (·.message?) =
      paths.filterMap (host.fault? d) := by
    rw [List.filterMap_map]
    exact congrArg (paths.filterMap ·) (funext message?_fileResult)
  simp only [conclude, hmessages, List.map_map, htakes.tell_eq, pure_bind, Outcome.ending]
  cases paths.filterMap (host.fault? d) with
  | nil => rfl
  | cons message messages => rfl

/-- A file that is scanned after others has the result that it has alone. -/
theorem settled_scanPlace (path : String) :
    (settled d ((chooseSource host a).answersIn d)).Rel
      (scanPlace host a h (chooseSource host a) (.file path))
      (host.fileResult d a h path, none) := by
  refine (settled d _).bind (g := fun text => (host.textResult d a h text, none))
    (settled.lift (hquiet.readPlace a.language path)) fun text => ?_
  cases text with
  | error message =>
    simp only [htakes.message, liftM_pure, pure_bind]
    exact (settled d _).pure _
  | ok t =>
    simp only [htakes.writeAll_eq, liftM_pure, pure_bind]
    refine (settled d _).bind (g := fun c =>
      (TextResult.written (writeMatches a.format h.tags t c), none)) ?_
      fun c => (settled d _).pure _
    exact h.scanRange_rel _ fun _ _ => settled.resolve (hquiet.chooseSource a) _

/-- Nothing stops a command that scans files. -/
theorem settled_scanPlaces (paths : List String) :
    (settled d ((chooseSource host a).answersIn d)).Rel
      (scanPlaces host a h (chooseSource host a) (paths.map .file))
      (paths.map (host.fileResult d a h), none) := by
  induction paths with
  | nil => exact (settled d _).pure _
  | cons path paths ih =>
    -- whatever is done with the result of the first file is done with that which it has alone
    let goOn (result : TextResult × Option Stop) : Id (List TextResult × Option Stop) :=
      result.2.elim (result.1 :: paths.map (host.fileResult d a h), none) fun stop =>
        ([result.1], some stop)
    have hfirst := settled_scanPlace (a := a) (h := h) (d := d) hquiet htakes path
    rw [List.map_cons, scanPlaces]
    refine (settled d _).bind (g := goOn) hfirst fun result => ?_
    obtain ⟨result, _ | stop⟩ := result
    · exact (settled d _).bind (g := fun r => (result :: r.1, r.2)) ih fun r => (settled d _).pure _
    · exact (settled d _).pure _

theorem scanAll_run (settings : Settings) (hne : a.paths ≠ []) (hdash : "-" ∉ a.paths) :
    let h : Highlighter := ⟨settings.registry, a.override settings.toggles⟩
    resultIn d (scanAll host a settings) =
      .ending [] (String.join (a.paths.map fun path => (host.fileResult d a h path).output))
        (a.paths.filterMap (host.fault? d)) := by
  intro h
  have hplaces : a.places = a.paths.map .file := by
    rw [Arguments.places, if_neg (by simpa using hne)]
    refine List.map_congr_left fun path hp => if_neg ?_
    rintro rfl
    exact hdash hp
  -- the resolver of a command has no answers at first
  obtain ⟨r, -, hrun⟩ := settled_scanPlaces (d := d) (a := a)
    (h := ⟨settings.registry, a.override settings.toggles⟩) hquiet htakes a.paths {}
    fun _ _ hpeek => (Option.some_ne_none _ hpeek.symm).elim
  rw [scanAll, hplaces, resultIn_bind]
  simp only [resultIn, hrun, Id.run, htakes.flush_eq, pure_bind, conclude_fileResult htakes]
  rfl

omit htakes in
/-- A command whose settings can be read scans its texts when the log has been prepared. -/
theorem resultIn_runArguments {settings : Settings} {told : List String}
    (hlog : resultIn d (startLog host) = .ok told)
    (hsettings : resultIn (host.started d) (chooseSettings host a) = .ok settings) :
    resultIn d (runArguments host a) =
      let o := resultIn (host.started d) (scanAll host a settings)
      { o with messages := told ++ o.messages } := by
  rw [runArguments, resultIn_bind, hlog]
  change resultIn (host.started d) _ = _
  simp only
  rw [(hquiet.chooseSettings a).resultIn_bind, hsettings]
  rfl

/-- The whole command, with files only and settings that can be read. -/
theorem outcome_of_parse {arguments : List String}
    (harguments : Arguments.parse arguments = .ok a) (hne : a.paths ≠ []) (hdash : "-" ∉ a.paths)
    {settings : Settings} {told : List String} (hlog : resultIn d (startLog host) = .ok told)
    (hsettings : resultIn (host.started d) (chooseSettings host a) = .ok settings) :
    host.outcome d arguments =
      let h : Highlighter := ⟨settings.registry, a.override settings.toggles⟩
      .ending told
        (String.join (a.paths.map fun path => (host.fileResult (host.started d) a h path).output))
        (a.paths.filterMap (host.fault? (host.started d))) := by
  rw [outcome, run, harguments]
  simp only
  rw [resultIn_runArguments hquiet hlog hsettings, scanAll_run hquiet htakes settings hne hdash]
  exact Outcome.ending_append told _ _

/-- A command for one of the files leaves behind what comes of that file. -/
theorem outcome_alone {arguments : List String} {path : String}
    (harguments : Arguments.parse arguments = .ok { a with paths := [path] }) (hpath : path ≠ "-")
    {settings : Settings} {told : List String} (hlog : resultIn d (startLog host) = .ok told)
    (hsettings : resultIn (host.started d) (chooseSettings host a) = .ok settings) :
    host.outcome d arguments =
      let h : Highlighter := ⟨settings.registry, a.override settings.toggles⟩
      .ending told (host.fileResult (host.started d) a h path).output
        (host.fault? (host.started d) path).toList := by
  have hdash : "-" ∉ [path] := fun h => hpath (List.mem_singleton.1 h).symm
  have hjoin (output : String) : String.join [output] = output := String.empty_append
  have hfaults : [path].filterMap (host.fault? (host.started d)) =
      (host.fault? (host.started d) path).toList := by
    rw [List.filterMap_cons]
    cases host.fault? (host.started d) path <;> rfl
  rw [outcome_of_parse hquiet htakes harguments (List.cons_ne_nil _ _) hdash hlog hsettings]
  simp only [List.map_cons, List.map_nil, hjoin, hfaults]
  rfl

/-- **A command with several files does what a command for each file does.**  Take any host where
reading changes nothing, all that is written is taken and the log can be prepared, and any command
line that asks for the scan of files, with settings that can be read.  What it writes is what the
command lines with the same options and one of the files write, put together in order.  Each file that
cannot be read is told in one message, in order and as often as it is named, and the command that
names it alone says just that and writes nothing.  The command fails if and only if there are such
files, and then it tells their number. -/
theorem outcome_files {arguments : List String} {alone : String → List String}
    {settings : Settings} {told : List String}
    (harguments : Arguments.parse arguments = .ok a) (hne : a.paths ≠ []) (hdash : "-" ∉ a.paths)
    (halone : ∀ path ∈ a.paths, Arguments.parse (alone path) = .ok { a with paths := [path] })
    (hlog : resultIn d (startLog host) = .ok told)
    (hsettings : resultIn (host.started d) (chooseSettings host a) = .ok settings) :
    host.outcome d arguments =
        .ending told (String.join (a.paths.map fun path => (host.outcome d (alone path)).output))
          (a.paths.filterMap (host.fault? (host.started d))) ∧
      ∀ path ∈ a.paths,
        match host.fault? (host.started d) path with
        | none => ∃ output, host.outcome d (alone path) = .ending told output []
        | some message => host.outcome d (alone path) = .ending told "" [message] := by
  have heach (path : String) (hp : path ∈ a.paths) :=
    outcome_alone hquiet htakes (halone path hp) (fun h => hdash (h ▸ hp)) hlog hsettings
  refine ⟨?_, fun path hp => ?_⟩
  · rw [outcome_of_parse hquiet htakes harguments hne hdash hlog hsettings]
    refine congrArg (fun outputs => Outcome.ending told (String.join outputs) _)
      (List.map_congr_left fun path hp => ?_)
    rw [heach path hp]
    rfl
  · rw [heach path hp]
    split
    · next hfault =>
      rw [hfault]
      exact ⟨_, rfl⟩
    · next message hfault =>
      rw [hfault]
      exact congrArg (Outcome.ending told · [message]) (output_fileResult_of_fault hfault)

end

end Host

end

set_option maxRecDepth 20000 in
/-- Of three files one is missing, and it is named twice. -/
theorem Host.outcome_files_missing :
    let host := Desk.host { home := some "me" }
    let d : Desk :=
      { tree := ⟨[(["a.py"], .text "\n# TODO one\n"), (["b.c"], .text "/* TODO: two */\n")]⟩ }
    let alone (path : String) : List String := ["-f", "json", "--no-markdown", path]
    let missing := "tagline: Failed to read gone.rs: No such file or directory (os error 2)"
    host.outcome d ["a.py", "-f", "json", "gone.rs", "--no-markdown", "b.c", "gone.rs"] =
        .ending []
          (String.join (["a.py", "gone.rs", "b.c", "gone.rs"].map fun path =>
            (host.outcome d (alone path)).output))
          [missing, missing] ∧
      host.outcome d (alone "gone.rs") = .ending [] "" [missing] := by
  intro host d alone missing
  let a : Arguments :=
    { paths := ["a.py", "gone.rs", "b.c", "gone.rs"], format := .json, noMarkdown := true }
  have hfault : host.fault? (host.started d) "gone.rs" = some missing := by decide +kernel
  have hfaults : a.paths.filterMap (host.fault? (host.started d)) = [missing, missing] := by
    decide +kernel
  have halone : ∀ path ∈ a.paths, Arguments.parse (alone path) = .ok { a with paths := [path] } :=
    List.forall_mem_cons.2 ⟨rfl, List.forall_mem_cons.2 ⟨rfl, List.forall_mem_cons.2 ⟨rfl,
      List.forall_mem_cons.2 ⟨rfl, List.forall_mem_nil _⟩⟩⟩⟩
  have harguments : Arguments.parse
      ["a.py", "-f", "json", "gone.rs", "--no-markdown", "b.c", "gone.rs"] = .ok a := rfl
  have hlog : resultIn d (startLog host) = .ok [] := by decide +kernel
  have hsettings : resultIn (host.started d) (chooseSettings host a) = .ok {} := by decide +kernel
  have h := outcome_files (Desk.readsQuietly_host _) (Desk.takesAll_host _) harguments (by decide)
    (by decide) halone hlog hsettings
  have hgone := h.2 "gone.rs" (by decide)
  rw [hfault] at hgone
  rw [hfaults] at h
  exact ⟨h.1, hgone⟩

set_option maxRecDepth 20000 in
/-- Without files the standard input is scanned; a command that asks for the version tells it once,
however many files it names; and an empty name is refused. -/
theorem Host.outcome_ne_join :
    let host := Desk.host {}
    let d : Desk := { input := some (.text "x") }
    let output (arguments : List String) : String := (host.outcome d arguments).output
    output ["-f", "paint"] ≠ String.join ([].map fun path => output ["-f", "paint", path]) ∧
      output ["--version", "a", "b"] ≠
        String.join (["a", "b"].map fun path => output ["--version", path]) ∧
      host.outcome d [""] = ⟨2, "", ["error: a value is missing or invalid"]⟩ := by
  decide +kernel

end CommentTags
