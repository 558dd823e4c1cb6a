import SqlDialect.CommandLine.Command
import SqlDialect.Proofs.CommandLine.FileSystem

/-!
# What a run of the command changes

A run changes no file but the output and the two diagrams, and a run that fails leaves the output
alone (`run_touches`).  The diagrams are written only if this is asked for, on the command line or
in the configuration, and the second of them only after the conversion has succeeded.

All this holds for any operations on files that succeed or fail as a whole.  Which paths are meant
is what the command line says, or else the configuration, or else the defaults; `Configured` says
which configuration applies and `Says` what of it comes from the document.
-/

namespace SqlDialect

/-! ## Configurations and their documents -/

namespace Configuration

open Toml (Value Entries)

/-- What a document says about a debug setting, which has a key in a table and a position in an
array. -/
def debugValue? (entries : Entries) (key : String) (position : Nat) : Option Value :=
  match entries.get? "debug" with
  | some (.table _ settings) => Entries.get? settings key
  | some (.array elements) => elements[position]?
  | _ => none

/-- The settings are those of the document, and the defaults where it has none. -/
structure Says (entries : Entries) (c : Configuration) : Prop where
  output : c.output = (entries.get? "output" >>= string?).getD "output.sql"
  format : c.format = (entries.get? "format" >>= format?).getD .text
  enabled : c.debug.enabled = (debugValue? entries "enabled" 0 >>= boolean?).getD false
  tree : c.debug.tree = (debugValue? entries "tree" 1 >>= string?).getD "debug/tree.txt"
  ptree : c.debug.ptree = (debugValue? entries "ptree" 2 >>= string?).getD "debug/tree.psql.txt"
  ignoreWhiteSpace : c.debug.ignoreWhiteSpace =
    (debugValue? entries "ignore_whitespace" 3 >>= boolean?).getD true

lemma setting_eq_some {α : Type} {decode : Value → Option α} {default a : α} {value : Option Value}
    (h : setting decode default value = some a) : a = (value >>= decode).getD default := by
  cases value with
  | none => exact (Option.some.inj h).symm
  | some value =>
    have hdecode : decode value = some a := h
    simp [hdecode]

lemma debugOf?_eq_some {enabled tree ptree ignoreWhiteSpace : Option Value} {d : DebugSettings}
    (h : debugOf? enabled tree ptree ignoreWhiteSpace = some d) :
    d.enabled = (enabled >>= boolean?).getD false ∧
      d.tree = (tree >>= string?).getD "debug/tree.txt" ∧
      d.ptree = (ptree >>= string?).getD "debug/tree.psql.txt" ∧
      d.ignoreWhiteSpace = (ignoreWhiteSpace >>= boolean?).getD true := by
  simp only [debugOf?, Option.bind_eq_bind, Option.bind_eq_some_iff] at h
  obtain ⟨a, ha, b, hb, c, hc, e, he, h⟩ := h
  cases h
  exact ⟨setting_eq_some ha, setting_eq_some hb, setting_eq_some hc, setting_eq_some he⟩

lemma says_of_ofEntries? {entries : Entries} {c : Configuration} (h : ofEntries? entries = some c) :
    Says entries c := by
  simp only [ofEntries?, Option.bind_eq_bind, Option.bind_eq_some_iff] at h
  obtain ⟨output, houtput, format, hformat, debug, hdebug, h⟩ := h
  cases h
  have hsettings : debug.enabled = (debugValue? entries "enabled" 0 >>= boolean?).getD false ∧
      debug.tree = (debugValue? entries "tree" 1 >>= string?).getD "debug/tree.txt" ∧
      debug.ptree = (debugValue? entries "ptree" 2 >>= string?).getD "debug/tree.psql.txt" ∧
      debug.ignoreWhiteSpace =
        (debugValue? entries "ignore_whitespace" 3 >>= boolean?).getD true := by
    cases hvalue : entries.get? "debug" with
    | none =>
      rw [hvalue] at hdebug
      cases hdebug
      simp [debugValue?, hvalue]
    | some value =>
      rw [hvalue] at hdebug
      replace hdebug : debug? value = some debug := hdebug
      cases value with
      | table kind settings => simpa [debugValue?, hvalue] using debugOf?_eq_some hdebug
      | array elements => simpa [debugValue?, hvalue] using debugOf?_eq_some hdebug
      | moment text =>
        cases hdebug
        simp [debugValue?, hvalue]
      | _ => cases hdebug
  exact ⟨setting_eq_some houtput, setting_eq_some hformat, hsettings.1, hsettings.2.1,
    hsettings.2.2.1, hsettings.2.2.2⟩

/-! ## Which configuration applies -/

/-- The files that a configuration is looked for in. -/
def sources (userDirectory explicit : Option String) : List String :=
  match explicit with
  | some path => [path]
  | none => localFile :: (userDirectory.map userFile).toList

/-- The configuration is the one in a file. -/
def IsIn (files : FileAccess (StateM FileSystem)) (fs : FileSystem) (path : String)
    (c : Configuration) : Prop :=
  ∃ content entries, (files.read path fs).1 = .ok content ∧ Toml.read? content = some entries ∧
    Says entries c

/-- The first of some files that is there. -/
def firstPresent? (files : FileAccess (StateM FileSystem)) (fs : FileSystem) (paths : List String) :
    Option String :=
  paths.find? fun path => (files.isPresent path fs).1

/-- The configuration is the one in the first file that is there, or is the default if there is none
and none was asked for. -/
def Configured (files : FileAccess (StateM FileSystem)) (userDirectory explicit : Option String)
    (fs : FileSystem) (c : Configuration) : Prop :=
  (∃ path, firstPresent? files fs (sources userDirectory explicit) = some path ∧
      IsIn files fs path c) ∨
    firstPresent? files fs (sources userDirectory explicit) = none ∧ explicit = none ∧ c = {}

variable {files : FileAccess (StateM FileSystem)}

lemma bind_run {α β : Type} (step : StateM FileSystem α) (next : α → StateM FileSystem β)
    (fs : FileSystem) : (step >>= next) fs = next (step fs).1 (step fs).2 := rfl

lemma ofFile_run (hfiles : files.Atomic) (fs : FileSystem) (path : String) :
    (ofFile files path fs).2 = fs ∧ ∀ c, (ofFile files path fs).1 = .ok c →
    IsIn files fs path c := by
  rw [ofFile, bind_run, hfiles.read]
  cases hread : (files.read path fs).1 with
  | error cause =>
    refine ⟨rfl, fun c h => ?_⟩
    cases h
  | ok content =>
    dsimp only
    cases hparse : ofToml? content with
    | none =>
      refine ⟨rfl, fun c h => ?_⟩
      cases h
    | some found =>
      refine ⟨rfl, fun c h => ?_⟩
      cases h
      obtain ⟨entries, hentries, hfound⟩ := Option.bind_eq_some_iff.1 hparse
      exact ⟨content, entries, hread, hentries, says_of_ofEntries? hfound⟩

lemma ofFirst_run (hfiles : files.Atomic) (fs : FileSystem) (paths : List String) :
    (ofFirst files paths fs).2 = fs ∧ ∀ c, (ofFirst files paths fs).1 = .ok c →
      (∃ path, firstPresent? files fs paths = some path ∧ IsIn files fs path c) ∨
        firstPresent? files fs paths = none ∧ c = {} := by
  induction paths with
  | nil =>
    refine ⟨rfl, fun c h => .inr ⟨rfl, ?_⟩⟩
    cases h
    rfl
  | cons path rest ih =>
    rw [ofFirst, bind_run, hfiles.isPresent, firstPresent?, List.find?_cons]
    cases hpresent : (files.isPresent path fs).1 with
    | true =>
      obtain ⟨hsame, hfound⟩ := ofFile_run hfiles fs path
      exact ⟨hsame, fun c h => .inl ⟨path, rfl, hfound c h⟩⟩
    | false => exact ih

/-- Looking for the configuration changes nothing and finds the one that applies. -/
lemma load_run (hfiles : files.Atomic) (fs : FileSystem) (userDirectory explicit : Option String) :
    (load files userDirectory explicit fs).2 = fs ∧
      ∀ c, (load files userDirectory explicit fs).1 = .ok c →
        Configured files userDirectory explicit fs c := by
  unfold load
  cases explicit with
  | none =>
    obtain ⟨hsame, hfound⟩ := ofFirst_run hfiles fs (sources userDirectory none)
    refine ⟨hsame, fun c h => (hfound c h).imp_right ?_⟩
    rintro ⟨hnone, hdefault⟩
    exact ⟨hnone, rfl, hdefault⟩
  | some path =>
    dsimp only
    rw [bind_run, hfiles.isPresent]
    cases hpresent : (files.isPresent path fs).1 with
    | true =>
      obtain ⟨hsame, hfound⟩ := ofFile_run hfiles fs path
      refine ⟨hsame, fun c h => .inl ⟨path, ?_, hfound c h⟩⟩
      rw [sources, firstPresent?, List.find?_cons, hpresent]
    | false =>
      refine ⟨rfl, fun c h => ?_⟩
      cases h

end Configuration

namespace CommandLine

open FileSystem

variable {files : FileAccess (StateM FileSystem)} {fs : FileSystem} {α β : Type}

/-! ## Steps of a run -/

/-- The step gives a result with `Q`, or ends the run and leaves files with `E`. -/
def Runs (step : ExceptT CommandError (StateM FileSystem) α) (fs : FileSystem)
    (Q : α → FileSystem → Prop) (E : FileSystem → Prop) : Prop :=
  match step.run fs with
  | (.ok a, fs') => Q a fs'
  | (.error _, fs') => E fs'

section Rules

variable {Q : α → FileSystem → Prop} {E : FileSystem → Prop}

lemma runs_pure {a : α} (h : Q a fs) : Runs (pure a) fs Q E := h

lemma runs_throw {e : CommandError} (h : E fs) :
    Runs (throw e : ExceptT CommandError (StateM FileSystem) α) fs Q E := h

lemma runs_bind {step : ExceptT CommandError (StateM FileSystem) β}
    {next : β → ExceptT CommandError (StateM FileSystem) α}
    (h : Runs step fs (fun b fs' => Runs (next b) fs' Q E) E) : Runs (step >>= next) fs Q E := by
  have hrun : (step >>= next).run fs =
      ExceptT.bindCont next (step.run fs).1 (step.run fs).2 := rfl
  rw [Runs, hrun]
  rw [Runs] at h
  cases hstep : step.run fs with
  | mk result fs' =>
    rw [hstep] at h
    cases result with
    | ok b => exact h
    | error e => exact h

lemma Runs.mono {step : ExceptT CommandError (StateM FileSystem) α} {Q' : α → FileSystem → Prop}
    {E' : FileSystem → Prop} (h : Runs step fs Q E) (hQ : ∀ a fs', Q a fs' → Q' a fs')
    (hE : ∀ fs', E fs' → E' fs') : Runs step fs Q' E' := by
  rw [Runs] at h ⊢
  split at h
  · exact hQ _ _ h
  · exact hE _ h

lemma runs_lift (operation : StateM FileSystem α) (h : Q (operation fs).1 (operation fs).2) :
    Runs (liftM operation) fs Q E := h

lemma attempt_runs {operation : StateM FileSystem (Except FileError α)}
    {error : FileError → CommandError} (hQ : ∀ a fs', operation fs = (.ok a, fs') → Q a fs')
    (hE : ∀ e fs', operation fs = (.error e, fs') → E fs') :
    Runs (attempt operation error) fs Q E := by
  refine runs_bind (runs_lift operation ?_)
  cases hoperation : operation fs with
  | mk result fs' =>
    cases result with
    | ok a => exact runs_pure (hQ a fs' hoperation)
    | error e => exact runs_throw (hE e fs' hoperation)

end Rules

/-- A file that is written stands at the place of its path, and a failure changes no file. Other
files may have been written before. -/
lemma writeFile_runs {places : List Place} {fs' : FileSystem} (hfiles : files.Atomic)
    (h : Touched fs places fs') (path content : String) :
    Runs (writeFile files path content) fs'
      (fun _ fs'' => Touched fs (fs.placeOf path :: places) fs'' ∧
        fs''.content? (fs.placeOf path) = some content)
      fun fs'' => Touched fs places fs'' := by
  have hwrite {made : FileSystem} (hmade : Touched fs places made) :
      Runs (attempt (files.write path content) (.writing path)) made
        (fun _ fs'' => Touched fs (fs.placeOf path :: places) fs'' ∧
          fs''.content? (fs.placeOf path) = some content)
        fun fs'' => Touched fs places fs'' := by
    refine attempt_runs (fun _ fs'' hrun => ?_) fun e fs'' hrun => ?_
    · obtain ⟨htouched, hcontent⟩ := hfiles.write_ok _ _ _ _ hrun
      rw [hmade.placeOf_eq] at htouched hcontent
      exact ⟨(hmade.trans htouched).mono (by simp), hcontent⟩
    · exact (hmade.trans (hfiles.write_error _ _ _ _ _ hrun)).mono (by simp)
  rw [writeFile]
  split
  · exact hwrite h
  · exact hwrite h
  · rename_i directory _ _
    have hmade : Touched fs places (files.createDirectories directory fs').2 :=
      (h.trans (hfiles.createDirectories fs' directory)).mono (by simp)
    refine runs_bind (attempt_runs (fun _ made hrun => ?_) fun _ made hrun => ?_)
    · rw [hrun] at hmade
      exact hwrite hmade
    · rwa [hrun] at hmade

/-- Reading a tree changes nothing. -/
lemma readTree_runs (hfiles : files.Atomic) (path : String) :
    Runs (readTree files path) fs
      (fun tree fs' => fs' = fs ∧ ∃ content, (files.read path fs).1 = .ok content ∧
        parseTree path content = .ok tree)
      fun fs' => fs' = fs := by
  have hsame {result : Except FileError String} {fs' : FileSystem}
      (h : files.read path fs = (result, fs')) : fs' = fs := by
    have hread := hfiles.read fs path
    rwa [h] at hread
  refine runs_bind (attempt_runs (fun content fs' hrun => ?_) fun _ fs' hrun => hsame hrun)
  cases hparse : parseTree path content with
  | error e => exact runs_throw (hsame hrun)
  | ok tree => exact runs_pure ⟨hsame hrun, content, by rw [hrun], hparse⟩

/-! ## The run -/

/-- The input of a run is a tree whose conversion succeeds. -/
def Converts (files : FileAccess (StateM FileSystem)) (fs : FileSystem) (input : String)
    (w : Workspace) : Prop :=
  ∃ content tree, (files.read input fs).1 = .ok content ∧ parseTree input content = .ok tree ∧
    convert (Forest.ofTree tree) = .ok w

section

variable (options : Options) (c : Configuration)

/-- Whether diagrams are to be written. -/
def wantsDiagrams : Bool :=
  options.debug || c.debug.enabled

/-- Where the output goes, and the diagrams before and after the conversion. -/
def outputPath : String := options.output.getD c.output

def treePath : String := options.tree.getD c.debug.tree

def ptreePath : String := options.ptree.getD c.debug.ptree

end

/-- What a run leaves that gets as far as to write the output of the conversion. -/
def Finishes (files : FileAccess (StateM FileSystem)) (options : Options) (c : Configuration)
    (input : String) (fs fs' : FileSystem) : Prop :=
  ∃ w, Converts files fs input w ∧
    Touched fs (fs.placeOf (outputPath options c) :: if wantsDiagrams options c then
      [fs.placeOf (treePath options c), fs.placeOf (ptreePath options c)] else []) fs' ∧
    fs'.content? (fs.placeOf (outputPath options c)) =
      some (formatTree w.forest.tree (options.format.getD c.format))

/-- What a run leaves that has an input and fails: diagrams if they are wanted, and the second one
only if the tree could be converted. -/
def Breaks (files : FileAccess (StateM FileSystem)) (options : Options) (c : Configuration)
    (input : String) (fs fs' : FileSystem) : Prop :=
  Touched fs [] fs' ∨ wantsDiagrams options c = true ∧
    (Touched fs [fs.placeOf (treePath options c)] fs' ∨
      (∃ w, Converts files fs input w) ∧
        Touched fs [fs.placeOf (treePath options c), fs.placeOf (ptreePath options c)] fs')

lemma convertInput_runs (hfiles : files.Atomic) (options : Options) (c : Configuration)
    (input : String) :
    Runs (convertInput files options c input) fs
      (fun _ fs' => Finishes files options c input fs fs')
      fun fs' => Breaks files options c input fs fs' := by
  refine runs_bind ((readTree_runs hfiles input).mono ?_ fun fs' h => .inl (h ▸ .refl fs))
  rintro tree fs' ⟨rfl, content, hread, hparse⟩
  rw [← wantsDiagrams, ← treePath, ← ptreePath, ← outputPath]
  dsimp only
  have hstart : Touched fs' [] fs' := .refl fs'
  cases hconvert : convert (Forest.ofTree tree) with
  | error e =>
    split
    · rename_i hwants
      refine runs_bind ((writeFile_runs hfiles hstart _ _).mono ?_ fun _ h => .inl h)
      rintro - fs1 ⟨h1, -⟩
      exact runs_throw (.inr ⟨hwants, .inl h1⟩)
    · exact runs_throw (.inl hstart)
  | ok w =>
    have hconverts : Converts files fs' input w := ⟨content, tree, hread, hparse, hconvert⟩
    split
    · rename_i hwants
      refine runs_bind ((writeFile_runs hfiles hstart _ _).mono ?_ fun _ h => .inl h)
      rintro - fs1 ⟨h1, -⟩
      refine runs_bind (runs_pure (runs_bind ((writeFile_runs hfiles h1 _ _).mono ?_
        fun _ h => .inr ⟨hwants, .inl h⟩)))
      rintro - fs2 ⟨h2, -⟩
      refine runs_bind ((writeFile_runs hfiles h2 _ _).mono ?_
        fun _ h => .inr ⟨hwants, .inr ⟨⟨w, hconverts⟩, h.mono (by simp)⟩⟩)
      rintro - fs3 ⟨h3, hcontent⟩
      refine runs_pure ⟨w, hconverts, ?_, hcontent⟩
      rw [if_pos hwants]
      exact h3.mono (by simp)
    · rename_i hwants
      refine runs_bind (runs_pure (runs_bind ((writeFile_runs hfiles hstart _ _).mono ?_
        fun _ h => .inl h)))
      rintro - fs1 ⟨h1, hcontent⟩
      refine runs_pure ⟨w, hconverts, ?_, hcontent⟩
      rwa [if_neg hwants]

lemma work_runs (hfiles : files.Atomic) (fs : FileSystem) (userDirectory : Option String)
    (options : Options) :
    Runs (work files userDirectory options) fs
      (fun _ fs' => ∃ c input, Configuration.Configured files userDirectory options.config fs c ∧
        options.input = some input ∧ Finishes files options c input fs fs')
      fun fs' => Touched fs [] fs' ∨
        ∃ c input, Configuration.Configured files userDirectory options.config fs c ∧
          options.input = some input ∧ Breaks files options c input fs fs' := by
  obtain ⟨hsame, hload⟩ := Configuration.load_run hfiles fs userDirectory options.config
  refine runs_bind (runs_lift (Configuration.load files userDirectory options.config) ?_)
  rw [hsame]
  cases hresult : (Configuration.load files userDirectory options.config fs).1 with
  | error e => exact runs_throw (.inl (.refl fs))
  | ok c =>
    have hconfigured := hload c hresult
    cases hinput : options.input with
    | none => exact runs_throw (.inl (.refl fs))
    | some input =>
      refine (convertInput_runs hfiles options c input).mono ?_ ?_
      · intro _ fs' hfinishes
        exact ⟨c, input, hconfigured, rfl, hfinishes⟩
      · intro fs' hbreaks
        exact .inr ⟨c, input, hconfigured, rfl, hbreaks⟩

/-- A run on a command line that is understood changes no file if the passes are asked for. If it
fails it changes diagrams at most, and none of them unless diagrams are wanted, nor the second one
unless the tree could be converted. If it succeeds the output is the converted tree, and nothing
else has changed but the diagrams, if they are wanted. The paths are those of the command line, or
else of the configuration that applies. -/
theorem run_touches {options : Options} {arguments : List String}
    {environment : Option String} (hfiles : files.Atomic)
    (hoptions : readOptions arguments environment = .ok options) (userDirectory : Option String)
    (fs : FileSystem) :
    ∃ outcome fs', run files userDirectory arguments environment fs = (outcome, fs') ∧
      (options.passes = true → outcome.exitCode = 0 ∧ fs' = fs) ∧
      (options.passes = false → outcome.exitCode = 0 ∧
          (∃ c input, Configuration.Configured files userDirectory options.config fs c ∧
            options.input = some input ∧ Finishes files options c input fs fs') ∨
        outcome.exitCode = 1 ∧ (Touched fs [] fs' ∨
          ∃ c input, Configuration.Configured files userDirectory options.config fs c ∧
            options.input = some input ∧ Breaks files options c input fs fs')) := by
  rw [run, hoptions]
  dsimp only
  cases hpasses : options.passes with
  | true =>
    rw [if_pos rfl]
    exact ⟨_, fs, rfl, fun _ => ⟨rfl, rfl⟩, fun h => absurd h (by simp)⟩
  | false =>
    rw [if_neg Bool.false_ne_true, Configuration.bind_run]
    have hwork := work_runs hfiles fs userDirectory options
    rw [Runs] at hwork
    cases hrun : (work files userDirectory options).run fs with
    | mk result fs' =>
      rw [hrun] at hwork
      cases result with
      | ok output => exact ⟨_, fs', rfl, fun h => absurd h (by simp), fun _ => .inl ⟨rfl, hwork⟩⟩
      | error e => exact ⟨_, fs', rfl, fun h => absurd h (by simp), fun _ => .inr ⟨rfl, hwork⟩⟩

/-- A directory with an input in it. -/
def inputOnly : FileSystem where
  files := [(["in.tree"], "(Root)")]

theorem run_touches_inputOnly :
    readOptions ["in.tree"] none = .ok { input := some "in.tree" } ∧
      ∃ outcome fs', run access none ["in.tree"] none inputOnly = (outcome, fs') ∧
        Touched inputOnly [["output.sql"]] fs' := by
  have hoptions : readOptions ["in.tree"] none = .ok { input := some "in.tree" } := by rfl
  obtain ⟨outcome, fs', hrun, -, hends⟩ := run_touches atomic_access hoptions none inputOnly
  refine ⟨hoptions, outcome, fs', hrun, ?_⟩
  have hnone : Configuration.firstPresent? access inputOnly (Configuration.sources none none) =
      none := by
    decide +kernel
  have hdefault {c : Configuration} (h : Configuration.Configured access none none inputOnly c) :
      c = {} := by
    obtain ⟨path, hfirst, -⟩ | ⟨-, -, hdefault⟩ := h
    · rw [hnone] at hfirst
      cases hfirst
    · exact hdefault
  obtain ⟨-, c, input, hconfigured, -, w, -, htouched, -⟩ | ⟨-, hbroken⟩ := hends rfl
  · rw [hdefault hconfigured] at htouched
    exact htouched
  · obtain htouched | ⟨c, input, hconfigured, -, htouched | ⟨hwants, -⟩⟩ := hbroken
    · exact htouched.mono (by simp)
    · exact htouched.mono (by simp)
    · rw [hdefault hconfigured] at hwants
      cases hwants

end CommandLine

end SqlDialect
