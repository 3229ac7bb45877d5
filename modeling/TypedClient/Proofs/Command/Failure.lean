/-
  TypedClient.Proofs.Command.Failure

  What a run that fails leaves behind.

  A run has two halves.  The first one only reads: it comes to the code and to the file that the
  code is for, or fails.  The second one prints the code or writes the file, and it alone changes
  the surroundings.  So a run that fails before its second half leaves everything as it was, in any
  surroundings in which reading changes nothing.
-/
import TypedClient.Command.FileTree

namespace TypedClient
namespace Command

/-- Does the error come from putting the code into its file? -/
def Error.isOutput : Error → Bool
  | .file .createDirectory _ _ => true
  | .file .write _ _ => true
  | _ => false

/-- Surroundings of any kind, in which reading changes nothing. -/
structure Host.ReadsOnly {σ : Type} (host : Host (StateM σ)) : Prop where
  read : ∀ path world, ((host.read path).run world).2 = world
  fetch : ∀ url world, ((host.fetch url).run world).2 = world

section

variable {σ : Type}

/-! ## The two halves of a run -/

/-- The first half of a run: the file that the code is for, if one is named, and the code. -/
def prepare (host : Host (StateM σ)) (arguments : Arguments) :
    ExceptT Error (StateM σ) (Option String × String) := do
  let config ← loadConfig host arguments.config
  let settings := Settings.resolve arguments config
  let source := SpecSource.ofText arguments.spec
  let document ← load host source
  let code ← ExceptT.mk (pure (codeFor source settings.options document))
  return (settings.output, code)

/-- The second half of a run: the code is printed, or written to its file. -/
def deliver (host : Host (StateM σ)) (output : Option String) (code : String) :
    ExceptT Error (StateM σ) Unit :=
  match output with
  | some path => writeOutput host path code
  | none => ExceptT.lift (host.print code)

/-- A run is its two halves, one after the other. -/
theorem run_eq_prepare_deliver (host : Host (StateM σ)) (arguments : Arguments) :
    run host arguments =
      prepare host arguments >>= fun prepared => deliver host prepared.1 prepared.2 := by
  simp only [run, prepare, bind_assoc, pure_bind]
  rfl

/-- An action fails with the error of its first part, or goes on from where that part ends. -/
theorem run_bind {ε α β : Type} (action : ExceptT ε (StateM σ) α)
    (next : α → ExceptT ε (StateM σ) β) (world : σ) :
    (action >>= next).run.run world =
      match action.run.run world with
      | (.ok a, middle) => (next a).run.run middle
      | (.error error, middle) => (.error error, middle) := by
  rw [ExceptT.run_bind, StateT.run_bind]
  generalize action.run.run world = first
  obtain ⟨answer, middle⟩ := first
  cases answer with
  | ok a => rfl
  | error error => rfl

/-! ## The half that only reads -/

/-- The action leaves the surroundings as they are, whatever it answers, and no error of it comes
    from writing. -/
def Reads {α : Type} (action : ExceptT Error (StateM σ) α) : Prop :=
  ∀ world answer after, action.run.run world = (answer, after) →
    after = world ∧ ∀ error, answer = .error error → error.isOutput = false

section Reads

variable {α β ε : Type}

/-- An answer that needs no surroundings changes none. -/
theorem reads_answer {answer : Except Error α}
    (h : ∀ error, answer = .error error → error.isOutput = false) :
    Reads (ExceptT.mk (pure answer) : ExceptT Error (StateM σ) α) := by
  intro world result after hrun
  have hpair : (answer, world) = (result, after) := hrun
  obtain ⟨rfl, rfl⟩ := Prod.mk.inj hpair
  exact ⟨rfl, h⟩

theorem reads_pure (a : α) : Reads (pure a : ExceptT Error (StateM σ) α) :=
  reads_answer fun _ h => by cases h

theorem Reads.bind {action : ExceptT Error (StateM σ) α}
    {next : α → ExceptT Error (StateM σ) β} (h : Reads action) (hnext : ∀ a, Reads (next a)) :
    Reads (action >>= next) := by
  intro world answer after hrun
  rw [run_bind] at hrun
  generalize hfirst : action.run.run world = first at hrun
  obtain ⟨result, middle⟩ := first
  obtain ⟨rfl, herror⟩ := h world result middle hfirst
  cases result with
  | ok a => exact hnext a middle answer after hrun
  | error error =>
    obtain ⟨rfl, rfl⟩ := Prod.mk.inj hrun
    refine ⟨rfl, fun other hother => ?_⟩
    obtain rfl := Except.error.inj hother
    exact herror error rfl

/-- Telling a problem of an action as an error changes nothing by itself. -/
theorem reads_orFail {describe : ε → Error} {action : StateM σ (Except ε α)}
    (hworld : ∀ world, (action.run world).2 = world)
    (hdescribe : ∀ problem, (describe problem).isOutput = false) :
    Reads (orFail describe action) := by
  intro world answer after hrun
  have hpair : ((action.run world).1.mapError describe, (action.run world).2) = (answer, after) :=
    hrun
  obtain ⟨rfl, rfl⟩ := Prod.mk.inj hpair
  refine ⟨hworld world, fun error herror => ?_⟩
  cases hresult : (action.run world).1 with
  | ok a =>
    rw [hresult] at herror
    cases herror
  | error problem =>
    rw [hresult] at herror
    obtain rfl := Except.error.inj herror
    exact hdescribe problem

end Reads

variable {host : Host (StateM σ)}

/-- The configuration is read. -/
theorem reads_loadConfig (hreads : host.ReadsOnly) (path : Option String) :
    Reads (loadConfig host path) := by
  cases path with
  | none => exact reads_pure ({} : Config)
  | some path =>
    have hread : Reads (orFail (.file .readConfig path) (host.read path)) :=
      reads_orFail (hreads.read path) fun _ => rfl
    apply hread.bind
    intro text
    split
    · next config _ => exact reads_pure config
    · have hconfig : ∀ error, (.error (.config path) : Except Error Config) = .error error →
          error.isOutput = false := by
        intro error herror
        obtain rfl := Except.error.inj herror
        rfl
      exact reads_answer hconfig

/-- The document is read. -/
theorem reads_load (hreads : host.ReadsOnly) (source : SpecSource) : Reads (load host source) := by
  have hformat : ∀ error, formatOf source = .error error → error.isOutput = false := by
    intro error herror
    unfold formatOf at herror
    split at herror
    · cases herror
    · obtain rfl := Except.error.inj herror
      rfl
  have hparse : ∀ format text error, parseText format source.render text = .error error →
      error.isOutput = false := by
    intro format text error herror
    unfold parseText at herror
    split at herror
    · cases herror
    · obtain rfl := Except.error.inj herror
      rfl
  have htext : Reads (readSource host source) := by
    cases source with
    | file path => exact reads_orFail (hreads.read path) fun _ => rfl
    | web url => exact reads_orFail (hreads.fetch url.render) fun _ => rfl
  apply (reads_answer hformat).bind
  intro format
  apply htext.bind
  intro text
  exact reads_answer (hparse format text)

/-- No error of making the code comes from writing. -/
theorem isOutput_of_codeFor {source : SpecSource} {options : Options} {document : Json}
    {error : Error} (h : codeFor source options document = .error error) :
    error.isOutput = false := by
  unfold codeFor at h
  cases hconvert : Swagger.convertIfVersion2 document with
  | error problem =>
    rw [hconvert] at h
    obtain rfl := Except.error.inj h
    rfl
  | ok converted =>
    rw [hconvert] at h
    have h : (match generate? converted options with
        | some code => Except.ok code
        | none => .error (Error.endlessSchema source.render)) = .error error := h
    split at h
    · cases h
    · obtain rfl := Except.error.inj h
      rfl

/-- The first half of a run only reads. -/
theorem reads_prepare (hreads : host.ReadsOnly) (arguments : Arguments) :
    Reads (prepare host arguments) := by
  apply (reads_loadConfig hreads arguments.config).bind
  intro config
  apply (reads_load hreads _).bind
  intro document
  apply (reads_answer fun error herror => isOutput_of_codeFor herror).bind
  intro code
  exact reads_pure _

/-! ## The half that writes -/

/-- Creating the directories and writing the file fail as output. -/
theorem isOutput_of_orFail {ε α : Type} {describe : ε → Error} {action : StateM σ (Except ε α)}
    (hdescribe : ∀ problem, (describe problem).isOutput = true) {world after : σ} {error : Error}
    (h : (orFail describe action).run.run world = (.error error, after)) :
    error.isOutput = true := by
  have hpair : ((action.run world).1.mapError describe, (action.run world).2) =
      (.error error, after) := h
  have herror := congrArg Prod.fst hpair
  dsimp only at herror
  cases hresult : (action.run world).1 with
  | ok a =>
    rw [hresult] at herror
    cases herror
  | error problem =>
    rw [hresult] at herror
    obtain rfl := Except.error.inj herror
    exact hdescribe problem

/-- The second half of a run fails as output, and only with a file to write. -/
theorem isOutput_of_deliver {output : Option String} {code : String} {world after : σ}
    {error : Error} (h : (deliver host output code).run.run world = (.error error, after)) :
    output.isSome = true ∧ error.isOutput = true := by
  cases output with
  | none => cases h
  | some path =>
    refine ⟨rfl, ?_⟩
    have hwrite : ∀ world after,
        (orFail (.file .write path) (host.write path code)).run.run world = (.error error, after) →
          error.isOutput = true := fun _ _ => isOutput_of_orFail fun _ => rfl
    unfold deliver writeOutput at h
    dsimp only at h
    split at h
    · next parent _ =>
      rw [run_bind] at h
      generalize hcreate : (orFail (.file .createDirectory parent)
        (host.createDirectories parent)).run.run world = first at h
      obtain ⟨result, middle⟩ := first
      cases result with
      | ok _ => exact hwrite middle after h
      | error problem =>
        obtain ⟨herror, -⟩ := Prod.mk.inj h
        obtain rfl := Except.error.inj herror
        exact isOutput_of_orFail (fun _ => rfl) hcreate
    · exact hwrite world after h

/-! ## A run that fails -/

/-- A run that fails with an error that does not come from writing the code leaves the surroundings
    as they were: nothing was created or changed, and nothing was printed. The errors that do come
    from writing are those that arise once the code was ready for its file. The exit code is 2 for
    a document that cannot be converted, and 1 for every other failure. -/
theorem failed_run_leaves_surroundings (hreads : host.ReadsOnly) {arguments : Arguments}
    {before after : σ} {error : Error}
    (h : (run host arguments).run.run before = (.error error, after)) :
    (error.isOutput = false → after = before) ∧
    (error.isOutput = true ↔ ∃ path code,
      (prepare host arguments).run.run before = (.ok (some path, code), before) ∧
        (writeOutput host path code).run.run before = (.error error, after)) ∧
    (error.exitCode = 2 ↔ ∃ problem, error = .conversion problem) ∧
    (error.exitCode = 1 ↔ ∀ problem, error ≠ .conversion problem) := by
  have hexit : (error.exitCode = 2 ∧ ∃ problem, error = .conversion problem) ∨
      (error.exitCode = 1 ∧ ∀ problem, error ≠ .conversion problem) := by
    cases error with
    | conversion problem => exact Or.inl ⟨rfl, problem, rfl⟩
    | _ => exact Or.inr ⟨rfl, fun _ h => by cases h⟩
  have hhalves : (error.isOutput = false ∧ after = before) ∨
      (error.isOutput = true ∧ ∃ path code,
        (prepare host arguments).run.run before = (.ok (some path, code), before) ∧
          (writeOutput host path code).run.run before = (.error error, after)) := by
    rw [run_eq_prepare_deliver, run_bind] at h
    generalize hprepare : (prepare host arguments).run.run before = first at h
    obtain ⟨result, middle⟩ := first
    obtain ⟨rfl, herror⟩ := reads_prepare hreads arguments before result middle hprepare
    cases result with
    | error problem =>
      -- The run ends with its first half.
      obtain ⟨hproblem, rfl⟩ := Prod.mk.inj h
      obtain rfl := Except.error.inj hproblem
      exact Or.inl ⟨herror problem rfl, rfl⟩
    | ok prepared =>
      obtain ⟨output, code⟩ := prepared
      obtain ⟨houtput, hwrite⟩ := isOutput_of_deliver h
      obtain ⟨path, rfl⟩ := Option.isSome_iff_exists.mp houtput
      exact Or.inr ⟨hwrite, path, code, rfl, h⟩
  refine ⟨?_, ?_, ?_, ?_⟩
  · intro hnot
    rcases hhalves with ⟨-, hsame⟩ | ⟨hwrite, -⟩
    · exact hsame
    · rw [hnot] at hwrite
      cases hwrite
  · rcases hhalves with ⟨hnot, -⟩ | ⟨hwrite, hcame⟩
    · refine iff_of_false (by simp [hnot]) ?_
      rintro ⟨path, code, -, hwrite⟩
      have hdeliver : (deliver host (some path) code).run.run before = (.error error, after) :=
        hwrite
      rw [(isOutput_of_deliver hdeliver).2] at hnot
      cases hnot
    · exact iff_of_true hwrite hcame
  · rcases hexit with ⟨hcode, hconversion⟩ | ⟨hcode, hother⟩
    · exact iff_of_true hcode hconversion
    · refine iff_of_false (by simp [hcode]) ?_
      rintro ⟨problem, hproblem⟩
      exact hother problem hproblem
  · rcases hexit with ⟨hcode, problem, hproblem⟩ | ⟨hcode, hother⟩
    · exact iff_of_false (by simp [hcode]) fun hother => hother problem hproblem
    · exact iff_of_true hcode hother

end

/-! ### A run on a tree of files -/

/-- Reading a tree of files changes nothing. -/
theorem treeHost_readsOnly : treeHost.ReadsOnly where
  read _ _ := rfl
  fetch _ _ := rfl

/-- A document of the older version whose paths are no object. -/
def pathlessText : String := "\x7b\"swagger\":\"2.0\",\"paths\":[]\x7d"

/-- The tree that holds the document and nothing else. -/
def pathlessTree : FileTree where
  files := [(["a.json"], pathlessText)]

/-- A run on the document, its code meant for a file in a directory that is still to be created. -/
def pathlessRun : Arguments where
  spec := "a.json"
  output := some "out/client.ts"

/-- A path that is a single name. -/
theorem segments_pathless : Source.Path.segments "a.json" = ["a.json"] := by
  -- `splitOnAux` goes by well-founded recursion, so it is unfolded step by step.
  show String.splitOnAux "a.json" "/" 0 0 0 [] = _
  repeat rw [String.splitOnAux, if_neg (by decide), if_neg (by decide)]
  rw [String.splitOnAux, if_pos (by decide)]
  decide

/-- The name of the document tells its format. -/
theorem formatOf_pathless : formatOf (.file "a.json") = .ok .json := by
  have hname : Source.Path.fileName? "a.json" = some "a.json" := by
    unfold Source.Path.fileName?
    rw [segments_pathless]
    decide
  have hextension : Source.Path.extension? "a.json" = some "json" := by decide
  have hjson : SpecFormat.ofExtension? "json" = some .json := by decide +kernel
  simp only [formatOf, SpecSource.format?, SpecSource.extension?, hname, hextension, hjson,
    Option.bind_some]

/-- The text of the document is found in the tree. -/
theorem read_pathless : pathlessTree.read "a.json" = .ok pathlessText := by
  have hsteps : FileTree.stepsOf "a.json" = (["a.json"], false) := by
    unfold FileTree.stepsOf
    rw [segments_pathless]
    decide
  have hlocate : pathlessTree.locate "a.json" = .ok ([], some "a.json") := by
    unfold FileTree.locate
    rw [hsteps]
    rfl
  unfold FileTree.read
  rw [hlocate, hsteps]
  rfl

/-- The document is loaded from the tree. -/
theorem load_pathless : (load treeHost (.file "a.json")).run.run ⟨pathlessTree, ""⟩ =
    (.ok (.obj [("swagger", .str "2.0"), ("paths", .arr [])]), ⟨pathlessTree, ""⟩) := by
  have hread : (readSource treeHost (.file "a.json")).run.run ⟨pathlessTree, ""⟩ =
      (.ok pathlessText, ⟨pathlessTree, ""⟩) := by
    show ((pathlessTree.read "a.json").mapError _, _) = _
    rw [read_pathless]
    rfl
  have hparse : SpecFormat.parse? .json pathlessText =
      some (.obj [("swagger", .str "2.0"), ("paths", .arr [])]) := rfl
  rw [load, formatOf_pathless, run_bind]
  show (readSource treeHost (.file "a.json") >>= _).run.run _ = _
  rw [run_bind, hread]
  dsimp only [parseText]
  rw [hparse]
  rfl

/-- The document cannot be converted. -/
theorem run_pathless : (run treeHost pathlessRun).run.run ⟨pathlessTree, ""⟩ =
    (.error (.conversion .pathsNotObject), ⟨pathlessTree, ""⟩) := by
  have hsource : SpecSource.ofText "a.json" = .file "a.json" := by decide +kernel
  rw [run, run_bind]
  show (load treeHost (SpecSource.ofText "a.json") >>= _).run.run _ = _
  rw [hsource, run_bind, load_pathless]
  dsimp only
  rw [run_bind]
  rfl

/-- The run leaves no directory for its code behind, and its exit code is 2. -/
theorem pathless_run_leaves_tree : ∃ error after,
    (run treeHost pathlessRun).run.run ⟨pathlessTree, ""⟩ = (.error error, after) ∧
      error.isOutput = false ∧ after = ⟨pathlessTree, ""⟩ ∧ error.exitCode = 2 := by
  obtain ⟨hsame, -, hconversion, -⟩ :=
    failed_run_leaves_surroundings treeHost_readsOnly run_pathless
  exact ⟨_, _, run_pathless, rfl, hsame rfl, hconversion.mpr ⟨_, rfl⟩⟩

end Command
end TypedClient
