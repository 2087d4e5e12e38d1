import Ramlify.CommandLine
import Ramlify.Proofs.Outcome
import Ramlify.Proofs.World.Writing

/-!
# Ramlify — which failures are reported

A conversion goes through stages, and it fails in the first one that does not give it what the next
one needs. Whether its user is told of the failure depends on the stage: leaving the result is no
part of what is watched.

* **`convert_of_failsAt`** — how a conversion ends that fails at a stage.
* **`exists_failsAt`** — a conversion that does not end well fails at some stage.
* **`save_iff`** — when a result can be left in a file.
-/

namespace Ramlify.CommandLine

/-! ## Stages

The stages are those of `convert`, with the conversion itself as two of them: a project is made of
the text, and a document of the project. `FailsAt` says of each stage that all stages before it gave
what it needs. -/

/-- The project that a text of a format gives, with the exporter that is to write it. -/
def imported (source target text : String) : Outcome (Raml.Exporter × Project) := do
  let converter ← Converter.between source target
  let (converter, loaded) := converter.loadText (.str text)
  let _ ← loaded
  return (converter.exporter, ← converter.importer.project)

def exported (target : String) (read : Raml.Exporter × Project) : Outcome String :=
  ((read.1.load read.2).write (Format.usualForm target)).2

/-- The stages of a conversion, in their order. -/
inductive Stage where
  | naming
  | reading
  | detecting
  | importing
  | exporting
  | making
  | writing
  deriving DecidableEq

/-- Whether a stage leaves the result. -/
def Stage.isLeaving : Stage → Bool
  | making => true
  | writing => true
  | _ => false

/-- A conversion that has a text and knows its format. -/
structure Knows (world : World) (c : Conversion) (text format : String) : Prop where
  named : ∃ path, outputPath c = .ok path
  read : world.acquire c.source = .ok text
  format : formatOf c.sourceFormat text = .ok format

/-- A conversion that has a result, and the name of the file in which to leave it. -/
structure Leaves (world : World) (c : Conversion) (path : Path) (result : String) : Prop where
  named : outputPath c = .ok (some path)
  converted : ∃ text format, Knows world c text format
    ∧ convertText format c.targetFormat text = .ok result

/-- A conversion that comes to a stage and fails there. -/
inductive FailsAt (world : World) (c : Conversion) : Stage → Failure → Prop where
  | naming {failure : Failure}
      (h : outputPath c = .error failure) : FailsAt world c .naming failure
  | reading {path : Option Path} {failure : Failure}
      (hname : outputPath c = .ok path)
      (h : world.acquire c.source = .error failure) : FailsAt world c .reading failure
  | detecting {path : Option Path} {text : String} {failure : Failure}
      (hname : outputPath c = .ok path)
      (hread : world.acquire c.source = .ok text)
      (h : formatOf c.sourceFormat text = .error failure) : FailsAt world c .detecting failure
  | importing {text format : String} {failure : Failure}
      (hknows : Knows world c text format)
      (h : imported format c.targetFormat text = .error failure) :
      FailsAt world c .importing failure
  | exporting {text format : String} {read : Raml.Exporter × Project} {failure : Failure}
      (hknows : Knows world c text format)
      (hread : imported format c.targetFormat text = .ok read)
      (h : exported c.targetFormat read = .error failure) : FailsAt world c .exporting failure
  | making {path : Path} {result : String} {failure : Failure}
      (hleaves : Leaves world c path result)
      (h : (world.files.ensureFolder path.parent).2 = .error failure) :
      FailsAt world c .making failure
  | writing {path : Path} {result : String} {made : Files} {failure : Failure}
      (hleaves : Leaves world c path result)
      (hmade : world.files.ensureFolder path.parent = (made, .ok ()))
      (h : (made.write path result).2 = .error failure) : FailsAt world c .writing failure

/-- A text is converted by importing it and then exporting what was imported. -/
theorem convertText_eq (source target text : String) :
    convertText source target text = imported source target text >>= exported target := by
  unfold convertText imported
  -- The two ways differ only in where the converter is put together again.
  cases Converter.between source target with
  | error failure => rfl
  | ok converter =>
    simp only [Outcome.ok_bind]
    generalize converter.loadText (.str text) = loaded
    obtain ⟨loaded, failure | _⟩ := loaded
    · rfl
    · simp only [Converter.pass]
      cases loaded.importer.project <;> rfl

/-! ## How a conversion ends

A failure either comes up where it is caught and told, or where it is not. Which of the two is
decided by the stage for a failure of the conversion, and by its kind for what the conversion
reports. -/

/-- A run that told of a failure. -/
structure Reports (run : Run) (failure : Failure) : Prop where
  exitCode : run.exitCode = 1
  caught : run.failure = none
  printed : run.printed = ""
  logged : ∃ before, run.logged = before ++ "Error: " ++ failure.message ++ "\n"

/-- A run that a failure ended before it could tell of it. -/
structure Breaks (run : Run) (failure : Failure) : Prop where
  exitCode : run.exitCode = 1
  escaped : run.failure = some failure

/-- A failure that is caught and that has words is told in these words. -/
theorem failed_reports (files : Files) (logged : String) {failure : Failure}
    (h : failure.isReported = true) : Reports (Run.failed files logged failure) failure := by
  rw [Run.failed, if_pos h]
  exact ⟨rfl, rfl, rfl, logged, rfl⟩

/-- A failure that is caught ends the run with code 1, told or not. -/
theorem exitCode_failed (files : Files) (logged : String) (failure : Failure) :
    (Run.failed files logged failure).exitCode = 1 := by
  unfold Run.failed
  split <;> rfl

/-- A failure that is not caught ends the run as it is. -/
theorem broken_breaks (files : Files) (logged : String) (failure : Failure) :
    Breaks (Run.broken files logged failure) failure :=
  ⟨rfl, rfl⟩

/-- What is left to do once the text and its format are known. -/
theorem convert_of_knows {world : World} {c : Conversion} {text format : String}
    (h : Knows world c text format) : ∃ path, outputPath c = .ok path
      ∧ convert world c = match convertText format c.targetFormat text with
        | .error failure => Run.failed world.files (startLine c format) failure
        | .ok result => leave world.files (startLine c format) path result := by
  obtain ⟨⟨path, hname⟩, hread, hformat⟩ := h
  refine ⟨path, hname, ?_⟩
  cases hresult : convertText format c.targetFormat text with
  | error failure =>
    simp only [convert, hname, hread, hformat, hresult, Outcome.ok_bind, Outcome.pure_eq]
  | ok result =>
    simp only [convert, hname, hread, hformat, hresult, Outcome.ok_bind, Outcome.pure_eq]

/-- What is left to do once there is a result. -/
theorem convert_of_leaves {world : World} {c : Conversion} {path : Path} {result : String}
    (h : Leaves world c path result) :
    ∃ logged, convert world c = leave world.files logged (some path) result := by
  obtain ⟨hname, text, format, hknows, hresult⟩ := h
  obtain ⟨found, hfound, hconvert⟩ := convert_of_knows hknows
  rw [hname] at hfound
  cases hfound
  rw [hresult] at hconvert
  exact ⟨startLine c format, hconvert⟩

/-- How a conversion ends that fails: its user is told, but for failures that come before the source
is read or once there is a result. The files hold what they held before. -/
theorem convert_of_failsAt {world : World} {c : Conversion} {stage : Stage} {failure : Failure}
    (h : FailsAt world c stage failure) :
    ∃ files logged, files.contents = world.files.contents ∧ convert world c
      = if stage = .naming ∨ stage.isLeaving then Run.broken files logged failure
        else Run.failed files logged failure := by
  cases h with
  -- Before there is a result, each stage is a step of `convert` that stops it.
  | naming hname =>
    refine ⟨world.files, "", rfl, ?_⟩
    simp only [convert, hname]
    rfl
  | reading hname hread =>
    refine ⟨world.files, "", rfl, ?_⟩
    simp only [convert, hname, hread, Outcome.error_bind]
    rfl
  | detecting hname hread hformat =>
    refine ⟨world.files, "", rfl, ?_⟩
    simp only [convert, hname, hread, hformat, Outcome.ok_bind, Outcome.error_bind]
    rfl
  | @importing text format failure hknows hread =>
    obtain ⟨path, _, hconvert⟩ := convert_of_knows hknows
    refine ⟨world.files, startLine c format, rfl, ?_⟩
    rw [hconvert, convertText_eq, hread]
    rfl
  | @exporting text format read failure hknows hread hfails =>
    obtain ⟨path, _, hconvert⟩ := convert_of_knows hknows
    refine ⟨world.files, startLine c format, rfl, ?_⟩
    rw [hconvert, convertText_eq, hread]
    show (match exported c.targetFormat read with | .error failure => _ | .ok result => _) = _
    rw [hfails]
    rfl
  -- Folders may have been made by now, but these hold nothing.
  | @making path result failure hleaves hfails =>
    obtain ⟨logged, hconvert⟩ := convert_of_leaves hleaves
    have hcontents := Files.ensureFolder_contents world.files path.parent
    cases hmade : world.files.ensureFolder path.parent with
    | mk made outcome =>
      rw [hmade] at hfails hcontents
      cases hfails
      refine ⟨made, logged, hcontents, ?_⟩
      rw [hconvert, leave, save, hmade]
      rfl
  | @writing path result made failure hleaves hmade hfails =>
    obtain ⟨logged, hconvert⟩ := convert_of_leaves hleaves
    have hcontents := Files.ensureFolder_contents world.files path.parent
    rw [hmade] at hcontents
    have hwrite := Files.write_of_error hfails
    refine ⟨made, logged, hcontents, ?_⟩
    rw [hconvert, leave, save, hmade]
    simp only [hwrite]
    rfl

/-- A conversion that fails ends with code 1, whatever its stage. -/
theorem exitCode_of_failsAt {world : World} {c : Conversion} {stage : Stage} {failure : Failure}
    (h : FailsAt world c stage failure) : (convert world c).exitCode = 1 := by
  obtain ⟨files, logged, _, hconvert⟩ := convert_of_failsAt h
  rw [hconvert]
  split
  · rfl
  · exact exitCode_failed files logged failure

/-! ## Leaving the result

The last two stages are those of `save`: the folders are made, and then the file is written. When
both are possible is said by `Files.IsWritable`. -/

/-- A conversion has at most one result to leave, and one name for it. -/
theorem Leaves.unique {world : World} {c : Conversion} {path other : Path} {result text : String}
    (h : Leaves world c path result) (h' : Leaves world c other text) :
    path = other ∧ result = text := by
  obtain ⟨hname, source, format, hknows, hresult⟩ := h
  obtain ⟨hname', source', format', hknows', hresult'⟩ := h'
  have hsource : source = source' := Except.ok.inj (hknows.read.symm.trans hknows'.read)
  subst hsource
  have hformat : format = format' := Except.ok.inj (hknows.format.symm.trans hknows'.format)
  subst hformat
  refine ⟨?_, Except.ok.inj (hresult.symm.trans hresult')⟩
  rw [hname'] at hname
  cases hname
  rfl

/-- A result is not left if a folder cannot be made or the file cannot be written. -/
theorem failsAt_leaving_iff {world : World} {c : Conversion} {path : Path} {result : String}
    (h : Leaves world c path result) {failure : Failure} :
    FailsAt world c .making failure ∨ FailsAt world c .writing failure
      ↔ (save world.files path result).2 = .error failure := by
  constructor
  · -- Either stage is the one at which saving stops.
    rintro (hfails | hfails)
    · cases hfails with
      | making hleaves hmade =>
        obtain ⟨rfl, rfl⟩ := h.unique hleaves
        unfold save
        split
        · next made hok =>
          rw [hok] at hmade
          cases hmade
        · next made found hfound =>
          rw [hfound] at hmade
          exact hmade
    · cases hfails with
      | writing hleaves hmade hwrite =>
        obtain ⟨rfl, rfl⟩ := h.unique hleaves
        rw [save, hmade]
        exact hwrite
  · intro hsave
    unfold save at hsave
    split at hsave
    · next made hmade => exact .inr (.writing h hmade hsave)
    · next made found hmade => exact .inl (.making h (by rw [hmade]; exact hsave))

/-- **When a result can be left in a file.** -/
theorem save_iff {files : Files} {path : Path} (result : String) :
    (save files path result).2 = .ok () ↔ Files.IsWritable files path := by
  constructor
  · intro h
    unfold save at h
    split at h
    · next made hmade =>
      -- The folders that were made are those that had to be, and then writing decides.
      have hpassable := Files.ensureFolder_iff.mp (congrArg Prod.snd hmade)
      obtain ⟨after, hafter, hmakes⟩ := Files.ensureFolder_ok hpassable
      have hsame : after = made := congrArg Prod.fst (hafter.symm.trans hmade)
      subst hsame
      exact (Files.write_iff hpassable hmakes result).mp h
    · cases h
  · intro h
    obtain ⟨made, hmade, hmakes⟩ := Files.ensureFolder_ok h.isPassable
    rw [save, hmade]
    exact (Files.write_iff h.isPassable hmakes result).mpr h

/-- A name for the result that is accepted has meaning to the system. -/
theorem noZero_of_outputPath {c : Conversion} {path : Path} (h : outputPath c = .ok (some path)) :
    '\x00' ∉ path.text.toList := by
  unfold outputPath at h
  split at h
  · cases h
  · next name _ =>
    by_cases hzero : name.toList.contains '\x00' = true
    · rw [if_pos hzero] at h
      cases h
    · rw [if_neg hzero] at h
      cases h
      exact Path.noZero_parse fun hmem => hzero (List.contains_iff_mem.mpr hmem)

/-- A name that the system cannot take is a misuse. -/
theorem isReported_of_naming {world : World} {c : Conversion} {failure : Failure}
    (h : FailsAt world c .naming failure) : failure.isReported = false := by
  cases h with
  | naming hname =>
    unfold outputPath at hname
    split at hname
    · cases hname
    · split at hname
      · cases hname
        rfl
      · cases hname

/-- A result is not left for a fault of a file name only. -/
theorem isFault_of_leaving {world : World} {c : Conversion} {stage : Stage} {failure : Failure}
    (h : FailsAt world c stage failure) (hstage : stage.isLeaving = true) :
    Files.IsFault failure := by
  cases h with
  | @making path result failure hleaves hfails =>
    have hzero := noZero_of_outputPath hleaves.named
    have hparent : '\x00' ∉ path.parent.text.toList := by
      rcases List.eq_nil_or_concat path.parts with hparts | ⟨init, name, hparts⟩
      · rwa [Path.parent, hparts, List.dropLast_nil, ← hparts]
      · rw [Path.parent, hparts, List.concat_eq_append, List.dropLast_concat]
        apply Path.noZero_concat
        rwa [← List.concat_eq_append, ← hparts]
    exact Files.isFault_of_ensureParts hparent hfails
  | @writing path result made failure hleaves hmade hfails =>
    exact Files.isFault_of_write (noZero_of_outputPath hleaves.named) hfails
  | naming | reading | detecting | importing | exporting => cases hstage

/-- **A conversion that does not end well fails at some stage.** The stages are gone through in
their order; the first one without a result is the stage. -/
theorem exists_failsAt {world : World} {c : Conversion} (h : (convert world c).exitCode ≠ 0) :
    ∃ stage failure, FailsAt world c stage failure := by
  cases hname : outputPath c with
  | error failure => exact ⟨_, _, .naming hname⟩
  | ok path =>
    cases hread : world.acquire c.source with
    | error failure => exact ⟨_, _, .reading hname hread⟩
    | ok text =>
      cases hformat : formatOf c.sourceFormat text with
      | error failure => exact ⟨_, _, .detecting hname hread hformat⟩
      | ok format =>
        have hknows : Knows world c text format := ⟨⟨path, hname⟩, hread, hformat⟩
        cases himport : imported format c.targetFormat text with
        | error failure => exact ⟨_, _, .importing hknows himport⟩
        | ok read =>
          cases hexport : exported c.targetFormat read with
          | error failure => exact ⟨_, _, .exporting hknows himport hexport⟩
          | ok result =>
            have hresult : convertText format c.targetFormat text = .ok result := by
              rw [convertText_eq, himport]
              exact hexport
            -- There is a result, so that only leaving it can have failed.
            obtain ⟨path, hname, hconvert⟩ := convert_of_knows hknows
            rw [hconvert, hresult] at h
            cases path with
            | none => exact absurd rfl h
            | some path =>
              have hleaves : Leaves world c path result := ⟨hname, text, format, hknows, hresult⟩
              cases hsave : save world.files path result with
              | mk after outcome =>
                cases outcome with
                | error failure =>
                  have hfails := (failsAt_leaving_iff hleaves).mpr (congrArg Prod.snd hsave)
                  exact hfails.elim (fun h => ⟨_, _, h⟩) fun h => ⟨_, _, h⟩
                | ok _ =>
                  simp only [leave, hsave] at h
                  exact absurd rfl h

/-! ## What is reported

The claim about all stages is put together from what was shown of each. -/

/-- **All failures but those of leaving the result are reported.** For every conversion that the
arguments ask for, in any world:

* a failure of the conversion, of a file or of a page is reported at every stage before the result
  is left;
* at the stages that leave the result a failure is one of a file, and ends the run before it is
  reported;
* there is such a failure exactly if nothing can be written under the name for the result;
* the run ends well exactly if no stage fails. -/
theorem failures_reported {arguments : List String} {c : Conversion}
    (h : parse arguments = some (.convert c)) (world : World) :
    (∀ stage failure, FailsAt world c stage failure → failure.isReported = true →
      stage.isLeaving = false → Reports (run world arguments) failure)
    ∧ (∀ stage failure, FailsAt world c stage failure → stage.isLeaving = true →
      failure.isReported = true ∧ Breaks (run world arguments) failure)
    ∧ (∀ path result, Leaves world c path result →
      ((∃ stage failure, FailsAt world c stage failure ∧ stage.isLeaving = true)
        ↔ ¬ Files.IsWritable world.files path))
    ∧ ((run world arguments).exitCode = 0 ↔ ∀ stage failure, ¬ FailsAt world c stage failure) := by
  have hrun : run world arguments = convert world c := by
    simp only [run, h, execute]
  rw [hrun]
  refine ⟨fun stage failure hfails hreported hstage => ?_,
    fun stage failure hfails hstage => ?_, fun path result hleaves => ?_, ?_, ?_⟩
  · -- A stage before there is a result: the failure is caught there, and has words.
    obtain ⟨files, logged, _, hconvert⟩ := convert_of_failsAt hfails
    have hnaming : stage ≠ .naming := by
      rintro rfl
      rw [isReported_of_naming hfails] at hreported
      cases hreported
    rw [hconvert, if_neg (by simp [hnaming, hstage])]
    exact failed_reports files logged hreported
  · obtain ⟨files, logged, _, hconvert⟩ := convert_of_failsAt hfails
    obtain ⟨fault, name, rfl⟩ := isFault_of_leaving hfails hstage
    rw [hconvert, if_pos (.inr hstage)]
    exact ⟨rfl, broken_breaks files logged _⟩
  · -- Leaving the result fails exactly if saving it does.
    rw [← save_iff result]
    constructor
    · rintro ⟨stage, failure, hfails, hstage⟩ hsave
      have herror : (save world.files path result).2 = .error failure := by
        refine (failsAt_leaving_iff hleaves).mp ?_
        cases stage with
        | making => exact .inl hfails
        | writing => exact .inr hfails
        | naming | reading | detecting | importing | exporting => cases hstage
      rw [hsave] at herror
      cases herror
    · intro hsave
      cases herror : (save world.files path result).2 with
      | ok _ => exact absurd herror hsave
      | error failure =>
        obtain hfails | hfails := (failsAt_leaving_iff hleaves).mpr herror
        · exact ⟨_, failure, hfails, rfl⟩
        · exact ⟨_, failure, hfails, rfl⟩
  · intro hwell stage failure hfails
    rw [exitCode_of_failsAt hfails] at hwell
    cases hwell
  · intro hnone
    by_contra hexit
    obtain ⟨stage, failure, hfails⟩ := exists_failsAt hexit
    exact hnone stage failure hfails

def petText : String := "\x7b\"name\":\"Pets\",\"requests\":[]\x7d"

/-- A world of one file, which holds a collection without requests. -/
def petWorld : World := { files := { contents := [({ parts := ["pets.json"] }, petText)] } }

/-- A source that is not there is reported, also if there is a name for the result. -/
theorem failures_reported_missing :
    ∃ c, parse ["convert", "cats.json", "-o", "out/cats.raml"] = some (.convert c)
      ∧ Reports (run petWorld ["convert", "cats.json", "-o", "out/cats.raml"])
        (.file .missing "'cats.json'") := by
  let c : Conversion :=
    { source := "cats.json", sourceFormat := "auto", targetFormat := "raml10",
      output := some "out/cats.raml", verbose := false }
  have hparse : parse ["convert", "cats.json", "-o", "out/cats.raml"] = some (.convert c) := rfl
  have hshown : (Path.parse "cats.json").shown = "'cats.json'" := by decide +kernel
  have hpage : Url.isPage "cats.json" = .ok false :=
    Outcome.eq_ok_of_toOption (by decide +kernel)
  have hread : petWorld.acquire "cats.json" = .error (.file .missing "'cats.json'") := by
    rw [← hshown, World.acquire, hpage]
    rfl
  have hfails : FailsAt petWorld c .reading (.file .missing "'cats.json'") := .reading rfl hread
  exact ⟨c, hparse, (failures_reported hparse petWorld).1 _ _ hfails rfl rfl⟩

/-- The folder itself is no name for a result, and its user is not told. -/
theorem folder_not_reported :
    ∃ c, parse ["convert", "pets.json", "-o", "."] = some (.convert c)
      ∧ FailsAt petWorld c .writing (.file .isDirectory "'.'")
      ∧ (Failure.file .isDirectory "'.'").isReported = true
      ∧ ¬ Reports (run petWorld ["convert", "pets.json", "-o", "."])
        (.file .isDirectory "'.'") := by
  let c : Conversion :=
    { source := "pets.json", sourceFormat := "auto", targetFormat := "raml10",
      output := some ".", verbose := false }
  have hparse : parse ["convert", "pets.json", "-o", "."] = some (.convert c) := rfl
  have hknows : Knows petWorld c petText "postman" :=
    ⟨⟨some {}, rfl⟩, Outcome.eq_ok_of_toOption (by decide +kernel),
      Outcome.eq_ok_of_toOption (by decide +kernel)⟩
  have hresult : convertText "postman" "raml10" petText = .ok "#%RAML 1.0\ntitle: Pets\n" :=
    Outcome.eq_ok_of_toOption (by decide +kernel)
  have hleaves : Leaves petWorld c {} "#%RAML 1.0\ntitle: Pets\n" :=
    ⟨rfl, petText, "postman", hknows, hresult⟩
  have hmade : petWorld.files.ensureFolder (Path.parent {}) = (petWorld.files, .ok ()) := rfl
  -- An empty name is the folder that all names start from.
  have hfails : FailsAt petWorld c .writing (.file .isDirectory "'.'") := by
    refine .writing hleaves hmade ?_
    rw [← show Path.shown {} = "'.'" by decide +kernel]
    rfl
  refine ⟨c, hparse, hfails, rfl, fun hreports => ?_⟩
  obtain ⟨files, logged, _, hconvert⟩ := convert_of_failsAt hfails
  have hcaught := hreports.caught
  simp only [run, hparse, execute, hconvert] at hcaught
  cases hcaught

end Ramlify.CommandLine
