import Ramlify.Proofs.CommandLine.Failures

/-!
# Ramlify — the command line and the converter agree

The command line gets a source, finds out its format and converts it in its own way, and then leaves
the result. What it leaves is what a new converter gives that reads the same source. It leaves
nothing else, and nothing at all if it fails.

* **`parse_conversionArguments`** — what is asked for by the arguments.
* **`converted_eq`** — both ways to convert a source, as one sequence of steps.
* **`save_ok`** — what is in the files after a result was left.
-/

namespace Ramlify.CommandLine

/-! ## Arguments

The arguments are read by a grammar that goes through them from the left. What they ask for is
worked out once, by its two steps: an option with a value, and an argument that is none. -/

/-- The arguments for a conversion from one format to another. A result that gets no name is
printed. -/
def conversionArguments (source format target : String) (output : Option String) : List String :=
  "convert" :: source :: "--from" :: format :: "--to" :: target ::
    match output with
    | none => []
    | some name => ["-o", name]

def conversionFor (source format target : String) (output : Option String) : Conversion :=
  { source, sourceFormat := format, targetFormat := target, output, verbose := false }

/-- An option that takes a value takes the next argument, whatever it looks like. -/
theorem parseFrom_valued {grammar : Grammar} {argument : String} {option : Switch}
    (hdashes : argument ≠ "--") (hoption : isOption argument = true)
    (hswitch : grammar.switches argument = some { pending := some option }) (parsed : Parsed)
    (value : String) (rest : List String) :
    grammar.parseFrom parsed (argument :: value :: rest)
      = grammar.parseFrom (parsed.addOptions [(option, value)]) rest := by
  rw [Grammar.parseFrom, if_neg hdashes, if_pos hoption]
  simp only [hswitch, List.nil_append]

/-- An argument that does not begin with a dash is no option. -/
theorem parseFrom_positional {grammar : Grammar} {argument : String}
    (h : argument.toList.head? ≠ some '-') (parsed : Parsed) (rest : List String) :
    grammar.parseFrom parsed (argument :: rest)
      = grammar.parseFrom (parsed.addPositional [argument]) rest := by
  have hdashes : argument ≠ "--" := by
    rintro rfl
    exact h rfl
  have hoption : ¬ isOption argument = true := by
    unfold isOption
    split
    · next heq => exact absurd (by rw [heq]; rfl) h
    · exact nofun
  rw [Grammar.parseFrom, if_neg hdashes, if_neg hoption]

/-- A word that is one of the choices is chosen. -/
theorem choice_of_mem {choices : List String} {word : String} (h : word ∈ choices)
    (default : String) : choice choices default (some word) = some word :=
  if_pos h

/-- **What is asked for** by the arguments. -/
theorem parse_conversionArguments {source format target : String}
    (hsource : source.toList.head? ≠ some '-') (hformat : format ∈ autoFormat :: Format.sources)
    (htarget : target ∈ Format.targets) (output : Option String) :
    parse (conversionArguments source format target output)
      = some (.convert (conversionFor source format target output)) := by
  -- What the grammar collects: two options, the name of the result if there is one, and the source.
  let parsed : Parsed :=
    { options := [(.sourceFormat, format), (.targetFormat, target)]
        ++ output.toList.map fun name => (.output, name)
      positional := [source] }
  have hparsed : conversionGrammar.parse (conversionArguments source format target output).tail
      = some parsed := by
    show conversionGrammar.parseFrom _ (source :: "--from" :: format :: "--to" :: target :: _) = _
    rw [parseFrom_positional hsource, parseFrom_valued (by decide) rfl rfl,
      parseFrom_valued (by decide) rfl rfl]
    cases output with
    | none => rfl
    | some name =>
      rw [parseFrom_valued (by decide) rfl rfl]
      rfl
  -- None of the other options is among them.
  have hhelp : parsed.has .help = false := by cases output <;> rfl
  have hfrom : parsed.value? .sourceFormat = some format := by cases output <;> rfl
  have hto : parsed.value? .targetFormat = some target := by cases output <;> rfl
  have houtput : parsed.value? .output = output := by cases output <;> rfl
  have hverbose : parsed.has .verbose = false := by cases output <;> rfl
  show conversionOf (conversionArguments source format target output).tail = _
  simp only [conversionOf, hparsed, bind, Option.bind, hhelp, Bool.false_eq_true, if_false, hfrom,
    hto, choice_of_mem hformat, choice_of_mem htarget, houtput, hverbose]
  rfl

/-! ## Two ways to convert a source

The command line finds out the format first and then has a converter for it read the text. A
converter that is made for the format reads the source itself. Both come down to `convertText`. -/

/-- What a new converter from Postman gives that reads a source and then converts it. -/
def converted (world : World) (target source : String) : Outcome String := do
  let converter ← Converter.between "postman" target
  let (converter, loaded) := converter.loadSource world source
  let _ ← loaded
  (converter.convert world none none).2

/-- A format to ask for that makes a source be taken for a collection of Postman. -/
def TakesPostman (world : World) (source format : String) : Prop :=
  format = "postman"
    ∨ format = autoFormat
      ∧ ∃ text, world.acquire source = .ok text ∧ Detected.ofText text = .ok .postman

theorem TakesPostman.mem {world : World} {source format : String}
    (h : TakesPostman world source format) : format ∈ autoFormat :: Format.sources := by
  rcases h with rfl | ⟨rfl, _⟩
  · decide
  · decide

/-- The format that is asked for or found out is that of Postman. -/
theorem TakesPostman.formatOf {world : World} {source format text : String}
    (h : TakesPostman world source format) (htext : world.acquire source = .ok text) :
    formatOf format text = .ok "postman" := by
  rcases h with rfl | ⟨rfl, found, hfound, hdetected⟩
  · rfl
  · rw [htext] at hfound
    cases hfound
    rw [CommandLine.formatOf, if_neg (by simp), hdetected]
    rfl

/-- There is a converter for each format that is written. -/
theorem exists_between {target : String} (h : target ∈ Format.targets) :
    ∃ converter, Converter.between "postman" target = .ok converter
      ∧ converter.target = target := by
  have htargets : Format.targets = ["raml08", "raml10"] := rfl
  rw [htargets, List.mem_cons, List.mem_singleton] at h
  rcases h with rfl | rfl
  · exact ⟨_, rfl, rfl⟩
  · exact ⟨_, rfl, rfl⟩

/-- **Reading and converting** is the same for a converter as for the command line. -/
theorem converted_eq (world : World) {target : String} (h : target ∈ Format.targets)
    (source : String) :
    converted world target source = world.acquire source >>= convertText "postman" target := by
  obtain ⟨converter, hconverter, rfl⟩ := exists_between h
  unfold converted
  rw [hconverter]
  cases htext : world.acquire source with
  | error failure =>
    show ((converter.loadSource world source).2 >>= _) = _
    rw [Converter.loadSource, htext]
    rfl
  | ok text =>
    show ((converter.loadSource world source).2 >>= _) = convertText _ _ text
    unfold convertText
    rw [hconverter, Converter.loadSource, htext]
    rfl

/-- What the converter gives is left; what fails for the converter fails the command. -/
theorem convert_cases {world : World} {source format target : String}
    (htarget : target ∈ Format.targets) (hformat : TakesPostman world source format)
    {output : Option String} {path : Option Path}
    (hname : outputPath (conversionFor source format target output) = .ok path) :
    (∃ text logged, converted world target source = .ok text
      ∧ convert world (conversionFor source format target output)
        = leave world.files logged path text)
    ∨ (∃ failure, converted world target source = .error failure)
      ∧ (convert world (conversionFor source format target output)).exitCode = 1 := by
  rw [converted_eq world htarget source]
  -- Both ways begin with reading the source, and fail alike if that fails.
  cases htext : world.acquire source with
  | error failure =>
    have hfails : FailsAt world (conversionFor source format target output) .reading failure :=
      .reading hname htext
    exact .inr ⟨⟨failure, rfl⟩, exitCode_of_failsAt hfails⟩
  | ok text =>
    have hknows : Knows world (conversionFor source format target output) text "postman" :=
      ⟨⟨path, hname⟩, htext, hformat.formatOf htext⟩
    obtain ⟨found, hfound, hconvert⟩ := convert_of_knows hknows
    rw [hname] at hfound
    cases hfound
    rw [hconvert]
    show (∃ result logged, convertText "postman" target text = .ok result ∧ _)
      ∨ (∃ failure, convertText "postman" target text = .error failure) ∧ _
    simp only [conversionFor]
    cases convertText "postman" target text with
    | error failure => exact .inr ⟨⟨failure, rfl⟩, exitCode_failed _ _ _⟩
    | ok result => exact .inl ⟨result, _, rfl, rfl⟩

/-- A name for the result is taken as it is given. -/
theorem eq_of_outputPath {source format target name : String} {path : Option Path}
    (h : outputPath (conversionFor source format target (some name)) = .ok path) :
    path = some (Path.parse name) := by
  simp only [outputPath, conversionFor] at h
  split at h
  · cases h
  · cases h
    rfl

/-! ## Leaving the result

A result with a name is saved under it. If saving fails, files that were made on the way could be
left; so what is in the files is shown from the cases of saving. -/

/-- A command that leaves its result and ends well has saved it. -/
theorem exists_save_of_leave {files : Files} {logged result : String} {path : Path}
    (h : (leave files logged (some path) result).exitCode = 0) :
    ∃ after, save files path result = (after, .ok ())
      ∧ (leave files logged (some path) result).files = after := by
  rw [leave] at h ⊢
  cases hsave : save files path result with
  | mk after outcome =>
    rw [hsave] at h
    cases outcome with
    | ok _ => exact ⟨after, rfl, rfl⟩
    | error failure => exact absurd h Nat.one_ne_zero

/-- **What was left** is found under its name, and all other files hold what they held. -/
theorem save_ok {files after : Files} {path : Path} {result : String}
    (h : save files path result = (after, .ok ())) :
    after.find path = .ok (.file (Location.ofPath path) result)
      ∧ ∀ place ≠ Location.ofPath path,
        Entries.get? after.contents place = Entries.get? files.contents place := by
  have hcontents := Files.ensureFolder_contents files path.parent
  unfold save at h
  split at h
  · next made hmade =>
    rw [hmade] at hcontents
    obtain ⟨rfl, hfind⟩ := Files.find_of_write h
    refine ⟨hfind, fun place hplace => ?_⟩
    rw [← hcontents]
    exact Entries.get?_put_of_ne _ _ hplace.symm
  · cases h

/-- A command that fails leaves nothing in the files. -/
theorem contents_of_exitCode {world : World} {arguments : List String}
    (h : (run world arguments).exitCode ≠ 0) :
    (run world arguments).files.contents = world.files.contents := by
  unfold run at h ⊢
  cases hparse : parse arguments with
  | none => rfl
  | some command =>
    rw [hparse] at h
    cases command with
    | formats => rfl
    | help => rfl
    | convert c =>
      -- At whatever stage the conversion fails, that stage leaves what the files hold.
      obtain ⟨stage, failure, hfails⟩ := exists_failsAt h
      obtain ⟨files, logged, hcontents, hconvert⟩ := convert_of_failsAt hfails
      show (convert world c).files.contents = _
      rw [hconvert, ← hcontents]
      split
      · rfl
      · unfold Run.failed
        split <;> rfl

/-! ## Agreement

The cases of `convert_cases` are gone through once without a name for the result and once with one.
-/

/-- **The command line and the converter agree.** For a source that is no option, a format that is
written, and a source taken for a collection of Postman, because that is asked for or because it is
found out:

* without a name for the result the command ends well exactly if the converter gives a text, and
  then it prints that text and a line end;
* with a name, if the command ends well, the converter gives a text, the name leads to a file with
  that text, and all other files hold what they held;
* a command that does not end well leaves all files as they were. -/
theorem agrees_with_converter {world : World} {source format target : String}
    (hsource : source.toList.head? ≠ some '-') (htarget : target ∈ Format.targets)
    (hformat : TakesPostman world source format) :
    ((run world (conversionArguments source format target none)).exitCode = 0
      ↔ ∃ text, converted world target source = .ok text)
    ∧ (∀ text, converted world target source = .ok text →
      (run world (conversionArguments source format target none)).printed = text ++ "\n"
        ∧ (run world (conversionArguments source format target none)).files = world.files)
    ∧ (∀ name,
      (run world (conversionArguments source format target (some name))).exitCode = 0 →
      ∃ text, converted world target source = .ok text
        ∧ (run world (conversionArguments source format target (some name))).files.find
            (Path.parse name) = .ok (.file (Location.ofPath (Path.parse name)) text)
        ∧ ∀ place ≠ Location.ofPath (Path.parse name),
          Entries.get? (run world (conversionArguments source format target
            (some name))).files.contents place = Entries.get? world.files.contents place)
    ∧ ∀ arguments, (run world arguments).exitCode ≠ 0 →
      (run world arguments).files.contents = world.files.contents := by
  -- Whatever becomes of the result, the arguments ask for the same conversion.
  have hrun : ∀ output, run world (conversionArguments source format target output)
      = convert world (conversionFor source format target output) := by
    intro output
    rw [run, parse_conversionArguments hsource hformat.mem htarget output]
    rfl
  have hprinting := convert_cases htarget hformat
    (show outputPath (conversionFor source format target none) = .ok none from rfl)
  refine ⟨?_, fun text htext => ?_, fun name hwell => ?_, fun _ => contents_of_exitCode⟩
  · rw [hrun]
    rcases hprinting with ⟨text, logged, htext, hconvert⟩ | ⟨⟨failure, hfails⟩, hexit⟩
    · rw [hconvert]
      exact iff_of_true rfl ⟨text, htext⟩
    · rw [hexit, hfails]
      constructor
      · intro h
        exact absurd h Nat.one_ne_zero
      · rintro ⟨text, htext⟩
        cases htext
  · rw [hrun]
    rcases hprinting with ⟨found, logged, hfound, hconvert⟩ | ⟨⟨failure, hfails⟩, _⟩
    · rw [htext] at hfound
      cases hfound
      rw [hconvert]
      exact ⟨rfl, rfl⟩
    · rw [htext] at hfails
      cases hfails
  · rw [hrun] at hwell ⊢
    cases hname : outputPath (conversionFor source format target (some name)) with
    | error failure =>
      -- A name that is none ends the command before anything else.
      rw [exitCode_of_failsAt (.naming hname)] at hwell
      cases hwell
    | ok path =>
      have hpath : path = some (Path.parse name) := eq_of_outputPath hname
      subst hpath
      rcases convert_cases htarget hformat hname with
        ⟨text, logged, htext, hconvert⟩ | ⟨_, hexit⟩
      · rw [hconvert] at hwell ⊢
        obtain ⟨after, hsave, hafter⟩ := exists_save_of_leave hwell
        rw [hafter]
        exact ⟨text, htext, save_ok hsave⟩
      · rw [hexit] at hwell
        cases hwell

def petDocument : String := "#%RAML 1.0\ntitle: Pets\n"

/-- A source whose format is found out, once with its result printed and once with it left in a
folder that has to be made. -/
theorem agrees_with_converter_pets :
    TakesPostman petWorld "pets.json" autoFormat
      ∧ (run petWorld (conversionArguments "pets.json" autoFormat "raml10" none)).exitCode = 0
      ∧ (run petWorld (conversionArguments "pets.json" autoFormat "raml10" none)).printed
        = petDocument ++ "\n"
      ∧ (run petWorld (conversionArguments "pets.json" autoFormat "raml10"
          (some "out/pets.raml"))).files.find (Path.parse "out/pets.raml")
        = .ok (.file (Location.ofPath (Path.parse "out/pets.raml")) petDocument) := by
  -- Everything up to the text that is converted is worked out, and the theorem does the rest.
  have hread : petWorld.acquire "pets.json" = .ok petText :=
    Outcome.eq_ok_of_toOption (by decide +kernel)
  have hdetected : Detected.ofText petText = .ok .postman :=
    Outcome.eq_ok_of_toOption (by decide +kernel)
  have hconverted : converted petWorld "raml10" "pets.json" = .ok petDocument :=
    Outcome.eq_ok_of_toOption (by decide +kernel)
  have hformat : TakesPostman petWorld "pets.json" autoFormat :=
    .inr ⟨rfl, petText, hread, hdetected⟩
  have hsaved : (run petWorld (conversionArguments "pets.json" autoFormat "raml10"
      (some "out/pets.raml"))).exitCode = 0 := by decide +kernel
  obtain ⟨hexit, hprinted, hleft, _⟩ :=
    agrees_with_converter (by decide) (show "raml10" ∈ Format.targets by decide) hformat
  obtain ⟨text, htext, hfind, _⟩ := hleft "out/pets.raml" hsaved
  rw [hconverted] at htext
  cases htext
  exact ⟨hformat, hexit.mpr ⟨petDocument, hconverted⟩, (hprinted petDocument hconverted).1, hfind⟩

end Ramlify.CommandLine
