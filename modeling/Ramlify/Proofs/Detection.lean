import Ramlify.Proofs.CommandLine.Failures
import Ramlify.Proofs.Yaml.DocumentFaults

/-!
# Ramlify — when a format can be told

Detection tries a text as YAML and then as JSON, and looks at the members of what it reads. It takes
a text that neither of them can read for one of unknown format. But it is stopped by what YAML reads
as a value that cannot be, by a mapping that stands for itself, and by an `info` in which no name can
be looked up. Its failures are misuses, of which the command line tells nobody.

* **`exists_ofValue_iff`**, **`exists_ofText_iff`** — when there is an answer.
* **`eq_unknown_iff`** — when the answer is that the format is unknown.
* **`blamed_of_ofText`** — what a failure is blamed on.
* **`detection_answers`** — both, and how a run ends that has to detect a format.
-/

namespace Ramlify.Detected

/-! ## Values

Four names are looked up among the members of a value, three of them at the top and one in `info`.
Only the last can fail, and it is looked up last. -/

/-- The names of which each tells a format by itself. -/
def tellingNames : List String := ["openapi", "swagger", "requests"]

/-- What is looked into as `info`, also where there is none. -/
def infoOf (m : Members) : Value := (Entries.get? m "info").getD (.obj [])

/-- A value that detection can look into. It asks for `info` only if none of the other names tells
the format. -/
def Inspectable : Value → Prop
  | .obj m => (∃ name ∈ tellingNames, Entries.has m name = true)
      ∨ ∀ info, Entries.get? m "info" = some info → info.kind ∈ [.list, .obj, .str]
  | _ => True

/-- A value that tells a format. -/
def Tells : Value → Prop
  | .obj m => (∃ name ∈ tellingNames, Entries.has m name = true)
      ∨ (infoOf m).holds "_postman_id" = .ok true
  | _ => False

variable {m : Members}

/-- What `info` stands for if it is missing can be looked into. -/
theorem exists_holds_infoOf_iff : (∃ isHeld, (infoOf m).holds "_postman_id" = .ok isHeld)
    ↔ ∀ info, Entries.get? m "info" = some info → info.kind ∈ [.list, .obj, .str] := by
  rw [Value.exists_holds_iff, infoOf]
  cases Entries.get? m "info" with
  | none => exact iff_of_true (by decide) nofun
  | some info =>
    constructor
    · rintro h _ ⟨⟩
      exact h
    · exact fun h => h info rfl

/-- A name that tells a format does so whatever else there is. -/
theorem ofMembers_of_has {name : String} (hname : name ∈ tellingNames)
    (h : Entries.has m name = true) : ∃ found, ofMembers m = .ok found ∧ found ≠ unknown := by
  unfold ofMembers
  split
  · exact ⟨swagger, rfl, nofun⟩
  · next hswagger =>
    split
    · exact ⟨postman, rfl, nofun⟩
    · next hrequests =>
      -- All three names have been asked for by now.
      simp only [tellingNames, List.mem_cons, List.not_mem_nil, or_false] at hname
      rcases hname with rfl | rfl | rfl
      · exact absurd (by rw [h, Bool.true_or]) hswagger
      · exact absurd (by rw [h, Bool.or_true]) hswagger
      · exact absurd h hrequests

/-- If no name tells the format, it depends on `info`. -/
theorem ofMembers_of_not_has (h : ¬ ∃ name ∈ tellingNames, Entries.has m name = true) :
    ofMembers m = (infoOf m).holds "_postman_id"
      >>= fun isHeld => .ok (if isHeld then postman else unknown) := by
  have hnone : ∀ name ∈ tellingNames, Entries.has m name = false := fun name hname =>
    Bool.eq_false_iff.mpr fun hhas => h ⟨name, hname, hhas⟩
  have hopenapi := hnone "openapi" (by decide)
  have hswagger := hnone "swagger" (by decide)
  have hrequests := hnone "requests" (by decide)
  unfold ofMembers
  rw [hopenapi, hswagger, hrequests, if_neg (by decide), if_neg (by decide)]
  dsimp only [infoOf]
  congr 1
  funext isHeld
  cases isHeld <;> rfl

/-- **When a value gives an answer.** -/
theorem exists_ofValue_iff (v : Value) : (∃ found, ofValue v = .ok found) ↔ Inspectable v := by
  cases v with
  | null | bool | int | float | str | list => exact iff_of_true ⟨_, rfl⟩ trivial
  | obj m =>
    show (∃ found, ofMembers m = .ok found) ↔ _ ∨ _
    -- If one of the names is there, `info` is not looked into.
    by_cases hnames : ∃ name ∈ tellingNames, Entries.has m name = true
    · obtain ⟨name, hname, hhas⟩ := hnames
      obtain ⟨found, hfound, _⟩ := ofMembers_of_has hname hhas
      exact iff_of_true ⟨found, hfound⟩ (.inl ⟨name, hname, hhas⟩)
    · rw [ofMembers_of_not_has hnames, or_iff_right hnames, ← exists_holds_infoOf_iff]
      constructor
      · rintro ⟨found, hfound⟩
        obtain ⟨isHeld, hheld, _⟩ := Outcome.bind_eq_ok.mp hfound
        exact ⟨isHeld, hheld⟩
      · rintro ⟨isHeld, hheld⟩
        exact ⟨_, Outcome.bind_eq_ok.mpr ⟨isHeld, hheld, rfl⟩⟩

/-- **When a value tells nothing.** -/
theorem tells_iff {v : Value} {found : Detected} (h : ofValue v = .ok found) :
    Tells v ↔ found ≠ unknown := by
  cases v with
  | null | bool | int | float | str | list =>
    cases h
    exact iff_of_false id fun hne => hne rfl
  | obj m =>
    replace h : ofMembers m = .ok found := h
    show _ ∨ _ ↔ _
    by_cases hnames : ∃ name ∈ tellingNames, Entries.has m name = true
    · obtain ⟨name, hname, hhas⟩ := hnames
      obtain ⟨other, hother, hne⟩ := ofMembers_of_has hname hhas
      cases hother.symm.trans h
      exact iff_of_true (.inl ⟨name, hname, hhas⟩) hne
    · rw [ofMembers_of_not_has hnames] at h
      obtain ⟨isHeld, hheld, hfound⟩ := Outcome.bind_eq_ok.mp h
      cases hfound
      -- What is left to tell is the name in `info`.
      rw [or_iff_right hnames, hheld]
      cases isHeld with
      | false => exact iff_of_false nofun fun hne => hne rfl
      | true => exact iff_of_true rfl nofun

/-- A value that gives no answer is one of a wrong type. -/
theorem not_inspectable_of_ofValue {v : Value} {failure : Failure}
    (h : ofValue v = .error failure) : failure = .misuse .type ∧ ¬ Inspectable v := by
  constructor
  · cases v with
    | null | bool | int | float | str | list => cases h
    | obj m =>
      -- A name that tells the format would have given an answer.
      have hnames : ¬ ∃ name ∈ tellingNames, Entries.has m name = true := by
        rintro ⟨name, hname, hhas⟩
        obtain ⟨found, hfound, _⟩ := ofMembers_of_has hname hhas
        cases hfound.symm.trans h
      have hbind := (ofMembers_of_not_has hnames).symm.trans h
      rcases Outcome.bind_eq_error.mp hbind with hheld | ⟨isHeld, _, hfound⟩
      · exact Value.misuse_of_holds hheld
      · cases hfound
  · intro hv
    obtain ⟨found, hfound⟩ := (exists_ofValue_iff v).mpr hv
    cases hfound.symm.trans h

/-! ## Texts

A text that is marked is not read at all. Another one is read as YAML, and as JSON if YAML does not
tell its format. A malformed text tells nothing either way, and a misuse of YAML ends the detection
before JSON is tried. -/

/-- A text that begins as a definition does, but for blanks. -/
def Marked (text : String) : Prop := ramlMark <+: Unicode.trimStart text.toList

/-- What a text is as YAML tells a format. -/
def TellsAsYaml (text : String) : Prop := ∃ v, Yaml.outlineOf 2 text = .ok v ∧ Tells v

/-- What a text is as JSON tells a format. -/
def TellsAsJson (text : String) : Prop := ∃ v, Json.read text.toList = .ok v ∧ Tells v

/-- A text whose format can be told: it is marked, or it is one that YAML reads or finds malformed,
and what it is as YAML, and as JSON if YAML does not tell, can be looked into. -/
def Tellable (text : String) : Prop :=
  Marked text
    ∨ (∀ misuse, Yaml.outlineOf 2 text ≠ .error (.misuse misuse))
      ∧ (∀ v, Yaml.outlineOf 2 text = .ok v → Inspectable v)
      ∧ (¬ TellsAsYaml text → ∀ v, Json.read text.toList = .ok v → Inspectable v)

/-- What a detection that fails is blamed on: something excessive in the text, a node of the document
that claims a type which its text does not have, a mapping of the document that stands for itself
and so has no text, or a value that cannot be looked into, as YAML or as JSON. -/
inductive Blamed (text : String) : Misuse → Prop where
  | excess {misuse : Misuse} (h : Yaml.Exceeds text.toList misuse) : Blamed text misuse
  | unfit {document : Yaml.Document} {misuse : Misuse}
      (hdocument : Yaml.Document.ofChars text.toList = .ok document)
      (h : Yaml.Unfit document.graph misuse) : Blamed text misuse
  | endless {document : Yaml.Document} {id : Nat}
      (hdocument : Yaml.Document.ofChars text.toList = .ok document)
      (h : Yaml.StandsForItself document.graph id) : Blamed text .endless
  | yaml {v : Value} (hread : Yaml.outlineOf 2 text = .ok v) (h : ¬ Inspectable v) :
      Blamed text .type
  | json {v : Value} (hread : Json.read text.toList = .ok v) (h : ¬ Inspectable v) :
      Blamed text .type

variable {text : String}

theorem exists_ofYaml_iff : (∃ found, ofYaml text = .ok found)
    ↔ (∀ misuse, Yaml.outlineOf 2 text ≠ .error (.misuse misuse))
      ∧ ∀ v, Yaml.outlineOf 2 text = .ok v → Inspectable v := by
  unfold ofYaml
  split
  · next v hread =>
    rw [exists_ofValue_iff, hread]
    constructor
    · exact fun hv => ⟨nofun, by rintro _ ⟨⟩; exact hv⟩
    · exact fun h => h.2 v rfl
  · next hread =>
    rw [hread]
    exact iff_of_true ⟨_, rfl⟩ ⟨nofun, nofun⟩
  · next misuse hread =>
    rw [hread]
    exact iff_of_false nofun fun h => h.1 misuse rfl

/-- If it does, the answer is known just if the text tells a format. -/
theorem tellsAsYaml_iff {found : Detected} (h : ofYaml text = .ok found) :
    TellsAsYaml text ↔ found ≠ unknown := by
  unfold ofYaml at h
  unfold TellsAsYaml
  split at h
  · next v hread =>
    rw [← tells_iff h, hread]
    exact ⟨by rintro ⟨_, ⟨⟩, htells⟩; exact htells, fun htells => ⟨v, rfl, htells⟩⟩
  · next hread =>
    cases h
    rw [hread]
    exact iff_of_false nofun fun hne => hne rfl
  · cases h

/-- When reading as JSON gives an answer. It has no misuses of its own. -/
theorem exists_ofJson_iff : (∃ found, ofJson text = .ok found)
    ↔ ∀ v, Json.read text.toList = .ok v → Inspectable v := by
  unfold ofJson
  split
  · next v hread =>
    rw [exists_ofValue_iff, hread]
    constructor
    · rintro hv _ ⟨⟩
      exact hv
    · exact fun h => h v rfl
  · next hread =>
    rw [hread]
    exact iff_of_true ⟨_, rfl⟩ nofun

/-- If it does, the answer is known just if the text tells a format. -/
theorem tellsAsJson_iff {found : Detected} (h : ofJson text = .ok found) :
    TellsAsJson text ↔ found ≠ unknown := by
  unfold ofJson at h
  unfold TellsAsJson
  split at h
  · next v hread =>
    rw [← tells_iff h, hread]
    exact ⟨by rintro ⟨_, ⟨⟩, htells⟩; exact htells, fun htells => ⟨v, rfl, htells⟩⟩
  · next hread =>
    cases h
    rw [hread]
    exact iff_of_false nofun fun hne => hne rfl

/-- If reading as YAML fails, the text is to blame, or the value that was read. -/
theorem blamed_of_ofYaml {failure : Failure} (h : ofYaml text = .error failure) :
    ∃ misuse, failure = .misuse misuse ∧ Blamed text misuse := by
  unfold ofYaml at h
  split at h
  · next v hread =>
    obtain ⟨hfailure, hv⟩ := not_inspectable_of_ofValue h
    exact ⟨.type, hfailure, .yaml hread hv⟩
  · cases h
  · next misuse hread =>
    cases h
    rcases Yaml.exceeds_or_unsound_of_outlineOf hread with
      hexceeds | ⟨document, hdocument, hunfit | ⟨rfl, id, hitself⟩⟩
    · exact ⟨misuse, rfl, .excess hexceeds⟩
    · exact ⟨misuse, rfl, .unfit hdocument hunfit⟩
    · exact ⟨.endless, rfl, .endless hdocument hitself⟩

/-- If reading as JSON fails, the value that was read is to blame. -/
theorem blamed_of_ofJson {failure : Failure} (h : ofJson text = .error failure) :
    ∃ misuse, failure = .misuse misuse ∧ Blamed text misuse := by
  unfold ofJson at h
  split at h
  · next v hread =>
    obtain ⟨hfailure, hv⟩ := not_inspectable_of_ofValue h
    exact ⟨.type, hfailure, .json hread hv⟩
  · cases h

theorem ofText_of_marked (h : Marked text) : ofText text = .ok raml := by
  unfold ofText
  rw [if_pos (List.isPrefixOf_iff_prefix.mpr h)]
  rfl

/-- A text that is not marked is one of JSON if YAML does not tell its format. -/
theorem ofText_of_not_marked (h : ¬ Marked text) :
    ofText text = ofYaml text >>= fun found =>
      if found = unknown then ofJson text else .ok found := by
  unfold ofText
  rw [if_neg fun hprefix => h (List.isPrefixOf_iff_prefix.mp hprefix)]
  cases ofYaml text with
  | error failure => rfl
  | ok found => cases found <;> rfl

/-- **When a text gives an answer.** -/
theorem exists_ofText_iff : (∃ found, ofText text = .ok found) ↔ Tellable text := by
  by_cases hmark : Marked text
  · exact iff_of_true ⟨raml, ofText_of_marked hmark⟩ (.inl hmark)
  · rw [ofText_of_not_marked hmark, Tellable, or_iff_right hmark, ← and_assoc, ← exists_ofYaml_iff,
      ← exists_ofJson_iff]
    cases hyaml : ofYaml text with
    | error failure => exact iff_of_false nofun fun h => nomatch h.1
    | ok found =>
      -- What the text is as JSON only counts where YAML does not tell.
      rw [Outcome.ok_bind, tellsAsYaml_iff hyaml, not_not]
      by_cases hfound : found = unknown
      · rw [if_pos hfound]
        exact ⟨fun h => ⟨⟨found, rfl⟩, fun _ => h⟩, fun h => h.2 hfound⟩
      · rw [if_neg hfound]
        exact iff_of_true ⟨found, rfl⟩ ⟨⟨found, rfl⟩, fun hunknown => absurd hunknown hfound⟩

/-- **What an answer says**: the format is unknown if the text is not marked and tells nothing. -/
theorem eq_unknown_iff {found : Detected} (h : ofText text = .ok found) :
    found = unknown ↔ ¬ Marked text ∧ ¬ TellsAsYaml text ∧ ¬ TellsAsJson text := by
  by_cases hmark : Marked text
  · cases (ofText_of_marked hmark).symm.trans h
    exact iff_of_false nofun fun hnone => hnone.1 hmark
  · rw [ofText_of_not_marked hmark] at h
    obtain ⟨asYaml, hyaml, h⟩ := Outcome.bind_eq_ok.mp h
    rw [and_iff_right hmark, tellsAsYaml_iff hyaml, not_not]
    split at h
    · next hunknown => rw [and_iff_right hunknown, tellsAsJson_iff h, not_not]
    · next hknown =>
      cases h
      exact iff_of_false hknown fun hnone => hknown hnone.1

/-- **What a failure is blamed on.** -/
theorem blamed_of_ofText {failure : Failure} (h : ofText text = .error failure) :
    ∃ misuse, failure = .misuse misuse ∧ Blamed text misuse := by
  by_cases hmark : Marked text
  · cases (ofText_of_marked hmark).symm.trans h
  · rw [ofText_of_not_marked hmark] at h
    rcases Outcome.bind_eq_error.mp h with hyaml | ⟨found, _, h⟩
    · exact blamed_of_ofYaml hyaml
    · split at h
      · exact blamed_of_ofJson h
      · cases h

end Ramlify.Detected

namespace Ramlify.CommandLine

/-! ## Runs

Where a run has to detect a format, an answer that is no source format is reported, and so the user
hears of it. A failure is a misuse, and such a run breaks. -/

/-- Arguments that ask for the conversion of a source which can be read, and leave its format to be
detected. -/
structure Detects (world : World) (arguments : List String) (text : String) (c : Conversion) :
    Prop where
  asked : parse arguments = some (.convert c)
  format : c.sourceFormat = autoFormat
  named : ∃ path, outputPath c = .ok path
  read : world.acquire c.source = .ok text

variable {world : World} {arguments : List String} {text : String} {c : Conversion}

/-- An answer that is no source format is not importable. -/
theorem formatOf_of_detected {found : Detected} (h : Detected.ofText text = .ok found)
    (htag : found.tag ∉ Format.sources) :
    formatOf autoFormat text = .error (.notImportable found.tag) := by
  unfold formatOf
  rw [if_neg (not_not_intro rfl), h, Outcome.ok_bind, if_neg htag]

/-- A failure of detection is one of the format. -/
theorem formatOf_of_failed {failure : Failure} (h : Detected.ofText text = .error failure) :
    formatOf autoFormat text = .error failure := by
  unfold formatOf
  rw [if_neg (not_not_intro rfl), h, Outcome.error_bind]

/-- A run whose source has no format that is read ends as failures of detection do. -/
theorem Detects.run_eq (h : Detects world arguments text c) {failure : Failure}
    (hformat : formatOf autoFormat text = .error failure) :
    ∃ files logged, run world arguments = Run.failed files logged failure := by
  obtain ⟨path, hname⟩ := h.named
  rw [← h.format] at hformat
  obtain ⟨files, logged, _, hconvert⟩ :=
    convert_of_failsAt (.detecting hname h.read hformat)
  refine ⟨files, logged, ?_⟩
  simp only [run, h.asked, execute, hconvert, Stage.isLeaving]
  rfl

/-- A misuse ends a run before its user is told. -/
theorem failed_breaks (files : Files) (logged : String) (misuse : Misuse) :
    Breaks (Run.failed files logged (.misuse misuse)) (.misuse misuse) := ⟨rfl, rfl⟩

/-- **Detection answers for all texts that can be looked into**, and for no others. For every text:

* there is an answer exactly if the format of the text can be told, and the answer is that it is
  unknown exactly if the text is not marked and tells no format as YAML or as JSON;
* otherwise the failure is a misuse, and blamed on something excessive in the text, on a node of its
  document that claims a type which its text does not have, on a mapping of its document that stands
  for itself, or on an `info` that cannot be looked into, in what the text is as YAML or as JSON;
* a run that detects a format which is not read reports it;
* a run whose detection fails ends without a report. -/
theorem detection_answers (text : String) :
    ((∃ found, Detected.ofText text = .ok found) ↔ Detected.Tellable text)
    ∧ (∀ found, Detected.ofText text = .ok found → (found = .unknown ↔ ¬ Detected.Marked text
      ∧ ¬ Detected.TellsAsYaml text ∧ ¬ Detected.TellsAsJson text))
    ∧ (∀ failure, Detected.ofText text = .error failure →
      ∃ misuse, failure = .misuse misuse ∧ Detected.Blamed text misuse)
    ∧ ∀ world arguments c, Detects world arguments text c →
      (∀ found, Detected.ofText text = .ok found → found.tag ∉ Format.sources →
        Reports (run world arguments) (.notImportable found.tag))
      ∧ ∀ failure, Detected.ofText text = .error failure →
        Breaks (run world arguments) failure := by
  refine ⟨Detected.exists_ofText_iff, fun found => Detected.eq_unknown_iff,
    fun failure => Detected.blamed_of_ofText,
    fun world arguments c hdetects => ⟨fun found hfound htag => ?_, fun failure hfailure => ?_⟩⟩
  · obtain ⟨files, logged, hrun⟩ := hdetects.run_eq (formatOf_of_detected hfound htag)
    rw [hrun]
    exact failed_reports files logged rfl
  · obtain ⟨files, logged, hrun⟩ := hdetects.run_eq (formatOf_of_failed hfailure)
    obtain ⟨misuse, rfl, _⟩ := Detected.blamed_of_ofText hfailure
    rw [hrun]
    exact failed_breaks files logged misuse

/-- A world of one file. -/
def worldOf (name text : String) : World :=
  { files := { contents := [({ parts := [name] }, text)] } }

/-- The conversion of a source whose format is not given, to be printed. -/
def autoConversion (source : String) : Conversion :=
  { source, sourceFormat := "auto", targetFormat := "raml10", output := none, verbose := false }

def notesText : String := "# A title\n\nSome notes"

/-- Prose tells no format, and its user hears of it. A day that there is not is no date, and its
user does not hear of that. -/
theorem detection_answers_notes :
    ¬ Detected.TellsAsYaml notesText ∧ ¬ Detected.TellsAsJson notesText
      ∧ Reports (run (worldOf "notes.md" notesText) ["convert", "notes.md"])
        (.notImportable "unknown")
      ∧ Detected.Blamed "2001-13-45" .content
      ∧ Breaks (run (worldOf "day.yaml" "2001-13-45") ["convert", "day.yaml"])
        (.misuse .content) := by
  have hnotes : Detected.ofText notesText = .ok .unknown :=
    Outcome.eq_ok_of_toOption (by decide +kernel)
  have hday : Detected.ofText "2001-13-45" = .error (.misuse .content) :=
    Outcome.eq_error_of_match (by decide +kernel)
  have hdetects : Detects (worldOf "notes.md" notesText) ["convert", "notes.md"] notesText
      (autoConversion "notes.md") :=
    ⟨rfl, rfl, ⟨none, rfl⟩, Outcome.eq_ok_of_toOption (by decide +kernel)⟩
  have hdetects' : Detects (worldOf "day.yaml" "2001-13-45") ["convert", "day.yaml"] "2001-13-45"
      (autoConversion "day.yaml") :=
    ⟨rfl, rfl, ⟨none, rfl⟩, Outcome.eq_ok_of_toOption (by decide +kernel)⟩
  obtain ⟨_, hunknown, _, hruns⟩ := detection_answers notesText
  obtain ⟨_, _, hblamed, hruns'⟩ := detection_answers "2001-13-45"
  obtain ⟨_, hyaml, hjson⟩ := (hunknown _ hnotes).mp rfl
  obtain ⟨misuse, hmisuse, hblame⟩ := hblamed _ hday
  cases hmisuse
  exact ⟨hyaml, hjson, (hruns _ _ _ hdetects).1 _ hnotes (by decide), hblame,
    (hruns' _ _ _ hdetects').2 _ hday⟩

def nullInfoText : String := "\x7b\"info\": null\x7d"

/-- **An object whose `info` is null** is not taken for one of unknown format, and its user does
not hear of it. -/
theorem null_info_not_reported :
    Detected.ofText nullInfoText = .error (.misuse .type)
      ∧ Breaks (run (worldOf "api.json" nullInfoText) ["convert", "api.json"]) (.misuse .type) := by
  have hinfo : Detected.ofText nullInfoText = .error (.misuse .type) :=
    Outcome.eq_error_of_match (by decide +kernel)
  have hdetects : Detects (worldOf "api.json" nullInfoText) ["convert", "api.json"] nullInfoText
      (autoConversion "api.json") :=
    ⟨rfl, rfl, ⟨none, rfl⟩, Outcome.eq_ok_of_toOption (by decide +kernel)⟩
  obtain ⟨files, logged, hrun⟩ := hdetects.run_eq (formatOf_of_failed hinfo)
  rw [hrun]
  exact ⟨hinfo, failed_breaks files logged .type⟩

end Ramlify.CommandLine
