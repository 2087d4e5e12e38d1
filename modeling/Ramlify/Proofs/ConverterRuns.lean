import Ramlify.Converter
import Ramlify.Proofs.Outcome
import Mathlib.Data.List.Induction

/-!
# Ramlify — a converter remembers what it read last, and nothing else

A converter lives through many steps, and its exporter keeps the project and the definition of every
conversion. None of that is seen again: a converter answers like a new one that has read one text,
the one that was read last. The proof compares converters after `forget`, which puts a new exporter
in the place of the used one.

* **`forget_perform`** — what one step leaves behind.
* **`forget_run`** — what a run leaves behind, by induction on the steps.
* **`answers_of_lastRead`** — what is answered at any point of any run.
-/

namespace Ramlify.Converter

/-! ## Steps

A converter can be used in any order and any number of times. What a step gets to be read does not
depend on the converter, so that what was read last can be told from the steps alone. -/

/-- What can be asked of a converter: to read something, or to convert something. -/
inductive Step where
  | loadText (text : Value)
  | loadSource (source : String)
  | loadPath (path : Path)
  | load (text : String)
  | convert (text form : Option String)
  | convertPath (path : Path) (form : Option String)

namespace Step

/-- Whether a step only reads. -/
def IsLoad : Step → Prop
  | convert _ _ => False
  | convertPath _ _ => False
  | _ => True

/-- What a step gets to be read, if it gets anything at all. -/
def acquired? (world : World) : Step → Option (Outcome Value)
  | loadText text => some (.ok text)
  | loadSource source => some ((world.acquire source).map .str)
  | loadPath path => some ((world.acquire path.text).map .str)
  | load text => some ((resolve world text).map .str)
  | convert none _ => none
  | convert (some text) _ => some ((resolve world text).map .str)
  | convertPath path _ => some ((world.acquire path.text).map .str)

end Step

/-- The text that was got, if it is JSON. -/
def readable? : Outcome Value → Option String
  | .ok (.str text) => (Json.parse text).toOption.map fun _ => text
  | _ => none

/-- The text that a step reads with success, also where the conversion that follows fails. -/
def Step.read? (world : World) (step : Step) : Option String :=
  (step.acquired? world).bind readable?

/-- The text that was read last, with success, in some steps. -/
def lastRead (world : World) (steps : List Step) : Option String :=
  steps.reverse.findSome? (·.read? world)

/-- The answer of a step that only reads is empty. -/
def silent (result : Converter × Outcome Unit) : Converter × Outcome (Option String) :=
  (result.1, result.2.map fun _ => none)

def told (result : Converter × Outcome String) : Converter × Outcome (Option String) :=
  (result.1, result.2.map some)

/-- Performs a step: the converter afterwards, and the answer. -/
def perform (world : World) (converter : Converter) : Step → Converter × Outcome (Option String)
  | .loadText text => silent (converter.loadText text)
  | .loadSource source => silent (converter.loadSource world source)
  | .loadPath path => silent (converter.loadPath world path)
  | .load text => silent (converter.load world text)
  | .convert text form => told (converter.convert world text form)
  | .convertPath path form => told (converter.convertPath world path form)

/-- The converter after some steps. -/
def run (world : World) (converter : Converter) (steps : List Step) : Converter :=
  steps.foldl (fun converter step => (converter.perform world step).1) converter

/-- The answers of some steps. -/
def answers (world : World) (converter : Converter) : List Step → List (Outcome (Option String))
  | [] => []
  | step :: rest =>
    (converter.perform world step).2 :: answers world (converter.perform world step).1 rest

theorem run_concat (world : World) (c : Converter) (steps : List Step) (step : Step) :
    c.run world (steps ++ [step]) = ((c.run world steps).perform world step).1 := by
  rw [run, List.foldl_append]
  rfl

/-- What was read last is what the last step reads, or else what was read before it. -/
theorem lastRead_concat (world : World) (steps : List Step) (step : Step) :
    lastRead world (steps ++ [step]) = (step.read? world).or (lastRead world steps) := by
  rw [lastRead, List.reverse_append, List.reverse_singleton, List.singleton_append,
    List.findSome?_cons]
  cases step.read? world <;> rfl

/-- The answers of later steps are those of the converter as it was left by the earlier ones. -/
theorem answers_append (world : World) (c : Converter) (before after : List Step) :
    c.answers world (before ++ after)
      = c.answers world before ++ (c.run world before).answers world after := by
  induction before generalizing c with
  | nil => rfl
  | cons step before ih =>
    simp only [List.cons_append, answers, ih]
    rfl

theorem length_answers (world : World) (c : Converter) (steps : List Step) :
    (c.answers world steps).length = steps.length := by
  induction steps generalizing c with
  | nil => rfl
  | cons step steps ih => rw [answers, List.length_cons, List.length_cons, ih]

/-! ## What is remembered

Two things can be remembered: the description that was read, and what the exporter was given.
`forget` drops the second one, and `remember` is all that can be known of the first. -/

/-- A converter with a new exporter. -/
def forget (c : Converter) : Converter := { c with exporter := { version := c.exporter.version } }

/-- A converter that has read a text, or has not. -/
def remember (c : Converter) : Option String → Converter
  | none => c
  | some text => (c.loadText (.str text)).1

theorem forget_remember (c : Converter) (text : Option String) :
    (c.remember text).forget = c.forget.remember text := by
  cases text <;> rfl

/-- Of two texts that were read the later one is remembered. -/
theorem remember_remember {later : Option String} (c : Converter) (earlier : Option String)
    (h : ∀ text, later = some text → ∃ data, Json.parse text = .ok data) :
    (c.remember earlier).remember later = c.remember (later.or earlier) := by
  cases later with
  | none => rfl
  | some text =>
    obtain ⟨data, hdata⟩ := h text rfl
    cases earlier with
    | none => rfl
    | some earlier =>
      simp only [Option.some_or, remember, loadText, Importer.load, Json.parseStored, hdata]

theorem exists_of_readable {acquired : Outcome Value} {text : String}
    (h : readable? acquired = some text) : acquired = .ok (.str text)
      ∧ ∃ data, Json.parse text = .ok data := by
  cases acquired with
  | error failure => cases h
  | ok v =>
    cases v with
    | str found =>
      cases hdata : Json.parse found with
      | error failure =>
        simp only [readable?, hdata, Except.toOption] at h
        cases h
      | ok data =>
        simp only [readable?, hdata, Except.toOption] at h
        cases h
        exact ⟨rfl, data, hdata⟩
    | null | bool | int | float | list | obj => cases h

theorem exists_of_read {world : World} {step : Step} {text : String}
    (h : step.read? world = some text) : ∃ data, Json.parse text = .ok data := by
  obtain ⟨acquired, _, hreadable⟩ := Option.bind_eq_some_iff.mp h
  exact (exists_of_readable hreadable).2

theorem exists_of_lastRead {world : World} {steps : List Step} {text : String}
    (h : lastRead world steps = some text) : ∃ data, Json.parse text = .ok data := by
  obtain ⟨step, _, hread⟩ := List.exists_of_findSome?_eq_some h
  exact exists_of_read hread

/-! ## Reading

All ways to read come down to `take`, which either fails before there is a text or reads the text.
-/

/-- Reads what was got. -/
def take (c : Converter) : Outcome Value → Converter × Outcome Unit
  | .ok text => c.loadText text
  | .error failure => (c, .error failure)

/-- A text that was got, or not, is taken as such. -/
theorem loadAcquired_eq_take (c : Converter) (text : Outcome String) :
    c.loadAcquired text = c.take (text.map .str) := by
  cases text <;> rfl

/-- A text is remembered exactly if it was got and is JSON, and then reading succeeds. -/
theorem take_eq (c : Converter) (acquired : Outcome Value) :
    (c.take acquired).1 = c.remember (readable? acquired)
      ∧ ((c.take acquired).2 = .ok () ↔ (readable? acquired).isSome) := by
  cases acquired with
  | error failure => exact ⟨rfl, nofun, nofun⟩
  | ok v =>
    cases v with
    | str text =>
      cases hdata : Json.parse text with
      | error failure =>
        simp [take, loadText, Importer.load, Json.parseStored, readable?, hdata, remember,
          Except.toOption]
      | ok data =>
        simp [take, loadText, Importer.load, Json.parseStored, readable?, hdata, remember,
          Except.toOption]
    | null | bool | int | float | list | obj => exact ⟨rfl, nofun, nofun⟩

theorem take_forget (c : Converter) (acquired : Outcome Value) :
    c.forget.take acquired = ((c.take acquired).1.forget, (c.take acquired).2) := by
  cases acquired <;> rfl

/-! ## Converting

A conversion loads the exporter with the project anew, so that nothing an exporter holds from before
is seen in its answer. -/

/-- A conversion leaves nothing behind but a used exporter. -/
theorem forget_pass (c : Converter) (form : String) : (c.pass form).1.forget = c.forget := by
  cases hproject : c.importer.project with
  | error failure => simp only [pass, hproject]
  | ok project =>
    simp only [pass, hproject, Raml.Exporter.load, Raml.Exporter.write]
    cases Raml.definition c.exporter.version project <;> rfl

/-- A conversion does not look at what earlier ones left. -/
theorem pass_forget (c : Converter) (form : String) : (c.forget.pass form).2 = (c.pass form).2 := by
  cases hproject : c.importer.project with
  | error failure => simp only [pass, forget, hproject]
  | ok project =>
    simp only [pass, forget, hproject, Raml.Exporter.load, Raml.Exporter.write]
    cases Raml.definition c.exporter.version project <;> rfl

/-- A conversion leaves nothing behind but in the exporter, also where it reads first. -/
theorem forget_passLoaded (loaded : Converter × Outcome Unit) (form : Option String) :
    (passLoaded loaded form).1.forget = loaded.1.forget := by
  obtain ⟨c, _ | _⟩ := loaded
  · rfl
  · exact forget_pass c _

/-- A conversion that reads first is answered alike whatever the exporter holds. -/
theorem passLoaded_forget (loaded : Converter × Outcome Unit) (form : Option String) :
    (passLoaded (loaded.1.forget, loaded.2) form).2 = (passLoaded loaded form).2 := by
  obtain ⟨c, _ | _⟩ := loaded
  · rfl
  · exact pass_forget c _

/-! ## One step

The six kinds of steps are four: converting what is there, reading, failing to read, and reading
before a conversion. From here on steps are taken by `perform_cases` only. -/

/-- A step reads what it gets, and then converts unless it only reads. -/
theorem perform_cases (world : World) (step : Step) :
    (∃ form, step = .convert none form)
      ∨ ∃ acquired, step.acquired? world = some acquired
        ∧ ((step.IsLoad ∧ ∀ c : Converter, c.perform world step = silent (c.take acquired))
          ∨ (¬ step.IsLoad ∧ ∃ form, ∀ c : Converter,
              c.perform world step = told (passLoaded (c.take acquired) form))) := by
  cases step with
  | loadText text => exact .inr ⟨_, rfl, .inl ⟨trivial, fun c => rfl⟩⟩
  -- A source, a path and a text are got in different ways, and then taken alike.
  | loadSource source =>
    refine .inr ⟨_, rfl, .inl ⟨trivial, fun c => ?_⟩⟩
    exact congrArg silent (loadAcquired_eq_take c _)
  | loadPath path =>
    refine .inr ⟨_, rfl, .inl ⟨trivial, fun c => ?_⟩⟩
    exact congrArg silent (loadAcquired_eq_take c _)
  | load text =>
    refine .inr ⟨_, rfl, .inl ⟨trivial, fun c => ?_⟩⟩
    exact congrArg silent (loadAcquired_eq_take c _)
  | convert text form =>
    cases text with
    | none => exact .inl ⟨form, rfl⟩
    -- A conversion with a text reads it first.
    | some text =>
      refine .inr ⟨_, rfl, .inr ⟨id, form, fun c => ?_⟩⟩
      exact congrArg (fun loaded => told (passLoaded loaded form)) (loadAcquired_eq_take c _)
  | convertPath path form =>
    refine .inr ⟨_, rfl, .inr ⟨id, form, fun c => ?_⟩⟩
    exact congrArg (fun loaded => told (passLoaded loaded form)) (loadAcquired_eq_take c _)

/-- **What one step leaves behind** is the text that it read. -/
theorem forget_perform (world : World) (c : Converter) (step : Step) :
    (c.perform world step).1.forget = c.forget.remember (step.read? world) := by
  rcases perform_cases world step with ⟨form, rfl⟩ | ⟨acquired, hacquired, ⟨_, h⟩ | ⟨_, form, h⟩⟩
  · exact forget_pass c _
  · have hread : step.read? world = readable? acquired := by rw [Step.read?, hacquired]; rfl
    rw [h, hread, ← forget_remember, ← (take_eq c acquired).1]
    rfl
  · have hread : step.read? world = readable? acquired := by rw [Step.read?, hacquired]; rfl
    rw [h, hread, ← forget_remember, ← (take_eq c acquired).1]
    exact forget_passLoaded _ form

/-- The answer of a step does not depend on what earlier conversions left. -/
theorem perform_forget (world : World) (c : Converter) (step : Step) :
    (c.forget.perform world step).2 = (c.perform world step).2 := by
  rcases perform_cases world step with ⟨form, rfl⟩ | ⟨acquired, _, ⟨_, h⟩ | ⟨_, form, h⟩⟩
  · exact congrArg (Except.map some) (pass_forget c _)
  · rw [h, h, take_forget]
    rfl
  · rw [h, h, take_forget]
    exact congrArg (Except.map some) (passLoaded_forget _ form)

/-- A step that only reads fails exactly if it reads nothing. -/
theorem perform_fails_iff (world : World) (c : Converter) {step : Step} (h : step.IsLoad) :
    (∃ failure, (c.perform world step).2 = .error failure) ↔ step.read? world = none := by
  rcases perform_cases world step with
    ⟨form, rfl⟩ | ⟨acquired, hacquired, ⟨_, hperform⟩ | ⟨hconverts, _⟩⟩
  · exact absurd h id
  · have hread : step.read? world = readable? acquired := by rw [Step.read?, hacquired]; rfl
    rw [hperform, hread, ← Option.not_isSome_iff_eq_none, ← (take_eq c acquired).2, silent]
    cases (c.take acquired).2 with
    | error failure => exact ⟨fun _ => nofun, fun _ => ⟨failure, rfl⟩⟩
    | ok answer => exact ⟨nofun, fun hfails => absurd rfl hfails⟩
  · exact absurd h hconverts

/-! ## All steps

A run is compared with a new converter that has read one text. Both are the same after `forget`, and
such converters answer alike. -/

/-- **What a run leaves behind** is the text that was read last. -/
theorem forget_run (world : World) (c : Converter) (steps : List Step) :
    (c.run world steps).forget = c.forget.remember (lastRead world steps) := by
  induction steps using List.reverseRecOn with
  | nil => rfl
  | append_singleton steps step ih =>
    rw [run_concat, forget_perform, ih, lastRead_concat,
      remember_remember _ _ fun text => exists_of_read]

/-- Converters that differ only in what conversions left answer alike. -/
theorem answers_eq_of_forget_eq (world : World) {c d : Converter} (h : c.forget = d.forget)
    (steps : List Step) : c.answers world steps = d.answers world steps := by
  induction steps generalizing c d with
  | nil => rfl
  | cons step steps ih =>
    have hnext : (c.perform world step).1.forget = (d.perform world step).1.forget := by
      rw [forget_perform, forget_perform, h]
    rw [answers, answers, ih hnext, ← perform_forget world c, h, perform_forget]

/-- A new converter has read nothing, and there is nothing to forget. -/
theorem forget_of_between {source target : String} {c : Converter}
    (h : between source target = .ok c) : c.forget = c ∧ c.importer = {} := by
  obtain ⟨importer, himporter, h⟩ := Outcome.bind_eq_ok.mp h
  obtain ⟨exporter, hexporter, h⟩ := Outcome.bind_eq_ok.mp h
  obtain ⟨version, _, hversion⟩ := Outcome.bind_eq_ok.mp hexporter
  cases h
  cases hversion
  refine ⟨rfl, ?_⟩
  unfold Format.importerOf at himporter
  split at himporter <;> cases himporter
  rfl

/-- **What is answered to a conversion of what was read last**, after any steps of a new
converter. -/
theorem answers_of_lastRead {source target : String} {c : Converter}
    (h : between source target = .ok c) (world : World) (before after : List Step)
    (form : Option String) :
    (c.answers world (before ++ .convert none form :: after))[before.length]?
      = some (((c.remember (lastRead world before)).perform world (.convert none form)).2) := by
  have hstate : (c.run world before).forget = c.remember (lastRead world before) := by
    rw [forget_run, (forget_of_between h).1]
  rw [answers_append, List.getElem?_append_right (Nat.le_of_eq (length_answers world c before)),
    length_answers, Nat.sub_self, ← hstate, perform_forget]
  rfl

/-- **A converter has no memory but of what it read last.** For a new converter between two
supported formats, in any world:

* after any steps, converting without a text is answered as by a new converter that has read one
  text, the one that was last read with success; if none was, the answer is that nothing was loaded;
* a step that reads nothing changes no later answer;
* a step that only reads fails exactly if it reads nothing. -/
theorem remembers_lastRead {source target : String} {c : Converter}
    (h : between source target = .ok c) (world : World) :
    (∀ (before after : List Step) (form : Option String),
      (lastRead world before = none →
        (c.answers world (before ++ .convert none form :: after))[before.length]?
            = some (.error .nothingLoaded)
          ∧ Failure.nothingLoaded.message = "No source data loaded")
      ∧ ∀ text, lastRead world before = some text →
        ∃ loaded, c.loadText (.str text) = (loaded, .ok ())
          ∧ (c.answers world (before ++ .convert none form :: after))[before.length]?
            = some ((loaded.convert world none form).2.map some))
    ∧ (∀ (before : List Step) (step : Step) (after : List Step), step.read? world = none →
        (c.answers world (before ++ step :: after)).drop (before.length + 1)
          = (c.answers world (before ++ after)).drop before.length)
    ∧ ∀ (before : List Step) (step : Step), step.IsLoad →
        ((∃ failure, ((c.run world before).perform world step).2 = .error failure)
          ↔ step.read? world = none) := by
  refine ⟨fun before after form => ⟨?_, ?_⟩, ?_, ?_⟩
  · intro hnone
    refine ⟨?_, rfl⟩
    rw [answers_of_lastRead h, hnone]
    -- A new converter has nothing to make a project of.
    have hnothing : c.importer.project = .error .nothingLoaded := by
      rw [(forget_of_between h).2]
      rfl
    simp only [remember, perform, convert, pass, hnothing, told, Except.map]
  · intro text htext
    obtain ⟨data, hdata⟩ := exists_of_lastRead htext
    refine ⟨{ c with importer := { data } }, ?_, ?_⟩
    · simp only [loadText, Importer.load, Json.parseStored, hdata]
    · rw [answers_of_lastRead h, htext]
      simp only [remember, loadText, Importer.load, Json.parseStored, hdata, perform, told]
  · -- The step is taken out of the run: the converter afterwards is, after `forget`, the one before
    -- it.
    intro before step after hnone
    have hstate : (c.run world (before ++ [step])).forget = (c.run world before).forget := by
      rw [run_concat, forget_perform, hnone]
      rfl
    have hlength : (c.answers world (before ++ [step])).length = before.length + 1 := by
      rw [length_answers, List.length_append, List.length_singleton]
    rw [← List.singleton_append, ← List.append_assoc, answers_append world c (before ++ [step]),
      answers_append world c before after, List.drop_left' hlength,
      List.drop_left' (length_answers world c before)]
    exact answers_eq_of_forget_eq world hstate after
  · exact fun before step hload => perform_fails_iff world _ hload

/-- A converter from Postman to RAML 1.0. -/
def petConverter : Converter :=
  { source := "postman", target := "raml10", importer := {}, exporter := { version := .v10 } }

def petText : String := "\x7b\"name\": \"Pets\"\x7d"

/-- A world of one file, which holds a collection without requests. -/
def petWorld : World := { files := Files.ofNamed [("pets.json", petText)] }

/-- The file is read between steps that fail at reading, at importing and at writing. -/
def petSteps : List Step :=
  [.convert none none, .convert (some "[]") none, .loadSource "pets.json", .loadText (.str "\x7b"),
   .convert none (some "json"), .convert (some "[") none, .loadPath (Path.parse "cats.json")]

/-- What is answered after these steps. -/
theorem remembers_lastRead_pets : between "postman" "raml10" = .ok petConverter
    ∧ lastRead petWorld petSteps = some petText
    ∧ (petConverter.answers petWorld (petSteps ++ [.convert none none]))[petSteps.length]?
      = some (.ok (some "#%RAML 1.0\ntitle: Pets\n")) := by
  have hnew : between "postman" "raml10" = .ok petConverter := rfl
  -- What was read last is found out, and the theorem gives the answer.
  have hlast : lastRead petWorld petSteps = some petText := by decide +kernel
  obtain ⟨loaded, hloaded, hanswer⟩ :=
    ((remembers_lastRead hnew petWorld).1 petSteps [] none).2 petText hlast
  have hdocument : (loaded.convert petWorld none none).2.toOption
      = some "#%RAML 1.0\ntitle: Pets\n" := by
    rw [← show (petConverter.loadText (.str petText)).1 = loaded from congrArg Prod.fst hloaded]
    decide +kernel
  refine ⟨hnew, hlast, hanswer.trans ?_⟩
  cases htext : (loaded.convert petWorld none none).2 with
  | error failure =>
    rw [htext] at hdocument
    cases hdocument
  | ok text =>
    rw [htext] at hdocument
    cases hdocument
    rfl

end Ramlify.Converter
