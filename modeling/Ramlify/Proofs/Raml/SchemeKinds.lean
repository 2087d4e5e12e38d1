import Ramlify.Proofs.Entries
import Ramlify.Raml.Security

/-!
# Ramlify — declarations of security schemes and references to them

Schemes are declared by one function and referred to by another one, each with conditions of its own
for the schemes that are missing or have no name. Here both are taken apart by the kind of scheme,
so that they can be compared kind by kind.

* **`schemeDeclarations_eq`**, **`securedBy_eq`** — the declarations and the references, kind by
  kind.
* **`declared?_isSome_iff`**, **`reference?_isSome_iff`** — when there is one, said of the schemes
  themselves.
* **`declared?_of_reference?`** — where there is a reference, its scheme is declared under its name.
-/

namespace Ramlify

/-- The kinds of security schemes. -/
inductive SchemeKind where
  | oauth2
  | basic
  | apiKey
  deriving DecidableEq, Repr

namespace SchemeKind

/-- The kinds in the order of declarations and of references. -/
def all : List SchemeKind := [oauth2, basic, apiKey]

theorem mem_all (kind : SchemeKind) : kind ∈ all := by
  cases kind <;> decide

/-- The type that a declaration of a kind has. -/
def type (version : Raml.Version) : SchemeKind → String
  | oauth2 => "OAuth 2.0"
  | basic => "Basic Authentication"
  | apiKey => version.apiKeyType

end SchemeKind

/-- Whether there is a scheme of a kind: with name and password only under a name, and with keys
only if these travel somewhere. -/
def SecuritySchemes.SetUp (schemes : SecuritySchemes) : SchemeKind → Prop
  | .oauth2 => ∃ scheme, schemes.oauth2 = some scheme
  | .basic => ∃ scheme name, schemes.basic = some scheme ∧ scheme.name = some name ∧ name ≠ ""
  | .apiKey => ∃ scheme, schemes.apiKey = some scheme ∧ (scheme.headers ≠ [] ∨ scheme.query ≠ [])

/-- The name of the scheme of a kind. -/
def SecuritySchemes.nameOf? (schemes : SecuritySchemes) : SchemeKind → Option String
  | .oauth2 => schemes.oauth2.map (·.declaredName)
  | .basic => schemes.basic.bind (·.declaredName?)
  | .apiKey => (schemes.apiKey.filter (·.isUsed)).map (·.declaredName)

/-- The names under which schemes are declared. -/
def SecuritySchemes.names (schemes : SecuritySchemes) : List String :=
  SchemeKind.all.filterMap schemes.nameOf?

/-- Whether a scheme of a kind is required. -/
def SecuredBy.requires (required : SecuredBy) : SchemeKind → Bool
  | .oauth2 => required.oauth2.isSome
  | .basic => required.basic
  | .apiKey => required.apiKey

end Ramlify

namespace Ramlify.Raml

/-! ## Declarations

The function that declares schemes goes through them one after another, in the order of the kinds.
-/

section

variable (version : Version) (schemes : SecuritySchemes)

/-- The declaration of the scheme of a kind, under its name. -/
def declared? : SchemeKind → Option (String × Value)
  | .oauth2 => schemes.oauth2.map fun s => (s.declaredName, oauth2Declaration version s)
  | .basic => schemes.basic.bind fun s =>
      s.declaredName?.map fun name => (name, basicDeclaration s)
  | .apiKey => (schemes.apiKey.filter (·.isUsed)).map fun s =>
      (s.declaredName, apiKeyDeclaration version s)

/-- A choice among the kinds, kind by kind. -/
theorem filterMap_all {α : Type} (f : SchemeKind → Option α) :
    SchemeKind.all.filterMap f = (f .oauth2).toList ++ (f .basic).toList ++ (f .apiKey).toList := by
  unfold SchemeKind.all
  simp only [List.filterMap_cons, List.filterMap_nil]
  cases f .oauth2 <;> cases f .basic <;> cases f .apiKey <;> rfl

/-- **The declarations, kind by kind.** -/
theorem schemeDeclarations_eq :
    schemeDeclarations version schemes
      = Entries.ofList (SchemeKind.all.filterMap (declared? version schemes)) := by
  obtain ⟨oauth2, basic, apiKey⟩ := schemes
  -- A scheme with name and password is declared under its name only.
  have hbasic : basic.toList.filterMap (fun s =>
        s.declaredName?.map fun name => (name, basicDeclaration s))
      = (basic.bind fun s =>
          s.declaredName?.map fun name => (name, basicDeclaration s)).toList := by
    cases basic with
    | none => rfl
    | some s => cases hname : s.declaredName? <;> simp [hname]
  -- A scheme with keys is declared if the keys are used.
  have hapiKey : (apiKey.toList.filter (·.isUsed)).map (fun s =>
        (s.declaredName, apiKeyDeclaration version s))
      = ((apiKey.filter (·.isUsed)).map fun s =>
          (s.declaredName, apiKeyDeclaration version s)).toList := by
    cases apiKey with
    | none => rfl
    | some s => cases hused : s.isUsed <;> simp [Option.filter, hused]
  unfold schemeDeclarations
  rw [filterMap_all, hbasic, hapiKey]
  cases oauth2 <;> rfl

theorem fst_declared? (kind : SchemeKind) :
    (declared? version schemes kind).map (·.1) = schemes.nameOf? kind := by
  cases kind with
  | oauth2 => cases hscheme : schemes.oauth2 <;> simp [declared?, SecuritySchemes.nameOf?, hscheme]
  | basic =>
    cases hscheme : schemes.basic with
    | none => simp [declared?, SecuritySchemes.nameOf?, hscheme]
    | some s => cases hname : s.declaredName? <;>
        simp [declared?, SecuritySchemes.nameOf?, hscheme, hname]
  | apiKey => simp [declared?, SecuritySchemes.nameOf?, Function.comp_def]

/-- The declarations stand under the names of the schemes. -/
theorem keys_declared? :
    Entries.keys (SchemeKind.all.filterMap (declared? version schemes)) = schemes.names := by
  rw [Entries.keys, List.map_filterMap, SecuritySchemes.names]
  exact congrArg (List.filterMap · SchemeKind.all) (funext (fst_declared? version schemes))

end

section

variable {version : Version} {schemes : SecuritySchemes} {kind : SchemeKind} {name : String}
  {d : Value}

/-- A scheme is declared exactly if there is one. -/
theorem declared?_isSome_iff (version : Version) :
    (declared? version schemes kind).isSome ↔ schemes.SetUp kind := by
  cases kind with
  | oauth2 => cases hscheme : schemes.oauth2 <;> simp [declared?, SecuritySchemes.SetUp, hscheme]
  | basic =>
    cases hscheme : schemes.basic with
    | none => simp [declared?, SecuritySchemes.SetUp, hscheme]
    | some s =>
      cases hname : s.name <;>
        simp [declared?, SecuritySchemes.SetUp, BasicScheme.declaredName?, hscheme, hname,
          Option.filter]
  -- Keys are used if there are headers or query parameters for them.
  | apiKey =>
    cases hscheme : schemes.apiKey with
    | none => simp [declared?, SecuritySchemes.SetUp, hscheme]
    | some s =>
      cases hheaders : s.headers <;> cases hquery : s.query <;>
        simp [declared?, SecuritySchemes.SetUp, ApiKeyScheme.isUsed, hscheme, hheaders, hquery,
          Option.filter]

/-- A declaration has the type of its kind. -/
theorem type_of_declared? (h : declared? version schemes kind = some (name, d)) :
    ∃ fields, d = .obj fields ∧ Entries.get? fields "type" = some (.str (kind.type version)) := by
  -- A description that is put behind the type leaves it.
  have hkept : ∀ (fields : Members) (description : Value) (type : String),
      Entries.get? fields "type" = some (.str type) →
      Entries.get? (Members.putGiven fields "description" description) "type"
        = some (.str type) :=
    fun fields description type htype =>
      (Members.get?_putGiven_of_ne fields description (by decide)).trans htype
  cases kind with
  | oauth2 =>
    obtain ⟨s, _, heq⟩ := Option.map_eq_some_iff.mp h
    cases heq
    exact ⟨_, rfl, rfl⟩
  | basic =>
    obtain ⟨s, _, hdeclared⟩ := Option.bind_eq_some_iff.mp h
    obtain ⟨_, _, heq⟩ := Option.map_eq_some_iff.mp hdeclared
    cases heq
    exact ⟨_, rfl, hkept _ _ _ rfl⟩
  | apiKey =>
    obtain ⟨s, _, heq⟩ := Option.map_eq_some_iff.mp h
    cases heq
    exact ⟨_, rfl, hkept _ _ _ rfl⟩

theorem mem_schemeDeclarations_of_declared? (h : declared? version schemes kind = some (name, d)) :
    name ∈ Entries.keys (schemeDeclarations version schemes) := by
  rw [schemeDeclarations_eq, Entries.keys_ofList, List.mem_eraseDups]
  exact List.mem_map_of_mem (List.mem_filterMap.mpr ⟨kind, kind.mem_all, h⟩)

/-- Under names that are all distinct each declaration can be found. -/
theorem get?_schemeDeclarations (hnames : schemes.names.Nodup)
    (h : declared? version schemes kind = some (name, d)) :
    Entries.get? (schemeDeclarations version schemes) name = some d := by
  rw [← keys_declared? version schemes] at hnames
  rw [schemeDeclarations_eq, Entries.ofList_of_nodup hnames]
  exact Entries.get?_of_mem hnames (List.mem_filterMap.mpr ⟨kind, kind.mem_all, h⟩)

end

/-! ## References

References are made in the same order. A scheme that grants scopes is referred to by an object with
its name, any other one by the name itself. -/

/-- The name that a reference refers to. -/
def referenceName? : Value → Option String
  | .str name => some name
  | .obj [(name, _)] => some name
  | _ => none

/-- A reference to a scheme of a kind under some name, with the scopes that are required. -/
def referenceTo (required : SecuredBy) (kind : SchemeKind) (name : String) : Value :=
  match kind with
  | .oauth2 => oauth2Reference name (required.oauth2.getD [])
  | .basic | .apiKey => .str name

/-- The reference to the scheme of a kind, if it is required and there is one. -/
def reference? (required : SecuredBy) (schemes : SecuritySchemes) (kind : SchemeKind) :
    Option Value :=
  if required.requires kind then (schemes.nameOf? kind).map (referenceTo required kind) else none

section

variable {required : SecuredBy} {schemes : SecuritySchemes} {kind : SchemeKind} {r : Value}

theorem referenceName?_referenceTo (required : SecuredBy) (kind : SchemeKind) (name : String) :
    referenceName? (referenceTo required kind name) = some name := by
  cases kind with
  | oauth2 =>
    unfold referenceTo oauth2Reference
    dsimp only
    split <;> rfl
  | basic | apiKey => rfl

/-- **The references, kind by kind.** -/
theorem securedBy_eq (required : SecuredBy) (schemes : SecuritySchemes) :
    securedBy required schemes = SchemeKind.all.filterMap (reference? required schemes) := by
  obtain ⟨scopes, needsBasic, needsKey⟩ := required
  obtain ⟨oauth2, basic, apiKey⟩ := schemes
  -- A scheme that is required but not there gives no reference.
  have hbasic : (if needsBasic then (basic.bind (·.declaredName?)).toList.map Value.str else [])
      = (if needsBasic then (basic.bind (·.declaredName?)).map Value.str else none).toList := by
    cases needsBasic with
    | false => rfl
    | true => cases basic.bind (·.declaredName?) <;> rfl
  have hapiKey : (if needsKey then (apiKey.toList.filter (·.isUsed)).map fun s =>
        Value.str s.declaredName else [])
      = (if needsKey then ((apiKey.filter (·.isUsed)).map (·.declaredName)).map Value.str
          else none).toList := by
    cases needsKey with
    | false => rfl
    | true =>
      cases apiKey with
      | none => rfl
      | some s => cases hused : s.isUsed <;> simp [Option.filter, hused]
  unfold securedBy
  rw [filterMap_all]
  dsimp only
  rw [hbasic, hapiKey]
  cases scopes <;> cases oauth2 <;> rfl

/-- A reference is made exactly if a scheme of its kind is required and there is one. -/
theorem reference?_isSome_iff :
    (reference? required schemes kind).isSome
      ↔ required.requires kind = true ∧ schemes.SetUp kind := by
  have hname : (schemes.nameOf? kind).isSome ↔ schemes.SetUp kind := by
    rw [← fst_declared? .v10, Option.isSome_map, declared?_isSome_iff]
  unfold reference?
  split
  · next hrequired => rw [Option.isSome_map, hname, hrequired, and_iff_right rfl]
  · next hrequired => simp [hrequired]

/-- **A reference has a declaration**, which stands under the name that it refers to. -/
theorem declared?_of_reference? (version : Version)
    (h : reference? required schemes kind = some r) :
    ∃ name d, referenceName? r = some name
      ∧ declared? version schemes kind = some (name, d) := by
  unfold reference? at h
  split at h
  · obtain ⟨name, hname, rfl⟩ := Option.map_eq_some_iff.mp h
    rw [← fst_declared? version schemes kind] at hname
    obtain ⟨⟨_, d⟩, hdeclared, rfl⟩ := Option.map_eq_some_iff.mp hname
    exact ⟨_, d, referenceName?_referenceTo required kind _, hdeclared⟩
  · cases h

end

end Ramlify.Raml
