import Mathlib.Data.List.Forall2
import Ramlify.Access
import Ramlify.Raml.Annotation

/-!
# Ramlify — taking outcomes and passes apart

A program that succeeded has succeeded step by step. The lemmas here give the steps back, for
`Outcome` and for `Pass`, so that proofs never unfold a bind themselves.
-/

namespace Ramlify

variable {α β : Type}

/-- In related lists each item on the left has one on the right. -/
theorem exists_right_of_forall₂ {R : α → β → Prop} {items : List α} {others : List β}
    (h : List.Forall₂ R items others) {a : α} (ha : a ∈ items) : ∃ b ∈ others, R a b := by
  induction h with
  | nil => cases ha
  | cons hfirst _ ih =>
    rcases List.mem_cons.mp ha with rfl | hmem
    · exact ⟨_, List.mem_cons_self, hfirst⟩
    · obtain ⟨b, hb, hrelated⟩ := ih hmem
      exact ⟨b, List.mem_cons_of_mem _ hb, hrelated⟩

namespace Outcome

/-- A step that succeeded is followed by the next one. -/
theorem ok_bind (a : α) (f : α → Outcome β) : (Except.ok a >>= f) = f a := rfl

/-- A step that failed is followed by nothing. -/
theorem error_bind (failure : Failure) (f : α → Outcome β) :
    (Except.error failure >>= f) = .error failure := rfl

theorem pure_eq (a : α) : (pure a : Outcome α) = .ok a := rfl

/-- A sequence that succeeded, whatever it can fail with: the first step did, and the second one
from there. -/
theorem bind_eq_ok {ε : Type} {x : Except ε α} {f : α → Except ε β} {b : β} :
    (x >>= f) = .ok b ↔ ∃ a, x = .ok a ∧ f a = .ok b := by
  cases x with
  | error failure =>
    constructor
    · intro h
      cases h
    · rintro ⟨a, h, _⟩
      cases h
  | ok a =>
    constructor
    · intro h
      exact ⟨a, rfl, h⟩
    · rintro ⟨a', h, hb⟩
      cases h
      exact hb

/-- A sequence that failed, whatever with: the first step did, or the second one from there. -/
theorem bind_eq_error {ε : Type} {x : Except ε α} {f : α → Except ε β} {fault : ε} :
    (x >>= f) = .error fault ↔ x = .error fault ∨ ∃ a, x = .ok a ∧ f a = .error fault := by
  cases x with
  | error found =>
    constructor
    · intro h
      cases h
      exact .inl rfl
    · rintro (h | ⟨a, h, _⟩)
      · cases h
        rfl
      · cases h
  | ok a =>
    constructor
    · intro h
      exact .inr ⟨a, rfl, h⟩
    · rintro (h | ⟨a', h, hfault⟩)
      · cases h
      · cases h
        exact hfault

theorem pure_eq_ok {a b : α} : (pure a : Outcome α) = .ok b ↔ a = b := by
  constructor
  · intro h
    cases h
    rfl
  · rintro rfl
    rfl

/-- An outcome that is seen to be a success. -/
theorem exists_of_isSome {x : Outcome α} (h : x.toOption.isSome = true) : ∃ a, x = .ok a := by
  cases x with
  | error failure => cases h
  | ok a => exact ⟨a, rfl⟩

/-- A result that is there is that of a success. -/
theorem eq_ok_of_toOption {x : Outcome α} {a : α} (h : x.toOption = some a) : x = .ok a := by
  cases x with
  | error failure => cases h
  | ok b =>
    cases h
    rfl

/-- An outcome that is seen to be a misuse. -/
theorem eq_error_of_match {x : Outcome α} {misuse : Misuse}
    (h : (match x with | .error (.misuse found) => some found | _ => none) = some misuse) :
    x = .error (.misuse misuse) := by
  split at h
  · cases h
    rfl
  · cases h

/-- In a traversal that succeeded every step did, and the results are those of the steps. -/
theorem forall₂_of_mapM {f : α → Outcome β} {items : List α} {results : List β}
    (h : items.mapM f = .ok results) : List.Forall₂ (fun a b => f a = .ok b) items results := by
  induction items generalizing results with
  | nil =>
    rw [List.mapM_nil, pure_eq_ok] at h
    subst h
    exact .nil
  | cons a items ih =>
    rw [List.mapM_cons, bind_eq_ok] at h
    obtain ⟨b, hb, h⟩ := h
    rw [bind_eq_ok] at h
    obtain ⟨rest, hrest, h⟩ := h
    rw [pure_eq_ok] at h
    subst h
    exact .cons hb (ih hrest)

/-- What a successful traversal gives comes from the items traversed. -/
theorem mem_of_mapM {f : α → Outcome β} {items : List α} {results : List β}
    (h : items.mapM f = .ok results) {b : β} (hb : b ∈ results) :
    ∃ a ∈ items, f a = .ok b :=
  exists_right_of_forall₂ (forall₂_of_mapM h).flip hb

/-- In a traversal that succeeded every step did. -/
theorem exists_of_mapM {f : α → Outcome β} {items : List α} {results : List β}
    (h : items.mapM f = .ok results) {a : α} (ha : a ∈ items) : ∃ b, f a = .ok b := by
  obtain ⟨b, _, hb⟩ := exists_right_of_forall₂ (forall₂_of_mapM h) ha
  exact ⟨b, hb⟩

/-- The results of a traversal that succeeded are those of its steps. -/
theorem mem_mapM_iff {f : α → Outcome β} {items : List α} {results : List β}
    (h : items.mapM f = .ok results) {b : β} : b ∈ results ↔ ∃ a ∈ items, f a = .ok b := by
  constructor
  · exact mem_of_mapM h
  · rintro ⟨a, ha, hb⟩
    obtain ⟨b', hmem, hb'⟩ := exists_right_of_forall₂ (forall₂_of_mapM h) ha
    cases hb'.symm.trans hb
    exact hmem

/-- A traversal by steps that all succeed succeeds, whatever they give. -/
theorem exists_mapM {f : α → Outcome β} {items : List α}
    (hf : ∀ a ∈ items, ∃ b, f a = .ok b) : ∃ results, items.mapM f = .ok results := by
  induction items with
  | nil => exact ⟨[], rfl⟩
  | cons a items ih =>
    obtain ⟨b, hb⟩ := hf a List.mem_cons_self
    obtain ⟨rest, hrest⟩ := ih fun other hother => hf other (List.mem_cons_of_mem _ hother)
    rw [List.mapM_cons, hb, ok_bind, hrest]
    exact ⟨b :: rest, rfl⟩

/-- A traversal by steps whose results are known gives the list of these. -/
theorem eq_map_of_mapM {f : α → Outcome β} {g : α → β} (hf : ∀ a b, f a = .ok b → b = g a)
    {items : List α} {results : List β} (h : items.mapM f = .ok results) :
    results = items.map g := by
  have hequal : List.Forall₂ (· = ·) (items.map g) results :=
    List.forall₂_map_left_iff.mpr ((forall₂_of_mapM h).imp fun a b hb => (hf a b hb).symm)
  rw [List.forall₂_eq_eq_eq] at hequal
  exact hequal.symm

/-- Two traversals of the same items, by steps whose results look the same. -/
theorem map_eq_map_of_mapM {γ δ : Type} {f : α → Outcome β} {g : α → Outcome γ} {k : β → δ}
    {l : γ → δ} (hsame : ∀ a b c, f a = .ok b → g a = .ok c → k b = l c) {items : List α}
    {results : List β} {others : List γ} (h : items.mapM f = .ok results)
    (h' : items.mapM g = .ok others) : results.map k = others.map l := by
  induction items generalizing results others with
  | nil =>
    cases h
    cases h'
    rfl
  | cons a items ih =>
    rw [List.mapM_cons] at h h'
    obtain ⟨b, hb, h⟩ := bind_eq_ok.mp h
    obtain ⟨rest, hrest, h⟩ := bind_eq_ok.mp h
    obtain ⟨c, hc, h'⟩ := bind_eq_ok.mp h'
    obtain ⟨rest', hrest', h'⟩ := bind_eq_ok.mp h'
    cases h
    cases h'
    rw [List.map_cons, List.map_cons, hsame a b c hb hc, ih hrest hrest']

/-- A traversal by steps that all succeed succeeds. -/
theorem mapM_eq_ok {f : α → Outcome β} {g : α → β} {items : List α}
    (hf : ∀ a ∈ items, f a = .ok (g a)) : items.mapM f = .ok (items.map g) := by
  induction items with
  | nil => rfl
  | cons a items ih =>
    rw [List.mapM_cons, hf a List.mem_cons_self,
      ih fun b hb => hf b (List.mem_cons_of_mem _ hb)]
    rfl

end Outcome

namespace Value

/-- **Where names can be looked up**: in a list, an object or a text. -/
theorem exists_holds_iff {v : Value} (name : String) :
    (∃ isHeld, v.holds name = .ok isHeld) ↔ v.kind ∈ [.list, .obj, .str] := by
  cases v with
  | list | obj | str => exact iff_of_true ⟨_, rfl⟩ (by simp [kind])
  | null | bool | int | float => exact iff_of_false nofun (by simp [kind])

/-- Asking for a name fails in one way only: what is asked is of a type that has no names or texts
in it. -/
theorem misuse_of_holds {v : Value} {name : String} {failure : Failure}
    (h : v.holds name = .error failure) : failure = .misuse .type := by
  cases v with
  | list | obj | str => cases h
  | null | bool | int | float =>
    cases h
    rfl

end Value

theorem Value.members_eq_ok {v : Value} {members : Members} (h : v.members = .ok members) :
    v = .obj members := by
  cases v with
  | obj found =>
    cases h
    rfl
  | null | bool | int | float | str | list => cases h

end Ramlify

namespace Ramlify.Raml.Pass

variable {α β : Type}

/-- A sequence that succeeded: the first part did, and the second one from its annotations. -/
theorem bind_eq_ok {p : Pass α} {f : α → Pass β} {a a'' : Annotations} {b : β} :
    (p >>= f) a = .ok (b, a'') ↔ ∃ x a', p a = .ok (x, a') ∧ f x a' = .ok (b, a'') := by
  -- A pass is an outcome of a value and the annotations after it.
  show (p a >>= fun r => f r.1 r.2) = .ok (b, a'') ↔ _
  rw [Outcome.bind_eq_ok]
  constructor
  · rintro ⟨⟨x, a'⟩, hx, hf⟩
    exact ⟨x, a', hx, hf⟩
  · rintro ⟨x, a', hx, hf⟩
    exact ⟨(x, a'), hx, hf⟩

/-- A pass that does nothing keeps the annotations. -/
theorem pure_eq_ok {x : α} {a a' : Annotations} {b : α} :
    (pure x : Pass α) a = .ok (b, a') ↔ b = x ∧ a' = a := by
  constructor
  · intro h
    cases h
    exact ⟨rfl, rfl⟩
  · rintro ⟨rfl, rfl⟩
    rfl

/-- A part of a pass that writes no annotations. -/
theorem lift_eq_ok {x : Outcome α} {a a' : Annotations} {b : α} :
    (liftM x : Pass α) a = .ok (b, a') ↔ x = .ok b ∧ a' = a := by
  show (x >>= fun r => pure (r, a)) = .ok (b, a') ↔ _
  rw [Outcome.bind_eq_ok]
  constructor
  · rintro ⟨y, hy, h⟩
    cases h
    exact ⟨hy, rfl⟩
  · rintro ⟨hx, rfl⟩
    exact ⟨b, hx, rfl⟩

/-- A traversal by steps that write no annotations writes none. -/
theorem mapM_eq_ok {f : α → Pass β} {g : α → β} {a : Annotations} {items : List α}
    (hf : ∀ item ∈ items, f item a = .ok (g item, a)) :
    items.mapM f a = .ok (items.map g, a) := by
  induction items with
  | nil => rfl
  | cons item items ih =>
    rw [List.mapM_cons, bind_eq_ok]
    refine ⟨g item, a, hf item List.mem_cons_self, bind_eq_ok.mpr ⟨items.map g, a, ?_, rfl⟩⟩
    exact ih fun other hother => hf other (List.mem_cons_of_mem _ hother)

/-- What is seen of the results of a traversal, if each step is known to that extent. -/
theorem map_eq_map_of_mapM {γ : Type} {f : α → Pass β} {k : β → γ} {g : α → γ}
    (hf : ∀ item a b a', f item a = .ok (b, a') → k b = g item) {items : List α} :
    ∀ {a a' : Annotations} {results : List β}, items.mapM f a = .ok (results, a') →
      results.map k = items.map g := by
  -- Each step starts from the annotations that the steps before it left.
  induction items with
  | nil =>
    intro a a' results h
    cases h
    rfl
  | cons item items ih =>
    intro a a' results h
    rw [List.mapM_cons] at h
    obtain ⟨b, a₁, hb, h⟩ := bind_eq_ok.mp h
    obtain ⟨rest, a₂, hrest, h⟩ := bind_eq_ok.mp h
    cases h
    rw [List.map_cons, List.map_cons, hf item a b a₁ hb, ih hrest]

end Ramlify.Raml.Pass
