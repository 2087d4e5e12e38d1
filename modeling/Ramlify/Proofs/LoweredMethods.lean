import Ramlify.Model.Project

/-!
# Ramlify — methods are in lower case

A project that is read from a description has the methods of its operations in lower case, whatever
the description says: `Request.shape` lowers them, and no other shape touches them
(**`methodsLowered_of_shape`**).
-/

namespace Ramlify

namespace Fit

variable {α β : Type} {P : β → Prop} {Q : α → Prop}

/-- Whatever fits has a property. -/
def Ensures (P : α → Prop) (x : Fit α) : Prop := ∀ a, x = fits a → P a

/-- A function that leads from one property to the other keeps what is ensured. -/
theorem Ensures.map {f : α → β} {x : Fit α} (hx : x.Ensures fun a => P (f a)) :
    (f <$> x).Ensures P := by
  intro b h
  cases x with
  | fits a =>
    cases h
    exact hx a rfl
  | misfits found => cases h

/-- The last field of a record counts for the property. -/
theorem Ensures.seq {f : Fit (α → β)} {x : Fit α} (hx : x.Ensures Q)
    (hf : f.Ensures fun g => ∀ a, Q a → P (g a)) : (f <*> x).Ensures P := by
  intro b h
  cases f with
  | fits g =>
    cases x with
    | fits a =>
      cases h
      exact hf g rfl a (hx a rfl)
    | misfits found => cases h
  | misfits found =>
    cases x with
    | fits a => cases h
    | misfits more => cases h

/-- The last field of a record does not count for the property. -/
theorem Ensures.before {f : Fit (α → β)} {x : Fit α} (hf : f.Ensures fun g => ∀ a, P (g a)) :
    (f <*> x).Ensures P :=
  Ensures.seq (Q := fun _ => True) (fun _ _ => trivial) fun g hg a _ => hf g hg a

/-- Where something stands does not change what is ensured of it. -/
theorem Ensures.under {name : String} {x : Fit α} (hx : x.Ensures Q) :
    (x.under name).Ensures Q := by
  intro a h
  cases x with
  | fits b => exact hx a h
  | misfits found => cases h

end Fit

namespace Shape

variable {α : Type} {Q : α → Prop}

/-- A member that is looked for has the property if what its shape gives has it, and the default
that stands for a missing one. -/
theorem field_ensures {members : Members} {name : String} {shape : Shape α} {default : α}
    (hshape : ∀ v, (shape v).Ensures Q) (hdefault : Q default) :
    (field members name shape default).Ensures Q := by
  unfold field
  split
  · exact (hshape _).under
  · intro a h
    cases h
    exact hdefault

/-- A record has the property if its fields give something that has it; a value that is no object
does not fit. -/
theorem record_ensures {fields : Members → Fit α} (h : ∀ m, (fields m).Ensures Q) (v : Value) :
    (record fields v).Ensures Q := by
  cases v with
  | obj m => exact h m
  | null | bool | int | float | str | list => exact nofun

/-- Each item that fits its shape has the property. By induction over the items, at whatever
position they begin. -/
theorem itemsFrom_ensures {shape : Shape α} (hshape : ∀ v, (shape v).Ensures Q)
    (items : List Value) : ∀ position : Nat,
      (itemsFrom shape position items).Ensures fun found => ∀ a ∈ found, Q a := by
  -- For any position: the items behind the first are one further.
  induction items with
  | nil =>
    intro position found h
    cases h
    exact nofun
  | cons item rest ih =>
    intro position
    refine Fit.Ensures.seq (ih (position + 1)) (Fit.Ensures.map ?_)
    intro first hfirst more hmore
    exact List.forall_mem_cons.mpr ⟨(hshape item).under first hfirst, hmore⟩

theorem list_ensures {shape : Shape α} (hshape : ∀ v, (shape v).Ensures Q) (v : Value) :
    (list shape v).Ensures fun found => ∀ a ∈ found, Q a := by
  cases v with
  | list items => exact itemsFrom_ensures hshape items 0
  | null | bool | int | float | str | obj => exact nofun

end Shape

/-! ## Methods

The method is lowered in one place. From there the property goes through the record of a request,
the record of an endpoint and the list of endpoints. -/

/-- A request whose method is in lower case. -/
def Request.Lowered (r : Request) : Prop := ∃ s, r.method = Unicode.lower s

theorem lowered_empty : ∃ s, "" = Unicode.lower s := by
  refine ⟨"", ?_⟩
  rw [Unicode.lower, String.toList_empty, Unicode.lowerChars]

/-- A request that is read has its method in lower case, also where none is given. -/
theorem Request.lowered_of_shape (v : Value) : (Request.shape v).Ensures Request.Lowered := by
  refine Shape.record_ensures (fun m => ?_) v
  -- The fields behind the method.
  iterate 4 refine Fit.Ensures.before ?_
  refine Fit.Ensures.seq (Q := fun method => ∃ s, method = Unicode.lower s) ?_ ?_
  · refine Shape.field_ensures (fun given => Fit.Ensures.map ?_) lowered_empty
    exact fun s _ => ⟨s, rfl⟩
  · refine Fit.Ensures.map ?_
    intro path _ method hmethod headers query pathParams bodies
    exact hmethod

/-- The request of an endpoint has a method in lower case, also where the endpoint has none and the
empty request stands for it. -/
theorem Endpoint.lowered_of_shape (v : Value) :
    (Endpoint.shape v).Ensures fun e => e.request.Lowered := by
  refine Shape.record_ensures (fun m => ?_) v
  -- Only the request counts, so the fields around it are passed over.
  iterate 14 refine Fit.Ensures.before ?_
  refine Fit.Ensures.map (Fit.Ensures.seq (Q := Request.Lowered) ?_ ?_)
  · exact Shape.field_ensures Request.lowered_of_shape lowered_empty
  · iterate 2 refine Fit.Ensures.before ?_
    refine Fit.Ensures.map ?_
    intro id _ name consumes request hrequest
    intros
    exact hrequest

/-- A project all of whose methods are in lower case. -/
def Project.MethodsLowered (project : Project) : Prop :=
  ∀ e ∈ project.endpoints, e.request.Lowered

/-- **Whatever a description says, the methods of the project that it fits are in lower case.** -/
theorem Project.methodsLowered_of_shape {v : Value} {project : Project}
    (h : Project.shape v = .fits project) : project.MethodsLowered := by
  refine Shape.record_ensures (Q := Project.MethodsLowered) (fun m => ?_) v project h
  iterate 8 refine Fit.Ensures.before ?_
  refine Fit.Ensures.seq (Q := fun endpoints => ∀ e ∈ endpoints, e.request.Lowered) ?_ ?_
  · refine Shape.field_ensures (Shape.list_ensures Endpoint.lowered_of_shape) ?_
    intro e he
    cases he
  · refine Fit.Ensures.before (Fit.Ensures.map ?_)
    intro name _ description endpoints hendpoints
    intros
    exact hendpoints

end Ramlify
