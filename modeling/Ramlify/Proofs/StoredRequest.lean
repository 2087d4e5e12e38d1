import Ramlify.Model.Request
import Ramlify.Proofs.Json.RoundTrip

/-!
# Ramlify — the parts of a request are read as they were stored

Headers, query and path parameters are stored as JSON texts. What was stored as a value that can be
stored is read as that value, settled.
-/

namespace Ramlify.Request

/-- A stored value is never the empty text, which stands for nothing stored. -/
theorem isEmpty_stored {v : Value} (hv : Json.Storable v) (hkind : v.kind ≠ .str) :
    (Json.stored v).isEmpty = false := by
  refine Bool.eq_false_iff.mpr fun hempty => ?_
  obtain ⟨c, cs, hcs, _⟩ := Json.writeChars_head .stored 0 hv
  have htext := Json.toList_stored hkind
  rw [String.isEmpty_iff.mp hempty, hcs] at htext
  cases htext

/-- What is stored is not empty, so nothing is filled in for it. -/
theorem filled_stored {v : Value} (hv : Json.Storable v) (hkind : v.kind ≠ .str) :
    filled (some (Json.stored v)) = Json.stored v :=
  if_neg (by rw [isEmpty_stored hv hkind]; exact Bool.false_ne_true)

section

variable (r : Request) {v : Value}

theorem read_setHeaders (hv : Json.Storable v) (hkind : v.kind ≠ .str) :
    (r.setHeaders v).read .headers = .ok (Json.settled v) :=
  Json.parse_stored hv hkind

theorem read_setQuery (hv : Json.Storable v) (hkind : v.kind ≠ .str) :
    (r.setQuery v).read .query = .ok (Json.settled v) := by
  show Json.parse (filled (some (Json.stored v))) = _
  rw [filled_stored hv hkind, Json.parse_stored hv hkind]

/-- Path parameters are read as they were set. -/
theorem read_setPathParams (hv : Json.Storable v) (hkind : v.kind ≠ .str) :
    (r.setPathParams v).read .pathParams = .ok (Json.settled v) := by
  show Json.parse (filled (some (Json.stored v))) = _
  rw [filled_stored hv hkind, Json.parse_stored hv hkind]

end

/-- The text of headers, query and path parameters that were never stored. -/
theorem parse_emptyObject : Json.parse "{}" = .ok (.obj []) :=
  Json.parse_stored (v := .obj []) trivial (by decide)

/-- A request for which nothing was stored. -/
theorem read_bare (path method : String) : ∀ part ∈ [Part.headers, .query, .pathParams],
    ({ path, method } : Request).read part = .ok (.obj []) := by
  intro part hpart
  simp only [List.mem_cons, List.not_mem_nil, or_false] at hpart
  rcases hpart with rfl | rfl | rfl <;> exact parse_emptyObject

end Ramlify.Request
