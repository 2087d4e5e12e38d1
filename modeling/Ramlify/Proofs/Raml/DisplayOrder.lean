import Ramlify.Proofs.Outcome
import Ramlify.Raml.Order

/-!
# Ramlify — showing operations in an order loses none

The display groups of an API only say where an operation is shown. Without groups the operations
stay in the order in which they stand in the project.
-/

namespace Ramlify.Raml

/-- The operations in the order in which they are shown are those of the project. -/
theorem mem_inDisplayOrder {groups : List Members} {endpoints ordered : List Endpoint}
    (h : inDisplayOrder groups endpoints = .ok ordered) {e : Endpoint} :
    e ∈ ordered ↔ e ∈ endpoints := by
  unfold inDisplayOrder at h
  obtain ⟨ids, _, h⟩ := Outcome.bind_eq_ok.mp h
  cases h
  exact List.mem_mergeSort

/-- Where no ids are listed, all operations have one position, and sorting keeps their order. -/
theorem sortByPosition_nil (endpoints : List Endpoint) :
    sortByPosition [] endpoints = endpoints := by
  refine List.mergeSort_of_pairwise (List.pairwise_of_forall fun first second => ?_)
  exact decide_eq_true (Int.le_refl (-1))

/-- Without groups the order is that of the project. -/
theorem inDisplayOrder_nil (endpoints : List Endpoint) :
    inDisplayOrder [] endpoints = .ok endpoints := by
  show Except.ok (sortByPosition [] endpoints) = _
  rw [sortByPosition_nil]

end Ramlify.Raml
