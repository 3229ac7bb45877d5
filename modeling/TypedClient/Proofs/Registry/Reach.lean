/-
  TypedClient.Proofs.Registry.Reach

  What calls of `add` reach: the positions that can be walked, the references on them, and the
  schemas that can take a name.  All of it is told from the document and the calls alone.  Whether
  a walk comes by also depends on the names that are taken by then, so that a reached position is
  said to be walked in a registry only when the registry has all that a walk of it registers.
-/
import TypedClient.Proofs.Registry.Growth

namespace TypedClient
namespace Registry

/-! ## Calls -/

/-- A call of `add`: a name, the schema to register under it, and how it is declared. -/
structure Request where
  name : String
  root : SchemaNode
  asStruct : Bool

namespace Request

/-- The reference that the schema of a call is, when it is one. -/
def reference? (request : Request) : Option String := request.root.cleanup.object?.bind (·.ref)

/-- The name that a call answers. -/
def answer (request : Request) : String :=
  match request.reference? with
  | some reference => Reference.name reference
  | none => request.name

end Request

section

variable (document : Json) (requests : List Request)

/-! ## Positions -/

/-- A walk that starts from one of the calls can come by the node, under the name, if any. -/
inductive Reached : SchemaNode → Option String → Prop where
  /-- The shape of a call. -/
  | shape {request : Request} {stored : SchemaNode} (mem : request ∈ requests)
      (inline : request.reference? = none) (stores : request.root.Stores document stored) :
      Reached stored (some request.name)
  /-- The target of the reference that a call is. -/
  | answered {request : Request} {reference : String} {target stored : SchemaNode}
      (mem : request ∈ requests) (answers : request.reference? = some reference)
      (resolves : Reference.resolveNode document reference = some target)
      (stores : target.Stores document stored) :
      Reached stored (some (Reference.name reference))
  /-- The target of a reference on the way. -/
  | target {node target stored : SchemaNode} {place : Option String} {schema : Schema}
      {reference : String} (reached : Reached node place) (read : node.toSchema? = some schema)
      (visit : schema.visit place = .reference reference)
      (resolves : Reference.resolveNode document reference = some target)
      (stores : target.Stores document stored) :
      Reached stored (some (Reference.name reference))
  | position {node inner : SchemaNode} {place innerPlace : Option String} {schema : Schema}
      {positions : List (SchemaNode × Option String)} (reached : Reached node place)
      (read : node.toSchema? = some schema) (visit : schema.visit place = .positions positions)
      (mem : (inner, innerPlace) ∈ positions) :
      Reached inner innerPlace
  /-- What a composition is flattened to. -/
  | composition {node : SchemaNode} {place : Option String} {schema merged : Schema}
      (reached : Reached node place) (read : node.toSchema? = some schema)
      (visit : schema.visit place = .composition)
      (flattens : Schema.Flattens document [] schema merged) :
      Reached (.object merged) (place.map Text.enumChildName)
  /-- A walk goes by the schema of a node only. -/
  | congr {node other : SchemaNode} {place : Option String} (reached : Reached node place)
      (same : other.toSchema? = node.toSchema?) :
      Reached other place

/-- A call is the reference, or a walk that starts from one of the calls can come by it. -/
def Referred (reference : String) : Prop :=
  (∃ request ∈ requests, request.reference? = some reference) ∨
    ∃ node place schema, Reached document requests node place ∧ node.toSchema? = some schema ∧
      schema.visit place = .reference reference

/-- The position is reached, and the registry has all that a walk of it registers. -/
structure Walked (registry : Registry) (node : SchemaNode) (place : Option String) : Prop where
  reached : Reached document requests node place
  done : ∃ fuel before after, walk document fuel before node place = some after ∧
    Extends after registry

/-- Where a schema under a name comes from: from a call with the name, from a walked reference with
    the name, or from an enumeration or a composition at a walked position that gives it the
    name. -/
inductive Origin (registry : Registry) : String → SchemaNode → Prop where
  | shape {request : Request} {stored : SchemaNode} (mem : request ∈ requests)
      (inline : request.reference? = none) (stores : request.root.Stores document stored) :
      Origin registry request.name stored
  | target {reference : String} {target stored : SchemaNode}
      (referred : Referred document requests reference) (visited : reference ∈ registry.visited)
      (resolves : Reference.resolveNode document reference = some target)
      (stores : target.Stores document stored) :
      Origin registry (Reference.name reference) stored
  | enumeration {node : SchemaNode} {name : String} {schema : Schema}
      (walked : Walked document requests registry node (some name))
      (read : node.toSchema? = some schema) (visit : schema.visit (some name) = .enumeration) :
      Origin registry name (.object schema)
  | composition {node : SchemaNode} {parent : String} {schema merged : Schema}
      (walked : Walked document requests registry node (some parent))
      (read : node.toSchema? = some schema) (visit : schema.visit (some parent) = .composition)
      (flattens : Schema.Flattens document [] schema merged) :
      Origin registry (Text.enumChildName parent) (.object merged)

end

variable {document : Json} {requests : List Request} {registry later : Registry}
  {node : SchemaNode} {place : Option String} {schema : Schema}

/-- The target of a reference that a walk can come by is reached. -/
theorem Referred.reached {reference : String} {target stored : SchemaNode}
    (h : Referred document requests reference)
    (hresolves : Reference.resolveNode document reference = some target)
    (hstores : target.Stores document stored) :
    Reached document requests stored (some (Reference.name reference)) := by
  rcases h with ⟨request, hmem, hanswers⟩ | ⟨node, place, schema, hreached, hread, hvisit⟩
  · exact .answered hmem hanswers hresolves hstores
  · exact .target hreached hread hvisit hresolves hstores

/-! ## Walked positions -/

theorem Walked.mono (h : Walked document requests registry node place)
    (hle : Extends registry later) : Walked document requests later node place := by
  obtain ⟨hreached, fuel, before, after, hwalk, hafter⟩ := h
  exact ⟨hreached, fuel, before, after, hwalk, hafter.trans hle⟩

/-- A walk goes by the schema of a node only. -/
theorem Walked.congr {other : SchemaNode} (h : Walked document requests registry node place)
    (heq : other.toSchema? = node.toSchema?) : Walked document requests registry other place := by
  obtain ⟨hreached, fuel, before, after, hwalk, hafter⟩ := h
  refine ⟨hreached.congr heq, fuel, before, after, ?_, hafter⟩
  cases fuel with
  | zero => cases hwalk
  | succ fuel =>
    rw [walk] at hwalk ⊢
    rwa [heq]

theorem Walked.exists_succ (h : Walked document requests registry node place) :
    ∃ fuel before after, walk document (fuel + 1) before node place = some after ∧
      Extends after registry := by
  obtain ⟨-, fuel, before, after, hwalk, hafter⟩ := h
  cases fuel with
  | zero => cases hwalk
  | succ fuel => exact ⟨fuel, before, after, hwalk, hafter⟩

/-- Every position below a walked one was walked. -/
theorem Walked.position {positions : List (SchemaNode × Option String)}
    (h : Walked document requests registry node place) (hnode : node.toSchema? = some schema)
    (hvisit : schema.visit place = .positions positions) {inner : SchemaNode}
    {innerPlace : Option String} (hmem : (inner, innerPlace) ∈ positions) :
    Walked document requests registry inner innerPlace := by
  obtain ⟨fuel, before, after, hwalk, hafter⟩ := h.exists_succ
  rw [walk_positions hnode hvisit] at hwalk
  obtain ⟨start, next, hstep, hnext⟩ := exists_step_of_foldlM Extends.refl
    (fun _ _ _ h h' => Extends.trans h h') (fun _ _ _ hstep => walk_extends hstep) hwalk hmem
  exact ⟨h.reached.position hnode hvisit hmem, fuel, start, next, hstep, hnext.trans hafter⟩

/-- A composition without a name was walked as what it is flattened to. -/
theorem Walked.composition_none {merged : Schema} (h : Walked document requests registry node none)
    (hnode : node.toSchema? = some schema) (hvisit : schema.visit none = .composition)
    (hmerged : Schema.Flattens document [] schema merged) :
    Walked document requests registry (.object merged) none := by
  obtain ⟨fuel, before, after, hwalk, hafter⟩ := h.exists_succ
  rw [walk_composition_none hnode hvisit] at hwalk
  obtain ⟨result, hresult, hwalk⟩ := Option.bind_eq_some_iff.mp hwalk
  -- The walk flattened with its own fuel, but to the same schema.
  obtain rfl : result = merged := Schema.Flattens.unique ⟨fuel, hresult⟩ hmerged
  exact ⟨h.reached.composition hnode hvisit hmerged, fuel, before, after, hwalk, hafter⟩

/-- The name that a named composition derives has an entry. -/
theorem Walked.has_enumChildName {parent : String}
    (h : Walked document requests registry node (some parent))
    (hnode : node.toSchema? = some schema) (hvisit : schema.visit (some parent) = .composition) :
    registry.has (Text.enumChildName parent) = true := by
  obtain ⟨fuel, before, after, hwalk, hafter⟩ := h.exists_succ
  refine hafter.has ?_
  rw [walk_composition_some hnode hvisit] at hwalk
  obtain ⟨merged, -, hwalk⟩ := Option.bind_eq_some_iff.mp hwalk
  split at hwalk
  · next hhas => exact Option.some.inj hwalk ▸ hhas
  · obtain ⟨walked, -, rfl⟩ := Option.map_eq_some_iff.mp hwalk
    exact has_insertNew ..

/-- The name of a walked enumeration has an entry. -/
theorem Walked.has_enumeration {name : String}
    (h : Walked document requests registry node (some name)) (hnode : node.toSchema? = some schema)
    (hvisit : schema.visit (some name) = .enumeration) : registry.has name = true := by
  obtain ⟨fuel, before, after, hwalk, hafter⟩ := h.exists_succ
  refine hafter.has ?_
  rw [walk_enumeration hnode hvisit] at hwalk
  obtain rfl := Option.some.inj hwalk
  exact has_insertNew ..

/-- The reference at a walked position was registered. -/
theorem Walked.register {reference : String} (h : Walked document requests registry node place)
    (hnode : node.toSchema? = some schema) (hvisit : schema.visit place = .reference reference) :
    ∃ (fuel : Nat) (before after : Registry),
      before.register document fuel reference true = some after ∧
      Extends after registry := by
  obtain ⟨fuel, before, after, hwalk, hafter⟩ := h.exists_succ
  rw [walk_reference hnode hvisit] at hwalk
  exact ⟨fuel, before, after, hwalk, hafter⟩

/-! ## Names -/

theorem Origin.mono {name : String} {stored : SchemaNode}
    (h : Origin document requests registry name stored) (hle : Extends registry later) :
    Origin document requests later name stored := by
  cases h with
  | shape mem inline stores => exact .shape mem inline stores
  | target referred visited resolves stores =>
    exact .target referred (hle.visited.subset visited) resolves stores
  | enumeration walked read visit => exact .enumeration (walked.mono hle) read visit
  | composition walked read visit flattens =>
    exact .composition (walked.mono hle) read visit flattens

end Registry
end TypedClient
