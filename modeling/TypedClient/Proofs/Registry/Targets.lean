/-
  TypedClient.Proofs.Registry.Targets

  Which targets get walked, over the whole life of a registry.

  Each call of a walk has an address, which tells the request that it belongs to and the calls on
  the way to it.  A target is walked at the address of what asks for its reference
  (`WalksTarget`).  The reference is marked by then, and stays marked in whatever the registry
  becomes, so that no call that comes later can walk its target: each target is walked at one
  address at most.
-/
import TypedClient.Proofs.Registry.Changes
import TypedClient.Proofs.Registry.Consistency
import TypedClient.Proofs.Registry.Ending

namespace TypedClient
namespace Registry

variable {document : Json} {fuel : Nat} {address address' : List Nat} {reference : String}
  {target target' : Call}

/-! ## Within a call -/

namespace Call

variable {call other : Call}

/-- The call with this address within the call starts from the reference, and walks its target. -/
def WalksTarget (document : Json) (call : Call) (address : List Nat) (reference : String)
    (target : Call) : Prop :=
  ∃ fuel registry node place, At document call address ⟨fuel + 1, registry, node, place⟩ ∧
    Refers (node, place) reference ∧ Opens document fuel registry reference target

section

variable {registry : Registry} {node : SchemaNode} {place : Option String}

/-- A reference whose target is walked is marked in all that comes of the walk. -/
theorem EndsBefore.marked (h : EndsBefore document ⟨fuel + 1, registry, node, place⟩ other)
    (hrefers : Refers (node, place) reference)
    (hopens : Opens document fuel registry reference target) :
    reference ∈ other.registry.visited := by
  obtain ⟨after, hafter, hle⟩ := h
  obtain ⟨walked, hwalked, rfl⟩ := hopens.inserts_of_refers hrefers hafter
  exact hle.visited.subset ((walk_extends hwalked).visited.subset hopens.marked)

/-- It is marked in the walk of its target. -/
theorem At.eq_nil_or_marked (h : At document ⟨fuel + 1, registry, node, place⟩ address other)
    (hrefers : Refers (node, place) reference)
    (hopens : Opens document fuel registry reference target) :
    address = [] ∨ reference ∈ other.registry.visited := by
  cases h with
  | here => exact Or.inl rfl
  | inside turn rest =>
    obtain rfl := turn.leads.eq_of_refers hrefers hopens
    exact Or.inr (rest.within.extends.visited.subset hopens.marked)

end

/-- Within a call the target of a reference is walked once at most. -/
theorem WalksTarget.unique (h : call.WalksTarget document address reference target)
    (h' : call.WalksTarget document address' reference target') :
    address = address' ∧ target = target' := by
  obtain ⟨fuel, registry, node, place, hat, hrefers, hopens⟩ := h
  obtain ⟨fuel', registry', node', place', hat', hrefers', hopens'⟩ := h'
  -- Of two such calls the later one would find the reference marked.
  rcases hat.ordered hat' with ⟨tail, rfl, htail⟩ | ⟨tail, rfl, htail⟩ | hends | hends
  · rcases htail.eq_nil_or_marked hrefers hopens with rfl | hmarked
    · cases htail
      exact ⟨(List.append_nil _).symm, hopens.unique hopens'⟩
    · exact absurd hmarked hopens'.fresh
  · rcases htail.eq_nil_or_marked hrefers' hopens' with rfl | hmarked
    · cases htail
      exact ⟨List.append_nil _, hopens.unique hopens'⟩
    · exact absurd hmarked hopens.fresh
  · exact absurd (hends.marked hrefers hopens) hopens'.fresh
  · exact absurd (hends.marked hrefers' hopens') hopens.fresh

end Call

/-- The walk of a target does not walk it again. -/
theorem Opens.not_walksTarget {registry : Registry}
    (h : Opens document fuel registry reference target) :
    ¬ target.WalksTarget document address reference target' := by
  rintro ⟨less, start, node, place, hat, -, hopens⟩
  exact hopens.fresh (hat.within.extends.visited.subset h.marked)

/-! ## While a request is added -/

namespace Request

variable {before : Registry} {request : Request}

/-- The target of the reference is walked while the request is added: because the request is the
    reference, or within the call that the request makes. -/
inductive WalksTarget (document : Json) (fuel : Nat) (before : Registry) (request : Request) :
    List Nat → String → Call → Prop where
  | answer {reference : String} {target : Call} (answers : request.reference? = some reference)
      (opens : Opens document fuel before reference target) :
      WalksTarget document fuel before request [] reference target
  | within {call : Call} {address : List Nat} {reference : String} {target : Call}
      (starts : Starts document fuel before request call)
      (walks : call.WalksTarget document address reference target) :
      WalksTarget document fuel before request (0 :: address) reference target

/-- The reference is asked for then, and its target is what is walked. -/
theorem WalksTarget.asks (h : request.WalksTarget document fuel before address reference target) :
    ∃ less start, request.Asks document fuel before reference less start ∧
      Opens document less start reference target := by
  cases h with
  | answer answers opens => exact ⟨fuel, before, .answer answers, opens⟩
  | within starts walks =>
    obtain ⟨less, start, node, place, hat, hrefers, hopens⟩ := walks
    exact ⟨less, start, .within starts ⟨node, place, hat.within, hrefers⟩, hopens⟩

/-- The reference was not marked when the request was added. -/
theorem WalksTarget.fresh (h : request.WalksTarget document fuel before address reference target) :
    reference ∉ before.visited := by
  obtain ⟨less, start, hasks, hopens⟩ := h.asks
  exact fun hmarked => hopens.fresh (hasks.extends_start.visited.subset hmarked)

/-- The target of a reference that is asked for is walked at some address. -/
theorem Asks.exists_walksTarget {less : Nat} {start : Registry}
    (h : request.Asks document fuel before reference less start)
    (hopens : Opens document less start reference target) :
    ∃ address, request.WalksTarget document fuel before address reference target := by
  cases h with
  | answer answers => exact ⟨[], .answer answers hopens⟩
  | within starts asks =>
    obtain ⟨node, place, hwithin, hrefers⟩ := asks
    obtain ⟨address, hat⟩ := hwithin.exists_at
    exact ⟨0 :: address, .within starts ⟨less, start, node, place, hat, hrefers, hopens⟩⟩

/-- While a request is added the target of a reference is walked once at most. -/
theorem WalksTarget.unique (h : request.WalksTarget document fuel before address reference target)
    (h' : request.WalksTarget document fuel before address' reference target') :
    address = address' ∧ target = target' := by
  cases h with
  | answer answers opens =>
    cases h' with
    | answer _ opens' => exact ⟨rfl, opens.unique opens'⟩
    | within starts walks =>
      -- The call that the request makes is the walk of the target itself.
      obtain rfl := starts.unique (.answer answers opens)
      exact absurd walks opens.not_walksTarget
  | within starts walks =>
    cases h' with
    | answer answers opens =>
      obtain rfl := starts.unique (.answer answers opens)
      exact absurd walks opens.not_walksTarget
    | within starts' walks' =>
      obtain rfl := starts.unique starts'
      obtain ⟨rfl, rfl⟩ := walks.unique walks'
      exact ⟨rfl, rfl⟩

end Request

/-! ## A whole life -/

variable {registry after : Registry} {requests : List Request}

/-- The target of the reference is walked while one of the requests is added, which are added one
    after the other. -/
inductive WalksTarget (document : Json) (fuel : Nat) (registry : Registry)
    (requests : List Request) : List Nat → String → Call → Prop where
  | request {first rest : List Request} {request : Request} {before : Registry}
      {address : List Nat} {reference : String} {target : Call}
      (split : requests = first ++ request :: rest)
      (reached : addAll document fuel registry first = some before)
      (walks : request.WalksTarget document fuel before address reference target) :
      WalksTarget document fuel registry requests (first.length :: address) reference target

/-- A reference that gets marked and leads somewhere has its target walked. -/
theorem exists_walksTarget {node : SchemaNode}
    (h : addAll document fuel registry requests = some after) (hmarked : reference ∈ after.visited)
    (hfresh : reference ∉ registry.visited)
    (hresolves : Reference.resolveNode document reference = some node) :
    ∃ address target, WalksTarget document fuel registry requests address reference target := by
  refine foldlM_preserves_split (P := fun middle => reference ∈ middle.visited →
    ∃ address target, WalksTarget document fuel registry requests address reference target)
    ?_ h (fun hmarked => absurd hmarked hfresh) hmarked
  intro first request rest before next hsplit hbefore hstep hP hmarked
  obtain ⟨⟨answer, next⟩, hadd, rfl⟩ := Option.map_eq_some_iff.mp hstep
  -- The mark was there before the request, or came of a reference that the request asks for.
  rcases (add_becomes hadd).asked_of_visited hmarked with
    hbefore | ⟨less, start, hasks, hmissing | ⟨target, hopens⟩⟩
  · exact hP hbefore
  · cases hmissing.symm.trans hresolves
  · obtain ⟨address, hwalks⟩ := hasks.exists_walksTarget hopens
    exact ⟨_, target, .request hsplit hbefore hwalks⟩

namespace WalksTarget

/-- A reference whose target is walked was not marked at the start, and leads somewhere. -/
theorem fresh (h : WalksTarget document fuel registry requests address reference target) :
    reference ∉ registry.visited ∧
      ∃ node, Reference.resolveNode document reference = some node := by
  obtain ⟨split, reached, walks⟩ := h
  obtain ⟨less, start, -, hopens⟩ := walks.asks
  obtain ⟨node, hresolves, -⟩ := hopens.stores
  exact ⟨fun hmarked => walks.fresh ((addAll_extends reached).visited.subset hmarked), node,
    hresolves⟩

/-- It is marked when its request has been added, and from then on. -/
theorem marked_of_split {first rest : List Request} {request : Request} {before : Registry}
    (walks : request.WalksTarget document fuel before address reference target)
    (reached : addAll document fuel registry first = some before)
    (h : addAll document fuel registry (first ++ request :: rest) = some after) :
    reference ∈ after.visited := by
  obtain ⟨less, start, hasks, hopens⟩ := walks.asks
  obtain ⟨middle, answer, next, hmiddle, hadd, hle⟩ := addAll_split h
  obtain rfl := Option.some.inj (reached.symm.trans hmiddle)
  exact hle.visited.subset (hasks.mem_visited hopens hadd)

theorem marked (h : WalksTarget document fuel registry requests address reference target)
    (hafter : addAll document fuel registry requests = some after) :
    reference ∈ after.visited := by
  obtain ⟨rfl, reached, walks⟩ := h
  exact marked_of_split walks reached hafter

/-- Over a whole life the target of a reference is walked once at most. -/
theorem unique (h : WalksTarget document fuel registry requests address reference target)
    (h' : WalksTarget document fuel registry requests address' reference target') :
    address = address' ∧ target = target' := by
  obtain ⟨split, reached, walks⟩ := h
  obtain ⟨split', reached', walks'⟩ := h'
  rcases split_cases (split.symm.trans split') with ⟨rfl, rfl⟩ | ⟨tail, rfl⟩ | ⟨tail, rfl⟩
  · obtain rfl := Option.some.inj (reached.symm.trans reached')
    obtain ⟨rfl, rfl⟩ := walks.unique walks'
    exact ⟨rfl, rfl⟩
  -- The later request would be added to a registry in which the reference is marked.
  · exact absurd (marked_of_split walks reached reached') walks'.fresh
  · exact absurd (marked_of_split walks' reached' reached) walks.fresh

end WalksTarget

/-! ## Cycles of references -/

/-- Calls with schemas that compose nothing end, one after the other, in a document that composes
    nothing. -/
theorem exists_addAll (hdocument : document.LoneAllOf) {requests : List Request}
    (hlone : ∀ request ∈ requests, request.root.LoneAllOf) (registry : Registry) :
    ∃ fuel after, addAll document fuel registry requests = some after := by
  have hstep : ∀ request ∈ requests, ∀ registry : Registry, True → ∃ fuel after,
      (registry.add document fuel request.name request.root request.asStruct).map (·.2) =
        some after ∧ True := by
    intro request hmem registry _
    obtain ⟨fuel, answer, after, hadd⟩ :=
      exists_add hdocument (hlone request hmem) registry request.name request.asStruct
    exact ⟨fuel, after, by rw [hadd]; rfl, trivial⟩
  obtain ⟨fuel, after, hafter, -⟩ := exists_fuel_foldlM (fun _ _ registry request hle =>
    (add_refines hle registry request.name request.root request.asStruct).map (·.2)) hstep trivial
  exact ⟨fuel, after, hafter⟩

/-- More fuel keeps what calls in a row lead to. -/
theorem addAll_refines {more : Nat} (h : fuel ≤ more) (registry : Registry)
    (requests : List Request) :
    Refines (addAll document fuel registry requests) (addAll document more registry requests) :=
  Refines.foldlM (fun registry (request : Request) =>
    (add_refines h registry request.name request.root request.asStruct).map (·.2)) requests registry

/-- Where nothing is composed a call ends from every registry, however references lead back to each
    other; and over calls in a row the target of each reference is walked at most once: it is
    walked just when the reference was not marked at the start, gets marked and leads somewhere. -/
theorem adds_end_and_walk_targets_once (hdocument : document.LoneAllOf) :
    (∀ (registry : Registry) (name : String) (root : SchemaNode) (asStruct : Bool),
      root.LoneAllOf → ∃ fuel answer after, ∀ more, fuel ≤ more →
        registry.add document more name root asStruct = some (answer, after)) ∧
    ∀ (registry : Registry) (requests : List Request),
      (∀ request ∈ requests, request.root.LoneAllOf) →
        (∃ fuel after, ∀ more, fuel ≤ more →
          addAll document more registry requests = some after) ∧
        ∀ fuel after, addAll document fuel registry requests = some after → ∀ reference,
          ((∃ address target,
              WalksTarget document fuel registry requests address reference target) ↔
            reference ∈ after.visited ∧ reference ∉ registry.visited ∧
              ∃ node, Reference.resolveNode document reference = some node) ∧
          ∀ address target address' target',
            WalksTarget document fuel registry requests address reference target →
              WalksTarget document fuel registry requests address' reference target' →
                address = address' ∧ target = target' := by
  refine ⟨fun registry name root asStruct hlone => ?_, fun registry requests hlone => ⟨?_, ?_⟩⟩
  · obtain ⟨fuel, answer, after, hadd⟩ := exists_add hdocument hlone registry name asStruct
    exact ⟨fuel, answer, after, fun more hle => add_refines hle registry name root asStruct _ hadd⟩
  · obtain ⟨fuel, after, hafter⟩ := exists_addAll hdocument hlone registry
    exact ⟨fuel, after, fun more hle => addAll_refines hle registry requests after hafter⟩
  · intro fuel after hafter reference
    refine ⟨⟨?_, ?_⟩, fun _ _ _ _ h h' => h.unique h'⟩
    · rintro ⟨address, target, hwalks⟩
      exact ⟨hwalks.marked hafter, hwalks.fresh⟩
    · rintro ⟨hmarked, hfresh, node, hresolves⟩
      exact exists_walksTarget hafter hmarked hfresh hresolves

/-- A document whose references lead back to each other: through properties, a union, a tuple and
    the values of a map. -/
def loops : Json :=
  .obj [("Node", .obj [("properties", .obj [("self", .obj [("$ref", .str "#/Node")]),
      ("peer", .obj [("$ref", .str "#/Peer")])])]),
    ("Peer", .obj [("anyOf", .arr [.obj [("$ref", .str "#/Node")],
      .obj [("items", .arr [.obj [("$ref", .str "#/Peer")], .obj [("$ref", .str "#/Map")]])]])]),
    ("Map", .obj [("type", .str "object"),
      ("additionalProperties", .obj [("$ref", .str "#/Node")])])]

/-- Asking for a node and then for its peer walks each of the three targets at one address. -/
theorem loops_walked_once : loops.LoneAllOf ∧ ∃ after,
    addAll loops 32 empty [asking "#/Node", asking "#/Peer"] = some after ∧
    after.visited = ["#/Node", "#/Peer", "#/Map"] ∧
    ∀ reference ∈ after.visited, ∃! address, ∃ target, WalksTarget loops 32 empty
      [asking "#/Node", asking "#/Peer"] address reference target := by
  have hloops : loops.LoneAllOf := Json.loneAllOf_of_all (by decide +kernel)
  have hasking : ∀ reference, (asking reference).root.LoneAllOf := fun reference =>
    SchemaNode.loneAllOf_object (.intro nofun fun inner h => nomatch h)
  have hrequests : ∀ request ∈ [asking "#/Node", asking "#/Peer"], request.root.LoneAllOf := by
    intro request hmem
    simp only [List.mem_cons, List.not_mem_nil, or_false] at hmem
    rcases hmem with rfl | rfl <;> exact hasking _
  have hvisited : (addAll loops 32 empty [asking "#/Node", asking "#/Peer"]).map (·.visited) =
      some ["#/Node", "#/Peer", "#/Map"] := by
    decide +kernel
  have hresolve : ∀ reference ∈ ["#/Node", "#/Peer", "#/Map"],
      (Reference.resolveNode loops reference).isSome = true := by
    decide +kernel
  obtain ⟨after, hafter, hmarked⟩ := Option.map_eq_some_iff.mp hvisited
  refine ⟨hloops, after, hafter, hmarked, fun reference hmem => ?_⟩
  obtain ⟨hwalked, hunique⟩ :=
    ((adds_end_and_walk_targets_once hloops).2 empty _ hrequests).2 32 after hafter reference
  obtain ⟨node, hnode⟩ := Option.isSome_iff_exists.mp (hresolve reference (hmarked ▸ hmem))
  obtain ⟨address, target, hwalks⟩ := hwalked.mpr ⟨hmem, List.not_mem_nil, node, hnode⟩
  exact ⟨address, ⟨target, hwalks⟩, fun other ⟨_, hother⟩ =>
    (hunique _ _ _ _ hother hwalks).1⟩

end Registry
end TypedClient
