/-
  TypedClient.Proofs.Registry.Calls

  The calls of a walk: which call makes which, and in what order they are made.

  A call makes other ones for the positions inside it, for what a composition is flattened to, and
  for the target of the reference that it starts from.  Each of them has an address, which counts the
  calls on the way to it.  Of two calls within a third one, one is made within the other, or has
  ended before the other begins (`Call.At.ordered`).
-/
import TypedClient.Proofs.Registry.Course

namespace TypedClient
namespace Registry

open Relation

variable {document : Json}

/-- Of two items of a list, the one is the other or comes before it, or after it. -/
theorem split_cases {α : Type} {first first' rest rest' : List α} {item item' : α}
    (h : first ++ item :: rest = first' ++ item' :: rest') :
    (first = first' ∧ item = item') ∨ (∃ tail, first' = first ++ item :: tail) ∨
      ∃ tail, first = first' ++ item' :: tail := by
  rcases List.append_eq_append_iff.mp h with ⟨tail, rfl, htail⟩ | ⟨tail, rfl, htail⟩
  · cases tail with
    | nil => exact Or.inl ⟨(List.append_nil _).symm, (List.cons.inj htail).1⟩
    | cons next tail => exact Or.inr (Or.inl ⟨tail, (List.cons.inj htail).1 ▸ rfl⟩)
  · cases tail with
    | nil => exact Or.inl ⟨List.append_nil _, (List.cons.inj htail).1.symm⟩
    | cons next tail => exact Or.inr (Or.inr ⟨tail, (List.cons.inj htail).1 ▸ rfl⟩)

/-! ## The target of a reference -/

/-- Registering a reference makes a call: the reference is new and leads somewhere, and its name is
    free. -/
inductive Opens (document : Json) (fuel : Nat) (registry : Registry) (reference : String) :
    Call → Prop where
  | target {target stored : SchemaNode} (free : registry.has (Reference.name reference) = false)
      (fresh : reference ∉ registry.visited)
      (resolves : Reference.resolveNode document reference = some target)
      (flattens : target.cleanup.flattenAllOf? document fuel = some stored) :
      Opens document fuel registry reference ⟨fuel,
        (registry.visit reference).keepTarget reference stored, stored,
        some (Reference.name reference)⟩

namespace Opens

variable {fuel : Nat} {registry after : Registry} {reference : String} {call other : Call}

theorem unique (h : Opens document fuel registry reference call)
    (h' : Opens document fuel registry reference other) : call = other := by
  obtain ⟨-, -, resolves, flattens⟩ := h
  obtain ⟨-, -, resolves', flattens'⟩ := h'
  obtain rfl := Option.some.inj (resolves.symm.trans resolves')
  obtain rfl := Option.some.inj (flattens.symm.trans flattens')
  rfl

/-- The reference is marked before the call is made. -/
theorem visited (h : Opens document fuel registry reference call) :
    call.registry.visited = registry.visited ++ [reference] := by
  cases h
  exact visited_keepTarget ..

theorem marked (h : Opens document fuel registry reference call) :
    reference ∈ call.registry.visited :=
  h.visited ▸ List.mem_append_right _ (List.mem_singleton.mpr rfl)

theorem fresh (h : Opens document fuel registry reference call) :
    reference ∉ registry.visited := by
  cases h
  assumption

theorem place (h : Opens document fuel registry reference call) :
    call.place = some (Reference.name reference) := by
  cases h
  rfl

/-- The call is for what is stored for the target of the reference. -/
theorem stores (h : Opens document fuel registry reference call) :
    ∃ target, Reference.resolveNode document reference = some target ∧
      target.Stores document call.node := by
  obtain ⟨-, -, resolves, flattens⟩ := h
  exact ⟨_, resolves, fuel, flattens⟩

theorem node_eq {target stored : SchemaNode} (h : Opens document fuel registry reference call)
    (htarget : Reference.resolveNode document reference = some target)
    (hstores : target.Stores document stored) : call.node = stored := by
  obtain ⟨target', htarget', hstores'⟩ := h.stores
  obtain rfl := Option.some.inj (htarget'.symm.trans htarget)
  exact SchemaNode.Stores.unique hstores' hstores

/-- The call ends when the reference gets registered, and its target is inserted then. -/
theorem inserts {asStruct : Bool} (h : Opens document fuel registry reference call)
    (hregister : registry.register document fuel reference asStruct = some after) :
    ∃ walked, call.Returns document walked ∧ after = walked.insertNew (Reference.name reference)
      ⟨call.node, !asStruct, call.node.isEnumLike⟩ := by
  obtain ⟨free, fresh, resolves, flattens⟩ := h
  rcases register_cases hregister with ⟨-, hskip⟩ | ⟨-, -, -, ⟨hmissing, -⟩ |
    ⟨target, stored, walked, htarget, hstored, hwalked, rfl⟩⟩
  · -- Nothing was skipped.
    rcases hskip with hexternal | htaken | hvisited
    · rw [Reference.resolveNode, Reference.resolve, hexternal] at resolves
      cases resolves
    · rw [free] at htaken
      cases htaken
    · exact absurd hvisited fresh
  · rw [hmissing] at resolves
    cases resolves
  · obtain rfl := Option.some.inj (htarget.symm.trans resolves)
    obtain rfl := Option.some.inj (hstored.symm.trans flattens)
    exact ⟨walked, hwalked, rfl⟩

/-- The same for the call that a walk makes at a reference. -/
theorem inserts_of_refers {node : SchemaNode} {place : Option String}
    (h : Opens document fuel registry reference call) (hrefers : Refers (node, place) reference)
    (hreturns : Call.Returns document ⟨fuel + 1, registry, node, place⟩ after) :
    ∃ walked, call.Returns document walked ∧ after = walked.insertNew (Reference.name reference)
      ⟨call.node, false, call.node.isEnumLike⟩ := by
  obtain ⟨schema, hread, hvisit⟩ := hrefers
  unfold Call.Returns at hreturns
  rw [walk_reference hread hvisit] at hreturns
  exact h.inserts hreturns

end Opens

/-- The call for a target starts from a registry with one more mark. -/
theorem Opens.extends {fuel : Nat} {registry : Registry} {reference : String} {call : Call}
    (h : Opens document fuel registry reference call) : Extends registry call.registry := by
  obtain ⟨-, fresh, -, -⟩ := h
  exact extends_keepTarget fresh _

/-! ## Calls within a call -/

namespace Call

/-- A call makes another one: itself, or by registering the reference that it starts from. -/
inductive Leads (document : Json) : Call → Call → Prop where
  | makes {call inner : Call} (makes : Makes document call inner) : Leads document call inner
  | opens {fuel : Nat} {registry : Registry} {node : SchemaNode} {place : Option String}
      {reference : String} {inner : Call} (refers : Refers (node, place) reference)
      (opens : Opens document fuel registry reference inner) :
      Leads document ⟨fuel + 1, registry, node, place⟩ inner

/-- The other call is made within the call: by itself, or by one that is made within it. -/
abbrev Within (document : Json) : Call → Call → Prop := ReflTransGen (Leads document)

/-- The first call has ended before the second one begins, which starts from all that it has led
    to. -/
def EndsBefore (document : Json) (first second : Call) : Prop :=
  ∃ after, first.Returns document after ∧ Extends after second.registry

variable {call inner other : Call} {after : Registry}

/-- A call that one which ends makes does end, and what it adds stays. -/
theorem Leads.returns (h : Leads document call inner) (hreturns : call.Returns document after) :
    ∃ middle, inner.Returns document middle ∧ Extends middle after := by
  cases h with
  | makes makes => exact makes.returns hreturns
  | opens refers opens =>
    obtain ⟨walked, hwalked, rfl⟩ := opens.inserts_of_refers refers hreturns
    exact ⟨walked, hwalked, extends_insertNew ..⟩

theorem Within.returns (h : Within document call inner) (hreturns : call.Returns document after) :
    ∃ middle, inner.Returns document middle ∧ Extends middle after := by
  induction h with
  | refl => exact ⟨after, hreturns, .refl after⟩
  | tail _ hlast ih =>
    obtain ⟨middle, hmiddle, hle⟩ := ih
    obtain ⟨last, hreturns, hle'⟩ := hlast.returns hmiddle
    exact ⟨last, hreturns, hle'.trans hle⟩

/-- A call starts from what the calls around it have registered. -/
theorem Within.extends (h : Within document call inner) :
    Extends call.registry inner.registry := by
  induction h with
  | refl => exact .refl _
  | tail _ hlast ih =>
    refine ih.trans ?_
    cases hlast with
    | opens _ opens => exact opens.extends
    | makes makes =>
      cases makes with
      | position _ _ before => exact walkAll_extends before
      | composition => exact .refl _

/-- A call at a reference makes no call but the one for the target. -/
theorem Leads.eq_of_refers {fuel : Nat} {registry : Registry} {node : SchemaNode}
    {place : Option String} {reference : String}
    (h : Leads document ⟨fuel + 1, registry, node, place⟩ inner)
    (hrefers : Refers (node, place) reference)
    (hopens : Opens document fuel registry reference other) : inner = other := by
  cases h with
  | opens refers opens =>
    obtain ⟨schema, hread, hvisit⟩ := refers
    obtain rfl := Visit.reference.inj (hvisit.symm.trans (hrefers.visit hread))
    exact opens.unique hopens
  | makes makes =>
    cases makes with
    | position read visit => cases (hrefers.visit read).symm.trans visit
    | composition read visit => cases (hrefers.visit read).symm.trans visit

/-! ### The order of calls -/

/-- The call makes another one in its turn.  The calls for positions are counted from zero; a call
    that has none makes one call at most. -/
inductive Turn (document : Json) : Call → Nat → Call → Prop where
  | position {fuel : Nat} {registry middle : Registry} {node : SchemaNode} {place : Option String}
      {schema : Schema} {first rest : List Site} {inner : Site}
      (read : node.toSchema? = some schema)
      (visit : schema.visit place = .positions (first ++ inner :: rest))
      (before : first.foldlM (fun registry position =>
        walk document fuel registry position.1 position.2) registry = some middle) :
      Turn document ⟨fuel + 1, registry, node, place⟩ first.length
        ⟨fuel, middle, inner.1, inner.2⟩
  | composition {fuel : Nat} {registry : Registry} {node : SchemaNode} {place : Option String}
      {schema merged : Schema} (read : node.toSchema? = some schema)
      (visit : schema.visit place = .composition)
      (free : ∀ parent, place = some parent →
        registry.has (Text.enumChildName parent) = false)
      (flattens : schema.resolveAllOf? document fuel = some merged) :
      Turn document ⟨fuel + 1, registry, node, place⟩ 0
        ⟨fuel, registry, .object merged, place.map Text.enumChildName⟩
  | target {fuel : Nat} {registry : Registry} {node : SchemaNode} {place : Option String}
      {reference : String} {inner : Call} (refers : Refers (node, place) reference)
      (opens : Opens document fuel registry reference inner) :
      Turn document ⟨fuel + 1, registry, node, place⟩ 0 inner

/-- The call that an address leads to: each number is the turn of the next call. -/
inductive At (document : Json) : Call → List Nat → Call → Prop where
  | here {call : Call} : At document call [] call
  | inside {call next inner : Call} {number : Nat} {address : List Nat}
      (turn : Turn document call number next) (rest : At document next address inner) :
      At document call (number :: address) inner

variable {number number' : Nat} {address address' : List Nat}

theorem Turn.leads (h : Turn document call number inner) : Leads document call inner := by
  cases h with
  | position read visit before => exact .makes (.position read visit before)
  | composition read visit free flattens => exact .makes (.composition read visit free flattens)
  | target refers opens => exact .opens refers opens

theorem Leads.exists_turn (h : Leads document call inner) :
    ∃ number, Turn document call number inner := by
  cases h with
  | opens refers opens => exact ⟨0, .target refers opens⟩
  | makes makes =>
    cases makes with
    | position read visit before => exact ⟨_, .position read visit before⟩
    | composition read visit free flattens => exact ⟨0, .composition read visit free flattens⟩

theorem At.within (h : At document call address inner) : Within document call inner := by
  induction h with
  | here => exact ReflTransGen.refl
  | inside turn _ ih => exact ReflTransGen.head turn.leads ih

theorem Within.exists_at (h : Within document call inner) :
    ∃ address, At document call address inner := by
  induction h using ReflTransGen.head_induction_on with
  | refl => exact ⟨[], .here⟩
  | head hleads _ ih =>
    obtain ⟨number, hturn⟩ := hleads.exists_turn
    obtain ⟨address, hrest⟩ := ih
    exact ⟨number :: address, .inside hturn hrest⟩

/-- The call for a position has ended before the one for a later position begins. -/
theorem endsBefore_of_later {fuel : Nat} {registry middle later : Registry} {first tail : List Site}
    {site next : Site}
    (hbefore : first.foldlM (fun registry position =>
      walk document fuel registry position.1 position.2) registry = some middle)
    (hlater : (first ++ site :: tail).foldlM (fun registry position =>
      walk document fuel registry position.1 position.2) registry = some later) :
    EndsBefore document ⟨fuel, middle, site.1, site.2⟩ ⟨fuel, later, next.1, next.2⟩ := by
  rw [List.foldlM_append] at hlater
  obtain ⟨start, hstart, hlater⟩ := Option.bind_eq_some_iff.mp hlater
  obtain rfl := Option.some.inj (hbefore.symm.trans hstart)
  rw [List.foldlM_cons] at hlater
  obtain ⟨after, hafter, hrest⟩ := Option.bind_eq_some_iff.mp hlater
  exact ⟨after, hafter, walkAll_extends hrest⟩

/-- Two calls that one call makes have the same turn, or one of them has ended before the other
    begins. -/
theorem Turn.ordered (h : Turn document call number inner)
    (h' : Turn document call number' other) :
    (number = number' ∧ inner = other) ∨ EndsBefore document inner other ∨
      EndsBefore document other inner := by
  -- A call that has no positions makes one call alone.
  cases h with
  | target refers opens =>
    cases h' with
    | target refers' opens' =>
      exact Or.inl ⟨rfl, ((Leads.opens refers' opens').eq_of_refers refers opens).symm⟩
    | position read visit => cases (refers.visit read).symm.trans visit
    | composition read visit => cases (refers.visit read).symm.trans visit
  | composition read visit _ flattens =>
    cases h' with
    | target refers => cases (refers.visit read).symm.trans visit
    | position read' visit' =>
      obtain rfl := Option.some.inj (read.symm.trans read')
      cases visit.symm.trans visit'
    | composition read' visit' _ flattens' =>
      obtain rfl := Option.some.inj (read.symm.trans read')
      obtain rfl := Option.some.inj (flattens.symm.trans flattens')
      exact Or.inl ⟨rfl, rfl⟩
  | position read visit before =>
    cases h' with
    | target refers => cases (refers.visit read).symm.trans visit
    | composition read' visit' =>
      obtain rfl := Option.some.inj (read.symm.trans read')
      cases visit.symm.trans visit'
    | position read' visit' before' =>
      obtain rfl := Option.some.inj (read.symm.trans read')
      rcases split_cases (Visit.positions.inj (visit.symm.trans visit')) with
        ⟨rfl, rfl⟩ | ⟨tail, rfl⟩ | ⟨tail, rfl⟩
      · obtain rfl := Option.some.inj (before.symm.trans before')
        exact Or.inl ⟨rfl, rfl⟩
      · exact Or.inr (Or.inl (endsBefore_of_later before before'))
      · exact Or.inr (Or.inr (endsBefore_of_later before' before))

/-- What is made within a call has ended when the call has, and begins no sooner. -/
theorem EndsBefore.within {first second : Call} (h : EndsBefore document first second)
    (hfirst : Within document first inner) (hsecond : Within document second other) :
    EndsBefore document inner other := by
  obtain ⟨after, hafter, hle⟩ := h
  obtain ⟨middle, hmiddle, hle'⟩ := hfirst.returns hafter
  exact ⟨middle, hmiddle, (hle'.trans hle).trans hsecond.extends⟩

/-- Of two calls within a call, one is made within the other, or has ended before the other
    begins. -/
theorem At.ordered (h : At document call address inner) (h' : At document call address' other) :
    (∃ rest, address' = address ++ rest ∧ At document inner rest other) ∨
      (∃ rest, address = address' ++ rest ∧ At document other rest inner) ∨
      EndsBefore document inner other ∨ EndsBefore document other inner := by
  induction h generalizing address' with
  | here => exact Or.inl ⟨address', rfl, h'⟩
  | @inside call next inner number address turn rest ih =>
    cases h' with
    | here => exact Or.inr (Or.inl ⟨number :: address, rfl, .inside turn rest⟩)
    | @inside _ next' _ number' address' turn' rest' =>
      -- The addresses part here, or go on together.
      rcases turn.ordered turn' with ⟨rfl, rfl⟩ | hends | hends
      · rcases ih rest' with ⟨tail, rfl, htail⟩ | ⟨tail, rfl, htail⟩ | hends
        · exact Or.inl ⟨tail, rfl, htail⟩
        · exact Or.inr (Or.inl ⟨tail, rfl, htail⟩)
        · exact Or.inr (Or.inr hends)
      · exact Or.inr (Or.inr (Or.inl (hends.within rest.within rest'.within)))
      · exact Or.inr (Or.inr (Or.inr (hends.within rest'.within rest.within)))

end Call

end Registry
end TypedClient
