/-
  TypedClient.Proofs.Registry.Occurrence

  The calls of `walk` that occur in the course of calls of `add`, what they put under a name, and
  what becomes of the schema that such a call offers for the name of its position.

  Every entry was put under its name in the course of the calls of `add`, by one of them or by a
  call of `walk` (`Adds.get?_iff_placed`), and every marked reference was asked for
  (`Adds.exists_asked`).

  A name keeps the schema that was stored under it first.  An enumeration is stored as soon as it
  is come to.  A composition is stored after what it is flattened to has been walked, and that walk
  may store something under the very same name.  So a schema that is offered is under its name just
  when the call finds no other one there, neither before it nor, for a composition, within it.
-/
import TypedClient.Proofs.Registry.Changes
import TypedClient.Proofs.Registry.Consistency

namespace TypedClient
namespace Registry

open Relation

/-! ## What is done in the course of a run -/

/-- It holds of a request of the run, when that is added to what the ones before it have led to. -/
inductive During (document : Json) (P : Nat → Registry → Request → Prop) :
    List Request → Registry → Prop where
  | earlier {requests : List Request} {before after : Registry} {request : Request} {fuel : Nat}
      {answer : String} (during : During document P requests before)
      (last : before.add document fuel request.name request.root request.asStruct =
        some (answer, after)) :
      During document P (requests ++ [request]) after
  | last {requests : List Request} {before after : Registry} {request : Request} {fuel : Nat}
      {answer : String} (first : Adds document requests before)
      (last : before.add document fuel request.name request.root request.asStruct =
        some (answer, after)) (holds : P fuel before request) :
      During document P (requests ++ [request]) after

section

variable {document : Json} {requests : List Request} {registry : Registry}
  {P Q : Nat → Registry → Request → Prop}

theorem During.imp (h : During document P requests registry)
    (himp : ∀ fuel before request, P fuel before request → Q fuel before request) :
    During document Q requests registry := by
  induction h with
  | earlier _ last ih => exact .earlier ih last
  | last first last holds => exact .last first last (himp _ _ _ holds)

/-- What a request of the run leads to stays. -/
theorem During.exists_add (h : During document P requests registry) :
    ∃ fuel before request answer after, P fuel before request ∧
      before.add document fuel request.name request.root request.asStruct =
        some (answer, after) ∧ Extends after registry := by
  induction h with
  | earlier _ last ih =>
    obtain ⟨fuel, before, request, answer, after, hholds, hadd, hle⟩ := ih
    exact ⟨fuel, before, request, answer, after, hholds, hadd, hle.trans (add_extends last)⟩
  | last _ last holds => exact ⟨_, _, _, _, _, holds, last, .refl _⟩

end

/-! ## Calls that occur -/

/-- A call of `walk` occurs while the requests are added, which leads to the registry. -/
inductive Occurs (document : Json) : List Request → Registry → Call → Prop where
  /-- It occurred before the last request. -/
  | earlier {requests : List Request} {before after : Registry} {request : Request} {fuel : Nat}
      {answer : String} {call : Call} (occurs : Occurs document requests before call)
      (last : before.add document fuel request.name request.root request.asStruct =
        some (answer, after)) :
      Occurs document (requests ++ [request]) after call
  /-- The last request makes it. -/
  | starts {requests : List Request} {before after : Registry} {request : Request} {fuel : Nat}
      {answer : String} {call : Call} (first : Adds document requests before)
      (last : before.add document fuel request.name request.root request.asStruct =
        some (answer, after)) (starts : Starts document fuel before request call) :
      Occurs document (requests ++ [request]) after call
  /-- The reference that another call starts from makes it. -/
  | opens {requests : List Request} {before registry : Registry} {fuel : Nat} {node : SchemaNode}
      {place : Option String} {reference : String} {call : Call}
      (occurs : Occurs document requests registry ⟨fuel + 1, before, node, place⟩)
      (refers : Refers (node, place) reference) (opens : Opens document fuel before reference call) :
      Occurs document requests registry call
  /-- Another call makes it itself. -/
  | makes {requests : List Request} {registry : Registry} {call inner : Call}
      (occurs : Occurs document requests registry call) (makes : Call.Makes document call inner) :
      Occurs document requests registry inner

section

variable {document : Json} {requests : List Request} {registry after : Registry} {fuel : Nat}
  {call : Call}

namespace Occurs

/-- A call that occurs is made within the one that a request makes. -/
theorem during (h : Occurs document requests registry call) :
    During document (fun fuel before request => ∃ start,
      Starts document fuel before request start ∧ Call.Within document start call)
      requests registry := by
  induction h with
  | earlier _ last ih => exact .earlier ih last
  | starts first last starts => exact .last first last ⟨_, starts, ReflTransGen.refl⟩
  | opens _ refers opens ih =>
    refine ih.imp fun _ _ _ ⟨start, hstarts, hwithin⟩ => ⟨start, hstarts, ?_⟩
    exact hwithin.tail (.opens refers opens)
  | makes _ makes ih =>
    refine ih.imp fun _ _ _ ⟨start, hstarts, hwithin⟩ => ⟨start, hstarts, ?_⟩
    exact hwithin.tail (.makes makes)

/-- A call that occurs ends, and what it adds stays. -/
theorem returns (h : Occurs document requests registry call) :
    ∃ after, call.Returns document after ∧ Extends after registry := by
  obtain ⟨_, _, _, _, _, ⟨start, hstarts, hwithin⟩, hadd, hle⟩ := h.during.exists_add
  obtain ⟨walked, hwalked, hle'⟩ := hstarts.returns hadd
  obtain ⟨after, hafter, hle''⟩ := hwithin.returns hwalked
  exact ⟨after, hafter, (hle''.trans hle').trans hle⟩

/-- A call that occurs starts from a reached position, also as a part of more requests. -/
theorem reached_of_subset {more : List Request} (h : Occurs document requests registry call)
    (hsubset : requests ⊆ more) : Reached document more call.node call.place := by
  induction h with
  | earlier _ _ ih => exact ih (List.append_subset.mp hsubset).1
  | @starts requests before after request fuel answer call _ _ starts =>
    have hmem : request ∈ more := hsubset (List.mem_append_right _ (List.mem_singleton.mpr rfl))
    cases starts with
    | shape inline _ flattens => exact .shape hmem inline ⟨fuel, flattens⟩
    | answer answers opens =>
      obtain ⟨-, -, resolves, flattens⟩ := opens
      exact .answered hmem answers resolves ⟨fuel, flattens⟩
  | @opens requests before registry fuel node place reference call _ refers opens ih =>
    obtain ⟨schema, hread, hvisit⟩ := refers
    obtain ⟨-, -, resolves, flattens⟩ := opens
    exact (ih hsubset).target hread hvisit resolves ⟨fuel, flattens⟩
  | makes _ makes ih => exact makes.leads.reached (ih hsubset)

theorem leads {inner : Call} (h : Occurs document requests registry call)
    (hleads : Call.Leads document call inner) : Occurs document requests registry inner := by
  cases hleads with
  | makes makes => exact h.makes makes
  | opens refers opens => exact h.opens refers opens

/-- What is made within a call that occurs does occur. -/
theorem within {inner : Call} (h : Occurs document requests registry call)
    (hwithin : Call.Within document call inner) : Occurs document requests registry inner := by
  induction hwithin with
  | refl => exact h
  | tail _ hleads ih => exact ih.leads hleads

/-- A call that occurs is a walk of its position. -/
theorem walked (h : Occurs document requests registry call) :
    Walked document requests registry call.node call.place := by
  obtain ⟨after, hafter, hle⟩ := h.returns
  exact ⟨h.reached_of_subset (List.Subset.refl requests), call.fuel, call.registry, after, hafter,
    hle⟩

end Occurs
end

/-! ## Positions that were entered -/

/-- A call occurs that starts from the position.  A walk goes by the schema of a node only. -/
def Entered (document : Json) (requests : List Request) (registry : Registry) (node : SchemaNode)
    (place : Option String) : Prop :=
  ∃ call, Occurs document requests registry call ∧ call.place = place ∧
    call.node.toSchema? = node.toSchema?

section

variable {document : Json} {requests : List Request} {registry : Registry} {node : SchemaNode}
  {place : Option String} {schema : Schema}

/-- A call that occurs enters its position. -/
theorem Occurs.entered {call : Call} (h : Occurs document requests registry call) :
    Entered document requests registry call.node call.place :=
  ⟨call, h, rfl, rfl⟩

namespace Entered

/-- A position that was entered was walked. -/
theorem walked (h : Entered document requests registry node place) :
    Walked document requests registry node place := by
  obtain ⟨call, hoccurs, rfl, hsame⟩ := h
  exact hoccurs.walked.congr hsame.symm

theorem congr {other : SchemaNode} (h : Entered document requests registry node place)
    (hsame : node.toSchema? = other.toSchema?) :
    Entered document requests registry other place := by
  obtain ⟨call, hoccurs, hplace, hnode⟩ := h
  exact ⟨call, hoccurs, hplace, hnode.trans hsame⟩

/-- Where a walk leads without a composition that has a name, it leads to entered positions. -/
theorem leads {inner : Site} (h : Entered document requests registry node place)
    (hleads : Leads document false (node, place) inner) :
    Entered document requests registry inner.1 inner.2 := by
  obtain ⟨call, hoccurs, rfl, hsame⟩ := h
  have hcall : Leads document false call.site inner := by
    cases hleads with
    | position read visit mem => exact .position (hsame.trans read) visit mem
    | composition read visit entered flattens =>
      exact .composition (hsame.trans read) visit entered flattens
  obtain ⟨after, hafter, -⟩ := hoccurs.returns
  obtain ⟨made, hmakes, rfl⟩ := Call.exists_makes_of_leads hafter hcall
  exact (hoccurs.makes hmakes).entered

/-- Every position below an entered one was entered. -/
theorem position {positions : List Site} {inner : SchemaNode} {innerPlace : Option String}
    (h : Entered document requests registry node place) (hread : node.toSchema? = some schema)
    (hvisit : schema.visit place = .positions positions) (hmem : (inner, innerPlace) ∈ positions) :
    Entered document requests registry inner innerPlace :=
  h.leads (.position hread hvisit hmem)

/-- What a composition without a name is flattened to was entered with it. -/
theorem composition_none {merged : Schema} (h : Entered document requests registry node none)
    (hread : node.toSchema? = some schema) (hvisit : schema.visit none = .composition)
    (hflattens : Schema.Flattens document [] schema merged) :
    Entered document requests registry (.object merged) none :=
  h.leads (.composition hread hvisit (Or.inr rfl) hflattens)

end Entered
end

/-! ## What is asked for and placed -/

/-- In the course of the run the reference is asked for, with the registry that there is by then. -/
def Asked (document : Json) (requests : List Request) (registry : Registry) (reference : String)
    (fuel : Nat) (start : Registry) : Prop :=
  During document (fun more before request =>
    request.Asks document more before reference fuel start) requests registry

/-- In the course of the run the entry is put under the name, which is free by then. -/
def Placed (document : Json) (requests : List Request) (registry : Registry) (name : String)
    (entry : Entry) : Prop :=
  During document (fun fuel before request =>
    request.Puts document fuel before name entry) requests registry

section

variable {document : Json} {requests : List Request} {registry start : Registry} {fuel : Nat}
  {reference name : String} {entry : Entry}

/-! ### References that are asked for -/

/-- The reference that a request is was asked for. -/
theorem Adds.asked_of_answers {request : Request} (h : Adds document requests registry)
    (hmem : request ∈ requests) (hanswers : request.reference? = some reference) :
    ∃ fuel start, Asked document requests registry reference fuel start := by
  induction h with
  | nil => cases hmem
  | snoc last hfirst hlast ih =>
    rcases List.mem_append.mp hmem with hmem | hmem
    · obtain ⟨fuel, start, hasked⟩ := ih hmem
      exact ⟨fuel, start, .earlier hasked hlast⟩
    · obtain rfl := List.mem_singleton.mp hmem
      exact ⟨_, _, .last hfirst hlast (.answer hanswers)⟩

/-- The reference of an entered position was asked for. -/
theorem Entered.asked {node : SchemaNode} {place : Option String} {schema : Schema}
    (h : Entered document requests registry node place) (hread : node.toSchema? = some schema)
    (hvisit : schema.visit place = .reference reference) :
    ∃ fuel start, Asked document requests registry reference fuel start := by
  obtain ⟨⟨fuel, start, other, _⟩, hoccurs, rfl, hsame⟩ := h
  obtain ⟨after, hafter, -⟩ := hoccurs.returns
  cases fuel with
  | zero => cases hafter
  | succ fuel =>
    refine ⟨fuel, start, hoccurs.during.imp fun _ _ _ ⟨call, hstarts, hwithin⟩ => ?_⟩
    exact .within hstarts ⟨other, _, hwithin, schema, hsame.trans hread, hvisit⟩

/-- A reference that is asked for gets registered. -/
theorem Asked.register (h : Asked document requests registry reference fuel start) :
    ∃ asStruct after, start.register document fuel reference asStruct = some after ∧
      Extends after registry := by
  obtain ⟨_, _, _, _, _, hasks, hadd, hle⟩ := h.exists_add
  obtain ⟨asStruct, after, hregister, hle'⟩ := hasks.register hadd
  exact ⟨asStruct, after, hregister, hle'.trans hle⟩

/-- The call for the target of a reference that is asked for does occur. -/
theorem Asked.occurs {call : Call} (h : Asked document requests registry reference fuel start)
    (hopens : Opens document fuel start reference call) :
    Occurs document requests registry call := by
  induction h with
  | earlier _ last ih => exact ih.earlier last
  | last first last asks =>
    cases asks with
    | answer answers => exact .starts first last (.answer answers hopens)
    | within starts asks =>
      obtain ⟨node, place, hwithin, hrefers⟩ := asks
      exact ((Occurs.starts first last starts).within hwithin).opens hrefers hopens

/-! ### Entries that are placed -/

theorem Placed.get? (h : Placed document requests registry name entry) :
    registry.get? name = some entry := by
  obtain ⟨_, _, _, _, _, hputs, hadd, hle⟩ := h.exists_add
  exact hle.get? (hputs.get? hadd)

/-- What a run leads to comes of what is done in the course of it. -/
theorem Adds.becomes (h : Adds document requests registry) :
    Becomes document (Asked document requests registry) (Placed document requests registry) empty
      registry := by
  induction h with
  | nil => exact ReflTransGen.refl
  | snoc request hfirst hlast ih =>
    refine (ih.mono ?_ ?_).trans ((add_becomes hlast).mono ?_ ?_)
    · exact fun _ _ _ hasked => .earlier hasked hlast
    · exact fun _ _ hplaced => .earlier hplaced hlast
    · exact fun _ _ _ hasks => .last hfirst hlast hasks
    · exact fun _ _ hputs => .last hfirst hlast hputs

/-- An entry has its name just when it was put there in the course of the run. -/
theorem Adds.get?_iff_placed (h : Adds document requests registry) :
    registry.get? name = some entry ↔ Placed document requests registry name entry :=
  ⟨fun hentry => (h.becomes.get? hentry).resolve_left nofun, Placed.get?⟩

/-- A marked reference was asked for, and if it leads somewhere its target was walked. -/
theorem Adds.exists_asked (h : Adds document requests registry)
    (hmarked : reference ∈ registry.visited) :
    ∃ fuel start, Asked document requests registry reference fuel start ∧
      (Reference.resolveNode document reference = none ∨
        ∃ call, Opens document fuel start reference call) :=
  (h.becomes.asked_of_visited hmarked).resolve_left List.not_mem_nil

/-- The position of what is put under a name was entered with this name. -/
theorem Placed.entered (h : Placed document requests registry name entry) :
    Entered document requests registry entry.schema (some name) := by
  induction h with
  | earlier _ last ih =>
    obtain ⟨call, hoccurs, hcall⟩ := ih
    exact ⟨call, hoccurs.earlier last, hcall⟩
  | last first last puts =>
    cases puts with
    | itself starts place => exact place ▸ (Occurs.starts first last starts).entered
    | within starts puts =>
      obtain ⟨call, hwithin, hputs⟩ := puts
      have hoccurs := (Occurs.starts first last starts).within hwithin
      cases hputs with
      | enumeration read =>
        exact hoccurs.entered.congr (read.trans (SchemaNode.toSchema?_object read).symm)
      | composition read visit flattens returns free =>
        -- The name was free before the walk of what the composition is flattened to.
        refine (hoccurs.makes (.composition read visit (fun parent heq => ?_) flattens)).entered
        obtain rfl := Option.some.inj heq
        rw [← Bool.not_eq_true] at free ⊢
        exact fun htaken => free ((walk_extends returns).has htaken)
      | reference refers opens =>
        exact opens.place ▸ (hoccurs.opens refers opens).entered

/-- Every entry was entered under its name. -/
theorem Adds.entry_entered (h : Adds document requests registry) {pair : String × Entry}
    (hpair : pair ∈ registry.entries) :
    Entered document requests registry pair.2.schema (some pair.1) :=
  (h.get?_iff_placed.mp (Keyed.get?_of_mem h.consistent.names hpair)).entered

/-- A target that is kept was entered under the name of its reference. -/
theorem Adds.target_entered (h : Adds document requests registry) {target : Schema}
    (htarget : registry.target? reference = some target) :
    Entered document requests registry (.object target) (some (Reference.name reference)) := by
  obtain ⟨hmarked, node, hresolves, hstores⟩ := h.sound.kept reference target htarget
  obtain ⟨fuel, start, hasked, hmissing | ⟨call, hopens⟩⟩ := h.exists_asked hmarked
  · cases hmissing.symm.trans hresolves
  · have hentered := (hasked.occurs hopens).entered
    rwa [hopens.node_eq hresolves hstores, hopens.place] at hentered

end

/-! ## What a call finds under a name -/

/-- The schema of a site is stored under a name, if that is free: an enumeration under the name of
    its position, and what a composition is flattened to under the name derived from it. -/
inductive Offers (document : Json) : Site → String → SchemaNode → Prop where
  | enumeration {node : SchemaNode} {schema : Schema} {name : String}
      (read : node.toSchema? = some schema) (visit : schema.visit (some name) = .enumeration) :
      Offers document (node, some name) name (.object schema)
  | composition {node : SchemaNode} {schema merged : Schema} {parent : String}
      (read : node.toSchema? = some schema) (visit : schema.visit (some parent) = .composition)
      (flattens : Schema.Flattens document [] schema merged) :
      Offers document (node, some parent) (Text.enumChildName parent) (.object merged)

/-- A call finds an entry under a name: it was there before, or came within the call that it makes
    for what its composition is flattened to. -/
inductive Call.Finds (document : Json) (call : Call) (name : String) (entry : Entry) : Prop where
  | before (taken : call.registry.get? name = some entry)
  | within {inner : Call} {walked : Registry} (makes : Call.Makes document call inner)
      (place : inner.place = some name) (returns : inner.Returns document walked)
      (taken : walked.get? name = some entry)

section

variable {document : Json} {requests : List Request} {registry after : Registry} {call : Call}
  {node : SchemaNode} {place : Option String} {name : String} {own : SchemaNode} {entry : Entry}

/-- What a call finds is there for good. -/
theorem Call.Finds.get? (h : call.Finds document name entry)
    (hreturns : call.Returns document after) : after.get? name = some entry := by
  cases h with
  | before taken => exact (walk_extends hreturns).get? taken
  | within makes place returns taken =>
    obtain ⟨walked, hwalked, hle⟩ := makes.returns hreturns
    obtain rfl := Option.some.inj (returns.symm.trans hwalked)
    exact hle.get? taken

/-- A call stores the schema of its site, unless it finds an entry under the name. -/
theorem Call.Returns.finds_or_stores (h : call.Returns document after)
    (hoffers : Offers document call.site name own) :
    ∃ entry, after.get? name = some entry ∧
      (call.Finds document name entry ∨ entry.schema = own) := by
  obtain ⟨fuel, registry, node, place⟩ := call
  unfold Call.Returns at h
  dsimp only [Call.site] at h hoffers
  cases fuel with
  | zero => cases h
  | succ fuel =>
    cases hoffers with
    | enumeration read visit =>
      rw [walk_enumeration read visit] at h
      obtain rfl := Option.some.inj h
      obtain ⟨entry, hentry, htaken | rfl⟩ := get?_insertNew_self registry name _
      · exact ⟨entry, hentry, Or.inl (.before htaken)⟩
      · exact ⟨_, hentry, Or.inr rfl⟩
    | @composition _ schema merged parent read visit flattens =>
      rw [walk_composition_some read visit] at h
      obtain ⟨result, hresult, h⟩ := Option.bind_eq_some_iff.mp h
      obtain rfl : result = merged := Schema.Flattens.unique ⟨fuel, hresult⟩ flattens
      split at h
      · next htaken =>
        obtain rfl := Option.some.inj h
        obtain ⟨entry, hentry⟩ := has_iff_exists.mp htaken
        exact ⟨entry, hentry, Or.inl (.before hentry)⟩
      · next hfree =>
        rw [Bool.not_eq_true] at hfree
        obtain ⟨walked, hwalked, rfl⟩ := Option.map_eq_some_iff.mp h
        obtain ⟨entry, hentry, htaken | rfl⟩ :=
          get?_insertNew_self walked (Text.enumChildName parent) _
        · have hmakes : Call.Makes document ⟨fuel + 1, registry, node, some parent⟩
              ⟨fuel, registry, .object result, some (Text.enumChildName parent)⟩ :=
            .composition read visit (fun _ h => Option.some.inj h ▸ hfree) hresult
          exact ⟨entry, hentry, Or.inl (.within hmakes rfl hwalked htaken)⟩
        · exact ⟨_, hentry, Or.inr rfl⟩

theorem Offers.congr {other : SchemaNode} (h : Offers document (node, place) name own)
    (hsame : other.toSchema? = node.toSchema?) : Offers document (other, place) name own := by
  cases h with
  | enumeration read visit => exact .enumeration (hsame.trans read) visit
  | composition read visit flattens => exact .composition (hsame.trans read) visit flattens

/-- The name that the schema of a position is offered for was another schema's by the time that a
    call came to the position, or was taken within that call. -/
def Forestalled (document : Json) (requests : List Request) (registry : Registry)
    (node : SchemaNode) (place : Option String) (name : String) (own : SchemaNode) : Prop :=
  ∃ call entry, Occurs document requests registry call ∧ call.place = place ∧
    call.node.toSchema? = node.toSchema? ∧ call.Finds document name entry ∧ entry.schema ≠ own

/-- The name that an entered position offers its schema for has an entry, and that is for the
    schema just when no other one came before. -/
theorem Entered.holds_iff (h : Entered document requests registry node place)
    (hoffers : Offers document (node, place) name own) :
    ∃ entry, registry.get? name = some entry ∧
      (entry.schema = own ↔
        ¬ Forestalled document requests registry node place name own) := by
  obtain ⟨call, hoccurs, hplace, hsame⟩ := h
  obtain ⟨after, hafter, hle⟩ := hoccurs.returns
  have hsite : Offers document call.site name own := by
    unfold Call.site
    rw [hplace]
    exact hoffers.congr hsame
  obtain ⟨entry, hentry, hsource⟩ := hafter.finds_or_stores hsite
  refine ⟨entry, hle.get? hentry, ?_⟩
  constructor
  · rintro hown ⟨other, found, hother, -, -, hfinds, hne⟩
    obtain ⟨last, hlast, hle'⟩ := hother.returns
    -- All that is ever found under the name is the one entry.
    obtain rfl := Option.some.inj ((hle'.get? (hfinds.get? hlast)).symm.trans (hle.get? hentry))
    exact hne hown
  · intro hfirst
    rcases hsource with hfinds | hown
    · by_contra hne
      exact hfirst ⟨call, entry, hoccurs, hplace, hsame, hfinds, hne⟩
    · exact hown

end

end Registry
end TypedClient
