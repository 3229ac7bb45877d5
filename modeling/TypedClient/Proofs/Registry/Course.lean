/-
  TypedClient.Proofs.Registry.Course

  The course of a walk: where it leads, which references it comes to, and what it does to the
  registry on the way.

  Where a walk may lead is told from the document alone (`Leads`, `Comes`).  Where it does lead is
  told by the calls that the walk makes (`Call.Makes`), since a composition whose name is taken is
  not entered.  The references of a document form a graph in this way (`Uses`).

  What registering does is a sequence of steps (`Step`) on the registry and the stack of active
  references, those whose target is being walked.  So what holds of the empty registry and is kept
  by every step holds of every registry that calls of `add` lead to (`Adds.invariant`).
-/
import Mathlib.Logic.Relation
import TypedClient.Proofs.Registry.Soundness

namespace TypedClient
namespace Registry

open Relation

/-! ## Where a walk leads -/

/-- A node, and the name that its position would get, if any. -/
abbrev Site := SchemaNode × Option String

/-- A walk goes on from one site to another: to a position inside, or to what a composition is
    flattened to.  A composition at a site with a name is left out unless `named` is set. -/
inductive Leads (document : Json) (named : Bool) : Site → Site → Prop where
  | position {node : SchemaNode} {place : Option String} {schema : Schema} {positions : List Site}
      {inner : Site} (read : node.toSchema? = some schema)
      (visit : schema.visit place = .positions positions) (mem : inner ∈ positions) :
      Leads document named (node, place) inner
  | composition {node : SchemaNode} {place : Option String} {schema merged : Schema}
      (read : node.toSchema? = some schema) (visit : schema.visit place = .composition)
      (entered : named = true ∨ place = none)
      (flattens : Schema.Flattens document [] schema merged) :
      Leads document named (node, place) (.object merged, place.map Text.enumChildName)

/-- The schema of the site is registered by the reference that it is. -/
def Refers (site : Site) (reference : String) : Prop :=
  ∃ schema, site.1.toSchema? = some schema ∧ schema.visit site.2 = .reference reference

/-- The name that the schema of a site is registered under: that of the site for an enumeration,
    and the one derived from it for a composition. -/
inductive Derives : Site → String → Prop where
  | enumeration {node : SchemaNode} {schema : Schema} {name : String}
      (read : node.toSchema? = some schema) (visit : schema.visit (some name) = .enumeration) :
      Derives (node, some name) name
  | composition {node : SchemaNode} {schema : Schema} {parent : String}
      (read : node.toSchema? = some schema) (visit : schema.visit (some parent) = .composition) :
      Derives (node, some parent) (Text.enumChildName parent)

/-- A walk from the site may come to the reference. -/
def Comes (document : Json) (named : Bool) (site : Site) (reference : String) : Prop :=
  ∃ inner, ReflTransGen (Leads document named) site inner ∧ Refers inner reference

section

variable {document : Json} {named : Bool} {site inner : Site} {reference : String}

theorem Refers.visit {node : SchemaNode} {place : Option String} {schema : Schema}
    (h : Refers (node, place) reference) (read : node.toSchema? = some schema) :
    schema.visit place = .reference reference := by
  obtain ⟨schema', read', visit⟩ := h
  obtain rfl := Option.some.inj (read.symm.trans read')
  exact visit

/-- A walk comes to the reference of its own site, or to one of a site that it leads to. -/
theorem comes_iff : Comes document named site reference ↔
    Refers site reference ∨ ∃ inner, Leads document named site inner ∧
      Comes document named inner reference := by
  constructor
  · rintro ⟨last, hpath, hrefers⟩
    rcases ReflTransGen.cases_head hpath with rfl | ⟨inner, hleads, hrest⟩
    · exact Or.inl hrefers
    · exact Or.inr ⟨inner, hleads, last, hrest, hrefers⟩
  · rintro (hrefers | ⟨inner, hleads, hcomes⟩)
    · exact ⟨site, ReflTransGen.refl, hrefers⟩
    · obtain ⟨last, hpath, hrefers⟩ := hcomes
      exact ⟨last, ReflTransGen.head hleads hpath, hrefers⟩

/-- What a walk comes to, told from what it does at its site. -/
theorem comes_iff_visit {node : SchemaNode} {place : Option String} {schema : Schema}
    (hread : node.toSchema? = some schema) :
    Comes document named (node, place) reference ↔
      match schema.visit place with
      | .positions positions => ∃ inner ∈ positions, Comes document named inner reference
      | .enumeration => False
      | .reference other => reference = other
      | .composition => (named = true ∨ place = none) ∧ ∃ merged,
        Schema.Flattens document [] schema merged ∧
          Comes document named (.object merged, place.map Text.enumChildName) reference := by
  rw [comes_iff]
  constructor
  · rintro (⟨other, hother, hvisit⟩ | ⟨inner, hleads, hcomes⟩)
    · obtain rfl := Option.some.inj (hread.symm.trans hother)
      rw [hvisit]
    · cases hleads with
      | position read visit mem =>
        obtain rfl := Option.some.inj (hread.symm.trans read)
        rw [visit]
        exact ⟨inner, mem, hcomes⟩
      | composition read visit entered flattens =>
        obtain rfl := Option.some.inj (hread.symm.trans read)
        rw [visit]
        exact ⟨entered, _, flattens, hcomes⟩
  · intro h
    cases hvisit : schema.visit place with
    | positions positions =>
      rw [hvisit] at h
      obtain ⟨inner, hmem, hcomes⟩ := h
      exact Or.inr ⟨inner, .position hread hvisit hmem, hcomes⟩
    | enumeration =>
      rw [hvisit] at h
      exact h.elim
    | reference other =>
      rw [hvisit] at h
      exact Or.inl ⟨schema, hread, h ▸ hvisit⟩
    | composition =>
      rw [hvisit] at h
      obtain ⟨hentered, merged, hflattens, hcomes⟩ := h
      exact Or.inr ⟨_, .composition hread hvisit hentered hflattens, hcomes⟩

/-- A site that a reached one leads to is reached. -/
theorem Leads.reached {requests : List Request} (h : Leads document named site inner)
    (hreached : Reached document requests site.1 site.2) :
    Reached document requests inner.1 inner.2 := by
  cases h with
  | position read visit mem => exact hreached.position read visit mem
  | composition read visit _ flattens => exact hreached.composition read visit flattens

end

/-! ## The calls of a walk -/

/-- A call of `walk`. -/
structure Call where
  fuel : Nat
  registry : Registry
  node : SchemaNode
  place : Option String

namespace Call

/-- Where a call starts from. -/
def site (call : Call) : Site := (call.node, call.place)

/-- The call ends, and leads to the registry. -/
def Returns (document : Json) (call : Call) (after : Registry) : Prop :=
  walk document call.fuel call.registry call.node call.place = some after

/-- A call makes another one itself: for a position, once those before it have been walked, or for
    what a composition is flattened to, unless the name of the composition is taken. -/
inductive Makes (document : Json) : Call → Call → Prop where
  | position {fuel : Nat} {registry middle : Registry} {node : SchemaNode} {place : Option String}
      {schema : Schema} {first rest : List Site} {inner : Site}
      (read : node.toSchema? = some schema)
      (visit : schema.visit place = .positions (first ++ inner :: rest))
      (before : first.foldlM (fun registry position =>
        walk document fuel registry position.1 position.2) registry = some middle) :
      Makes document ⟨fuel + 1, registry, node, place⟩ ⟨fuel, middle, inner.1, inner.2⟩
  | composition {fuel : Nat} {registry : Registry} {node : SchemaNode} {place : Option String}
      {schema merged : Schema} (read : node.toSchema? = some schema)
      (visit : schema.visit place = .composition)
      (free : ∀ parent, place = some parent →
        registry.has (Text.enumChildName parent) = false)
      (flattens : schema.resolveAllOf? document fuel = some merged) :
      Makes document ⟨fuel + 1, registry, node, place⟩
        ⟨fuel, registry, .object merged, place.map Text.enumChildName⟩

/-- A call visits a reference: it starts from the reference, or makes a call that visits it. -/
def Visits (document : Json) (call : Call) (reference : String) : Prop :=
  ∃ inner, ReflTransGen (Makes document) call inner ∧ Refers inner.site reference

variable {document : Json} {call inner : Call} {after : Registry}

/-- What a call makes is where the walk may lead. -/
theorem Makes.leads (h : Makes document call inner) :
    Leads document true call.site inner.site := by
  cases h with
  | position read visit before => exact .position read visit (by simp [site])
  | composition read visit free flattens =>
    exact .composition read visit (Or.inl rfl) ⟨_, flattens⟩

/-- What a call visits is what the walk may come to. -/
theorem Visits.comes {reference : String} (h : Visits document call reference) :
    Comes document true call.site reference := by
  obtain ⟨inner, hpath, hrefers⟩ := h
  exact ⟨inner.site, hpath.lift site fun _ _ hmakes => hmakes.leads, hrefers⟩

/-- A call that is made by one that ends does end itself, and what it adds stays. -/
theorem Makes.returns (h : Makes document call inner) (hreturns : call.Returns document after) :
    ∃ middle, inner.Returns document middle ∧ Extends middle after := by
  unfold Returns at hreturns ⊢
  cases h with
  | @position fuel registry middle node place schema first rest inner read visit before =>
    dsimp only at hreturns ⊢
    rw [walk_positions read visit, List.foldlM_append] at hreturns
    obtain ⟨start, hstart, hreturns⟩ := Option.bind_eq_some_iff.mp hreturns
    obtain rfl := Option.some.inj (before.symm.trans hstart)
    rw [List.foldlM_cons] at hreturns
    obtain ⟨next, hnext, hrest⟩ := Option.bind_eq_some_iff.mp hreturns
    exact ⟨next, hnext, walkAll_extends hrest⟩
  | @composition fuel registry node place schema merged read visit free flattens =>
    dsimp only at hreturns ⊢
    cases place with
    | none =>
      rw [walk_composition_none read visit] at hreturns
      obtain ⟨result, hresult, hreturns⟩ := Option.bind_eq_some_iff.mp hreturns
      obtain rfl := Option.some.inj (flattens.symm.trans hresult)
      exact ⟨after, hreturns, .refl after⟩
    | some parent =>
      rw [walk_composition_some read visit] at hreturns
      obtain ⟨result, hresult, hreturns⟩ := Option.bind_eq_some_iff.mp hreturns
      obtain rfl := Option.some.inj (flattens.symm.trans hresult)
      rw [free parent rfl, if_neg Bool.false_ne_true] at hreturns
      obtain ⟨walked, hwalked, rfl⟩ := Option.map_eq_some_iff.mp hreturns
      exact ⟨walked, hwalked, extends_insertNew ..⟩

/-- Where a walk leads without a composition at a site with a name, a call that ends makes a
    call. -/
theorem exists_makes_of_leads {site : Site} (hreturns : call.Returns document after)
    (h : Leads document false call.site site) :
    ∃ inner, Makes document call inner ∧ inner.site = site := by
  obtain ⟨fuel, registry, node, place⟩ := call
  unfold Returns at hreturns
  dsimp only [Call.site] at hreturns h
  cases fuel with
  | zero => cases hreturns
  | succ fuel =>
    cases h with
    | position read visit mem =>
      obtain ⟨first, rest, rfl⟩ := List.append_of_mem mem
      rw [walk_positions read visit, List.foldlM_append] at hreturns
      obtain ⟨middle, hmiddle, -⟩ := Option.bind_eq_some_iff.mp hreturns
      exact ⟨_, .position read visit hmiddle, rfl⟩
    | composition read visit entered flattens =>
      obtain rfl : place = none := by simpa using entered
      rw [walk_composition_none read visit] at hreturns
      obtain ⟨result, hresult, -⟩ := Option.bind_eq_some_iff.mp hreturns
      obtain rfl := Schema.Flattens.unique ⟨fuel, hresult⟩ flattens
      exact ⟨_, .composition read visit (fun _ h => by cases h) hresult, rfl⟩

/-- What the call makes, the calls made by it make, and so on: all of them end. -/
theorem returns_of_makes (hmakes : ReflTransGen (Makes document) call inner)
    (hreturns : call.Returns document after) :
    ∃ middle, inner.Returns document middle ∧ Extends middle after := by
  induction hmakes with
  | refl => exact ⟨after, hreturns, .refl after⟩
  | tail _ hstep ih =>
    obtain ⟨middle, hmiddle, hle⟩ := ih
    obtain ⟨last, hlast, hle'⟩ := hstep.returns hmiddle
    exact ⟨last, hlast, hle'.trans hle⟩

/-- The same along a path of sites: a call that ends gets there by calls that it makes. -/
theorem exists_calls_of_leads {site : Site} (hreturns : call.Returns document after)
    (h : TransGen (Leads document false) call.site site) :
    ∃ inner, TransGen (Makes document) call inner ∧ inner.site = site := by
  induction h with
  | single hleads =>
    obtain ⟨inner, hmakes, hsite⟩ := exists_makes_of_leads hreturns hleads
    exact ⟨inner, TransGen.single hmakes, hsite⟩
  | tail _ hleads ih =>
    obtain ⟨middle, hmakes, rfl⟩ := ih
    -- The call in the middle ends too, since the first one does.
    obtain ⟨next, hnext, -⟩ := returns_of_makes hmakes.to_reflTransGen hreturns
    obtain ⟨inner, hinner, hsite⟩ := exists_makes_of_leads hnext hleads
    exact ⟨inner, TransGen.tail hmakes hinner, hsite⟩

/-- A call that ends registers the name that its site derives. -/
theorem Returns.has_of_derives {name : String} (hreturns : call.Returns document after)
    (hderives : Derives call.site name) : after.has name = true := by
  obtain ⟨fuel, registry, node, place⟩ := call
  unfold Returns at hreturns
  dsimp only [Call.site] at hreturns hderives
  cases fuel with
  | zero => cases hreturns
  | succ fuel =>
    cases hderives with
    | enumeration read visit =>
      rw [walk_enumeration read visit] at hreturns
      obtain rfl := Option.some.inj hreturns
      exact has_insertNew ..
    | composition read visit =>
      rw [walk_composition_some read visit] at hreturns
      obtain ⟨merged, -, hreturns⟩ := Option.bind_eq_some_iff.mp hreturns
      split at hreturns
      · next hhas => exact Option.some.inj hreturns ▸ hhas
      · obtain ⟨walked, -, rfl⟩ := Option.map_eq_some_iff.mp hreturns
        exact has_insertNew ..

end Call

/-! ## The graph of references -/

/-- The graph of references: a call that walks what is stored for the first one visits the second
    one, which points into the document. -/
def Uses (document : Json) (reference other : String) : Prop :=
  Reference.isInternal other = true ∧ ∃ target stored fuel registry,
    Reference.resolveNode document reference = some target ∧ target.Stores document stored ∧
      Call.Visits document ⟨fuel, registry, stored, some (Reference.name reference)⟩ other

/-- No reference uses itself, directly or through others. -/
def Acyclic (document : Json) : Prop := ∀ reference, ¬ TransGen (Uses document) reference reference

/-! ## Calls under way -/

section

variable (document : Json) (requests : List Request)

/-- A call is made while the target of each active reference is being walked: the registry is
    sound but for these, and each of them uses every reference that the call visits. -/
structure Underway (active : List String) (call : Call) : Prop where
  sound : SoundBut document requests active call.registry
  reached : Reached document requests call.node call.place
  follows : ∀ other ∈ active, ∀ reference, Reference.isInternal reference = true →
    Call.Visits document call reference → TransGen (Uses document) other reference

end

section

variable {document : Json} {requests : List Request} {active : List String} {call inner : Call}
  {registry after : Registry}

/-- A call that one under way makes is under way. -/
theorem Underway.makes (h : Underway document requests active call)
    (hmakes : Call.Makes document call inner) : Underway document requests active inner where
  sound := by
    have hsound := h.sound
    have hreached := h.reached
    cases hmakes with
    | position read visit before =>
      exact foldlM_preserves_mem (P := SoundBut document requests active)
        (fun _ position hmem _ hstep hP => hP.walk
          (hreached.position read visit (List.mem_append_left _ hmem)) hstep) before hsound
    | composition => exact hsound
  reached := hmakes.leads.reached h.reached
  follows other hother reference hinternal hvisits := by
    obtain ⟨last, hpath, hrefers⟩ := hvisits
    exact h.follows other hother reference hinternal
      ⟨last, ReflTransGen.head hmakes hpath, hrefers⟩

/-- So are the calls that those make, and so on. -/
theorem Underway.makes_all (h : Underway document requests active call)
    (hmakes : ReflTransGen (Call.Makes document) call inner) :
    Underway document requests active inner := by
  induction hmakes with
  | refl => exact h
  | tail _ hstep ih => exact ih.makes hstep

/-- A call that ends keeps the registry sound. -/
theorem Underway.sound_after (h : Underway document requests active call)
    (hreturns : call.Returns document after) : SoundBut document requests active after :=
  h.sound.walk h.reached hreturns

/-- The reference that a call starts from has its name taken when the call ends, if it leads
    somewhere and is not active. -/
theorem Underway.has_of_refers (h : Underway document requests active call)
    (hreturns : call.Returns document after) {reference : String} {target : SchemaNode}
    (hrefers : Refers call.site reference) (hactive : reference ∉ active)
    (htarget : Reference.resolveNode document reference = some target) :
    after.has (Reference.name reference) = true := by
  have hsound := h.sound_after hreturns
  obtain ⟨schema, hread, hvisit⟩ := hrefers
  obtain ⟨fuel, registry, node, place⟩ := call
  unfold Call.Returns at hreturns
  dsimp only [Call.site] at hreturns hread hvisit
  cases fuel with
  | zero => cases hreturns
  | succ fuel =>
    rw [walk_reference hread hvisit] at hreturns
    rcases register_cases hreturns with ⟨rfl, hskip⟩ | ⟨-, -, -, ⟨hnone, -⟩ |
      ⟨target, stored, walked, -, -, -, rfl⟩⟩
    · rcases hskip with hexternal | hname | hvisited
      · rw [Reference.resolveNode, Reference.resolve, hexternal] at htarget
        cases htarget
      · exact hname
      · exact hsound.registered reference hvisited hactive target htarget
    · rw [hnone] at htarget
      cases htarget
    · exact has_insertNew ..

end

/-! ## Steps -/

/-- The registry while schemas are being registered, and the references that are active. -/
structure State where
  active : List String
  registry : Registry

/-- What registering does to the registry, step by step. -/
inductive Step (document : Json) (requests : List Request) : State → State → Prop where
  /-- A reference that leads nowhere is marked. -/
  | mark {active : List String} {registry : Registry} {reference : String}
      (sound : SoundBut document requests active registry)
      (follows : ∀ other ∈ active, TransGen (Uses document) other reference)
      (free : registry.has (Reference.name reference) = false)
      (fresh : reference ∉ registry.visited)
      (missing : Reference.resolveNode document reference = none) :
      Step document requests ⟨active, registry⟩ ⟨active, registry.visit reference⟩
  /-- A reference is marked, its target is kept, and the reference is active from then on. -/
  | start {active : List String} {registry : Registry} {reference : String}
      {target stored : SchemaNode} (sound : SoundBut document requests active registry)
      (follows : ∀ other ∈ active, TransGen (Uses document) other reference)
      (free : registry.has (Reference.name reference) = false)
      (fresh : reference ∉ registry.visited)
      (resolves : Reference.resolveNode document reference = some target)
      (stores : target.Stores document stored) :
      Step document requests ⟨active, registry⟩
        ⟨reference :: active, (registry.visit reference).keepTarget reference stored⟩
  /-- The target of a reference has been walked, and is stored. -/
  | finish {active : List String} {fuel : Nat} {before walked : Registry} {reference : String}
      {target stored : SchemaNode} {asStruct : Bool}
      (free : before.has (Reference.name reference) = false)
      (fresh : reference ∉ before.visited)
      (resolves : Reference.resolveNode document reference = some target)
      (stores : target.Stores document stored)
      (underway : Underway document requests (reference :: active) ⟨fuel,
        (before.visit reference).keepTarget reference stored, stored,
        some (Reference.name reference)⟩)
      (returns : Call.Returns document ⟨fuel,
        (before.visit reference).keepTarget reference stored, stored,
        some (Reference.name reference)⟩ walked) :
      Step document requests ⟨reference :: active, walked⟩
        ⟨active, walked.insertNew (Reference.name reference)
          ⟨stored, !asStruct, stored.isEnumLike⟩⟩
  /-- A schema has been walked under its name, and is stored. -/
  | store {active : List String} {call : Call} {walked : Registry} {name : String}
      {isClass : Bool} (underway : Underway document requests active call)
      (returns : call.Returns document walked) (place : call.place = some name) :
      Step document requests ⟨active, walked⟩
        ⟨active, walked.insertNew name ⟨call.node, isClass, call.node.isEnumLike⟩⟩
  /-- An enumeration is stored under the name of its position. -/
  | enumerate {active : List String} {registry : Registry} {name : String} {schema : Schema}
      (clean : Schema.Normal schema) (visit : schema.visit (some name) = .enumeration) :
      Step document requests ⟨active, registry⟩
        ⟨active, registry.insertNew name ⟨.object schema, false, true⟩⟩

section

variable {document : Json} {requests : List Request} {active : List String}
  {registry after : Registry}

/-- The steps from one registry to another, after which the active references are as before. -/
abbrev Steps (document : Json) (requests : List Request) (active : List String)
    (registry after : Registry) : Prop :=
  ReflTransGen (Step document requests) ⟨active, registry⟩ ⟨active, after⟩

/-- Registering a reference takes steps, if walking its target does. -/
theorem steps_of_register {fuel : Nat}
    (hwalk : ∀ active registry after node place,
      Underway document requests active ⟨fuel, registry, node, place⟩ →
      walk document fuel registry node place = some after →
        Steps document requests active registry after)
    {reference : String} {asStruct : Bool} (hsound : SoundBut document requests active registry)
    (hreferred : Referred document requests reference)
    (hfollows : Reference.isInternal reference = true →
      ∀ other ∈ active, TransGen (Uses document) other reference)
    (hregister : registry.register document fuel reference asStruct = some after) :
    Steps document requests active registry after := by
  rcases register_cases hregister with ⟨rfl, -⟩ | ⟨hinternal, hfree, hfresh, ⟨hmissing, rfl⟩ |
    ⟨target, stored, walked, htarget, hstored, hwalked, rfl⟩⟩
  · exact ReflTransGen.refl
  · exact ReflTransGen.single (.mark hsound (hfollows hinternal) hfree hfresh hmissing)
  · have hstores : target.Stores document stored := ⟨fuel, hstored⟩
    -- While its target is walked the reference is active, and what comes up is used by it.
    have hunderway : Underway document requests (reference :: active) ⟨fuel,
        (registry.visit reference).keepTarget reference stored, stored,
        some (Reference.name reference)⟩ := by
      refine ⟨hsound.keepTarget hfresh htarget hstores, hreferred.reached htarget hstores, ?_⟩
      intro other hother next hnext hvisits
      have huses : Uses document reference next :=
        ⟨hnext, target, stored, fuel, _, htarget, hstores, hvisits⟩
      rcases List.mem_cons.mp hother with rfl | hother
      · exact TransGen.single huses
      · exact TransGen.tail (hfollows hinternal other hother) huses
    have hstart : Step document requests ⟨active, registry⟩ _ :=
      .start hsound (hfollows hinternal) hfree hfresh htarget hstores
    have hfinish : Step document requests ⟨reference :: active, walked⟩ ⟨active, walked.insertNew
        (Reference.name reference) ⟨stored, !asStruct, stored.isEnumLike⟩⟩ :=
      .finish hfree hfresh htarget hstores hunderway hwalked
    exact ReflTransGen.head hstart
      (ReflTransGen.tail (hwalk _ _ _ _ _ hunderway hwalked) hfinish)

/-- A walk takes steps. -/
theorem steps_of_walk {fuel : Nat} {node : SchemaNode} {place : Option String}
    (h : Underway document requests active ⟨fuel, registry, node, place⟩)
    (hwalk : walk document fuel registry node place = some after) :
    Steps document requests active registry after := by
  induction fuel generalizing active registry after node place with
  | zero => cases hwalk
  | succ fuel ih =>
    have hsound : SoundBut document requests active registry := h.sound
    cases hnode : node.toSchema? with
    | none =>
      rw [walk_of_none hnode] at hwalk
      exact Option.some.inj hwalk ▸ ReflTransGen.refl
    | some schema =>
      cases hvisit : schema.visit place with
      | positions positions =>
        rw [walk_positions hnode hvisit] at hwalk
        refine foldlM_preserves_split (P := Steps document requests active registry) ?_ hwalk
          ReflTransGen.refl
        rintro first inner rest before next rfl hbefore hstep hP
        have hmakes : Call.Makes document ⟨fuel + 1, registry, node, place⟩
            ⟨fuel, before, inner.1, inner.2⟩ := .position hnode hvisit hbefore
        exact hP.trans (ih (h.makes hmakes) hstep)
      | enumeration =>
        rw [walk_enumeration hnode hvisit] at hwalk
        obtain rfl := Option.some.inj hwalk
        cases place with
        | none => exact ReflTransGen.refl
        | some name =>
          exact ReflTransGen.single
            (.enumerate (SchemaNode.normal_of_toSchema? hnode) hvisit)
      | reference reference =>
        rw [walk_reference hnode hvisit] at hwalk
        have hrefers : Refers (node, place) reference := ⟨schema, hnode, hvisit⟩
        refine steps_of_register (fun _ _ _ _ _ hunderway hwalk => ih hunderway hwalk) hsound
          (Or.inr ⟨node, place, schema, h.reached, hnode, hvisit⟩) ?_ hwalk
        intro hinternal other hother
        exact h.follows other hother reference hinternal ⟨_, ReflTransGen.refl, hrefers⟩
      | composition =>
        cases place with
        | none =>
          rw [walk_composition_none hnode hvisit] at hwalk
          obtain ⟨merged, hmerged, hwalk⟩ := Option.bind_eq_some_iff.mp hwalk
          have hmakes : Call.Makes document ⟨fuel + 1, registry, node, none⟩
              ⟨fuel, registry, .object merged, none⟩ :=
            .composition hnode hvisit (fun _ h => by cases h) hmerged
          exact ih (h.makes hmakes) hwalk
        | some parent =>
          rw [walk_composition_some hnode hvisit] at hwalk
          obtain ⟨merged, hmerged, hwalk⟩ := Option.bind_eq_some_iff.mp hwalk
          split at hwalk
          · exact Option.some.inj hwalk ▸ ReflTransGen.refl
          · next hfree =>
            rw [Bool.not_eq_true] at hfree
            obtain ⟨walked, hwalked, rfl⟩ := Option.map_eq_some_iff.mp hwalk
            have hmakes : Call.Makes document ⟨fuel + 1, registry, node, some parent⟩
                ⟨fuel, registry, .object merged, some (Text.enumChildName parent)⟩ :=
              .composition hnode hvisit (fun _ h => Option.some.inj h ▸ hfree) hmerged
            have hinner := h.makes hmakes
            have hstore : Step document requests ⟨active, walked⟩ ⟨active, walked.insertNew
                (Text.enumChildName parent) ⟨.object merged, true, merged.isEnumLike⟩⟩ :=
              .store hinner hwalked rfl
            exact ReflTransGen.tail (ih hinner hwalked) hstore

/-- A call of `add` takes steps, and no reference is active before it and after it. -/
theorem steps_of_add {request : Request} {fuel : Nat} {answer : String}
    (hsound : Sound document requests registry) (hmem : request ∈ requests)
    (hadd : registry.add document fuel request.name request.root request.asStruct =
      some (answer, after)) : Steps document requests [] registry after := by
  rcases (add_cases hadd).2 with ⟨reference, hanswers, hregister⟩ | ⟨-, -, rfl⟩ |
    ⟨hinline, -, stored, walked, hstored, hwalked, rfl⟩
  · exact steps_of_register (fun _ _ _ _ _ hunderway hwalk => steps_of_walk hunderway hwalk) hsound
      (Or.inl ⟨request, hmem, hanswers⟩) (fun _ _ hother => by cases hother) hregister
  · exact ReflTransGen.refl
  · have hunderway : Underway document requests []
        ⟨fuel, registry, stored, some request.name⟩ :=
      ⟨hsound, .shape hmem hinline ⟨fuel, hstored⟩, fun _ hother => by cases hother⟩
    have hstore : Step document requests ⟨[], walked⟩ ⟨[], walked.insertNew request.name
        ⟨stored, !request.asStruct, stored.isEnumLike⟩⟩ := .store hunderway hwalked rfl
    exact ReflTransGen.tail (steps_of_walk hunderway hwalked) hstore

/-- The steps of calls of `add`, also as a part of more calls. -/
theorem Adds.steps_of_subset {more : List Request} (h : Adds document requests registry)
    (hsubset : requests ⊆ more) : Steps document more [] empty registry := by
  induction h with
  | nil => exact ReflTransGen.refl
  | snoc request hfirst hlast ih =>
    obtain ⟨hrest, hrequest⟩ := List.append_subset.mp hsubset
    have hsound := hfirst.sound_of_subset hrest
    exact (ih hrest).trans
      (steps_of_add hsound (hrequest (List.mem_singleton.mpr rfl)) hlast)

/-- What holds of the empty registry and is kept by every step holds of every registry that calls
    of `add` lead to. -/
theorem Adds.invariant {P : State → Prop} (h : Adds document requests registry)
    (hempty : P ⟨[], empty⟩)
    (hstep : ∀ state next, Step document requests state next → P state → P next) :
    P ⟨[], registry⟩ := by
  have hall : ∀ state, ReflTransGen (Step document requests) ⟨[], empty⟩ state → P state := by
    intro state hsteps
    induction hsteps with
    | refl => exact hempty
    | tail _ hlast ih => exact hstep _ _ hlast ih
  exact hall _ (h.steps_of_subset (List.Subset.refl requests))

end

end Registry
end TypedClient
