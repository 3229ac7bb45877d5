/-
  TypedClient.Proofs.Registry.Changes

  What becomes of the registry while a schema is walked, or a request is added.

  All that happens to it is that references are marked and that entries are put under names.  Each
  of these changes belongs to one of the calls of the walk (`Call.Returns.becomes`), or to the
  request that the walk is for (`add_becomes`).  So where an entry or a mark comes from is told from
  the changes, and nothing has to be followed through a walk again.  (The steps that invariants go by
  tell which references are active meanwhile, and not which call makes the step.)
-/
import TypedClient.Proofs.Registry.Calls

namespace TypedClient
namespace Registry

open Relation

variable {document : Json}

/-! ## What a call does itself -/

namespace Call

variable {call : Call} {after : Registry} {name : String} {entry : Entry}

/-- A call within the call starts from the reference, with the registry that there is by then. -/
def Asks (document : Json) (call : Call) (reference : String) (fuel : Nat) (registry : Registry) :
    Prop :=
  ∃ node place, Within document call ⟨fuel + 1, registry, node, place⟩ ∧
    Refers (node, place) reference

/-- The call puts the entry under the name, which is free by then. -/
inductive Puts (document : Json) : Call → String → Entry → Prop where
  | enumeration {fuel : Nat} {registry : Registry} {node : SchemaNode} {schema : Schema}
      {name : String} (read : node.toSchema? = some schema)
      (visit : schema.visit (some name) = .enumeration) (free : registry.has name = false) :
      Puts document ⟨fuel + 1, registry, node, some name⟩ name ⟨.object schema, false, true⟩
  /-- What a composition is flattened to has been walked by then. -/
  | composition {fuel : Nat} {registry walked : Registry} {node : SchemaNode}
      {schema merged : Schema} {parent : String} (read : node.toSchema? = some schema)
      (visit : schema.visit (some parent) = .composition)
      (flattens : schema.resolveAllOf? document fuel = some merged)
      (returns : walk document fuel registry (.object merged)
        (some (Text.enumChildName parent)) = some walked)
      (free : walked.has (Text.enumChildName parent) = false) :
      Puts document ⟨fuel + 1, registry, node, some parent⟩ (Text.enumChildName parent)
        ⟨.object merged, true, merged.isEnumLike⟩
  /-- The target of the reference has been walked by then. -/
  | reference {fuel : Nat} {registry walked : Registry} {node : SchemaNode}
      {place : Option String} {reference : String} {inner : Call}
      (refers : Refers (node, place) reference)
      (opens : Opens document fuel registry reference inner)
      (returns : inner.Returns document walked)
      (free : walked.has (Reference.name reference) = false) :
      Puts document ⟨fuel + 1, registry, node, place⟩ (Reference.name reference)
        ⟨inner.node, false, inner.node.isEnumLike⟩

/-- A call within the call puts the entry under the name. -/
def PutsWithin (document : Json) (call : Call) (name : String) (entry : Entry) : Prop :=
  ∃ inner, Within document call inner ∧ inner.Puts document name entry

/-- What a call puts under a name is there when the call has ended. -/
theorem Puts.get? (h : call.Puts document name entry) (hreturns : call.Returns document after) :
    after.get? name = some entry := by
  cases h with
  | enumeration read visit free =>
    unfold Returns at hreturns
    rw [walk_enumeration read visit] at hreturns
    exact Option.some.inj hreturns ▸ get?_insertNew_of_free _ free
  | composition read visit flattens returns free =>
    unfold Returns at hreturns
    rw [walk_composition_some read visit, flattens, Option.bind_some, returns] at hreturns
    split at hreturns
    · next htaken =>
      -- The walk would not have been made with the name taken.
      rw [(walk_extends returns).has htaken] at free
      cases free
    · exact Option.some.inj hreturns ▸ get?_insertNew_of_free _ free
  | reference refers opens returns free =>
    obtain ⟨last, hlast, rfl⟩ := opens.inserts_of_refers refers hreturns
    obtain rfl := Option.some.inj (hlast.symm.trans returns)
    exact get?_insertNew_of_free _ free

theorem PutsWithin.get? (h : call.PutsWithin document name entry)
    (hreturns : call.Returns document after) : after.get? name = some entry := by
  obtain ⟨inner, hwithin, hputs⟩ := h
  obtain ⟨middle, hmiddle, hle⟩ := hwithin.returns hreturns
  exact hle.get? (hputs.get? hmiddle)

end Call

/-! ## Changes -/

/-- A change of the registry, told from what asks for references and what puts entries. -/
inductive Changes (document : Json) (asks : String → Nat → Registry → Prop)
    (puts : String → Entry → Prop) : Registry → Registry → Prop where
  /-- A reference that leads nowhere is marked. -/
  | marks {reference : String} {fuel : Nat} {registry : Registry}
      (asked : asks reference fuel registry) (fresh : reference ∉ registry.visited)
      (missing : Reference.resolveNode document reference = none) :
      Changes document asks puts registry (registry.visit reference)
  /-- A reference is marked, and its target is kept. -/
  | opens {reference : String} {fuel : Nat} {registry : Registry} {call : Call}
      (asked : asks reference fuel registry)
      (opens : Opens document fuel registry reference call) :
      Changes document asks puts registry call.registry
  /-- An entry is put under a name. -/
  | puts {registry : Registry} {name : String} {entry : Entry} (put : puts name entry) :
      Changes document asks puts registry (registry.insertNew name entry)

/-- The second registry comes of the first one by changes, one after the other. -/
abbrev Becomes (document : Json) (asks : String → Nat → Registry → Prop)
    (puts : String → Entry → Prop) : Registry → Registry → Prop :=
  ReflTransGen (Changes document asks puts)

namespace Becomes

variable {asks asks' : String → Nat → Registry → Prop} {puts puts' : String → Entry → Prop}
  {registry after : Registry} {name : String} {entry : Entry}

theorem mono (h : Becomes document asks puts registry after)
    (hasks : ∀ reference fuel start, asks reference fuel start → asks' reference fuel start)
    (hputs : ∀ name entry, puts name entry → puts' name entry) :
    Becomes document asks' puts' registry after := by
  refine ReflTransGen.mono (fun first second hchange => ?_) _ _ h
  cases hchange with
  | marks asked fresh missing => exact .marks (hasks _ _ _ asked) fresh missing
  | opens asked opens => exact .opens (hasks _ _ _ asked) opens
  | puts put => exact .puts (hputs _ _ put)

/-- An insertion is a change only if the name is free. -/
theorem insertNew (h : registry.has name = false → puts name entry) :
    Becomes document asks puts registry (registry.insertNew name entry) := by
  cases hname : registry.has name with
  | true =>
    rw [insertNew_of_has hname]
  | false => exact ReflTransGen.single (.puts (h hname))

/-- What every change keeps is kept. -/
theorem preserves {P : Registry → Prop} (h : Becomes document asks puts registry after)
    (hchange : ∀ first second, Changes document asks puts first second → P first → P second)
    (hstart : P registry) : P after := by
  induction h with
  | refl => exact hstart
  | tail _ hlast ih => exact hchange _ _ hlast ih

/-- An entry was there before, or was put there. -/
theorem get? (h : Becomes document asks puts registry after)
    (hafter : after.get? name = some entry) :
    registry.get? name = some entry ∨ puts name entry := by
  refine h.preserves (P := fun after => ∀ name entry, after.get? name = some entry →
    registry.get? name = some entry ∨ puts name entry) ?_ (fun _ _ => Or.inl) name entry hafter
  intro first second hchange hfirst name entry hsecond
  cases hchange with
  | marks => exact hfirst name entry hsecond
  | opens _ opens =>
    cases opens
    rw [Registry.get?, entries_keepTarget] at hsecond
    exact hfirst name entry hsecond
  | @puts _ put _ hput =>
    rw [get?_insertNew] at hsecond
    rcases Option.or_eq_some_iff.mp hsecond with hbefore | ⟨-, hnew⟩
    · exact hfirst name entry hbefore
    · split at hnew
      · next heq => exact Or.inr (heq ▸ Option.some.inj hnew ▸ hput)
      · cases hnew

/-- A marked reference was marked before, or was asked for while it was not marked; and if it leads
    somewhere, its target was walked. -/
theorem asked_of_visited (h : Becomes document asks puts registry after) {reference : String}
    (hvisited : reference ∈ after.visited) :
    reference ∈ registry.visited ∨ ∃ fuel start, asks reference fuel start ∧
      (Reference.resolveNode document reference = none ∨
        ∃ call, Opens document fuel start reference call) := by
  refine h.preserves (P := fun after => ∀ reference ∈ after.visited,
    reference ∈ registry.visited ∨ ∃ fuel start, asks reference fuel start ∧
      (Reference.resolveNode document reference = none ∨
        ∃ call, Opens document fuel start reference call))
    ?_ (fun _ => Or.inl) reference hvisited
  intro first second hchange hfirst reference hsecond
  cases hchange with
  | puts => exact hfirst reference hsecond
  | marks asked _ missing =>
    rcases List.mem_append.mp hsecond with hold | hnew
    · exact hfirst reference hold
    · obtain rfl := List.mem_singleton.mp hnew
      exact Or.inr ⟨_, _, asked, Or.inl missing⟩
  | opens asked opens =>
    rw [opens.visited] at hsecond
    rcases List.mem_append.mp hsecond with hold | hnew
    · exact hfirst reference hold
    · obtain rfl := List.mem_singleton.mp hnew
      exact Or.inr ⟨_, _, asked, Or.inr ⟨_, opens⟩⟩

end Becomes

/-! ### The changes of a walk -/

section

variable {fuel : Nat} {registry after : Registry} {node : SchemaNode} {place : Option String}

theorem Becomes.of_leads {call inner : Call} (hleads : Call.Leads document call inner)
    (h : Becomes document (inner.Asks document) (inner.PutsWithin document) registry after) :
    Becomes document (call.Asks document) (call.PutsWithin document) registry after := by
  refine h.mono ?_ ?_
  · rintro reference fuel start ⟨node, place, hwithin, hrefers⟩
    exact ⟨node, place, ReflTransGen.head hleads hwithin, hrefers⟩
  · rintro name entry ⟨last, hwithin, hputs⟩
    exact ⟨last, ReflTransGen.head hleads hwithin, hputs⟩

theorem becomes_of_walk (h : walk document fuel registry node place = some after) :
    Becomes document (Call.Asks document ⟨fuel, registry, node, place⟩)
      (Call.PutsWithin document ⟨fuel, registry, node, place⟩) registry after := by
  induction fuel generalizing registry after node place with
  | zero => cases h
  | succ fuel ih =>
    cases hnode : node.toSchema? with
    | none =>
      rw [walk_of_none hnode] at h
      exact Option.some.inj h ▸ ReflTransGen.refl
    | some schema =>
      cases hvisit : schema.visit place with
      | positions positions =>
        rw [walk_positions hnode hvisit] at h
        refine foldlM_preserves_split (P := Becomes document _ _ registry) ?_ h ReflTransGen.refl
        -- The call for a position starts from what those before it have registered.
        rintro first inner rest before next rfl hbefore hstep hP
        exact hP.trans ((ih hstep).of_leads (.makes (.position hnode hvisit hbefore)))
      | enumeration =>
        rw [walk_enumeration hnode hvisit] at h
        obtain rfl := Option.some.inj h
        cases place with
        | none => exact ReflTransGen.refl
        | some name =>
          exact .insertNew fun hfree =>
            ⟨_, ReflTransGen.refl, .enumeration hnode hvisit hfree⟩
      | reference reference =>
        rw [walk_reference hnode hvisit] at h
        have hrefers : Refers (node, place) reference := ⟨schema, hnode, hvisit⟩
        have hasks : Call.Asks document ⟨fuel + 1, registry, node, place⟩ reference fuel
          registry := ⟨node, place, ReflTransGen.refl, hrefers⟩
        rcases register_cases h with ⟨rfl, -⟩ | ⟨-, hfree, hfresh, ⟨hmissing, rfl⟩ |
          ⟨target, stored, walked, htarget, hstored, hwalked, rfl⟩⟩
        · exact ReflTransGen.refl
        · exact ReflTransGen.single (.marks hasks hfresh hmissing)
        · have hopens := Opens.target hfree hfresh htarget hstored
          refine ReflTransGen.head (.opens hasks hopens)
            (((ih hwalked).of_leads (.opens hrefers hopens)).trans
              (Becomes.insertNew fun hfree => ?_))
          exact ⟨_, ReflTransGen.refl, .reference hrefers hopens hwalked hfree⟩
      | composition =>
        cases place with
        | none =>
          rw [walk_composition_none hnode hvisit] at h
          obtain ⟨merged, hmerged, h⟩ := Option.bind_eq_some_iff.mp h
          exact (ih h).of_leads
            (.makes (.composition hnode hvisit (fun _ h => by cases h) hmerged))
        | some parent =>
          rw [walk_composition_some hnode hvisit] at h
          obtain ⟨merged, hmerged, h⟩ := Option.bind_eq_some_iff.mp h
          split at h
          · exact Option.some.inj h ▸ ReflTransGen.refl
          · next hfree =>
            rw [Bool.not_eq_true] at hfree
            obtain ⟨walked, hwalked, rfl⟩ := Option.map_eq_some_iff.mp h
            have hmakes : Call.Makes document ⟨fuel + 1, registry, node, some parent⟩
                ⟨fuel, registry, .object merged, some (Text.enumChildName parent)⟩ :=
              .composition hnode hvisit (fun _ h => Option.some.inj h ▸ hfree) hmerged
            refine ((ih hwalked).of_leads (.makes hmakes)).trans
              (Becomes.insertNew fun hfree => ?_)
            exact ⟨_, ReflTransGen.refl, .composition hnode hvisit hmerged hwalked hfree⟩

/-- What a call leads to comes of what the calls within it do. -/
theorem Call.Returns.becomes {call : Call} (h : call.Returns document after) :
    Becomes document (call.Asks document) (call.PutsWithin document) call.registry after :=
  becomes_of_walk h

end

/-! ## Requests -/

/-- A request makes a call: for its shape, unless its name is taken, or for the reference that it
    is. -/
inductive Starts (document : Json) (fuel : Nat) (registry : Registry) (request : Request) :
    Call → Prop where
  | shape {stored : SchemaNode} (inline : request.reference? = none)
      (free : registry.has request.name = false)
      (flattens : request.root.cleanup.flattenAllOf? document fuel = some stored) :
      Starts document fuel registry request ⟨fuel, registry, stored, some request.name⟩
  | answer {reference : String} {call : Call} (answers : request.reference? = some reference)
      (opens : Opens document fuel registry reference call) :
      Starts document fuel registry request call

namespace Request

/-- What a request adds is a class: the target of a reference, and a shape that is not added as a
    structure. -/
def isClass (request : Request) : Bool :=
  match request.reference? with
  | some _ => true
  | none => !request.asStruct

/-- While the request is added the reference is asked for: it is the request, or a call starts from
    it. -/
inductive Asks (document : Json) (fuel : Nat) (before : Registry) (request : Request)
    (reference : String) : Nat → Registry → Prop where
  | answer (answers : request.reference? = some reference) :
      Asks document fuel before request reference fuel before
  | within {call : Call} {less : Nat} {registry : Registry}
      (starts : Starts document fuel before request call)
      (asks : call.Asks document reference less registry) :
      Asks document fuel before request reference less registry

/-- While the request is added the entry is put under the name, which is free by then: by a call, or
    by the request itself after the call that it makes. -/
inductive Puts (document : Json) (fuel : Nat) (before : Registry) (request : Request) :
    String → Entry → Prop where
  | within {call : Call} {name : String} {entry : Entry}
      (starts : Starts document fuel before request call)
      (puts : call.PutsWithin document name entry) :
      Puts document fuel before request name entry
  | itself {call : Call} {walked : Registry} {name : String}
      (starts : Starts document fuel before request call) (place : call.place = some name)
      (returns : call.Returns document walked) (free : walked.has name = false) :
      Puts document fuel before request name ⟨call.node, request.isClass, call.node.isEnumLike⟩

end Request

section

variable {fuel : Nat} {before after : Registry} {request : Request} {answer : String} {call : Call}

theorem Starts.unique {other : Call} (h : Starts document fuel before request call)
    (h' : Starts document fuel before request other) : call = other := by
  cases h with
  | shape inline _ flattens =>
    cases h' with
    | shape _ _ flattens' =>
      obtain rfl := Option.some.inj (flattens.symm.trans flattens')
      rfl
    | answer answers => cases inline.symm.trans answers
  | answer answers opens =>
    cases h' with
    | shape inline => cases inline.symm.trans answers
    | answer answers' opens' =>
      obtain rfl := Option.some.inj (answers.symm.trans answers')
      exact opens.unique opens'

theorem Starts.extends (h : Starts document fuel before request call) :
    Extends before call.registry := by
  cases h with
  | shape => exact .refl _
  | answer _ opens => exact opens.extends

/-- The call that a request makes ends when the request is added, and the schema that was walked is
    inserted then. -/
theorem Starts.inserts (h : Starts document fuel before request call)
    (hadd : before.add document fuel request.name request.root request.asStruct =
      some (answer, after)) :
    ∃ walked name, call.Returns document walked ∧ call.place = some name ∧
      after = walked.insertNew name ⟨call.node, request.isClass, call.node.isEnumLike⟩ := by
  rcases (add_cases hadd).2 with ⟨reference, hanswers, hregister⟩ | ⟨hinline, htaken, -⟩ |
    ⟨hinline, -, stored, walked, hstored, hwalked, rfl⟩
  · cases h with
    | shape inline => cases inline.symm.trans hanswers
    | answer answers opens =>
      obtain rfl := Option.some.inj (hanswers.symm.trans answers)
      obtain ⟨walked, hwalked, rfl⟩ := opens.inserts hregister
      refine ⟨walked, _, hwalked, opens.place, ?_⟩
      rw [Request.isClass, hanswers]
      rfl
  · cases h with
    | shape _ free => cases free.symm.trans htaken
    | answer answers => cases hinline.symm.trans answers
  · cases h with
    | shape _ _ flattens =>
      obtain rfl := Option.some.inj (hstored.symm.trans flattens)
      refine ⟨walked, _, hwalked, rfl, ?_⟩
      rw [Request.isClass, hinline]
    | answer answers => cases hinline.symm.trans answers

theorem Starts.returns (h : Starts document fuel before request call)
    (hadd : before.add document fuel request.name request.root request.asStruct =
      some (answer, after)) : ∃ walked, call.Returns document walked ∧ Extends walked after := by
  obtain ⟨walked, name, hwalked, -, rfl⟩ := h.inserts hadd
  exact ⟨walked, hwalked, extends_insertNew ..⟩

/-- What is put under a name while a request is added is there when it has been added. -/
theorem Request.Puts.get? {name : String} {entry : Entry}
    (h : request.Puts document fuel before name entry)
    (hadd : before.add document fuel request.name request.root request.asStruct =
      some (answer, after)) : after.get? name = some entry := by
  cases h with
  | within starts puts =>
    obtain ⟨walked, hwalked, hle⟩ := starts.returns hadd
    exact hle.get? (puts.get? hwalked)
  | itself starts place returns free =>
    obtain ⟨walked, name, hwalked, hplace, rfl⟩ := starts.inserts hadd
    obtain rfl := Option.some.inj (place.symm.trans hplace)
    obtain rfl := Option.some.inj (returns.symm.trans hwalked)
    exact get?_insertNew_of_free _ free

namespace Request.Asks

variable {reference : String} {less : Nat} {start : Registry}

theorem extends_start (h : request.Asks document fuel before reference less start) :
    Extends before start := by
  cases h with
  | answer => exact .refl before
  | within starts asks =>
    obtain ⟨node, place, hwithin, -⟩ := asks
    exact starts.extends.trans hwithin.extends

/-- A reference that is asked for gets registered. -/
theorem register (h : request.Asks document fuel before reference less start)
    (hadd : before.add document fuel request.name request.root request.asStruct =
      some (answer, after)) :
    ∃ asStruct next, start.register document less reference asStruct = some next ∧
      Extends next after := by
  cases h with
  | answer answers =>
    rcases (add_cases hadd).2 with ⟨other, hanswers, hregister⟩ | ⟨hinline, -⟩ | ⟨hinline, -⟩
    · obtain rfl := Option.some.inj (answers.symm.trans hanswers)
      exact ⟨false, after, hregister, .refl after⟩
    · cases hinline.symm.trans answers
    · cases hinline.symm.trans answers
  | within starts asks =>
    obtain ⟨node, place, hwithin, schema, hread, hvisit⟩ := asks
    obtain ⟨walked, hwalked, hle⟩ := starts.returns hadd
    obtain ⟨next, hnext, hle'⟩ := hwithin.returns hwalked
    unfold Call.Returns at hnext
    rw [walk_reference hread hvisit] at hnext
    exact ⟨true, next, hnext, hle'.trans hle⟩

/-- A reference whose target is walked while a request is added is marked from then on. -/
theorem mem_visited (h : request.Asks document fuel before reference less start)
    (hopens : Opens document less start reference call)
    (hadd : before.add document fuel request.name request.root request.asStruct =
      some (answer, after)) : reference ∈ after.visited := by
  obtain ⟨asStruct, next, hregister, hle⟩ := h.register hadd
  obtain ⟨walked, hwalked, rfl⟩ := hopens.inserts hregister
  exact hle.visited.subset ((walk_extends hwalked).visited.subset hopens.marked)

end Request.Asks

/-- What the call that a request makes leads to comes of what is done while the request is added. -/
theorem Becomes.of_starts {registry : Registry} (hstarts : Starts document fuel before request call)
    (hreturns : call.Returns document registry) :
    Becomes document (request.Asks document fuel before) (request.Puts document fuel before)
      call.registry registry :=
  hreturns.becomes.mono (fun _ _ _ hasks => .within hstarts hasks)
    fun _ _ hputs => .within hstarts hputs

/-- Adding a request comes down to the changes that its calls and the request itself make. -/
theorem add_becomes (h : before.add document fuel request.name request.root request.asStruct =
      some (answer, after)) :
    Becomes document (request.Asks document fuel before) (request.Puts document fuel before)
      before after := by
  have hinserts : ∀ {call : Call} (starts : Starts document fuel before request call),
      Becomes document (request.Asks document fuel before) (request.Puts document fuel before)
        call.registry after := by
    intro call starts
    obtain ⟨walked, name, hwalked, hplace, rfl⟩ := starts.inserts h
    exact (Becomes.of_starts starts hwalked).trans
      (Becomes.insertNew fun hfree => .itself starts hplace hwalked hfree)
  rcases (add_cases h).2 with ⟨reference, hanswers, hregister⟩ | ⟨-, -, rfl⟩ |
    ⟨hinline, hfree, stored, walked, hstored, -, -⟩
  · rcases register_cases hregister with ⟨rfl, -⟩ | ⟨-, hfree, hfresh, ⟨hmissing, rfl⟩ |
      ⟨target, stored, walked, htarget, hstored, -, -⟩⟩
    · exact ReflTransGen.refl
    · exact ReflTransGen.single (.marks (.answer hanswers) hfresh hmissing)
    · have hopens := Opens.target hfree hfresh htarget hstored
      exact ReflTransGen.head (.opens (.answer hanswers) hopens)
        (hinserts (.answer hanswers hopens))
  · exact ReflTransGen.refl
  · exact hinserts (.shape hinline hfree hstored)

end

end Registry
end TypedClient
