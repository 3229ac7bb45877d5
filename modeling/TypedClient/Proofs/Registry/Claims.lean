/-
  TypedClient.Proofs.Registry.Claims

  What may be registered under a name, whatever comes first.  A call claims its name, a reference
  that a walk can come to claims the name of its target, and an enumeration or a composition at a
  reached position claims the name that the position gives it.  The claims are told from the
  document and the calls alone, and they are the same in whatever sequence the calls are made.

  Every entry is a claim on its name.  The converse, that every claimed name gets an entry, needs
  the claims to be coherent: an entry that takes a name keeps other schemas from being walked under
  it, and what only they depend on would be lost with them.
-/
import TypedClient.Proofs.Registry.Consistency

namespace TypedClient

/-- A walk stops at the node, and registers it as an enumeration if its position has a name. -/
def SchemaNode.Enumerates (node : SchemaNode) : Prop :=
  ∃ schema, node.toSchema? = some schema ∧ schema.visit none = .enumeration

/-- Whether a walk stops at an enumeration does not depend on the position. -/
theorem Schema.visit_enumeration_iff {schema : Schema} (place other : Option String) :
    schema.visit place = .enumeration ↔ schema.visit other = .enumeration := by
  unfold Schema.visit
  split
  · exact iff_of_false (fun h => by cases h) fun h => by cases h
  split
  · exact iff_of_false (fun h => by cases h) fun h => by cases h
  split
  · exact Iff.rfl
  split
  · exact Iff.rfl
  split
  · exact Iff.rfl
  split
  · exact iff_of_false (fun h => by cases h) fun h => by cases h
  · exact Iff.rfl

theorem SchemaNode.enumerates_iff {node : SchemaNode} {schema : Schema} {place : Option String}
    (hread : node.toSchema? = some schema) :
    node.Enumerates ↔ schema.visit place = .enumeration := by
  unfold SchemaNode.Enumerates
  rw [hread]
  constructor
  · rintro ⟨own, heq, hvisit⟩
    cases heq
    exact (Schema.visit_enumeration_iff none place).mp hvisit
  · exact fun hvisit => ⟨schema, rfl, (Schema.visit_enumeration_iff place none).mp hvisit⟩

namespace Registry

/-! ## Claims -/

/-- The entry may be registered under the name.  A schema that is an enumeration is one by its own
    position, before the call or the reference that it is of could store it. -/
inductive Claims (document : Json) (requests : List Request) : String → Entry → Prop where
  /-- The shape of a call, a class unless it is added as a structure. -/
  | shape {request : Request} {stored : SchemaNode} (mem : request ∈ requests)
      (inline : request.reference? = none) (stores : request.root.Stores document stored)
      (plain : ¬ stored.Enumerates) :
      Claims document requests request.name ⟨stored, !request.asStruct, stored.isEnumLike⟩
  /-- The target of the reference that a call is, which is a class. -/
  | answered {request : Request} {reference : String} {target stored : SchemaNode}
      (mem : request ∈ requests) (answers : request.reference? = some reference)
      (resolves : Reference.resolveNode document reference = some target)
      (stores : target.Stores document stored) (plain : ¬ stored.Enumerates) :
      Claims document requests (Reference.name reference) ⟨stored, true, stored.isEnumLike⟩
  /-- The target of a reference on the way, which is an alias. -/
  | target {node target stored : SchemaNode} {place : Option String} {schema : Schema}
      {reference : String} (reached : Reached document requests node place)
      (read : node.toSchema? = some schema) (visit : schema.visit place = .reference reference)
      (resolves : Reference.resolveNode document reference = some target)
      (stores : target.Stores document stored) (plain : ¬ stored.Enumerates) :
      Claims document requests (Reference.name reference) ⟨stored, false, stored.isEnumLike⟩
  /-- An enumeration at a position with a name. -/
  | enumeration {node : SchemaNode} {name : String} {schema : Schema}
      (reached : Reached document requests node (some name)) (read : node.toSchema? = some schema)
      (visit : schema.visit (some name) = .enumeration) :
      Claims document requests name ⟨.object schema, false, true⟩
  /-- What a composition at a position with a name is flattened to, which is a class. -/
  | composition {node : SchemaNode} {parent : String} {schema merged : Schema}
      (reached : Reached document requests node (some parent))
      (read : node.toSchema? = some schema) (visit : schema.visit (some parent) = .composition)
      (flattens : Schema.Flattens document [] schema merged)
      (plain : ¬ (SchemaNode.object merged).Enumerates) :
      Claims document requests (Text.enumChildName parent)
        ⟨.object merged, true, merged.isEnumLike⟩

/-- Two schemas that claim one name are the same, or both are enumerations. -/
def Coherent (document : Json) (requests : List Request) : Prop :=
  ∀ name first second, Claims document requests name first → Claims document requests name second →
    first.schema = second.schema ∨ (first.schema.Enumerates ∧ second.schema.Enumerates)

section

variable {document : Json} {requests more : List Request} {registry : Registry}
  {node : SchemaNode} {place : Option String} {name : String} {entry : Entry}

/-- More calls reach no less. -/
theorem Reached.mono (h : Reached document requests node place) (hsubset : requests ⊆ more) :
    Reached document more node place := by
  induction h with
  | shape mem inline stores => exact .shape (hsubset mem) inline stores
  | answered mem answers resolves stores => exact .answered (hsubset mem) answers resolves stores
  | target _ read visit resolves stores ih => exact .target ih read visit resolves stores
  | position _ read visit mem ih => exact .position ih read visit mem
  | composition _ read visit flattens ih => exact .composition ih read visit flattens
  | congr _ same ih => exact .congr ih same

/-- More calls claim no less. -/
theorem Claims.mono (h : Claims document requests name entry) (hsubset : requests ⊆ more) :
    Claims document more name entry := by
  cases h with
  | shape mem inline stores plain => exact .shape (hsubset mem) inline stores plain
  | answered mem answers resolves stores plain =>
    exact .answered (hsubset mem) answers resolves stores plain
  | target reached read visit resolves stores plain =>
    exact .target (reached.mono hsubset) read visit resolves stores plain
  | enumeration reached read visit => exact .enumeration (reached.mono hsubset) read visit
  | composition reached read visit flattens plain =>
    exact .composition (reached.mono hsubset) read visit flattens plain

/-! ## Entries are claims -/

/-- Every entry is a claim on its name. -/
def AllClaimed (document : Json) (requests : List Request) (registry : Registry) : Prop :=
  ∀ pair ∈ registry.entries, Claims document requests pair.1 pair.2

theorem AllClaimed.insertNew (h : AllClaimed document requests registry)
    (hentry : Claims document requests name entry) :
    AllClaimed document requests (registry.insertNew name entry) := by
  intro pair hpair
  rcases Keyed.mem_insertNew hpair with hpair | rfl
  · exact h pair hpair
  · exact hentry

/-- An enumeration has taken its name when its walk is over, so that nothing else is stored. -/
theorem AllClaimed.insertNew_walked {fuel : Nat} {walked : Registry}
    (h : AllClaimed document requests walked)
    (hwalk : walk document fuel registry node (some name) = some walked)
    (hentry : ¬ node.Enumerates → Claims document requests name entry) :
    AllClaimed document requests (walked.insertNew name entry) := by
  by_cases henum : node.Enumerates
  · have hhas : walked.has name = true := by
      obtain ⟨schema, hread, hvisit⟩ := henum
      cases fuel with
      | zero => cases hwalk
      | succ fuel =>
        rw [walk_enumeration hread ((Schema.visit_enumeration_iff none _).mp hvisit)] at hwalk
        obtain rfl := Option.some.inj hwalk
        exact has_insertNew ..
    rw [insertNew_of_has hhas]
    exact h
  · exact h.insertNew (hentry henum)

/-- Registering a reference keeps the entries claimed, if walking does. -/
theorem AllClaimed.register_of_walk {fuel : Nat}
    (hwalk : ∀ registry node place after, Reached document requests node place →
      walk document fuel registry node place = some after →
        AllClaimed document requests registry → AllClaimed document requests after)
    {reference : String} {asStruct : Bool} {after : Registry}
    (h : AllClaimed document requests registry) (hreferred : Referred document requests reference)
    (hclaims : ∀ target stored, Reference.resolveNode document reference = some target →
      target.Stores document stored → ¬ stored.Enumerates →
        Claims document requests (Reference.name reference)
          ⟨stored, !asStruct, stored.isEnumLike⟩)
    (hregister : registry.register document fuel reference asStruct = some after) :
    AllClaimed document requests after := by
  rcases register_cases hregister with ⟨rfl, -⟩ | ⟨-, -, -, ⟨-, rfl⟩ |
    ⟨target, stored, walked, htarget, hstored, hwalked, rfl⟩⟩
  · exact h
  · exact h
  · have hstart : AllClaimed document requests
        ((registry.visit reference).keepTarget reference stored) := by
      unfold AllClaimed
      rw [entries_keepTarget]
      exact h
    have hreached := hreferred.reached htarget ⟨fuel, hstored⟩
    exact (hwalk _ _ _ _ hreached hwalked hstart).insertNew_walked hwalked
      (hclaims target stored htarget ⟨fuel, hstored⟩)

/-- Walking a reached node keeps the entries claimed. -/
theorem AllClaimed.walk {fuel : Nat} {after : Registry} (h : AllClaimed document requests registry)
    (hreached : Reached document requests node place)
    (hwalk : Registry.walk document fuel registry node place = some after) :
    AllClaimed document requests after := by
  induction fuel generalizing registry after node place with
  | zero => cases hwalk
  | succ fuel ih =>
    cases hnode : node.toSchema? with
    | none =>
      rw [walk_of_none hnode] at hwalk
      exact Option.some.inj hwalk ▸ h
    | some schema =>
      cases hvisit : schema.visit place with
      | positions positions =>
        rw [walk_positions hnode hvisit] at hwalk
        exact foldlM_preserves_mem (P := AllClaimed document requests)
          (fun _ position hmem _ hstep hP => ih hP (hreached.position hnode hvisit hmem) hstep)
          hwalk h
      | enumeration =>
        rw [walk_enumeration hnode hvisit] at hwalk
        obtain rfl := Option.some.inj hwalk
        cases place with
        | none => exact h
        | some name => exact h.insertNew (.enumeration hreached hnode hvisit)
      | reference reference =>
        rw [walk_reference hnode hvisit] at hwalk
        refine h.register_of_walk (fun _ _ _ _ hreached hwalk h => ih h hreached hwalk)
          (Or.inr ⟨node, place, schema, hreached, hnode, hvisit⟩) ?_ hwalk
        exact fun _ _ resolves stores plain =>
          .target hreached hnode hvisit resolves stores plain
      | composition =>
        cases place with
        | none =>
          rw [walk_composition_none hnode hvisit] at hwalk
          obtain ⟨merged, hmerged, hwalk⟩ := Option.bind_eq_some_iff.mp hwalk
          exact ih h (hreached.composition hnode hvisit ⟨fuel, hmerged⟩) hwalk
        | some parent =>
          rw [walk_composition_some hnode hvisit] at hwalk
          obtain ⟨merged, hmerged, hwalk⟩ := Option.bind_eq_some_iff.mp hwalk
          split at hwalk
          · exact Option.some.inj hwalk ▸ h
          · obtain ⟨walked, hwalked, rfl⟩ := Option.map_eq_some_iff.mp hwalk
            have hchild := hreached.composition hnode hvisit ⟨fuel, hmerged⟩
            exact (ih h hchild hwalked).insertNew_walked hwalked
              (.composition hreached hnode hvisit ⟨fuel, hmerged⟩)

/-- A call keeps the entries claimed. -/
theorem AllClaimed.add {request : Request} {fuel : Nat} {answer : String} {after : Registry}
    (h : AllClaimed document requests registry) (hmem : request ∈ requests)
    (hadd : registry.add document fuel request.name request.root request.asStruct =
      some (answer, after)) : AllClaimed document requests after := by
  rcases (add_cases hadd).2 with ⟨reference, hanswers, hregister⟩ | ⟨-, -, rfl⟩ |
    ⟨hinline, -, stored, walked, hstored, hwalked, rfl⟩
  · refine h.register_of_walk (fun _ _ _ _ hreached hwalk h => h.walk hreached hwalk)
      (Or.inl ⟨request, hmem, hanswers⟩) ?_ hregister
    exact fun _ _ resolves stores plain => .answered hmem hanswers resolves stores plain
  · exact h
  · have hreached : Reached document requests stored (some request.name) :=
      .shape hmem hinline ⟨fuel, hstored⟩
    exact (h.walk hreached hwalked).insertNew_walked hwalked (.shape hmem hinline ⟨fuel, hstored⟩)

/-- Every entry that calls of `add` lead to is a claim on its name. -/
theorem Adds.claims (h : Adds document requests registry)
    (hentry : registry.get? name = some entry) : Claims document requests name entry := by
  -- The claims of some calls are claims of all, so that the induction can go call by call.
  have hall : ∀ more, requests ⊆ more → AllClaimed document more registry := by
    clear hentry
    induction h with
    | nil => exact fun _ _ pair hpair => by cases hpair
    | snoc request _ hlast ih =>
      intro more hsubset
      obtain ⟨hfirst, hrequest⟩ := List.append_subset.mp hsubset
      exact (ih more hfirst).add (hrequest (List.mem_singleton.mpr rfl)) hlast
  exact hall requests (List.Subset.refl _) (name, entry) (Keyed.mem_of_get? hentry)

/-! ## Claimed names have entries -/

/-- The name of an inline shape has an entry. -/
theorem Adds.has_of_inline {request : Request} (h : Adds document requests registry)
    (hmem : request ∈ requests) (hinline : request.reference? = none) :
    registry.has request.name = true := by
  have hanswer : request.answer = request.name := by rw [Request.answer, hinline]
  rcases h.has_answer hmem with hhas | ⟨reference, href, -⟩
  · exact hanswer ▸ hhas
  · rw [hinline] at href
    cases href

/-- The name of the reference that a call is has an entry, if the reference leads somewhere. -/
theorem Adds.has_of_answers {request : Request} {reference : String} {target : SchemaNode}
    (h : Adds document requests registry) (hmem : request ∈ requests)
    (hanswers : request.reference? = some reference)
    (hresolves : Reference.resolveNode document reference = some target) :
    registry.has (Reference.name reference) = true := by
  have hanswer : request.answer = Reference.name reference := by rw [Request.answer, hanswers]
  rcases h.has_answer hmem with hhas | ⟨other, href, hnone⟩
  · exact hanswer ▸ hhas
  · obtain rfl := Option.some.inj (hanswers.symm.trans href)
    rw [Reference.resolveNode, hnone] at hresolves
    cases hresolves

/-- The walk of a position is in the registry, or would have stopped there at an enumeration whose
    name is taken. -/
def Accounted (document : Json) (requests : List Request) (registry : Registry) (node : SchemaNode)
    (place : Option String) : Prop :=
  Walked document requests registry node place ∨
    (node.Enumerates ∧ ∀ name, place = some name → registry.has name = true)

/-- Only an enumeration can be accounted for without having been walked. -/
theorem Accounted.walked {schema : Schema} (h : Accounted document requests registry node place)
    (hread : node.toSchema? = some schema) (hvisit : schema.visit place ≠ .enumeration) :
    Walked document requests registry node place :=
  h.resolve_right fun henum => hvisit ((SchemaNode.enumerates_iff hread).mp henum.1)

/-- A schema under a name that is taken is accounted for when the claims are coherent: the entry
    that has the name is for the same schema, and was walked under the name. -/
theorem Coherent.accounted (hcoherent : Coherent document requests)
    (h : Adds document requests registry) (hhas : registry.has name = true)
    (hclaim : ¬ node.Enumerates → ∃ isClass,
      Claims document requests name ⟨node, isClass, node.isEnumLike⟩) :
    Accounted document requests registry node (some name) := by
  by_cases henum : node.Enumerates
  · exact Or.inr ⟨henum, fun other heq => Option.some.inj heq ▸ hhas⟩
  obtain ⟨entry, hentry⟩ := has_iff_exists.mp hhas
  obtain ⟨isClass, hclaim⟩ := hclaim henum
  -- What took the name claims it too, so it is the same schema.
  rcases hcoherent name entry _ (h.claims hentry) hclaim with hsame | ⟨-, hnode⟩
  · have hsame : entry.schema = node := hsame
    exact Or.inl (hsame ▸ h.sound.entry (name, entry) (Keyed.mem_of_get? hentry))
  · exact absurd hnode henum

/-- When the claims are coherent, every reached position is accounted for. -/
theorem Coherent.accounted_of_reached (hcoherent : Coherent document requests)
    (h : Adds document requests registry) (hreached : Reached document requests node place) :
    Accounted document requests registry node place := by
  induction hreached with
  -- A schema that is registered itself has its name taken, so that its claim decides.
  | shape mem inline stores =>
    exact hcoherent.accounted h (h.has_of_inline mem inline) fun plain =>
      ⟨_, .shape mem inline stores plain⟩
  | answered mem answers resolves stores =>
    exact hcoherent.accounted h (h.has_of_answers mem answers resolves) fun plain =>
      ⟨_, .answered mem answers resolves stores plain⟩
  | target reached read visit resolves stores ih =>
    have hwalked := ih.walked read (by rw [visit]; exact fun heq => by cases heq)
    exact hcoherent.accounted h (h.sound.has_of_walked hwalked read visit resolves) fun plain =>
      ⟨_, .target reached read visit resolves stores plain⟩
  | position reached read visit mem ih =>
    have hwalked := ih.walked read (by rw [visit]; exact fun heq => by cases heq)
    exact Or.inl (hwalked.position read visit mem)
  | @composition node place schema merged reached read visit flattens ih =>
    have hwalked := ih.walked read (by rw [visit]; exact fun heq => by cases heq)
    cases place with
    | none => exact Or.inl (hwalked.composition_none read visit flattens)
    | some parent =>
      exact hcoherent.accounted h (hwalked.has_enumChildName read visit) fun plain =>
        ⟨_, .composition reached read visit flattens plain⟩
  | congr _ same ih =>
    rcases ih with hwalked | ⟨⟨schema, hread, hvisit⟩, hhas⟩
    · exact Or.inl (hwalked.congr same)
    · exact Or.inr ⟨⟨schema, same.trans hread, hvisit⟩, hhas⟩

/-- When the claims are coherent, the names that have entries are those that are claimed. -/
theorem Coherent.has_iff_claims (hcoherent : Coherent document requests)
    (h : Adds document requests registry) :
    registry.has name = true ↔ ∃ entry, Claims document requests name entry := by
  constructor
  · intro hhas
    obtain ⟨entry, hentry⟩ := has_iff_exists.mp hhas
    exact ⟨entry, h.claims hentry⟩
  rintro ⟨entry, hclaims⟩
  cases hclaims with
  | shape mem inline => exact h.has_of_inline mem inline
  | answered mem answers resolves => exact h.has_of_answers mem answers resolves
  | target reached read visit resolves =>
    have hwalked := (hcoherent.accounted_of_reached h reached).walked read
      (by rw [visit]; exact fun heq => by cases heq)
    exact h.sound.has_of_walked hwalked read visit resolves
  | enumeration reached read visit =>
    rcases hcoherent.accounted_of_reached h reached with hwalked | ⟨-, hhas⟩
    · exact hwalked.has_enumeration read visit
    · exact hhas _ rfl
  | composition reached read visit =>
    have hwalked := (hcoherent.accounted_of_reached h reached).walked read
      (by rw [visit]; exact fun heq => by cases heq)
    exact hwalked.has_enumChildName read visit

/-! ## Calls in another sequence -/

/-- The name is claimed as a class, and also as an alias. -/
def Contested (document : Json) (requests : List Request) (name : String) : Prop :=
  ∃ first second, Claims document requests name first ∧ Claims document requests name second ∧
    first.isClass = true ∧ second.isClass = false

/-- Two entries claim the name, and their schemas are different enumerations. -/
structure Disputed (document : Json) (requests : List Request) (name : String)
    (first second : Entry) : Prop where
  claims : Claims document requests name first ∧ Claims document requests name second
  enumerate : first.schema.Enumerates ∧ second.schema.Enumerates
  differ : first.schema ≠ second.schema

/-- Two entries under one name are alike but for what the claims on the name leave open: which of
    the enumerations that claim it, and the flag when it is claimed both as a class and as an
    alias. -/
structure Matching (document : Json) (requests : List Request) (name : String)
    (first second : Entry) : Prop where
  isEnum : first.isEnum = second.isEnum
  schema : first.schema = second.schema ∨ Disputed document requests name first second
  isClass : first.isClass = second.isClass ∨ Contested document requests name

/-- The flag of a claim tells whether its schema lists its values. -/
theorem Claims.isEnum_eq (h : Claims document requests name entry) :
    entry.isEnum = entry.schema.isEnumLike := by
  cases h with
  | shape => rfl
  | answered => rfl
  | target => rfl
  | enumeration reached read visit => exact (isEnumLike_of_visit visit).symm
  | composition => rfl

/-- A schema at which walks stop is claimed as an enumeration. -/
theorem Claims.isEnum_of_enumerates (h : Claims document requests name entry)
    (henum : entry.schema.Enumerates) : entry.isEnum = true := by
  cases h with
  | shape mem inline stores plain => exact absurd henum plain
  | answered mem answers resolves stores plain => exact absurd henum plain
  | target reached read visit resolves stores plain => exact absurd henum plain
  | enumeration => rfl
  | composition reached read visit flattens plain => exact absurd henum plain

/-- Two claims on one name are alike when the claims are coherent. -/
theorem Coherent.alike {other : Entry} (hcoherent : Coherent document requests)
    (h : Claims document requests name entry) (h' : Claims document requests name other) :
    Matching document requests name entry other := by
  have hschema := hcoherent name entry other h h'
  refine ⟨?_, ?_, ?_⟩
  · rcases hschema with hsame | ⟨henum, henum'⟩
    · rw [h.isEnum_eq, h'.isEnum_eq, hsame]
    · rw [h.isEnum_of_enumerates henum, h'.isEnum_of_enumerates henum']
  · by_cases hsame : entry.schema = other.schema
    · exact Or.inl hsame
    · exact Or.inr ⟨⟨h, h'⟩, hschema.resolve_left hsame, hsame⟩
  · cases hclass : entry.isClass with
    | true =>
      cases hclass' : other.isClass with
      | true => exact Or.inl rfl
      | false => exact Or.inr ⟨entry, other, h, h', hclass, hclass'⟩
    | false =>
      cases hclass' : other.isClass with
      | true => exact Or.inr ⟨other, entry, h', h, hclass', hclass⟩
      | false => exact Or.inl rfl

/-- The registries have the same names, with entries that are alike. -/
structure Agree (document : Json) (requests : List Request) (first second : Registry) : Prop where
  names : ∀ name, first.has name = second.has name
  entries : ∀ name entry other, first.get? name = some entry → second.get? name = some other →
    Matching document requests name entry other

/-- Whatever the sequence of the calls, the registries that they lead to agree when the claims are
    coherent. -/
theorem Coherent.agree {others : List Request} {other : Registry}
    (hcoherent : Coherent document requests) (h : Adds document requests registry)
    (h' : Adds document others other) (hsubset : requests ⊆ others) (hsubset' : others ⊆ requests) :
    Agree document requests registry other := by
  have hothers : Coherent document others := fun name first second hfirst hsecond =>
    hcoherent name first second (hfirst.mono hsubset') (hsecond.mono hsubset')
  refine ⟨fun name => ?_, fun name entry entry' hentry hentry' => ?_⟩
  · rw [Bool.eq_iff_iff, hcoherent.has_iff_claims h, hothers.has_iff_claims h']
    exact ⟨fun ⟨entry, hentry⟩ => ⟨entry, hentry.mono hsubset⟩,
      fun ⟨entry, hentry⟩ => ⟨entry, hentry.mono hsubset'⟩⟩
  · exact hcoherent.alike (h.claims hentry) ((h'.claims hentry').mono hsubset')

end

end Registry
end TypedClient
