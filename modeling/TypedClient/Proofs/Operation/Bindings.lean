/-
  TypedClient.Proofs.Operation.Bindings

  An operation records a name for each of its shapes, and the entry under the name ought to be what
  the shape stores.  A name is kept for whatever takes it first: a shape goes by its own entry just
  when nothing else has taken its name before, or what has taken it stores the same.
-/
import TypedClient.Proofs.Operation.Requests

namespace TypedClient

open Document
open Registry (Request Adds Origin)

namespace Registry

variable {document : Json} {fuel : Nat} {calls : List Request} {request : Request}
  {registry : Registry}

/-! ## The first to take a name -/

/-- The entry under the name that a call answers is what the shape of the call stores. -/
def Serves (document : Json) (registry : Registry) (request : Request) : Prop :=
  ∃ entry, registry.get? request.answer = some entry ∧ request.root.Stores document entry.schema

/-- Another entry has the name of a call when the call comes to take it: one that earlier calls led
    to, or one that walking the shape of the call led to. -/
inductive Forestalls (document : Json) (fuel : Nat) (calls : List Request) (request : Request)
    (entry : Entry) : Prop where
  | earlier {first rest : List Request} {before : Registry}
      (split : calls = first ++ request :: rest)
      (reached : addAll document fuel .empty first = some before)
      (taken : before.get? request.name = some entry)
  | within {first rest : List Request} {before walked : Registry} {stored : SchemaNode}
      (split : calls = first ++ request :: rest)
      (reached : addAll document fuel .empty first = some before)
      (free : before.has request.name = false)
      (stores : request.root.Stores document stored)
      (walk : walk document fuel before stored (some request.name) = some walked)
      (taken : walked.get? request.name = some entry)

/-- The name of a call is taken before by something that the shape of the call does not store. -/
def Usurped (document : Json) (fuel : Nat) (calls : List Request) (request : Request) : Prop :=
  ∃ entry, Forestalls document fuel calls request entry ∧
    ¬ request.root.Stores document entry.schema

/-- The entry under the name of an inline shape was there before the call, or was found while the
    shape was walked, or else is what the shape stores. -/
theorem forestalls_or_stores
    (hcalls : addAll document fuel .empty calls = some registry) (hmem : request ∈ calls)
    (hinline : request.reference? = none) :
    ∃ entry, registry.get? request.answer = some entry ∧
      (Forestalls document fuel calls request entry ∨
        request.root.Stores document entry.schema) := by
  have hanswer : request.answer = request.name := by rw [Request.answer, hinline]
  obtain ⟨first, rest, hsplit⟩ := List.append_of_mem hmem
  obtain ⟨before, answer, after, hreached, hadd, hle⟩ := addAll_split (hsplit ▸ hcalls)
  rw [hanswer]
  rcases (add_cases hadd).2 with ⟨reference, href, -⟩ | ⟨-, hhas, rfl⟩ |
    ⟨-, hfree, stored, walked, hstored, hwalked, rfl⟩
  · rw [hinline] at href
    cases href
  · obtain ⟨entry, hentry⟩ := has_iff_exists.mp hhas
    exact ⟨entry, hle.get? hentry, Or.inl (.earlier hsplit hreached hentry)⟩
  -- The shape was walked, and the walk may have taken the name that was free before it.
  · obtain ⟨entry, hentry, htaken | rfl⟩ := get?_insertNew_self walked request.name _
    · refine ⟨entry, hle.get? hentry, Or.inl ?_⟩
      exact .within hsplit hreached hfree ⟨fuel, hstored⟩ hwalked htaken
    · exact ⟨_, hle.get? hentry, Or.inr ⟨fuel, hstored⟩⟩

/-- An entry that has the name of an inline shape before the shape takes it keeps the name. -/
theorem Forestalls.get? {entry : Entry} (h : Forestalls document fuel calls request entry)
    (hcalls : addAll document fuel .empty calls = some registry)
    (hinline : request.reference? = none) : registry.get? request.name = some entry := by
  cases h with
  | earlier split reached taken =>
    obtain ⟨before, answer, after, hbefore, hadd, hle⟩ := addAll_split (split ▸ hcalls)
    obtain rfl := Option.some.inj (reached.symm.trans hbefore)
    exact hle.get? ((add_extends hadd).get? taken)
  | within split reached free stores walk taken =>
    obtain ⟨before, answer, after, hbefore, hadd, hle⟩ := addAll_split (split ▸ hcalls)
    obtain rfl := Option.some.inj (reached.symm.trans hbefore)
    rcases (add_cases hadd).2 with ⟨reference, href, -⟩ | ⟨-, hhas, -⟩ |
      ⟨-, -, stored, walked, hstored, hwalked, rfl⟩
    · rw [hinline] at href
      cases href
    · rw [free] at hhas
      cases hhas
    · -- The walk of the call is the one in which the name was taken.
      obtain rfl := stores.unique ⟨fuel, hstored⟩
      obtain rfl := Option.some.inj (walk.symm.trans hwalked)
      exact hle.get? ((extends_insertNew _ ..).get? taken)

/-- An inline shape goes by its own entry just when its name is not taken before by something
    else. -/
theorem serves_iff_not_usurped (hcalls : addAll document fuel .empty calls = some registry)
    (hmem : request ∈ calls) (hinline : request.reference? = none) :
    Serves document registry request ↔ ¬ Usurped document fuel calls request := by
  have hanswer : request.answer = request.name := by rw [Request.answer, hinline]
  constructor
  · rintro ⟨entry, hentry, hstores⟩ ⟨other, hother, hnot⟩
    rw [hanswer, hother.get? hcalls hinline] at hentry
    exact hnot (Option.some.inj hentry ▸ hstores)
  · intro hfree
    obtain ⟨entry, hentry, hother | hstores⟩ := forestalls_or_stores hcalls hmem hinline
    · refine ⟨entry, hentry, ?_⟩
      by_contra hnot
      exact hfree ⟨entry, hother, hnot⟩
    · exact ⟨entry, hentry, hstores⟩

/-- Two shapes that go by their own entries under one name store the same. -/
theorem Serves.stores_iff {other : Request} (h : Serves document registry request)
    (h' : Serves document registry other) (hanswer : request.answer = other.answer)
    (stored : SchemaNode) :
    request.root.Stores document stored ↔ other.root.Stores document stored := by
  obtain ⟨entry, hentry, hstores⟩ := h
  obtain ⟨entry', hentry', hstores'⟩ := h'
  rw [← hanswer, hentry] at hentry'
  obtain rfl := Option.some.inj hentry'
  constructor
  · exact fun hstored => hstores.unique hstored ▸ hstores'
  · exact fun hstored => hstores'.unique hstored ▸ hstores

/-- What takes the name of an inline shape before it is the shape of another call, the target of a
    reference, or an enumeration or a composition at a position with the name. -/
theorem Forestalls.origin {entry : Entry} (h : Forestalls document fuel calls request entry)
    (hcalls : addAll document fuel .empty calls = some registry)
    (hinline : request.reference? = none) :
    Origin document calls registry request.name entry.schema :=
  (adds_of_addAll hcalls).sound.origin (request.name, entry)
    (Keyed.mem_of_get? (h.get? hcalls hinline))

end Registry

namespace Operation

variable {document : Json} {fuel : Nat}

open Registry

/-! ## The shapes of the operations -/

/-- The call by status is the call of one of the responses. -/
theorem mem_of_get?_requestsByStatus {schemaId status : String}
    {responses : List (String × MaybeRef Response)} {request : Request}
    (h : Keyed.get? status (requestsByStatus document schemaId responses) = some request) :
    request ∈ responses.filterMap (responseRequest? document schemaId) := by
  induction responses using List.reverseRecOn with
  | nil => cases h
  | append_singleton read response ih =>
    rw [List.filterMap_append, List.mem_append]
    cases hresponse : responseRequest? document schemaId response with
    | none =>
      rw [requestsByStatus_of_none hresponse] at h
      exact Or.inl (ih h)
    | some own =>
      rw [get?_requestsByStatus_of_some hresponse] at h
      split at h
      · refine Or.inr (List.mem_filterMap.mpr ⟨response, List.mem_singleton.mpr rfl, ?_⟩)
        exact hresponse.trans h
      · exact Or.inl (ih h)

/-- The call that registers a shape is one of the calls of the operation. -/
theorem Reading.mem_requests {reading : Reading} {slot : Slot} {request : Request}
    (h : reading.request? document slot = some request) :
    request ∈ reading.requests document := by
  unfold Reading.requests
  rw [List.mem_append, List.mem_append, Option.mem_toList, Option.mem_toList]
  cases slot with
  | params => exact Or.inl (Or.inl h)
  | body => exact Or.inl (Or.inr h)
  | response status =>
    dsimp only [Reading.request?] at h
    split at h
    · rcases Option.or_eq_some_iff.mp h with h | ⟨-, h⟩
      · exact Or.inr (mem_of_get?_requestsByStatus h)
      · split at h
        · exact Or.inr (mem_of_get?_requestsByStatus h)
        · cases h
    · cases h

/-- A shape of an operation is registered among all calls. -/
theorem mem_calls {reading : Reading} (hreading : reading ∈ readings document) {slot : Slot}
    {request : Request} (h : reading.request? document slot = some request) :
    request ∈ calls document :=
  List.mem_flatMap.mpr ⟨reading, hreading, Reading.mem_requests h⟩

/-- Every operation records, for each of its shapes, the name that the call of the shape answers.
    The entry under the name of an inline shape is what that shape stores just when the name was
    not taken before by something that the shape does not store; and inline shapes that share a
    name without that store the same.  What takes a name before is the shape of another call, the
    target of a reference, or an enumeration or a composition inside a shape. -/
theorem recorded_shape_served_iff {operations : List Operation} {registry : Registry}
    (h : extractAll document fuel .empty = some (operations, registry)) :
    List.Forall₂ (Reads document) (readings document) operations ∧
      (∀ reading ∈ readings document, ∀ slot request,
        reading.request? document slot = some request → request.reference? = none →
          (Serves document registry request ↔ ¬ Usurped document fuel (calls document) request)) ∧
      (∀ first ∈ calls document, ∀ second ∈ calls document, first.reference? = none →
        second.reference? = none → first.answer = second.answer →
          ¬ Usurped document fuel (calls document) first →
          ¬ Usurped document fuel (calls document) second →
            ∀ stored, first.root.Stores document stored ↔ second.root.Stores document stored) ∧
      (∀ request ∈ calls document, request.reference? = none → ∀ entry,
        Forestalls document fuel (calls document) request entry →
          Origin document (calls document) registry request.name entry.schema) := by
  obtain ⟨hreads, hcalls⟩ := extractAll_reads h
  refine ⟨hreads, ?_, ?_, ?_⟩
  · intro reading hreading slot request hrequest hinline
    exact serves_iff_not_usurped hcalls (mem_calls hreading hrequest) hinline
  · intro first hfirst second hsecond hinline hinline' hanswer hfree hfree'
    have hserves := (serves_iff_not_usurped hcalls hfirst hinline).mpr hfree
    have hserves' := (serves_iff_not_usurped hcalls hsecond hinline').mpr hfree'
    exact hserves.stores_iff hserves' hanswer
  · intro request _ hinline entry hentry
    exact hentry.origin hcalls hinline

/-! ### A name that two operations share -/

/-- A path whose only operation answers with a value of a type. -/
def answering (type : String) : Json :=
  .obj [("get", .obj [("responses", .obj [("200", .obj [("content", .obj [("application/json",
    .obj [("schema", .obj [("type", .str type)])])])])])])]

/-- Two paths that differ, but lead to one name. -/
def twoPaths : Json :=
  .obj [("paths", .obj [("/a-b", answering "string"), ("/a/b", answering "number")])]

/-- The name under which an operation answers success, the reference that the answer is, and the
    type of its values when it has no composition. -/
def successOf (document : Json) (i : Nat) :
    Option (String × Option String × Option (Bool × Option String)) :=
  ((readings document)[i]?.bind (·.request? document (.response "200"))).map fun request =>
    (request.answer, request.reference?,
      request.root.toSchema?.map fun schema => (schema.allOf.isNone, schema.typeName?))

/-- The call of an answer without a composition: what is stored for it has its type. -/
theorem exists_call_of_successOf {document : Json} {i : Nat} {name : String}
    {type : Option String} (h : successOf document i = some (name, none, some (true, type))) :
    ∃ request ∈ calls document, request.answer = name ∧ request.reference? = none ∧
      ∀ stored, request.root.Stores document stored →
        stored.toSchema?.map Schema.typeName? = some type := by
  obtain ⟨request, hrequest, hfacts⟩ := Option.map_eq_some_iff.mp h
  obtain ⟨reading, hreading, hrequest⟩ := Option.bind_eq_some_iff.mp hrequest
  obtain ⟨hanswer, hrest⟩ := Prod.mk.inj hfacts
  obtain ⟨hinline, hschema⟩ := Prod.mk.inj hrest
  obtain ⟨schema, hschema, hfacts⟩ := Option.map_eq_some_iff.mp hschema
  obtain ⟨hallOf, htype⟩ := Prod.mk.inj hfacts
  refine ⟨request, mem_calls (List.mem_of_getElem? hreading) hrequest, hanswer, hinline, ?_⟩
  intro stored hstored
  rw [hstored.toSchema?_eq hschema (Option.isNone_iff_eq_none.mp hallOf), Option.map_some, htype]

/-- Two operations record one name for two shapes, and one of the shapes does not go by its own
    entry. -/
theorem twoPaths_share_name : ∃ operations registry,
    extractAll twoPaths 64 .empty = some (operations, registry) ∧
      operations.map (·.recorded (.response "200")) = [some "GetAB200", some "GetAB200"] ∧
      ∃ request ∈ calls twoPaths, request.reference? = none ∧
        Usurped twoPaths 64 (calls twoPaths) request ∧ ¬ Serves twoPaths registry request := by
  have hends : (extractAll twoPaths 64 .empty).map
      (fun result => result.1.map (·.recorded (.response "200"))) =
        some [some "GetAB200", some "GetAB200"] := by decide +kernel
  obtain ⟨⟨operations, registry⟩, h, hnames⟩ := Option.map_eq_some_iff.mp hends
  have hfirst : successOf twoPaths 0 =
      some ("GetAB200", none, some (true, some "string")) := by decide +kernel
  have hsecond : successOf twoPaths 1 =
      some ("GetAB200", none, some (true, some "number")) := by decide +kernel
  obtain ⟨first, hmem, hanswer, hinline, hstored⟩ := exists_call_of_successOf hfirst
  obtain ⟨second, hmem', hanswer', hinline', hstored'⟩ := exists_call_of_successOf hsecond
  obtain ⟨-, -, hsame, -⟩ := recorded_shape_served_iff h
  obtain ⟨-, hcalls⟩ := extractAll_reads h
  refine ⟨operations, registry, h, hnames, ?_⟩
  by_contra hnone
  have hfree : ∀ request ∈ calls twoPaths, request.reference? = none →
      ¬ Usurped twoPaths 64 (calls twoPaths) request := by
    intro request hrequest hreference husurped
    -- A shape whose name is usurped is not served, by the equivalence.
    refine hnone ⟨request, hrequest, hreference, husurped, fun hserves => ?_⟩
    exact (serves_iff_not_usurped hcalls hrequest hreference).mp hserves husurped
  -- With every shape under its own entry, the two shapes would store the same.
  obtain ⟨stored, hstores⟩ := SchemaNode.exists_stores twoPaths first.root
  have hboth := (hsame first hmem second hmem' hinline hinline' (hanswer.trans hanswer'.symm)
    (hfree first hmem hinline) (hfree second hmem' hinline') stored).mp hstores
  have heq := (hstored stored hstores).symm.trans (hstored' stored hboth)
  exact absurd heq (by decide)

end Operation
end TypedClient
