/-
  TypedClient.Proofs.Operation.Requests

  Extraction taken apart: the calls that register the shapes of an operation, and the names that
  the operation records.  The names do not depend on the registry, so that an operation is read
  from what is written and the ids that are taken; the registry is what the calls lead to.
-/
import TypedClient.Operation.Extract
import TypedClient.Proofs.Registry.Soundness

namespace TypedClient

open Document
open Registry (Request Adds)

namespace Operation

variable {document : Json} {fuel : Nat}

/-! ## The calls of an operation -/

/-- The call that registers the shape of the parameters, if there are any. -/
def paramsRequest? (schemaId : String) (shape : ParamsShape) : Option Request :=
  if shape.properties.isEmpty then none
  else some ⟨schemaId ++ "Params", .object shape.toSchema, true⟩

/-- The call that registers the body, if one is sent that has a schema. -/
def bodyRequest? (document : Json) (schemaId : String) (body : Option (MaybeRef RequestBody)) :
    Option Request :=
  match body.bind (MaybeRef.resolve document RequestBody.ofJson?) with
  | none => none
  | some body =>
    match jsonSchema? body.content, Keyed.get? formMediaType body.content with
    | some schema, _ => some ⟨schemaId ++ "Request", .ofJson schema, false⟩
    | none, some ⟨some schema⟩ => some ⟨schemaId ++ "RequestFormData", .ofJson schema, true⟩
    | none, _ => none

/-- The call that registers a response, if it has a JSON schema. -/
def responseRequest? (document : Json) (schemaId : String)
    (response : String × MaybeRef Response) : Option Request :=
  match response.2.resolve document Response.ofJson? with
  | some ⟨_, some content⟩ => (jsonSchema? content).map fun schema =>
    ⟨schemaId ++ statusSuffix response.1, .ofJson schema, true⟩
  | _ => none

/-- A status as it is recorded. -/
def recordedStatus (response : String × MaybeRef Response) : String :=
  response.1.map Char.toLower

/-- The calls of the responses by status; of two responses with one status the later counts. -/
def requestsByStatus (document : Json) (schemaId : String)
    (responses : List (String × MaybeRef Response)) : Keyed Request :=
  responses.foldl (fun requests response =>
    match responseRequest? document schemaId response with
    | some request => requests.insert (recordedStatus response) request
    | none => requests) []

/-- Does the response tell how success looks, with or without content? -/
def answersSuccess (document : Json) (response : String × MaybeRef Response) : Bool :=
  isSuccessStatus (recordedStatus response) &&
    match response.2.resolve document Response.ofJson? with
    | none => false
    | some ⟨_, none⟩ => true
    | some ⟨_, some content⟩ => (jsonSchema? content).isSome

/-! ## Names and calls -/

theorem registerParams_eq {registry after : Registry} {schemaId : String} {shape : ParamsShape}
    {params : Option String}
    (h : registerParams document fuel registry schemaId shape = some (params, after)) :
    params = (paramsRequest? schemaId shape).map Request.answer ∧
      registry.addAll document fuel (paramsRequest? schemaId shape).toList = some after := by
  unfold registerParams at h
  unfold paramsRequest?
  split at h
  · next hempty =>
    cases h
    rw [if_pos hempty]
    exact ⟨rfl, rfl⟩
  · next hempty =>
    obtain ⟨⟨name, registered⟩, hadd, h⟩ := Option.bind_eq_some_iff.mp h
    cases h
    rw [if_neg hempty]
    obtain ⟨rfl, hall⟩ := Registry.addAll_singleton ⟨schemaId ++ "Params", _, true⟩ hadd
    exact ⟨rfl, hall⟩

theorem registerPayload_eq {registry after : Registry} {schemaId : String}
    {body : Option (MaybeRef RequestBody)} {payload : Option Payload}
    (h : registerPayload document fuel registry schemaId body = some (payload, after)) :
    payload.bind Payload.name? = (bodyRequest? document schemaId body).map Request.answer ∧
      registry.addAll document fuel (bodyRequest? document schemaId body).toList = some after := by
  unfold registerPayload at h
  split at h
  -- No body, then JSON with a schema, a form with and without one, and a body of neither.
  · next hbody =>
    cases h
    rw [bodyRequest?, hbody]
    exact ⟨rfl, rfl⟩
  · next body hbody =>
    split at h
    · next schema hschema =>
      obtain ⟨⟨name, registered⟩, hadd, h⟩ := Option.bind_eq_some_iff.mp h
      cases h
      rw [bodyRequest?, hbody]
      dsimp only
      rw [hschema]
      obtain ⟨rfl, hall⟩ := Registry.addAll_singleton ⟨schemaId ++ "Request", _, false⟩ hadd
      exact ⟨rfl, hall⟩
    · next schema hschema hform =>
      obtain ⟨⟨name, registered⟩, hadd, h⟩ := Option.bind_eq_some_iff.mp h
      cases h
      rw [bodyRequest?, hbody]
      dsimp only
      rw [hschema, hform]
      obtain ⟨rfl, hall⟩ := Registry.addAll_singleton ⟨schemaId ++ "RequestFormData", _, true⟩ hadd
      exact ⟨rfl, hall⟩
    · next hschema hform =>
      cases h
      rw [bodyRequest?, hbody]
      dsimp only
      rw [hschema, hform]
      exact ⟨rfl, rfl⟩
    · next hschema hform =>
      cases h
      rw [bodyRequest?, hbody]
      dsimp only
      rw [hschema, hform]
      exact ⟨rfl, rfl⟩

/-- A response is left out, or has no content, or is registered by its call. -/
theorem register_cases {schemaId : String} {response : String × MaybeRef Response}
    {responses next : Responses} {registry after : Registry}
    (h : Responses.register document fuel schemaId (responses, registry) response =
      some (next, after)) :
    (responseRequest? document schemaId response = none ∧
      answersSuccess document response = false ∧ next = responses ∧ after = registry) ∨
    (responseRequest? document schemaId response = none ∧
      answersSuccess document response = isSuccessStatus (recordedStatus response) ∧
        next = responses.addVoid (recordedStatus response) ∧ after = registry) ∨
    (∃ request, responseRequest? document schemaId response = some request ∧
      answersSuccess document response = isSuccessStatus (recordedStatus response) ∧
        next = responses.addSchema (recordedStatus response) request.answer ∧
          registry.addAll document fuel [request] = some after) := by
  unfold Responses.register at h
  dsimp only at h
  split at h
  -- A dangling reference, no content, and content with or without a schema.
  · next hresolve =>
    cases h
    rw [responseRequest?, answersSuccess, hresolve]
    exact Or.inl ⟨rfl, Bool.and_false _, rfl, rfl⟩
  · next description hresolve =>
    cases h
    rw [responseRequest?, answersSuccess, hresolve]
    exact Or.inr (Or.inl ⟨rfl, Bool.and_true _, rfl, rfl⟩)
  · next description content hresolve =>
    split at h
    · next hschema =>
      cases h
      rw [responseRequest?, answersSuccess, hresolve]
      dsimp only
      rw [hschema]
      exact Or.inl ⟨rfl, Bool.and_false _, rfl, rfl⟩
    · next schema hschema =>
      obtain ⟨⟨name, registered⟩, hadd, h⟩ := Option.bind_eq_some_iff.mp h
      cases h
      rw [responseRequest?, answersSuccess, hresolve]
      dsimp only
      rw [hschema]
      obtain ⟨rfl, hall⟩ := Registry.addAll_singleton ⟨schemaId ++ statusSuffix response.1, _, true⟩
        hadd
      exact Or.inr (Or.inr ⟨_, rfl, Bool.and_true _, rfl, hall⟩)

/-- What responses that have been read record, by the calls that registered them. -/
structure Tells (document : Json) (schemaId : String) (read : List (String × MaybeRef Response))
    (responses : Responses) : Prop where
  successes : ∀ status, Keyed.get? status responses.successes =
    if isSuccessStatus status then
      (Keyed.get? status (requestsByStatus document schemaId read)).map Request.answer
    else none
  errors : ∀ status, Keyed.get? status responses.errors =
    if (statusClass? status).isSome && !isSuccessStatus status then
      (Keyed.get? status (requestsByStatus document schemaId read)).map Request.answer
    else none
  default : responses.defaultSchema =
    (Keyed.get? "default" (requestsByStatus document schemaId read)).map Request.answer
  success : (!responses.successes.isEmpty || responses.voids.any isSuccessStatus) =
    read.any (answersSuccess document)

theorem tells_nil {schemaId : String} : Tells document schemaId [] {} where
  successes status := by simp [requestsByStatus, Keyed.get?]
  errors status := by simp [requestsByStatus, Keyed.get?]
  default := by simp [requestsByStatus, Keyed.get?]
  success := rfl

theorem requestsByStatus_concat (schemaId : String) (read : List (String × MaybeRef Response))
    (response : String × MaybeRef Response) :
    requestsByStatus document schemaId (read ++ [response]) =
      match responseRequest? document schemaId response with
      | some request =>
        (requestsByStatus document schemaId read).insert (recordedStatus response) request
      | none => requestsByStatus document schemaId read := by
  unfold requestsByStatus
  rw [List.foldl_append]
  rfl

/-- A response that registers nothing changes the calls of no status. -/
theorem requestsByStatus_of_none {schemaId : String} {read : List (String × MaybeRef Response)}
    {response : String × MaybeRef Response}
    (h : responseRequest? document schemaId response = none) :
    requestsByStatus document schemaId (read ++ [response]) =
      requestsByStatus document schemaId read := by
  rw [requestsByStatus_concat, h]

/-- A response that registers a schema changes the call of its status. -/
theorem get?_requestsByStatus_of_some {schemaId : String}
    {read : List (String × MaybeRef Response)} {response : String × MaybeRef Response}
    {request : Request} (h : responseRequest? document schemaId response = some request)
    (status : String) :
    Keyed.get? status (requestsByStatus document schemaId (read ++ [response])) =
      if status = recordedStatus response then some request
      else Keyed.get? status (requestsByStatus document schemaId read) := by
  rw [requestsByStatus_concat, h]
  dsimp only
  by_cases heq : status = recordedStatus response
  · rw [if_pos heq, heq, Keyed.get?_insert_self]
  · rw [if_neg heq, Keyed.get?_insert_of_ne _ _ heq]

theorem isSuccessStatus_default : isSuccessStatus "default" = false := by decide +kernel

theorem statusClass?_default : statusClass? "default" = none := by decide +kernel

/-- A status of success has a class. -/
theorem statusClass?_isSome_of_success {status : String} (h : isSuccessStatus status = true) :
    (statusClass? status).isSome = true := by
  unfold isSuccessStatus at h
  exact Option.isSome_of_any h

section Tells

variable {schemaId : String} {read : List (String × MaybeRef Response)}
  {response : String × MaybeRef Response} {responses : Responses}

/-- A response that is left out changes nothing. -/
theorem Tells.skip (h : Tells document schemaId read responses)
    (hrequest : responseRequest? document schemaId response = none)
    (hsuccess : answersSuccess document response = false) :
    Tells document schemaId (read ++ [response]) responses where
  successes status := by rw [requestsByStatus_of_none hrequest, h.successes]
  errors status := by rw [requestsByStatus_of_none hrequest, h.errors]
  default := by rw [requestsByStatus_of_none hrequest, h.default]
  success := by simp [h.success, hsuccess]

/-- A response without content tells at most how success looks. -/
theorem Tells.addVoid (h : Tells document schemaId read responses)
    (hrequest : responseRequest? document schemaId response = none)
    (hsuccess : answersSuccess document response = isSuccessStatus (recordedStatus response)) :
    Tells document schemaId (read ++ [response])
      (responses.addVoid (recordedStatus response)) := by
  have hsame : ∀ status, Keyed.get? status (requestsByStatus document schemaId (read ++ [response]))
      = Keyed.get? status (requestsByStatus document schemaId read) := fun status => by
    rw [requestsByStatus_of_none hrequest]
  unfold Responses.addVoid
  split
  · next hdefault =>
    refine ⟨?_, ?_, ?_, ?_⟩
    · exact fun status => (h.successes status).trans (by rw [hsame])
    · exact fun status => (h.errors status).trans (by rw [hsame])
    · exact h.default.trans (by rw [hsame])
    · rw [List.any_append, ← h.success, List.any_cons, List.any_nil, hsuccess,
        beq_iff_eq.mp hdefault, isSuccessStatus_default, Bool.or_false, Bool.or_false]
  · split
    · refine ⟨?_, ?_, ?_, ?_⟩
      · exact fun status => (h.successes status).trans (by rw [hsame])
      · exact fun status => (h.errors status).trans (by rw [hsame])
      · exact h.default.trans (by rw [hsame])
      · rw [List.any_append, List.any_append, ← h.success]
        simp [hsuccess, Bool.or_assoc]
    · next hclass =>
      have hnone : isSuccessStatus (recordedStatus response) = false := by
        rw [Bool.eq_false_iff]
        exact fun hstatus => hclass (statusClass?_isSome_of_success hstatus)
      exact h.skip hrequest (hsuccess.trans hnone)

/-- A table has the names that calls answer, for the statuses that it keeps. -/
def Records (keeps : String → Bool) (table : Keyed String) (calls : Keyed Request) : Prop :=
  ∀ status, Keyed.get? status table =
    if keeps status then (Keyed.get? status calls).map Request.answer else none

section

variable {keeps : String → Bool} {table : Keyed String} {calls : Keyed Request} {status : String}

/-- The answer to one more call is recorded when the table keeps its status. -/
theorem Records.insert (h : Records keeps table calls) (hkeeps : keeps status = true)
    (request : Request) :
    Records keeps (table.insert status request.answer) (calls.insert status request) := by
  intro other
  by_cases heq : other = status
  · rw [heq, Keyed.get?_insert_self, Keyed.get?_insert_self, if_pos hkeeps]
    rfl
  · rw [Keyed.get?_insert_of_ne _ _ heq, Keyed.get?_insert_of_ne _ _ heq]
    exact h other

/-- One more call changes nothing for a table that does not keep its status. -/
theorem Records.skip (h : Records keeps table calls) (hkeeps : keeps status = false)
    (request : Request) : Records keeps table (calls.insert status request) := by
  intro other
  rw [h other]
  by_cases heq : other = status
  · rw [heq, hkeeps]
    rfl
  · rw [Keyed.get?_insert_of_ne _ _ heq]

end

/-- A response with a schema records the name that its call answers. -/
theorem Tells.addSchema (h : Tells document schemaId read responses) {request : Request}
    (hrequest : responseRequest? document schemaId response = some request)
    (hsuccess : answersSuccess document response = isSuccessStatus (recordedStatus response)) :
    Tells document schemaId (read ++ [response])
      (responses.addSchema (recordedStatus response) request.answer) := by
  have hcalls : requestsByStatus document schemaId (read ++ [response]) =
      (requestsByStatus document schemaId read).insert (recordedStatus response) request := by
    rw [requestsByStatus_concat, hrequest]
  have hany : (read ++ [response]).any (answersSuccess document) =
      (read.any (answersSuccess document) || isSuccessStatus (recordedStatus response)) := by
    rw [List.any_append, List.any_cons, List.any_nil, Bool.or_false, hsuccess]
  have hsuccesses : Records isSuccessStatus responses.successes
      (requestsByStatus document schemaId read) := h.successes
  have herrors : Records (fun status => (statusClass? status).isSome && !isSuccessStatus status)
      responses.errors (requestsByStatus document schemaId read) := h.errors
  unfold Responses.addSchema
  generalize recordedStatus response = recorded at hcalls hany ⊢
  by_cases hdefault : recorded = "default"
  · rw [if_pos (beq_iff_eq.mpr hdefault)]
    subst hdefault
    refine ⟨?_, ?_, ?_, ?_⟩
    · rw [hcalls]
      exact hsuccesses.skip isSuccessStatus_default request
    · rw [hcalls]
      exact herrors.skip (by rw [statusClass?_default]; rfl) request
    · rw [hcalls, Keyed.get?_insert_self]
      rfl
    · rw [hany, ← h.success, isSuccessStatus_default, Bool.or_false]
  rw [if_neg (by simpa using hdefault)]
  have hdefaultSchema : responses.defaultSchema =
      (Keyed.get? "default" (requestsByStatus document schemaId (read ++ [response]))).map
        Request.answer := by
    rw [h.default, hcalls, Keyed.get?_insert_of_ne _ _ (Ne.symm hdefault)]
  by_cases hstatus : isSuccessStatus recorded = true
  · rw [if_pos hstatus]
    refine ⟨?_, ?_, hdefaultSchema, ?_⟩
    · rw [hcalls]
      exact hsuccesses.insert hstatus request
    · rw [hcalls]
      exact herrors.skip (by simp [hstatus]) request
    · rw [hany, hstatus, Bool.or_true, Keyed.isEmpty_insert]
      rfl
  rw [if_neg hstatus]
  rw [Bool.not_eq_true] at hstatus
  -- An error says nothing about how success looks.
  have hkept : (!responses.successes.isEmpty || responses.voids.any isSuccessStatus) =
      (read ++ [response]).any (answersSuccess document) := by
    rw [hany, ← h.success, hstatus, Bool.or_false]
  have hskipped : Records isSuccessStatus responses.successes
      (requestsByStatus document schemaId (read ++ [response])) := by
    rw [hcalls]
    exact hsuccesses.skip hstatus request
  split
  · next hclass =>
    refine ⟨hskipped, ?_, hdefaultSchema, hkept⟩
    rw [hcalls]
    exact herrors.insert (by simp [hclass, hstatus]) request
  · next hclass =>
    refine ⟨hskipped, ?_, hdefaultSchema, hkept⟩
    rw [hcalls]
    exact herrors.skip (by simp [hclass]) request

/-- Registering one more response records the name that its call answers. -/
theorem Tells.register (h : Tells document schemaId read responses) {registry after : Registry}
    {next : Responses}
    (hregister : Responses.register document fuel schemaId (responses, registry) response =
      some (next, after)) :
    Tells document schemaId (read ++ [response]) next ∧
      registry.addAll document fuel (responseRequest? document schemaId response).toList =
        some after := by
  rcases register_cases hregister with ⟨hrequest, hsuccess, rfl, rfl⟩ |
    ⟨hrequest, hsuccess, rfl, rfl⟩ | ⟨request, hrequest, hsuccess, rfl, hcall⟩
  · rw [hrequest]
    exact ⟨h.skip hrequest hsuccess, rfl⟩
  · rw [hrequest]
    exact ⟨h.addVoid hrequest hsuccess, rfl⟩
  · rw [hrequest]
    exact ⟨h.addSchema hrequest hsuccess, hcall⟩

/-- Registering responses records the names that their calls answer. -/
theorem Tells.registerAll {rest : List (String × MaybeRef Response)}
    (h : Tells document schemaId read responses) {registry after : Registry} {next : Responses}
    (hregister : rest.foldlM (Responses.register document fuel schemaId) (responses, registry) =
      some (next, after)) :
    Tells document schemaId (read ++ rest) next ∧
      registry.addAll document fuel (rest.filterMap (responseRequest? document schemaId)) =
        some after := by
  induction rest generalizing read responses registry with
  | nil =>
    cases hregister
    rw [List.append_nil]
    exact ⟨h, rfl⟩
  | cons response rest ih =>
    rw [List.foldlM_cons] at hregister
    obtain ⟨⟨middle, registered⟩, hfirst, hrest⟩ := Option.bind_eq_some_iff.mp hregister
    obtain ⟨htells, hcall⟩ := h.register hfirst
    obtain ⟨htells, hcalls⟩ := ih htells hrest
    rw [List.append_assoc, List.singleton_append] at htells
    refine ⟨htells, ?_⟩
    have happend : (response :: rest).filterMap (responseRequest? document schemaId) =
        (responseRequest? document schemaId response).toList ++
          rest.filterMap (responseRequest? document schemaId) := by
      rw [List.filterMap_cons]
      cases responseRequest? document schemaId response <;> rfl
    rw [happend]
    exact Registry.addAll_append hcall hcalls

/-! ## Names that are carried -/

/-- The responses carry the name of a declaration. -/
def Responses.Carries (responses : Responses) (name : String) : Prop :=
  (∃ status, (status, name) ∈ responses.successes ∨ (status, name) ∈ responses.errors) ∨
    responses.defaultSchema = some name

theorem carries_of_addVoid {responses : Responses} {status name : String}
    (h : (responses.addVoid status).Carries name) : responses.Carries name := by
  unfold Responses.addVoid at h
  split at h
  · exact h
  · split at h
    · exact h
    · exact h

theorem carries_of_addSchema {responses : Responses} {status name other : String}
    (h : (responses.addSchema status other).Carries name) :
    responses.Carries name ∨ name = other := by
  unfold Responses.addSchema at h
  split at h
  · rcases h with h | h
    · exact Or.inl (Or.inl h)
    · exact Or.inr (Option.some.inj h).symm
  split at h
  · rcases h with ⟨at', h | h⟩ | h
    · rcases Keyed.mem_insert h with h | h
      · exact Or.inl (Or.inl ⟨at', Or.inl h⟩)
      · exact Or.inr (Prod.mk.inj h).2
    · exact Or.inl (Or.inl ⟨at', Or.inr h⟩)
    · exact Or.inl (Or.inr h)
  split at h
  · rcases h with ⟨at', h | h⟩ | h
    · exact Or.inl (Or.inl ⟨at', Or.inl h⟩)
    · rcases Keyed.mem_insert h with h | h
      · exact Or.inl (Or.inl ⟨at', Or.inr h⟩)
      · exact Or.inr (Prod.mk.inj h).2
    · exact Or.inl (Or.inr h)
  · exact Or.inl h

theorem carries_of_promoteDefault {responses : Responses} {name : String}
    (h : responses.promoteDefault.Carries name) : responses.Carries name := by
  unfold Responses.promoteDefault at h
  split at h
  · exact h
  split at h
  · next other hother =>
    rcases h with ⟨status, h | h⟩ | h
    · rcases Keyed.mem_insert h with h | h
      · exact Or.inl ⟨status, Or.inl h⟩
      · exact Or.inr (hother.trans (congrArg some (Prod.mk.inj h).2.symm))
    · exact Or.inl ⟨status, Or.inr h⟩
    · exact Or.inr (hother.trans (hother.symm.trans h))
  · split at h
    · exact h
    · exact h

/-- Responses carry names only that the calls of responses answer. -/
theorem carries_of_registerAll {schemaId : String} {rest : List (String × MaybeRef Response)}
    {responses next : Responses} {registry after : Registry} {name : String}
    (hregister : rest.foldlM (Responses.register document fuel schemaId) (responses, registry) =
      some (next, after))
    (h : next.Carries name) :
    responses.Carries name ∨
      ∃ request ∈ rest.filterMap (responseRequest? document schemaId), request.answer = name := by
  induction rest generalizing responses registry with
  | nil =>
    cases hregister
    exact Or.inl h
  | cons response rest ih =>
    rw [List.foldlM_cons] at hregister
    obtain ⟨⟨middle, registered⟩, hfirst, hrest⟩ := Option.bind_eq_some_iff.mp hregister
    have hlater : ∀ request ∈ rest.filterMap (responseRequest? document schemaId),
        request ∈ (response :: rest).filterMap (responseRequest? document schemaId) := by
      intro request hrequest
      obtain ⟨own, hown, heq⟩ := List.mem_filterMap.mp hrequest
      exact List.mem_filterMap.mpr ⟨own, List.mem_cons_of_mem _ hown, heq⟩
    rcases ih hrest with hmiddle | ⟨request, hrequest, hanswer⟩
    · rcases register_cases hfirst with ⟨-, -, rfl, -⟩ | ⟨-, -, rfl, -⟩ |
        ⟨request, hrequest, -, rfl, -⟩
      · exact Or.inl hmiddle
      · exact Or.inl (carries_of_addVoid hmiddle)
      · rcases carries_of_addSchema hmiddle with hmiddle | rfl
        · exact Or.inl hmiddle
        · exact Or.inr ⟨request,
            List.mem_filterMap.mpr ⟨response, List.mem_cons_self .., hrequest⟩, rfl⟩
    · exact Or.inr ⟨request, hlater request hrequest, hanswer⟩

/-- The operation carries the name of a declaration. -/
def Carries (operation : Operation) (name : String) : Prop :=
  operation.params = some name ∨ operation.payload.bind Payload.name? = some name ∨
    ∃ status, (status, name) ∈ operation.successSchemas ∨ (status, name) ∈ operation.errorSchemas

/-! ## Operations, read apart from the registry -/

/-- An operation as it is written, with the path it is under and the parameters of that path. -/
structure Written where
  path : String
  method : HttpMethod
  raw : RawOperation
  shared : List (MaybeRef Parameter)

/-- The operations of a document, in the order of the paths and the methods. -/
def written (document : Json) : List Written :=
  (((document.get? "paths").bind Json.asObject?).getD []).flatMap fun path =>
    match PathItem.ofJson? path.2 with
    | none => []
    | some item => item.operations.map fun raw => ⟨path.1, raw.1, raw.2, item.parameters⟩

/-- The id of a written operation, before those that are taken count. -/
def baseId (written : Written) : String :=
  (baseIds written.path written.method written.raw).1

/-- A written operation with the id that it gets, and the id that the names of its shapes start
    with. -/
structure Reading where
  written : Written
  id : String
  schemaId : String

/-- The ids of a written operation, while some are taken. -/
def Reading.of (taken : List String) (written : Written) : Reading :=
  let base := baseIds written.path written.method written.raw
  let suffix := suffixFor taken base.1
  ⟨written, base.1 ++ suffix, base.2 ++ suffix⟩

theorem Reading.id_of (taken : List String) (written : Written) :
    (Reading.of taken written).id = baseId written ++ suffixFor taken (baseId written) :=
  rfl

/-- A new id needs no suffix. -/
theorem suffixFor_of_not_mem {ids : List String} {id : String} (h : id ∉ ids) :
    suffixFor ids id = "" :=
  if_neg (by simpa using h)

/-- The ids of written operations, one after the other, while some are taken. -/
def readFrom (taken : List String) : List Written → List Reading
  | [] => []
  | written :: rest =>
    Reading.of taken written :: readFrom (taken ++ [(Reading.of taken written).id]) rest

/-- The operations of a document with their ids. -/
def readings (document : Json) : List Reading := readFrom [] (written document)

/-- The shapes of an operation that go by a name. -/
inductive Slot where
  | params
  | body
  | response (status : String)

/-- The name that an operation records for a shape. -/
def recorded (operation : Operation) : Slot → Option String
  | .params => operation.params
  | .body => operation.payload.bind Payload.name?
  | .response status =>
    (Keyed.get? status operation.successSchemas).or (Keyed.get? status operation.errorSchemas)

namespace Reading

variable (document : Json) (reading : Reading)

/-- The parameters outside the path, folded into one object. -/
def paramsShape : ParamsShape :=
  ParamsShape.ofParameters document reading.written.shared reading.written.raw.parameters

/-- The calls of the responses by status. -/
def byStatus : Keyed Request :=
  requestsByStatus document reading.schemaId reading.written.raw.responses

/-- The call that registers a shape. With no response that tells how success looks, the `default`
    one stands for it. -/
def request? : Slot → Option Request
  | .params => paramsRequest? reading.schemaId (reading.paramsShape document)
  | .body => bodyRequest? document reading.schemaId reading.written.raw.requestBody
  | .response status =>
    if (statusClass? status).isSome then
      (Keyed.get? status (reading.byStatus document)).or
        (if status = "2xx" ∧
            reading.written.raw.responses.any (answersSuccess document) = false then
          Keyed.get? "default" (reading.byStatus document)
        else none)
    else none

/-- All calls of an operation, in sequence. -/
def requests : List Request :=
  (paramsRequest? reading.schemaId (reading.paramsShape document)).toList ++
    (bodyRequest? document reading.schemaId reading.written.raw.requestBody).toList ++
    reading.written.raw.responses.filterMap (responseRequest? document reading.schemaId)

end Reading

/-- What is recorded for a status before `default` may stand for success. -/
theorem Tells.recorded (h : Tells document schemaId read responses) (status : String) :
    (Keyed.get? status responses.successes).or (Keyed.get? status responses.errors) =
      (if (statusClass? status).isSome then
        Keyed.get? status (requestsByStatus document schemaId read)
      else none).map Request.answer := by
  rw [h.successes, h.errors]
  cases hstatus : isSuccessStatus status with
  | true =>
    rw [statusClass?_isSome_of_success hstatus]
    exact Option.or_none
  | false =>
    cases (statusClass? status).isSome <;> rfl

/-- What is recorded for a status once `default` stands for success, if it has to. -/
theorem Tells.promoteDefault (h : Tells document schemaId read responses) (status : String) :
    (Keyed.get? status responses.promoteDefault.successes).or
      (Keyed.get? status responses.promoteDefault.errors) =
    (if (statusClass? status).isSome then
      (Keyed.get? status (requestsByStatus document schemaId read)).or
        (if status = "2xx" ∧ read.any (answersSuccess document) = false then
          Keyed.get? "default" (requestsByStatus document schemaId read)
        else none)
    else none).map Request.answer := by
  have hplain := h.recorded status
  have htwo : (statusClass? "2xx").isSome = true := by decide +kernel
  unfold Responses.promoteDefault
  cases hany : read.any (answersSuccess document) with
  | true =>
    have hsuccess := h.success.trans hany
    have hnot : ¬ (status = "2xx" ∧ true = false) := fun h => Bool.false_ne_true h.2.symm
    rw [if_pos hsuccess, hplain, if_neg hnot, Option.or_none]
  | false =>
    have hsuccess := h.success.trans hany
    rw [if_neg (by rw [hsuccess]; exact Bool.false_ne_true)]
    -- No response tells of success, so that there is no success to look up.
    have hempty : responses.successes = [] := by
      rw [Bool.or_eq_false_iff, Bool.not_eq_false'] at hsuccess
      exact List.isEmpty_iff.mp hsuccess.1
    cases hdefault : Keyed.get? "default" (requestsByStatus document schemaId read) with
    | none =>
      have hnone : responses.defaultSchema = none := by rw [h.default, hdefault]; rfl
      rw [hnone]
      dsimp only
      rw [ite_self, Option.or_none, ← hplain]
      split <;> rfl
    | some request =>
      have hsome : responses.defaultSchema = some request.answer := by rw [h.default, hdefault]; rfl
      rw [hsome]
      dsimp only
      rw [hempty, Keyed.insert, Keyed.get?_singleton]
      by_cases heq : status = "2xx"
      · -- Nothing is recorded for `2xx` apart from the promoted name.
        have hsuccess : isSuccessStatus "2xx" = true := by decide +kernel
        have hfree := h.successes "2xx"
        rw [hempty, if_pos hsuccess] at hfree
        have hfree : Keyed.get? "2xx" (requestsByStatus document schemaId read) = none :=
          Option.map_eq_none_iff.mp hfree.symm
        rw [heq, if_pos rfl, if_pos htwo, hfree, if_pos ⟨rfl, rfl⟩]
        rfl
      · have hnot : ¬ (status = "2xx" ∧ false = false) := fun h => heq h.1
        rw [if_neg heq, if_neg hnot, Option.or_none, ← hplain, hempty]
        rfl

end Tells

/-! ## Extraction -/

/-- The operation has the id of the reading, records for each shape the name that its call
    answers, and carries no other names. -/
structure Reads (document : Json) (reading : Reading) (operation : Operation) : Prop where
  id : operation.id = reading.id
  recorded : ∀ slot, operation.recorded slot = (reading.request? document slot).map Request.answer
  carried : ∀ name, operation.Carries name →
    ∃ request ∈ reading.requests document, request.answer = name

/-- An operation is put together from what it writes, once its parameters, its body and its
    responses have been registered. -/
theorem extract_cases {registry after : Registry} {taken : List String} {path : String}
    {method : HttpMethod} {raw : RawOperation} {shared : List (MaybeRef Parameter)}
    {operation : Operation}
    (h : extract document fuel registry taken path method raw shared = some (operation, after)) :
    let suffix := suffixFor taken (baseIds path method raw).1
    let schemaId := (baseIds path method raw).2 ++ suffix
    let shape := ParamsShape.ofParameters document shared raw.parameters
    ∃ params first payload second responses,
      registerParams document fuel registry schemaId shape = some (params, first) ∧
      registerPayload document fuel first schemaId raw.requestBody = some (payload, second) ∧
      raw.responses.foldlM (Responses.register document fuel schemaId) ({}, second) =
        some (responses, after) ∧
      operation = {
        id := (baseIds path method raw).1 ++ suffix
        method := method
        description := (raw.description.bind Text.nonEmpty?).or (raw.summary.bind Text.nonEmpty?)
        pathIds := (PathPart.ofPath path).filterMap PathPart.parameter?
        path := PathPart.ofPath path
        params := params
        paramsOptional := shape.required.isEmpty
        urlParams := shape.urlParams
        headers := shape.headers
        cookies := shape.cookies
        payload := payload
        successSchemas := responses.promoteDefault.successes
        errorSchemas := responses.promoteDefault.errors
        voidStatuses := responses.promoteDefault.voids } := by
  unfold extract at h
  dsimp only at h
  obtain ⟨⟨params, first⟩, hparams, h⟩ := Option.bind_eq_some_iff.mp h
  obtain ⟨⟨payload, second⟩, hpayload, h⟩ := Option.bind_eq_some_iff.mp h
  obtain ⟨⟨responses, third⟩, hresponses, h⟩ := Option.bind_eq_some_iff.mp h
  cases h
  exact ⟨params, first, payload, second, responses, hparams, hpayload, hresponses, rfl⟩

/-- Reading one operation records names, and makes the calls that these answer. -/
theorem extract_eq {registry after : Registry} {taken : List String} {written : Written}
    {operation : Operation}
    (h : extract document fuel registry taken written.path written.method written.raw
      written.shared = some (operation, after)) :
    Reads document (Reading.of taken written) operation ∧
      registry.addAll document fuel ((Reading.of taken written).requests document) =
        some after := by
  obtain ⟨params, first, payload, second, responses, hparams, hpayload, hresponses, rfl⟩ :=
    extract_cases h
  obtain ⟨hparams, hfirst⟩ := registerParams_eq hparams
  obtain ⟨hpayload, hsecond⟩ := registerPayload_eq hpayload
  obtain ⟨htells, hthird⟩ := tells_nil.registerAll hresponses
  refine ⟨⟨rfl, fun slot => ?_, fun name hname => ?_⟩,
    Registry.addAll_append (Registry.addAll_append hfirst hsecond) hthird⟩
  · cases slot with
    | params => exact hparams
    | body => exact hpayload
    | response status => exact htells.promoteDefault status
  · unfold Reading.requests
    simp only [List.mem_append, Option.mem_toList, or_and_right, exists_or]
    rcases hname with hname | hname | hname
    · exact Or.inl (Or.inl (Option.map_eq_some_iff.mp (hparams.symm.trans hname)))
    · exact Or.inl (Or.inr (Option.map_eq_some_iff.mp (hpayload.symm.trans hname)))
    -- Before the first response nothing is recorded, so a name comes from the call of a response.
    · rcases carries_of_registerAll hresponses (carries_of_promoteDefault (Or.inl hname)) with
        (⟨status, h | h⟩ | h) | h
      · cases h
      · cases h
      · cases h
      · exact Or.inr h

/-- All calls that reading a document makes, in sequence. -/
def calls (document : Json) : List Request := (readings document).flatMap (·.requests document)

/-- Reads one more written operation. -/
def extractWritten (document : Json) (fuel : Nat) (state : Extraction) (written : Written) :
    Option Extraction :=
  extractNext document fuel written.path written.shared state (written.method, written.raw)

/-- The operations of a document are read one after the other. -/
theorem extractAll_eq (document : Json) (fuel : Nat) (registry : Registry) :
    extractAll document fuel registry =
      (written document).foldlM (extractWritten document fuel) ([], registry) := by
  unfold extractAll written
  cases (document.get? "paths").bind Json.asObject? with
  | none => rfl
  | some paths =>
    dsimp only [Option.getD_some]
    generalize (([], registry) : Extraction) = state
    induction paths generalizing state with
    | nil => rfl
    | cons path rest ih =>
      rw [List.foldlM_cons, List.flatMap_cons, List.foldlM_append]
      -- A path is a fold over its own operations.
      have hpath : extractPath document fuel state path =
          (match PathItem.ofJson? path.2 with
            | none => []
            | some item => item.operations.map fun raw =>
              ⟨path.1, raw.1, raw.2, item.parameters⟩ : List Written).foldlM
            (extractWritten document fuel) state := by
        unfold extractPath
        cases PathItem.ofJson? path.2 with
        | none => rfl
        | some item =>
          dsimp only
          rw [List.foldlM_map]
          rfl
      rw [hpath]
      congr 1
      funext next
      exact ih next

/-- At some point of extraction, with some ids taken, the operation is read under the ids of the
    reading. -/
def Extracts (document : Json) (fuel : Nat) (reading : Reading) (operation : Operation) : Prop :=
  ∃ taken before after, reading = Reading.of taken reading.written ∧
    extract document fuel before taken reading.written.path reading.written.method
      reading.written.raw reading.written.shared = some (operation, after)

theorem Extracts.reads {reading : Reading} {operation : Operation}
    (h : Extracts document fuel reading operation) : Reads document reading operation := by
  obtain ⟨taken, before, after, hreading, hextract⟩ := h
  rw [hreading]
  exact (extract_eq hextract).1

/-- Extraction reads every written operation, and the registry is what all their calls lead to. -/
theorem extractAll_extracts {operations : List Operation} {start registry : Registry}
    (h : extractAll document fuel start = some (operations, registry)) :
    List.Forall₂ (Extracts document fuel) (readings document) operations ∧
      start.addAll document fuel (calls document) = some registry := by
  -- The same for the operations that are left, while some have been read.
  have hrest : ∀ (rest : List Written) (read : List Operation) (start : Registry),
      rest.foldlM (extractWritten document fuel) (read, start) = some (operations, registry) →
        ∃ more, operations = read ++ more ∧
          List.Forall₂ (Extracts document fuel) (readFrom (read.map (·.id)) rest) more ∧
          start.addAll document fuel
            ((readFrom (read.map (·.id)) rest).flatMap (·.requests document)) = some registry := by
    intro rest
    induction rest with
    | nil =>
      intro read start h
      cases h
      exact ⟨[], (List.append_nil _).symm, .nil, rfl⟩
    | cons written rest ih =>
      intro read start h
      rw [List.foldlM_cons] at h
      obtain ⟨⟨operations', middle⟩, hfirst, h⟩ := Option.bind_eq_some_iff.mp h
      obtain ⟨⟨operation, registered⟩, hextract, hfirst⟩ := Option.bind_eq_some_iff.mp hfirst
      cases hfirst
      obtain ⟨hreads, hcalls⟩ := extract_eq hextract
      obtain ⟨more, rfl, hmore, hmoreCalls⟩ := ih _ _ h
      -- The ids that are taken for the rest are those of the readings so far.
      have hids : (read ++ [operation]).map (·.id) =
          read.map (·.id) ++ [(Reading.of (read.map (·.id)) written).id] := by
        rw [List.map_append, ← hreads.id]
        rfl
      rw [hids] at hmore hmoreCalls
      refine ⟨operation :: more, by simp, ?_, ?_⟩
      · exact .cons ⟨_, start, _, rfl, hextract⟩ hmore
      · rw [readFrom, List.flatMap_cons]
        exact Registry.addAll_append hcalls hmoreCalls
  rw [extractAll_eq] at h
  obtain ⟨more, rfl, hextracts, hcalls⟩ := hrest _ _ _ h
  exact ⟨hextracts, hcalls⟩

/-- What the operations of a document record, each read apart from the registry. -/
theorem extractAll_reads {operations : List Operation} {registry : Registry}
    (h : extractAll document fuel .empty = some (operations, registry)) :
    List.Forall₂ (Reads document) (readings document) operations ∧
      Registry.addAll document fuel .empty (calls document) = some registry := by
  obtain ⟨hextracts, hcalls⟩ := extractAll_extracts h
  exact ⟨hextracts.imp fun _ _ => Extracts.reads, hcalls⟩

end Operation
end TypedClient
