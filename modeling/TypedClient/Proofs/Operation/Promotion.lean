/-
  TypedClient.Proofs.Operation.Promotion

  The `default` response of an operation, which may stand in for success.  Only what has been
  recorded decides about that, and a response whose content has no JSON schema records nothing: an
  operation that declares a success of that kind is read as if it declared none.
-/
import TypedClient.Proofs.Operation.Requests

namespace TypedClient

open Document
open Registry (Request)

namespace Operation

variable {document : Json} {fuel : Nat}

/-! ## What responses answer -/

/-- Does the response have no content? -/
def answersVoid (document : Json) (response : String × MaybeRef Response) : Bool :=
  match response.2.resolve document Response.ofJson? with
  | some ⟨_, none⟩ => true
  | _ => false

/-- Does the response have content, but no JSON schema for it? -/
def answersUnread (document : Json) (response : String × MaybeRef Response) : Bool :=
  match response.2.resolve document Response.ofJson? with
  | some ⟨_, some content⟩ => (jsonSchema? content).isNone
  | _ => false

/-- Is the response there for a status of success, whatever its content is? -/
def declaresSuccess (document : Json) (response : String × MaybeRef Response) : Bool :=
  isSuccessStatus (recordedStatus response) &&
    (response.2.resolve document Response.ofJson?).isSome

/-- Is the response a `default` one without content or with a JSON schema? -/
def answersDefault (document : Json) (schemaId : String)
    (response : String × MaybeRef Response) : Bool :=
  recordedStatus response == "default" &&
    (answersVoid document response || (responseRequest? document schemaId response).isSome)

/-- A declared success is told, or else its content has no JSON schema. -/
theorem declaresSuccess_eq (response : String × MaybeRef Response) :
    declaresSuccess document response =
      (answersSuccess document response ||
        isSuccessStatus (recordedStatus response) && answersUnread document response) := by
  unfold declaresSuccess answersSuccess answersUnread
  cases response.2.resolve document Response.ofJson? with
  | none => simp
  | some response =>
    obtain ⟨description, content⟩ := response
    cases content with
    | none => simp
    | some content => cases hschema : jsonSchema? content <;> simp [hschema]

/-- What is told has a JSON schema or no content. -/
theorem answersUnread_of_answersSuccess {response : String × MaybeRef Response}
    (h : answersSuccess document response = true) : answersUnread document response = false := by
  unfold answersSuccess at h
  unfold answersUnread
  cases hresolve : response.2.resolve document Response.ofJson? with
  | none => rfl
  | some found =>
    obtain ⟨description, content⟩ := found
    rw [hresolve] at h
    cases content with
    | none => rfl
    | some content => simp_all

/-! ## Responses without content -/

/-- What responses that have been read record about those without content. -/
structure TellsVoids (document : Json) (read : List (String × MaybeRef Response))
    (responses : Responses) : Prop where
  voids : responses.voids = ((read.filter (answersVoid document)).map recordedStatus).filter
    fun status => (statusClass? status).isSome
  defaultVoid : responses.defaultVoid = read.any fun response =>
    recordedStatus response == "default" && answersVoid document response

theorem tellsVoids_nil : TellsVoids document [] {} where
  voids := rfl
  defaultVoid := rfl

section TellsVoids

variable {schemaId : String} {read : List (String × MaybeRef Response)}
  {response : String × MaybeRef Response} {responses : Responses}

/-- A response with content changes nothing. -/
theorem TellsVoids.skip (h : TellsVoids document read responses)
    (hvoid : answersVoid document response = false) :
    TellsVoids document (read ++ [response]) responses where
  voids := by simp [h.voids, hvoid]
  defaultVoid := by simp [h.defaultVoid, hvoid]

theorem TellsVoids.addVoid (h : TellsVoids document read responses)
    (hvoid : answersVoid document response = true) :
    TellsVoids document (read ++ [response])
      (responses.addVoid (recordedStatus response)) := by
  unfold Responses.addVoid
  split
  · next hdefault =>
    have hclass : statusClass? (recordedStatus response) = none := by
      rw [beq_iff_eq.mp hdefault, statusClass?_default]
    exact ⟨by simp [h.voids, hvoid, hclass], by simp [hvoid, hdefault]⟩
  · next hdefault =>
    have hnot : (recordedStatus response == "default") = false := by simpa using hdefault
    split
    · next hclass => exact ⟨by simp [h.voids, hvoid, hclass], by simp [h.defaultVoid, hnot]⟩
    · next hclass =>
      have hclass : (statusClass? (recordedStatus response)).isSome = false := by simpa using hclass
      exact ⟨by simp [h.voids, hvoid, hclass], by simp [h.defaultVoid, hnot]⟩

/-- A name is recorded apart from the statuses without content. -/
theorem TellsVoids.addSchema (h : TellsVoids document read responses) (status name : String) :
    TellsVoids document read (responses.addSchema status name) := by
  unfold Responses.addSchema
  split
  · exact ⟨h.voids, h.defaultVoid⟩
  split
  · exact ⟨h.voids, h.defaultVoid⟩
  split
  · exact ⟨h.voids, h.defaultVoid⟩
  · exact h

theorem TellsVoids.register (h : TellsVoids document read responses) {registry after : Registry}
    {next : Responses}
    (hregister : Responses.register document fuel schemaId (responses, registry) response =
      some (next, after)) :
    TellsVoids document (read ++ [response]) next := by
  unfold Responses.register at hregister
  dsimp only at hregister
  split at hregister
  -- A dangling reference, no content, and content with or without a schema.
  · next hresolve =>
    cases hregister
    exact h.skip (by rw [answersVoid, hresolve])
  · next description hresolve =>
    cases hregister
    exact h.addVoid (by rw [answersVoid, hresolve])
  · next description content hresolve =>
    have hskip : TellsVoids document (read ++ [response]) responses :=
      h.skip (by rw [answersVoid, hresolve])
    split at hregister
    · cases hregister
      exact hskip
    · obtain ⟨⟨name, registered⟩, -, hregister⟩ := Option.bind_eq_some_iff.mp hregister
      cases hregister
      exact hskip.addSchema _ name

theorem TellsVoids.registerAll {rest : List (String × MaybeRef Response)}
    (h : TellsVoids document read responses) {registry after : Registry} {next : Responses}
    (hregister : rest.foldlM (Responses.register document fuel schemaId) (responses, registry) =
      some (next, after)) :
    TellsVoids document (read ++ rest) next := by
  induction rest generalizing read responses registry with
  | nil =>
    cases hregister
    rw [List.append_nil]
    exact h
  | cons response rest ih =>
    rw [List.foldlM_cons] at hregister
    obtain ⟨⟨middle, registered⟩, hfirst, hrest⟩ := Option.bind_eq_some_iff.mp hregister
    have hlater := ih (h.register hfirst) hrest
    rwa [List.append_assoc, List.singleton_append] at hlater

end TellsVoids

/-! ## The default response -/

/-- There is a call for a status just when a response of that status has a JSON schema. -/
theorem isSome_get?_requestsByStatus (schemaId status : String)
    (read : List (String × MaybeRef Response)) :
    (Keyed.get? status (requestsByStatus document schemaId read)).isSome =
      read.any fun response => recordedStatus response == status &&
        (responseRequest? document schemaId response).isSome := by
  induction read using List.reverseRecOn with
  | nil => rfl
  | append_singleton read response ih =>
    rw [List.any_append, ← ih]
    cases hrequest : responseRequest? document schemaId response with
    | none =>
      rw [requestsByStatus_of_none hrequest]
      simp [hrequest]
    | some request =>
      rw [get?_requestsByStatus_of_some hrequest]
      by_cases heq : status = recordedStatus response
      · simp [heq, hrequest]
      · have hne : (recordedStatus response == status) = false := by simpa using Ne.symm heq
        simp [heq, hne]

/-- The `default` response answers when it has a call, or has no content. -/
theorem any_answersDefault (schemaId : String) (read : List (String × MaybeRef Response)) :
    read.any (answersDefault document schemaId) =
      ((Keyed.get? "default" (requestsByStatus document schemaId read)).isSome ||
        read.any fun response => recordedStatus response == "default" &&
          answersVoid document response) := by
  rw [isSome_get?_requestsByStatus]
  induction read with
  | nil => rfl
  | cons response rest ih =>
    simp only [List.any_cons, ih, answersDefault, Bool.and_or_distrib_left]
    ac_rfl

/-- What becomes of recorded responses: success is told, or the name of the `default` response or
    its lack of content stands in, or there is no `default` response. -/
theorem promoteDefault_cases (responses : Responses) :
    ((!responses.successes.isEmpty || responses.voids.any isSuccessStatus) = true ∧
      responses.promoteDefault = responses) ∨
    (responses.successes = [] ∧ responses.voids.any isSuccessStatus = false ∧
      ((∃ name, responses.defaultSchema = some name ∧
          responses.promoteDefault = { responses with successes := [("2xx", name)] }) ∨
        (responses.defaultSchema = none ∧ responses.defaultVoid = true ∧
          responses.promoteDefault = { responses with voids := responses.voids ++ ["2xx"] }) ∨
        (responses.defaultSchema = none ∧ responses.defaultVoid = false ∧
          responses.promoteDefault = responses))) := by
  unfold Responses.promoteDefault
  split
  · next htold => exact Or.inl ⟨htold, rfl⟩
  · next htold =>
    rw [Bool.not_eq_true, Bool.or_eq_false_iff, Bool.not_eq_false', List.isEmpty_iff] at htold
    refine Or.inr ⟨htold.1, htold.2, ?_⟩
    split
    · next name hname =>
      rw [htold.1]
      exact Or.inl ⟨name, hname, rfl⟩
    · next hnone =>
      split
      · next hvoid => exact Or.inr (Or.inl ⟨hnone, hvoid, rfl⟩)
      · next hvoid => exact Or.inr (Or.inr ⟨hnone, by simpa using hvoid, rfl⟩)

/-- The operation has an entry `2xx` with the name of the `default` response, or is without content
    for `2xx`, and no response of that status accounts for it. -/
def DefaultStandsIn (document : Json) (reading : Reading) (operation : Operation) : Prop :=
  (∃ request, Keyed.get? "default" (reading.byStatus document) = some request ∧
    Keyed.get? "2xx" operation.successSchemas = some request.answer ∧
      Keyed.get? "2xx" (reading.byStatus document) = none) ∨
  ("2xx" ∈ operation.voidStatuses ∧ ∀ response ∈ reading.written.raw.responses,
    recordedStatus response = "2xx" → answersVoid document response = false)

theorem isSuccessStatus_two : isSuccessStatus "2xx" = true := by decide +kernel

/-- A response without content for a status of success tells how success looks. -/
theorem answersSuccess_of_answersVoid {response : String × MaybeRef Response}
    (hstatus : isSuccessStatus (recordedStatus response) = true)
    (hvoid : answersVoid document response = true) : answersSuccess document response = true := by
  unfold answersVoid at hvoid
  unfold answersSuccess
  split at hvoid
  · next hresolve =>
    rw [hstatus, hresolve]
    rfl
  · cases hvoid

section Recorded

variable {reading : Reading} {operation : Operation} {responses : Responses}

/-- What an operation takes over from the responses that it recorded. -/
structure Takes (document : Json) (reading : Reading) (responses : Responses)
    (operation : Operation) : Prop where
  tells : Tells document reading.schemaId reading.written.raw.responses responses
  tellsVoids : TellsVoids document reading.written.raw.responses responses
  successes : operation.successSchemas = responses.promoteDefault.successes
  voids : operation.voidStatuses = responses.promoteDefault.voids

theorem Extracts.takes (h : Extracts document fuel reading operation) :
    ∃ responses, Takes document reading responses operation := by
  obtain ⟨taken, before, after, hreading, hextract⟩ := h
  obtain ⟨params, first, payload, second, responses, -, -, hresponses, rfl⟩ :=
    extract_cases hextract
  have hid : (baseIds reading.written.path reading.written.method reading.written.raw).2 ++
      suffixFor taken
        (baseIds reading.written.path reading.written.method reading.written.raw).1 =
      reading.schemaId := by
    rw [hreading]
    rfl
  rw [hid] at hresponses
  obtain ⟨htells, -⟩ := tells_nil.registerAll hresponses
  exact ⟨responses, htells, tellsVoids_nil.registerAll hresponses, rfl, rfl⟩

/-- A status without content comes from a response without content. -/
theorem TellsVoids.exists_of_mem {read : List (String × MaybeRef Response)}
    (h : TellsVoids document read responses) {status : String} (hstatus : status ∈ responses.voids) :
    ∃ response ∈ read, recordedStatus response = status ∧ answersVoid document response = true := by
  rw [h.voids, List.mem_filter] at hstatus
  obtain ⟨response, hresponse, hrecorded⟩ := List.mem_map.mp hstatus.1
  rw [List.mem_filter] at hresponse
  exact ⟨response, hresponse.1, hrecorded, hresponse.2⟩

/-- Nothing stands in when what is recorded is taken over as it is. -/
theorem Takes.not_standsIn (h : Takes document reading responses operation)
    (hsame : responses.promoteDefault = responses) :
    ¬ DefaultStandsIn document reading operation := by
  rintro (⟨request, -, hentry, hfree⟩ | ⟨hvoid, hnone⟩)
  · have hrecorded := h.tells.successes "2xx"
    rw [← hsame, ← h.successes, hentry, if_pos isSuccessStatus_two] at hrecorded
    have hfree : Keyed.get? "2xx" (requestsByStatus document reading.schemaId
        reading.written.raw.responses) = none := hfree
    rw [hfree] at hrecorded
    cases hrecorded
  · rw [h.voids, hsame] at hvoid
    obtain ⟨response, hresponse, hstatus, hvoid⟩ := h.tellsVoids.exists_of_mem hvoid
    rw [hnone response hresponse hstatus] at hvoid
    cases hvoid

/-- The name of the `default` response stands in when it is taken over. -/
theorem Takes.standsIn_of_name (h : Takes document reading responses operation)
    (hempty : responses.successes = []) {name : String}
    (hname : responses.defaultSchema = some name)
    (hpromote : responses.promoteDefault = { responses with successes := [("2xx", name)] }) :
    DefaultStandsIn document reading operation := by
  obtain ⟨request, hrequest, hanswer⟩ := Option.map_eq_some_iff.mp
    (h.tells.default.symm.trans hname)
  have hfree : (Keyed.get? "2xx" (reading.byStatus document)).map Request.answer = none := by
    have hrecorded := h.tells.successes "2xx"
    rw [hempty, if_pos isSuccessStatus_two] at hrecorded
    exact hrecorded.symm
  refine Or.inl ⟨request, hrequest, ?_, Option.map_eq_none_iff.mp hfree⟩
  rw [h.successes, hpromote, hanswer]
  exact Keyed.get?_insert_self "2xx" name []

/-- The lack of content of the `default` response stands in when it is taken over. -/
theorem Takes.standsIn_of_void (h : Takes document reading responses operation)
    (htold : reading.written.raw.responses.any (answersSuccess document) = false)
    (hpromote : responses.promoteDefault = { responses with voids := responses.voids ++ ["2xx"] }) :
    DefaultStandsIn document reading operation := by
  refine Or.inr ⟨?_, fun response hresponse hstatus => ?_⟩
  · rw [h.voids, hpromote]
    exact List.mem_append_right _ (List.mem_singleton.mpr rfl)
  · by_contra hvoid
    rw [Bool.not_eq_false] at hvoid
    have hsuccess : answersSuccess document response = true :=
      answersSuccess_of_answersVoid (hstatus ▸ isSuccessStatus_two) hvoid
    exact List.any_eq_false.mp htold response hresponse hsuccess

theorem Takes.standsIn_iff (h : Takes document reading responses operation) :
    DefaultStandsIn document reading operation ↔
      reading.written.raw.responses.any (answersDefault document reading.schemaId) = true ∧
        reading.written.raw.responses.any (answersSuccess document) = false := by
  rw [any_answersDefault, ← h.tellsVoids.defaultVoid, ← h.tells.success]
  have hcall : (Keyed.get? "default" (requestsByStatus document reading.schemaId
      reading.written.raw.responses)).isSome = responses.defaultSchema.isSome := by
    rw [h.tells.default, Option.isSome_map]
  rw [hcall]
  rcases promoteDefault_cases responses with ⟨htold, hsame⟩ | ⟨hempty, hvoids, hcases⟩
  · simp [h.not_standsIn hsame, htold]
  have htold : (!responses.successes.isEmpty || responses.voids.any isSuccessStatus) = false := by
    rw [hempty, hvoids]
    rfl
  rw [htold]
  rcases hcases with ⟨name, hname, hpromote⟩ | ⟨hname, hvoid, hpromote⟩ | ⟨hname, hvoid, hsame⟩
  · simp [h.standsIn_of_name hempty hname hpromote, hname]
  · simp [h.standsIn_of_void (h.tells.success.symm.trans htold) hpromote, hvoid]
  · simp [h.not_standsIn hsame, hname, hvoid]

/-- When the `default` response stands in, nothing else is a success. -/
theorem Takes.alone (h : Takes document reading responses operation)
    (hstands : DefaultStandsIn document reading operation) :
    Keyed.keys operation.successSchemas ++ operation.successVoids = ["2xx"] := by
  have hnone : responses.promoteDefault ≠ responses := fun hsame => h.not_standsIn hsame hstands
  unfold Operation.successVoids
  rw [h.successes, h.voids]
  rcases promoteDefault_cases responses with ⟨-, hsame⟩ | ⟨hempty, hvoids, hcases⟩
  · exact absurd hsame hnone
  have hplain : responses.voids.filter isSuccessStatus = [] := by
    rw [List.filter_eq_nil_iff]
    exact fun status hstatus => by simpa using List.any_eq_false.mp hvoids status hstatus
  rcases hcases with ⟨name, -, hpromote⟩ | ⟨-, -, hpromote⟩ | ⟨-, -, hsame⟩
  · rw [hpromote]
    dsimp only
    rw [hplain]
    rfl
  · rw [hpromote]
    dsimp only
    rw [hempty, List.filter_append, hplain, List.filter_cons, if_pos isSuccessStatus_two]
    rfl
  · exact absurd hsame hnone

/-- When the `default` response does not stand in, the other responses are taken over. -/
theorem Takes.own (h : Takes document reading responses operation)
    (hstands : ¬ DefaultStandsIn document reading operation) :
    responses.promoteDefault = responses := by
  rcases promoteDefault_cases responses with ⟨-, hsame⟩ | ⟨hempty, hvoids, hcases⟩
  · exact hsame
  have htold : reading.written.raw.responses.any (answersSuccess document) = false := by
    rw [← h.tells.success, hempty, hvoids]
    rfl
  rcases hcases with ⟨name, hname, hpromote⟩ | ⟨-, -, hpromote⟩ | ⟨-, -, hsame⟩
  · exact absurd (h.standsIn_of_name hempty hname hpromote) hstands
  · exact absurd (h.standsIn_of_void htold hpromote) hstands
  · exact hsame

end Recorded

/-- No response tells of success just when no declared success has a JSON schema or no content. -/
theorem any_answersSuccess_eq_false_iff (read : List (String × MaybeRef Response)) :
    read.any (answersSuccess document) = false ↔ ∀ response ∈ read,
      declaresSuccess document response = true → answersUnread document response = true := by
  rw [List.any_eq_false]
  constructor
  · intro htold response hresponse hdeclared
    have hnot : answersSuccess document response = false := by
      simpa using htold response hresponse
    rw [declaresSuccess_eq, hnot, Bool.false_or, Bool.and_eq_true] at hdeclared
    exact hdeclared.2
  · intro hunread response hresponse hsuccess
    have hdeclared : declaresSuccess document response = true := by
      rw [declaresSuccess_eq, hsuccess]
      rfl
    have hread : answersUnread document response = false := answersUnread_of_answersSuccess hsuccess
    rw [hunread response hresponse hdeclared] at hread
    cases hread

/-- When `default` stands in for success, for every operation of a document: just when there is a
    `default` response with a JSON schema or without content, and every declared success has
    content without a JSON schema.  It is the only success then.  Otherwise an operation has the
    successes that its own responses tell of, and no others. -/
theorem default_standsIn_iff {operations : List Operation} {start registry : Registry}
    (h : extractAll document fuel start = some (operations, registry)) :
    List.Forall₂ (fun reading operation =>
      (DefaultStandsIn document reading operation ↔
        reading.written.raw.responses.any (answersDefault document reading.schemaId) = true ∧
          ∀ response ∈ reading.written.raw.responses,
            declaresSuccess document response = true → answersUnread document response = true) ∧
      (DefaultStandsIn document reading operation →
        Keyed.keys operation.successSchemas ++ operation.successVoids = ["2xx"]) ∧
      (¬ DefaultStandsIn document reading operation →
        (∀ status, Keyed.get? status operation.successSchemas =
          if isSuccessStatus status then
            (Keyed.get? status (reading.byStatus document)).map Request.answer
          else none) ∧
        operation.voidStatuses =
          ((reading.written.raw.responses.filter (answersVoid document)).map recordedStatus).filter
            fun status => (statusClass? status).isSome))
      (readings document) operations := by
  refine (extractAll_extracts h).1.imp fun reading operation hextracts => ?_
  obtain ⟨responses, htakes⟩ := hextracts.takes
  refine ⟨?_, htakes.alone, fun hstands => ?_⟩
  · rw [htakes.standsIn_iff, any_answersSuccess_eq_false_iff]
  · have hsame : responses.promoteDefault = responses := htakes.own hstands
    refine ⟨fun status => ?_, ?_⟩
    · rw [htakes.successes, hsame]
      exact htakes.tells.successes status
    · rw [htakes.voids, hsame]
      exact htakes.tellsVoids.voids

/-- An operation that answers success with plain text, and anything else with JSON. -/
def plainSuccess : Json :=
  let content (type : String) (schema : Keyed Json) : Json :=
    .obj [("content", .obj [(type, .obj [("schema", .obj schema)])])]
  .obj [("paths", .obj [("/a", .obj [("get", .obj [("operationId", .str "a"), ("responses", .obj [
    ("200", content "text/plain" [("type", .str "string")]),
    ("default", content "application/json" [("type", .str "object")])])])])])]

/-- Success is declared, and the `default` response stands in for it. -/
theorem plainSuccess_default_standsIn : ∃ operation registry,
    extractAll plainSuccess 64 .empty = some ([operation], registry) ∧
      operation.successSchemas = [("2xx", "ADefault")] ∧
      ∃ reading ∈ readings plainSuccess, DefaultStandsIn plainSuccess reading operation ∧
        reading.written.raw.responses.any (declaresSuccess plainSuccess) = true := by
  have hends : (extractAll plainSuccess 64 .empty).map
      (fun result => result.1.map (·.successSchemas)) = some [[("2xx", "ADefault")]] := by
    decide +kernel
  obtain ⟨⟨operations, registry⟩, h, hsuccesses⟩ := Option.map_eq_some_iff.mp hends
  obtain ⟨operation, rfl, hsuccess⟩ := List.map_eq_singleton_iff.mp hsuccesses
  -- What is written says the three things about responses.
  have hwritten : ∀ reading ∈ readings plainSuccess,
      reading.written.raw.responses.any (answersDefault plainSuccess reading.schemaId) = true ∧
        (∀ response ∈ reading.written.raw.responses, declaresSuccess plainSuccess response = true →
          answersUnread plainSuccess response = true) ∧
        reading.written.raw.responses.any (declaresSuccess plainSuccess) = true := by
    decide +kernel
  obtain ⟨hlength, hall⟩ := List.forall₂_iff_zip.mp (default_standsIn_iff h)
  obtain ⟨reading, hreading⟩ := List.length_eq_one_iff.mp hlength
  have hmem : reading ∈ readings plainSuccess := hreading ▸ List.mem_singleton.mpr rfl
  have hzip : (reading, operation) ∈ (readings plainSuccess).zip [operation] := by
    rw [hreading]
    exact List.mem_singleton.mpr rfl
  obtain ⟨hdefault, hunread, hdeclared⟩ := hwritten reading hmem
  exact ⟨operation, registry, h, hsuccess, reading, hmem, (hall hzip).1.mpr ⟨hdefault, hunread⟩,
    hdeclared⟩

end Operation
end TypedClient
