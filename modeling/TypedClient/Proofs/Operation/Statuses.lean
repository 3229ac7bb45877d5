/-
  TypedClient.Proofs.Operation.Statuses

  The statuses of an operation.  Each response is recorded under its status in one of three places
  at most: as a success, as an error, or as one without content.  The class of the status tells
  which, so that the places never share a status, and the two steps that bring in `2xx` (the
  `default` response that stands in for success, and the row for an operation without any) do so
  only where no success is recorded.
-/
import Mathlib.Data.List.Perm.Subperm
import TypedClient.Client.Implementation
import TypedClient.Generate
import TypedClient.Proofs.Operation.Promotion
import TypedClient.Proofs.Operation.UniqueIds

namespace TypedClient

open Document

/-! ## Classes -/

/-- A status is a success when its class is below 4. -/
theorem isSuccessStatus_iff {status : String} :
    isSuccessStatus status = true ↔ ∃ number, statusClass? status = some number ∧ number < 4 := by
  unfold isSuccessStatus
  rw [Option.any_eq_true]
  simp only [decide_eq_true_eq]

/-- A status with a class that is no success has a class from 4 on. -/
theorem le_of_not_isSuccessStatus {status : String} (hclass : (statusClass? status).isSome = true)
    (h : isSuccessStatus status = false) :
    ∃ number, statusClass? status = some number ∧ 4 ≤ number := by
  obtain ⟨number, hnumber⟩ := Option.isSome_iff_exists.mp hclass
  refine ⟨number, hnumber, ?_⟩
  by_contra hless
  have hsuccess : isSuccessStatus status = true :=
    isSuccessStatus_iff.mpr ⟨number, hnumber, Nat.lt_of_not_le hless⟩
  rw [h] at hsuccess
  cases hsuccess

namespace Operation

variable {document : Json} {fuel : Nat}

/-! ## Recording -/

/-- The statuses that are recorded, place by place. -/
def Responses.statuses (responses : Responses) : List String :=
  Keyed.keys responses.successes ++ Keyed.keys responses.errors ++ responses.voids

/-- Responses are recorded by the class of their status. -/
structure Classified (responses : Responses) : Prop where
  successes : ∀ status ∈ Keyed.keys responses.successes, isSuccessStatus status = true
  errors : ∀ status ∈ Keyed.keys responses.errors,
    (statusClass? status).isSome = true ∧ isSuccessStatus status = false
  voids : ∀ status ∈ responses.voids, (statusClass? status).isSome = true

/-- Responses that have been read are recorded by class, and each of them once at most. -/
structure Sorts (read : List (String × MaybeRef Response)) (responses : Responses) : Prop
    extends Classified responses where
  once : responses.statuses.Subperm (read.map recordedStatus)

theorem sorts_nil : Sorts [] {} where
  successes _ h := absurd h List.not_mem_nil
  errors _ h := absurd h List.not_mem_nil
  voids _ h := absurd h List.not_mem_nil
  once := List.Subperm.refl _

/-- Putting in a value adds its key at most. -/
theorem keys_insert_subperm (key value : String) (pairs : Keyed String) :
    (Keyed.keys (pairs.insert key value)).Subperm (Keyed.keys pairs ++ [key]) := by
  by_cases h : key ∈ Keyed.keys pairs
  · rw [Keyed.keys_insert_of_mem value h]
    exact (List.sublist_append_left ..).subperm
  · rw [Keyed.insert_of_not_mem value h, Keyed.keys, List.map_append]
    exact List.Subperm.refl _

/-- A place with one status more has one status more among those before and after it. -/
theorem subperm_of_grown {grown place before after : List String} {status : String}
    (h : grown.Subperm (place ++ [status])) :
    (before ++ grown ++ after).Subperm (before ++ place ++ after ++ [status]) := by
  have hmoved : (before ++ (place ++ [status]) ++ after).Perm
      (before ++ place ++ after ++ [status]) := by
    rw [← List.append_assoc, List.append_assoc (before ++ place), List.append_assoc _ after]
    exact List.perm_append_comm.append_left _
  exact (((List.Subperm.refl before).append h).append (List.Subperm.refl after)).trans
    hmoved.subperm

section Sorts

variable {read : List (String × MaybeRef Response)} {response : String × MaybeRef Response}
  {responses : Responses}

/-- A response that is left out changes nothing. -/
theorem Sorts.skip (h : Sorts read responses) : Sorts (read ++ [response]) responses where
  toClassified := h.toClassified
  once := by
    rw [List.map_append]
    exact h.once.trans (List.sublist_append_left ..).subperm

/-- A response that is recorded adds its status at most. -/
theorem Sorts.once_concat (h : Sorts read responses) {next : Responses}
    (hnext : next.statuses.Subperm (responses.statuses ++ [recordedStatus response])) :
    next.statuses.Subperm ((read ++ [response]).map recordedStatus) := by
  rw [List.map_append]
  exact hnext.trans (h.once.append (List.Subperm.refl _))

theorem Sorts.addVoid (h : Sorts read responses) :
    Sorts (read ++ [response]) (responses.addVoid (recordedStatus response)) := by
  unfold Responses.addVoid
  -- The `default` response is remembered apart from the three places.
  split
  · exact ⟨⟨h.successes, h.errors, h.voids⟩, h.skip.once⟩
  -- A status with a class goes behind the others without content.
  split
  · next hclass =>
    refine ⟨⟨h.successes, h.errors, fun status hstatus => ?_⟩, h.once_concat ?_⟩
    · rcases List.mem_append.mp hstatus with hstatus | hstatus
      · exact h.voids status hstatus
      · rw [List.mem_singleton.mp hstatus]
        exact hclass
    · rw [Responses.statuses, Responses.statuses, List.append_assoc _ responses.voids]
  · exact h.skip

theorem Sorts.addSchema (h : Sorts read responses) (name : String) :
    Sorts (read ++ [response]) (responses.addSchema (recordedStatus response) name) := by
  unfold Responses.addSchema
  split
  · exact ⟨⟨h.successes, h.errors, h.voids⟩, h.skip.once⟩
  -- A success, which the places of errors and of no content come behind.
  split
  · next hsuccess =>
    refine ⟨⟨fun status hstatus => ?_, h.errors, h.voids⟩, h.once_concat ?_⟩
    · rcases Keyed.mem_keys_insert.mp hstatus with hstatus | rfl
      · exact h.successes status hstatus
      · exact hsuccess
    · have hkeys := keys_insert_subperm (recordedStatus response) name responses.successes
      have hgrown := @subperm_of_grown _ _ [] (Keyed.keys responses.errors ++ responses.voids) _
        hkeys
      simpa only [Responses.statuses, List.nil_append, List.append_assoc] using hgrown
  -- An error has a class too, and is no success.
  split
  · next hsuccess hclass =>
    refine ⟨⟨h.successes, fun status hstatus => ?_, h.voids⟩, h.once_concat ?_⟩
    · rcases Keyed.mem_keys_insert.mp hstatus with hstatus | rfl
      · exact h.errors status hstatus
      · exact ⟨hclass, Bool.eq_false_iff.mpr hsuccess⟩
    · exact subperm_of_grown (keys_insert_subperm (recordedStatus response) name responses.errors)
  · exact h.skip

/-- Registering one more response keeps the places sorted. -/
theorem Sorts.register (h : Sorts read responses) {schemaId : String} {registry after : Registry}
    {next : Responses}
    (hregister : Responses.register document fuel schemaId (responses, registry) response =
      some (next, after)) : Sorts (read ++ [response]) next := by
  rcases register_cases hregister with ⟨-, -, rfl, -⟩ | ⟨-, -, rfl, -⟩ | ⟨request, -, -, rfl, -⟩
  · exact h.skip
  · exact h.addVoid
  · exact h.addSchema request.answer

/-- Registering responses keeps the places sorted. -/
theorem Sorts.registerAll {rest : List (String × MaybeRef Response)} (h : Sorts read responses)
    {schemaId : String} {registry after : Registry} {next : Responses}
    (hregister : rest.foldlM (Responses.register document fuel schemaId) (responses, registry) =
      some (next, after)) : Sorts (read ++ rest) next := by
  induction rest generalizing read responses registry with
  | nil =>
    cases hregister
    rw [List.append_nil]
    exact h
  | cons response rest ih =>
    rw [List.foldlM_cons] at hregister
    obtain ⟨⟨middle, registered⟩, hfirst, hrest⟩ := Option.bind_eq_some_iff.mp hregister
    have hlater : Sorts (read ++ [response] ++ rest) next := ih (h.register hfirst) hrest
    rwa [List.append_assoc, List.singleton_append] at hlater

end Sorts

/-! ## The default response -/

section Classified

variable {responses : Responses}

/-- Where no success is recorded, the status that `default` stands in for is free. -/
theorem Classified.two_not_mem (h : Classified responses) (hempty : responses.successes = [])
    (hvoids : responses.voids.any isSuccessStatus = false) : "2xx" ∉ responses.statuses := by
  intro hmem
  rw [Responses.statuses, hempty] at hmem
  rcases List.mem_append.mp hmem with herror | hvoid
  · have hnot : isSuccessStatus "2xx" = false := (h.errors "2xx" herror).2
    rw [isSuccessStatus_two] at hnot
    cases hnot
  · exact List.any_eq_false.mp hvoids "2xx" hvoid isSuccessStatus_two

theorem Classified.promoteDefault (h : Classified responses) :
    Classified responses.promoteDefault := by
  rcases promoteDefault_cases responses with ⟨-, hsame⟩ | ⟨-, -, ⟨name, -, hpromote⟩ |
    ⟨-, -, hpromote⟩ | ⟨-, -, hsame⟩⟩
  · rw [hsame]
    exact h
  · rw [hpromote]
    refine ⟨fun status hstatus => ?_, h.errors, h.voids⟩
    rw [List.mem_singleton.mp hstatus]
    exact isSuccessStatus_two
  · rw [hpromote]
    refine ⟨h.successes, h.errors, fun status hstatus => ?_⟩
    rcases List.mem_append.mp hstatus with hstatus | hstatus
    · exact h.voids status hstatus
    · rw [List.mem_singleton.mp hstatus]
      exact statusClass?_isSome_of_success isSuccessStatus_two
  · rw [hsame]
    exact h

/-- The `default` response brings in no status twice. -/
theorem Classified.nodup_promoteDefault (h : Classified responses)
    (hnodup : responses.statuses.Nodup) : responses.promoteDefault.statuses.Nodup := by
  rcases promoteDefault_cases responses with ⟨-, hsame⟩ | ⟨hempty, hvoids, hcases⟩
  · rw [hsame]
    exact hnodup
  have hfree : "2xx" ∉ responses.statuses := h.two_not_mem hempty hvoids
  rcases hcases with ⟨name, -, hpromote⟩ | ⟨-, -, hpromote⟩ | ⟨-, -, hsame⟩
  · rw [Responses.statuses, hempty] at hnodup hfree
    rw [hpromote]
    exact List.nodup_cons.mpr ⟨hfree, hnodup⟩
  · rw [hpromote, Responses.statuses, ← List.append_assoc]
    exact List.nodup_append_comm.mpr (List.nodup_cons.mpr ⟨hfree, hnodup⟩)
  · rw [hsame]
    exact hnodup

end Classified

/-! ## Operations -/

/-- The statuses of an operation: of its successes, of its errors, and of what has no content. -/
def statuses (operation : Operation) : List String :=
  Keyed.keys operation.successSchemas ++ Keyed.keys operation.errorSchemas ++
    operation.voidStatuses

/-- An operation has the statuses that its responses are recorded under. -/
theorem Extracts.sorts {reading : Reading} {operation : Operation}
    (h : Extracts document fuel reading operation) :
    ∃ responses, Sorts reading.written.raw.responses responses ∧
      operation.successSchemas = responses.promoteDefault.successes ∧
      operation.errorSchemas = responses.promoteDefault.errors ∧
      operation.voidStatuses = responses.promoteDefault.voids := by
  obtain ⟨taken, before, after, -, hextract⟩ := h
  obtain ⟨params, first, payload, second, responses, -, -, hresponses, rfl⟩ :=
    extract_cases hextract
  exact ⟨responses, sorts_nil.registerAll hresponses, rfl, rfl, rfl⟩

/-- The statuses that the rows of the table of an operation are for. -/
def decodedStatuses (operation : Operation) : List String :=
  Keyed.keys operation.successSchemas ++ Keyed.keys operation.errorSchemas ++
    operation.successVoids ++
    if operation.successSchemas.isEmpty && operation.successVoids.isEmpty then ["2xx"] else []

theorem mem_decodedStatuses {operation : Operation} {status : String} :
    status ∈ operation.decodedStatuses ↔
      status ∈ Keyed.keys operation.successSchemas ∨
      status ∈ Keyed.keys operation.errorSchemas ∨
      status ∈ operation.voidStatuses ∧ isSuccessStatus status = true ∨
      status = "2xx" ∧ operation.successSchemas = [] ∧ operation.successVoids = [] := by
  have hvoids : status ∈ operation.successVoids ↔
      status ∈ operation.voidStatuses ∧ isSuccessStatus status = true := List.mem_filter
  have hlast : (status ∈ if operation.successSchemas.isEmpty && operation.successVoids.isEmpty
      then ["2xx"] else []) ↔
      status = "2xx" ∧ operation.successSchemas = [] ∧ operation.successVoids = [] := by
    simp [List.mem_ite_nil_right, and_comm]
  unfold decodedStatuses
  rw [List.mem_append, List.mem_append, List.mem_append, hvoids, hlast, or_assoc, or_assoc]

/-- No two rows are for one status, if no two statuses are one and no error is a success. -/
theorem nodup_decodedStatuses {operation : Operation} (hnodup : operation.statuses.Nodup)
    (herrors : ∀ status ∈ Keyed.keys operation.errorSchemas, isSuccessStatus status = false) :
    operation.decodedStatuses.Nodup := by
  have hsub : (Keyed.keys operation.successSchemas ++ Keyed.keys operation.errorSchemas ++
      operation.successVoids).Nodup := hnodup.sublist (List.filter_sublist.append_left _)
  unfold decodedStatuses
  split
  · next hempty =>
    rw [Bool.and_eq_true, List.isEmpty_iff, List.isEmpty_iff] at hempty
    refine List.nodup_append_comm.mpr (List.nodup_cons.mpr ⟨fun hmem => ?_, hsub⟩)
    -- Without a success there are rows for errors only.
    rw [hempty.1, hempty.2, List.append_nil] at hmem
    have hnot : isSuccessStatus "2xx" = false := herrors "2xx" hmem
    rw [isSuccessStatus_two] at hnot
    cases hnot
  · rw [List.append_nil]
    exact hsub

end Operation

namespace Client

open Operation

/-! ## The table -/

/-- What decodes the responses of a case. -/
def StatusCase.decoder (words : Words) : StatusCase → String
  | .success _ name => words.successDecoder name
  | .error _ name => words.errorDecoder name
  | .void _ => "decodeVoid"

/-- A row has the status as its key. -/
theorem StatusCase.render_eq (words : Words) (statusCase : StatusCase) :
    statusCase.render words =
      "\"" ++ statusCase.status ++ "\": " ++ statusCase.decoder words ++ "," := by
  cases statusCase <;> rfl

/-- The rows are for the statuses that are decoded. -/
theorem map_status_statusCases (operation : Operation) :
    (statusCases operation).map StatusCase.status = operation.decodedStatuses := by
  unfold statusCases decodedStatuses Keyed.keys
  rw [List.map_append, List.map_append, List.map_append, List.map_map, List.map_map, List.map_map]
  congr 1
  · exact congrArg _ (List.map_id _)
  · split <;> rfl

/-- A table has a row for each case, and a last line for any other status. -/
theorem statusTable_eq (words : Words) (operation : Operation) :
    statusTable words operation =
      (statusCases operation).map (fun statusCase => "\"" ++ statusCase.status ++ "\": " ++
        statusCase.decoder words ++ ",") ++ ["orElse: unexpectedStatus,"] := by
  unfold statusTable
  rw [funext (StatusCase.render_eq words)]

/-- The statuses of an operation are partitioned.  For every operation of a document, its successes
    have a class below 4 and its errors one from 4 on, and what has no content has a class.  If no
    two of its responses have one status in small letters, then no status stands twice among the
    three; and in both flavors the table has one row for each status of a success or an error, and
    for each success without content (for `2xx` when there is no success), no two rows being for
    one status, and one line after them. -/
theorem statuses_partitioned {document : Json} {fuel : Nat} {operations : List Operation}
    {start registry : Registry}
    (h : extractAll document fuel start = some (operations, registry)) :
    List.Forall₂ (fun written operation =>
      (∀ status ∈ Keyed.keys operation.successSchemas,
        ∃ number, statusClass? status = some number ∧ number < 4) ∧
      (∀ status ∈ Keyed.keys operation.errorSchemas,
        ∃ number, statusClass? status = some number ∧ 4 ≤ number) ∧
      (∀ status ∈ operation.voidStatuses, ∃ number, statusClass? status = some number) ∧
      ((written.raw.responses.map fun response => response.1.map Char.toLower).Nodup →
        operation.statuses.Nodup ∧
        ((statusCases operation).map StatusCase.status).Nodup ∧
        (∀ status, status ∈ (statusCases operation).map StatusCase.status ↔
          status ∈ Keyed.keys operation.successSchemas ∨
          status ∈ Keyed.keys operation.errorSchemas ∨
          status ∈ operation.voidStatuses ∧ isSuccessStatus status = true ∨
          status = "2xx" ∧ operation.successSchemas = [] ∧ operation.successVoids = []) ∧
        ∀ flavor : Flavor, statusTable flavor.words operation =
          (statusCases operation).map (fun statusCase => "\"" ++ statusCase.status ++ "\": " ++
            statusCase.decoder flavor.words ++ ",") ++ ["orElse: unexpectedStatus,"]))
      (written document) operations := by
  obtain ⟨hextracts, -⟩ := extractAll_extracts h
  have hwritten : (readings document).map (·.written) = written document :=
    map_written_readFrom [] (written document)
  rw [← hwritten, List.forall₂_map_left_iff]
  refine hextracts.imp fun reading operation hextract => ?_
  obtain ⟨responses, hsorts, hsuccesses, herrors, hvoids⟩ := hextract.sorts
  have hclassified : Classified responses.promoteDefault := hsorts.toClassified.promoteDefault
  have hsuccess : ∀ status ∈ Keyed.keys operation.successSchemas,
      isSuccessStatus status = true := by
    rw [hsuccesses]
    exact hclassified.successes
  have herror : ∀ status ∈ Keyed.keys operation.errorSchemas,
      (statusClass? status).isSome = true ∧ isSuccessStatus status = false := by
    rw [herrors]
    exact hclassified.errors
  refine ⟨fun status hstatus => isSuccessStatus_iff.mp (hsuccess status hstatus),
    fun status hstatus => ?_, fun status hstatus => ?_, fun hdistinct => ?_⟩
  · exact le_of_not_isSuccessStatus (herror status hstatus).1 (herror status hstatus).2
  · rw [hvoids] at hstatus
    exact Option.isSome_iff_exists.mp (hclassified.voids status hstatus)
  -- What is recorded is among what is written, so that it is distinct if that is.
  have honce : responses.statuses.Nodup := by
    obtain ⟨recorded, hperm, hsublist⟩ := hsorts.once
    exact hperm.nodup_iff.mp (hdistinct.sublist hsublist)
  have hnodup : operation.statuses.Nodup := by
    rw [Operation.statuses, hsuccesses, herrors, hvoids]
    exact hsorts.toClassified.nodup_promoteDefault honce
  refine ⟨hnodup, ?_, fun status => ?_, fun flavor => statusTable_eq flavor.words operation⟩
  · rw [map_status_statusCases]
    exact nodup_decodedStatuses hnodup fun status hstatus => (herror status hstatus).2
  · rw [map_status_statusCases, mem_decodedStatuses]

/-- Two operations at a path.  One has responses with and without content in both classes, beside a
    `default` response; the other has an error, and a `default` response without content. -/
def mixedAnswers : Json :=
  let content : Json := .obj [("content", .obj [("application/json", .obj [("schema",
    .obj [("type", .str "string")])])])]
  let operation (id : String) (responses : Keyed Json) : Json :=
    .obj [("operationId", .str id), ("responses", .obj responses)]
  .obj [("paths", .obj [("/a", .obj [
    ("get", operation "read" [("200", content), ("204", .obj []), ("404", content),
      ("4XX", .obj []), ("default", content)]),
    ("put", operation "write" [("500", content), ("default", .obj [])])])])]

/-- Statuses are apart where `default` stands in for success and where it does not. -/
theorem mixedAnswers_partitioned : ∃ first second registry,
    extractAll mixedAnswers 64 .empty = some ([first, second], registry) ∧
    first.statuses = ["200", "404", "204", "4xx"] ∧ second.statuses = ["500", "2xx"] ∧
    first.statuses.Nodup ∧ second.statuses.Nodup ∧
    ((statusCases first).map StatusCase.status).Nodup ∧
    ((statusCases second).map StatusCase.status).Nodup := by
  have hends : (extractAll mixedAnswers 64 .empty).map
      (fun result => result.1.map Operation.statuses) =
        some [["200", "404", "204", "4xx"], ["500", "2xx"]] := by decide +kernel
  obtain ⟨⟨operations, registry⟩, h, hstatuses⟩ := Option.map_eq_some_iff.mp hends
  obtain ⟨first, others, rfl, hfirst, hothers⟩ := List.map_eq_cons_iff.mp hstatuses
  obtain ⟨second, rfl, hsecond⟩ := List.map_eq_singleton_iff.mp hothers
  have hdistinct : ∀ request ∈ written mixedAnswers,
      (request.raw.responses.map fun response => response.1.map Char.toLower).Nodup := by
    decide +kernel
  obtain ⟨hlength, hall⟩ := List.forall₂_iff_zip.mp (statuses_partitioned h)
  obtain ⟨get, put, hwritten⟩ := List.length_eq_two.mp hlength
  rw [hwritten] at hdistinct hall
  obtain ⟨-, -, -, hget⟩ := hall (List.mem_cons_self ..)
  obtain ⟨-, -, -, hput⟩ := hall (List.mem_cons_of_mem _ (List.mem_cons_self ..))
  obtain ⟨hreads, hreadRows, -, -⟩ := hget (hdistinct get (List.mem_cons_self ..))
  obtain ⟨hwrites, hwriteRows, -, -⟩ :=
    hput (hdistinct put (List.mem_cons_of_mem _ (List.mem_cons_self ..)))
  exact ⟨first, second, registry, h, hfirst, hsecond, hreads, hwrites, hreadRows, hwriteRows⟩

end Client
end TypedClient
