/-
  TypedClient.Proofs.Client.Agreement

  The interface of a client and its implementation are written apart from each other, each from
  the operations.  They agree: the signature of an operation has the arguments of its callable, and
  what a call can answer, or fail with, is what the table of the callable has a case for.  There is
  one word that two answers share: a schema that is named `void` reads like no content at all in
  the flavor that writes names as they are.
-/
import TypedClient.Proofs.Operation.ArgumentNames
import TypedClient.Proofs.Operation.Statuses

namespace TypedClient.Client

/-! ## Types of responses -/

section

variable (flavor : Flavor)

/-- The type of a response is the name of its schema between two texts. -/
theorem responseType_eq : ∃ before after : String, ∀ name,
    flavor.words.responseType name = before ++ name ++ after := by
  cases flavor with
  | schema => exact ⟨"typeof ", ".Type", fun _ => rfl⟩
  | types =>
    refine ⟨"", "", fun name => ?_⟩
    rw [String.empty_append, String.append_empty]
    rfl

theorem responseType_injective : Function.Injective flavor.words.responseType := by
  obtain ⟨before, after, htype⟩ := responseType_eq flavor
  intro name other h
  rw [htype, htype] at h
  exact (String.append_right_inj before).mp ((String.append_left_inj after).mp h)

/-- Only where names are written as they are has a response the type `void`. -/
theorem responseType_eq_void_iff {name : String} :
    flavor.words.responseType name = "void" ↔ flavor = .types ∧ name = "void" := by
  cases flavor with
  | schema =>
    -- `typeof` alone is longer than `void`.
    have hne : "typeof " ++ name ++ ".Type" ≠ "void" := by
      intro h
      have hlength := congrArg String.length h
      rw [String.length_append, String.length_append] at hlength
      have hbefore : "typeof ".length = 7 := by decide
      have hvoid : "void".length = 4 := by decide
      omega
    exact iff_of_false hne fun h => nomatch h.1
  | types => exact (and_iff_right rfl).symm

/-- The type of an error tells which schema it is for. -/
theorem errorType_injective (client : String) :
    Function.Injective (errorType flavor.words client) := by
  obtain ⟨before, after, htype⟩ := responseType_eq flavor
  intro name other h
  unfold errorType at h
  rw [htype, htype] at h
  -- The name stands at two places, so that texts of one length have names of one length.
  have hlength : name.toList.length = other.toList.length := by
    have htexts := congrArg String.length h
    simp only [String.length_append] at htexts
    rw [String.length_toList, String.length_toList]
    omega
  have hchars := congrArg String.toList h
  simp only [String.toList_append, List.append_assoc, List.append_cancel_left_eq] at hchars
  exact String.toList_inj.mp (List.append_inj_left hchars hlength)

/-- No error of a client reads like the failures that every call can end in. -/
theorem errorType_ne_transportErrors (client name : String) :
    errorType flavor.words client name ≠ flavor.words.transportErrors := by
  intro h
  -- The tag is between quotes, and no failure of the transport has any.
  have hquote : '"' ∈ (errorType flavor.words client name).toList := by
    simp [errorType]
  rw [h] at hquote
  cases flavor <;> exact absurd hquote (by decide)

end

/-! ## The two texts of an operation -/

/-- The types of the answers in a signature, without the ones that repeat. -/
def answerTypes (words : Words) (operation : Operation) : List String :=
  dropRepeats ((answers operation).map (Answer.type words))

/-- Dropping repeats drops no text altogether. -/
theorem mem_dropRepeats {text : String} {texts : List String} :
    text ∈ dropRepeats texts ↔ text ∈ texts := by
  fun_induction dropRepeats texts with
  | case1 => exact Iff.rfl
  | case2 => exact Iff.rfl
  | case3 first rest ih =>
    rw [ih]
    constructor
    · exact List.mem_cons_of_mem first
    · intro h
      rcases List.mem_cons.mp h with rfl | hrest
      · exact List.mem_cons_self ..
      · exact hrest
  | case4 first second rest hne ih => rw [List.mem_cons, ih, ← List.mem_cons]

variable {operation : Operation}

theorem success_mem_statusCases {status name : String} :
    .success status name ∈ statusCases operation ↔ (status, name) ∈ operation.successSchemas := by
  unfold statusCases
  split <;> simp

theorem error_mem_statusCases {status name : String} :
    .error status name ∈ statusCases operation ↔ (status, name) ∈ operation.errorSchemas := by
  unfold statusCases
  split <;> simp

theorem void_mem_statusCases {status : String} :
    .void status ∈ statusCases operation ↔ status ∈ operation.successVoids ∨
      status = "2xx" ∧ operation.successSchemas = [] ∧ operation.successVoids = [] := by
  unfold statusCases
  simp [List.mem_ite_nil_right, and_comm]

/-- A call can answer with a value of a schema if the table decodes such a success. -/
theorem schema_mem_answers {name : String} :
    .schema name ∈ answers operation ↔ ∃ status, .success status name ∈ statusCases operation := by
  simp only [success_mem_statusCases]
  have hvalues : .schema name ∈ (Keyed.values operation.successSchemas).map Answer.schema ↔
      ∃ status, (status, name) ∈ operation.successSchemas := by
    simp [Keyed.values]
  unfold answers
  dsimp only
  split
  · rw [List.mem_append, hvalues]
    exact or_iff_left (by simp)
  · exact hvalues

theorem nothing_mem_answers_iff :
    .nothing ∈ answers operation ↔
      operation.successSchemas = [] ∨ operation.successVoids ≠ [] := by
  have hvalues : .nothing ∉ (Keyed.values operation.successSchemas).map Answer.schema := by simp
  unfold answers
  dsimp only
  split
  · next h =>
    refine iff_of_true (List.mem_append_right _ (List.mem_singleton_self _)) ?_
    simpa [Keyed.values] using h
  · next h =>
    refine iff_of_false hvalues ?_
    simpa [Keyed.values] using h

/-- A call can answer nothing if the table has a case without content. -/
theorem nothing_mem_answers :
    .nothing ∈ answers operation ↔ ∃ status, .void status ∈ statusCases operation := by
  simp only [void_mem_statusCases]
  rw [nothing_mem_answers_iff]
  constructor
  · intro h
    -- Without a success that is recorded, the row for `2xx` has no content.
    cases hvoids : operation.successVoids with
    | nil => exact ⟨"2xx", .inr ⟨rfl, h.resolve_right (absurd hvoids), rfl⟩⟩
    | cons status rest => exact ⟨status, .inl (List.mem_cons_self ..)⟩
  · rintro ⟨status, hmem | ⟨-, hempty, -⟩⟩
    · exact .inr (List.ne_nil_of_mem hmem)
    · exact .inl hempty

/-- The types of the answers are of the successes in the table, and `void` for no content. -/
theorem mem_answerTypes {words : Words} {text : String} :
    text ∈ answerTypes words operation ↔
      (∃ status name, .success status name ∈ statusCases operation ∧
        words.responseType name = text) ∨
      (text = "void" ∧ ∃ status, .void status ∈ statusCases operation) := by
  rw [answerTypes, mem_dropRepeats, List.mem_map, ← nothing_mem_answers]
  constructor
  · rintro ⟨answer, hmem, htype⟩
    cases answer with
    | schema name =>
      obtain ⟨status, hcase⟩ := schema_mem_answers.mp hmem
      exact .inl ⟨status, name, hcase, htype⟩
    | nothing => exact .inr ⟨htype.symm, hmem⟩
  · rintro (⟨status, name, hcase, htype⟩ | ⟨rfl, hmem⟩)
    · exact ⟨.schema name, schema_mem_answers.mpr ⟨status, hcase⟩, htype⟩
    · exact ⟨.nothing, hmem, rfl⟩

section

variable (flavor : Flavor)

/-- A schema answers in the signature as it does in the table, but for the word `void`. -/
theorem responseType_mem_answerTypes {name : String} :
    flavor.words.responseType name ∈ answerTypes flavor.words operation ↔
      (∃ status, .success status name ∈ statusCases operation) ∨
      (flavor = .types ∧ name = "void" ∧ ∃ status, .void status ∈ statusCases operation) := by
  rw [mem_answerTypes, responseType_eq_void_iff, and_assoc]
  simp only [(responseType_injective flavor).eq_iff, exists_eq_right]

theorem void_mem_answerTypes :
    "void" ∈ answerTypes flavor.words operation ↔
      (∃ status, .void status ∈ statusCases operation) ∨
      (flavor = .types ∧ ∃ status, .success status "void" ∈ statusCases operation) := by
  rw [mem_answerTypes, and_iff_right rfl, or_comm]
  have hshared : (∃ status name, .success status name ∈ statusCases operation ∧
      flavor.words.responseType name = "void") ↔
      flavor = .types ∧ ∃ status, .success status "void" ∈ statusCases operation := by
    simp only [responseType_eq_void_iff]
    constructor
    · rintro ⟨status, name, hcase, hflavor, rfl⟩
      exact ⟨hflavor, status, hcase⟩
    · rintro ⟨hflavor, status, hcase⟩
      exact ⟨status, "void", hcase, hflavor, rfl⟩
  rw [hshared]

/-- A call fails in the signature with the errors that the table decodes. -/
theorem errorType_mem_failures {client name : String} :
    errorType flavor.words client name ∈ failures flavor.words client operation ↔
      ∃ status, .error status name ∈ statusCases operation := by
  simp only [error_mem_statusCases]
  unfold failures
  rw [List.mem_cons, or_iff_right (errorType_ne_transportErrors flavor client name),
    List.mem_map_of_injective (errorType_injective flavor client)]
  simp [Keyed.values]

end

/-- The signature of an operation agrees with its callable.  Their arguments have the same names in
    the same order.  The type of a response to a schema is among the answers if the table has a
    success that is decoded with the schema, `void` is if the table has a case without content, and
    the error of the client for a schema is among the failures if the table has an error that is
    decoded with the schema.  Where names are written as they are, the response to a schema named
    `void` is of the type `void` too, so that either case brings it in. -/
theorem signature_agrees (flavor : Flavor) (client : String) (operation : Operation) :
    (signatureArguments flavor.words operation).map (·.name) = callableArguments operation ∧
    (∀ name, flavor.words.responseType name ∈ answerTypes flavor.words operation ↔
      (∃ status, .success status name ∈ statusCases operation) ∨
      (flavor = .types ∧ name = "void" ∧ ∃ status, .void status ∈ statusCases operation)) ∧
    ("void" ∈ answerTypes flavor.words operation ↔
      (∃ status, .void status ∈ statusCases operation) ∨
      (flavor = .types ∧ ∃ status, .success status "void" ∈ statusCases operation)) ∧
    (∀ name, errorType flavor.words client name ∈ failures flavor.words client operation ↔
      ∃ status, .error status name ∈ statusCases operation) ∧
    signature flavor.words client operation =
      Text.comment operation.description ++ "readonly " ++ Text.quoted operation.id ++ ": (" ++
        ", ".intercalate ((signatureArguments flavor.words operation).map Argument.render) ++
        ") => Effect.Effect<" ++ " | ".intercalate (answerTypes flavor.words operation) ++ ", " ++
        " | ".intercalate (failures flavor.words client operation) ++ ">" :=
  ⟨names_signatureArguments flavor.words operation,
    fun _ => responseType_mem_answerTypes flavor,
    void_mem_answerTypes flavor,
    fun _ => errorType_mem_failures flavor,
    rfl⟩

/-- An operation that succeeds with a value of a schema named `void`. -/
def voidNamed : Operation where
  id := "a"
  method := .get
  successSchemas := [("200", "void")]

/-- The signature says `void`, and no case of the table is without content. -/
theorem voidNamed_disagrees :
    "void" ∈ answerTypes plainTypes voidNamed ∧
      ¬ ∃ status, .void status ∈ statusCases voidNamed := by
  have hcases : statusCases voidNamed = [.success "200" "void"] := rfl
  refine ⟨by decide, ?_⟩
  rintro ⟨status, h⟩
  rw [hcases] at h
  cases List.mem_singleton.mp h

end TypedClient.Client
