/-
  TypedClient.Proofs.Operation.CallNames

  What the names are made of that the shapes of operations and the targets of references go by: of
  ids, of keys and of statuses.  A name is no identifier just when it starts with an id or a key
  that has no letter, or with a status that has more than letters and digits.
-/
import TypedClient.Proofs.Operation.Requests
import TypedClient.Proofs.Registry.RootNames

namespace TypedClient

open Document
open Registry (Request RootName NamedUnder)

namespace Operation

variable {document : Json} {reading : Reading} {request : Request}

/-! ## Names of calls -/

/-- The operation has an id, and no letter in it. -/
def Written.letterless (written : Written) : Bool :=
  (written.raw.operationId.bind Text.nonEmpty?).any (!Text.hasLetter ·)

/-- Names of the shapes of an operation start with the identifier of its id. Without an id that is
    made of the method and the path, and has a letter. -/
theorem exists_source (written : Written) : ∃ source,
    (baseIds written.path written.method written.raw).2 = Text.identifier source ∧
      Text.hasLetter source = !written.letterless := by
  unfold baseIds Written.letterless
  cases written.raw.operationId.bind Text.nonEmpty? with
  | some id => exact ⟨id, rfl, by simp⟩
  | none =>
    refine ⟨written.method.key ++ written.path, rfl, ?_⟩
    have hmethod : Text.hasLetter written.method.key = true := by
      cases written.method <;> decide +kernel
    rw [Text.hasLetter_append, hmethod]
    rfl

/-- A suffix is a number, if it is anything. -/
theorem isDigit_suffixFor (ids : List String) (id : String) :
    (suffixFor ids id).toList.all Char.isDigit = true := by
  unfold suffixFor
  split
  · exact Text.all_isDigit_toString _
  · rfl

theorem exists_of_mem_readFrom {taken : List String} {written : List Written}
    (h : reading ∈ readFrom taken written) :
    ∃ taken, reading = Reading.of taken reading.written := by
  induction written generalizing taken with
  | nil => cases h
  | cons first rest ih =>
    rcases List.mem_cons.mp h with rfl | h
    · exact ⟨taken, rfl⟩
    · exact ih h

/-- Names of the shapes of an operation start with its identifier and a number, if any. -/
theorem exists_schemaId (h : reading ∈ readings document) : ∃ source suffix,
    reading.schemaId = Text.identifier source ++ suffix ∧
      Text.hasLetter source = (!reading.written.letterless) ∧
      suffix.toList.all Char.isDigit = true := by
  obtain ⟨taken, hreading⟩ := exists_of_mem_readFrom h
  obtain ⟨source, hsource, hletter⟩ := exists_source reading.written
  have hid : reading.schemaId =
      (baseIds reading.written.path reading.written.method reading.written.raw).2 ++ suffixFor taken
        (baseIds reading.written.path reading.written.method reading.written.raw).1 :=
    congrArg Reading.schemaId hreading
  rw [hsource] at hid
  exact ⟨source, _, hid, hletter, isDigit_suffixFor ..⟩

/-- The names of an operation with a letter start with an identifier. -/
theorem isIdentifier_schemaId (h : reading ∈ readings document)
    (hletter : reading.written.letterless = false) :
    Text.isIdentifier reading.schemaId = true := by
  obtain ⟨source, suffix, hid, hsource, hdigits⟩ := exists_schemaId h
  rw [hletter] at hsource
  have hname : Text.isIdentifier (Text.identifier source) = true :=
    (Text.isIdentifier_identifier source).trans hsource
  have hsuffix : Text.isAlphanumeric suffix = true := Text.isAlphanumeric_of_all_isDigit hdigits
  rw [hid, Text.isIdentifier_append (Text.ne_empty_of_isIdentifier hname), hname, hsuffix]
  rfl

/-- The names of an operation without a letter start with a number, if that is there. -/
theorem startsDigit_schemaId (h : reading ∈ readings document)
    (hletter : reading.written.letterless = true) (hid : reading.schemaId ≠ "") :
    Text.startsDigit reading.schemaId = true := by
  obtain ⟨source, suffix, hschema, hsource, hdigits⟩ := exists_schemaId h
  rw [hletter] at hsource
  rw [Text.identifier_of_not_hasLetter hsource, String.empty_append] at hschema
  rw [hschema] at hid ⊢
  exact Text.startsDigit_of_all hdigits hid

/-- The names of an operation do not start with a small letter. -/
theorem startsSmall_schemaId (h : reading ∈ readings document) :
    Text.startsSmall reading.schemaId = false := by
  cases hletter : reading.written.letterless with
  | true =>
    by_cases hid : reading.schemaId = ""
    · rw [hid]
      rfl
    · exact (Text.of_startsDigit (startsDigit_schemaId h hletter hid)).2
  | false =>
    obtain ⟨source, suffix, hid, hsource, hdigits⟩ := exists_schemaId h
    rw [hid]
    refine Text.startsSmall_append (Text.startsSmall_identifier source) ?_
    by_cases hsuffix : suffix = ""
    · rw [hsuffix]
      rfl
    · exact (Text.of_startsDigit (Text.startsDigit_of_all hdigits hsuffix)).2

theorem statusSuffix_of_startsDigit {status : String} (h : Text.startsDigit status = true) :
    statusSuffix status = status :=
  if_pos h

theorem statusSuffix_of_not_startsDigit {status : String} (h : Text.startsDigit status = false) :
    statusSuffix status = Text.identifier status :=
  if_neg (Bool.eq_false_iff.mp h)

/-- A response is registered under the names of its operation and its status. -/
theorem name_of_responseRequest {schemaId : String} {response : String × MaybeRef Response}
    (h : responseRequest? document schemaId response = some request) :
    request.name = schemaId ++ statusSuffix response.1 := by
  unfold responseRequest? at h
  split at h
  · obtain ⟨schema, -, rfl⟩ := Option.map_eq_some_iff.mp h
    rfl
  · cases h

/-- A call is named after its operation and its role, or after its operation and its status. -/
theorem name_of_mem_requests (h : request ∈ reading.requests document) :
    (∃ role, Text.isIdentifier role = true ∧ Text.startsSmall role = false ∧
      request.name = reading.schemaId ++ role) ∨
    ∃ response ∈ reading.written.raw.responses,
      responseRequest? document reading.schemaId response = some request ∧
        request.name = reading.schemaId ++ statusSuffix response.1 := by
  unfold Reading.requests at h
  rw [List.mem_append, List.mem_append, Option.mem_toList, Option.mem_toList] at h
  rcases h with (h | h) | h
  · unfold paramsRequest? at h
    split at h
    · cases h
    · cases h
      exact Or.inl ⟨"Params", by decide +kernel, by decide +kernel, rfl⟩
  · unfold bodyRequest? at h
    split at h
    · cases h
    · split at h
      · cases h
        exact Or.inl ⟨"Request", by decide +kernel, by decide +kernel, rfl⟩
      · cases h
        exact Or.inl ⟨"RequestFormData", by decide +kernel, by decide +kernel, rfl⟩
      · cases h
  · obtain ⟨response, hresponse, hrequest⟩ := List.mem_filterMap.mp h
    exact Or.inr ⟨response, hresponse, hrequest, name_of_responseRequest hrequest⟩

/-! ## Names that are no identifiers -/

/-- The name is empty, or starts with a digit, or has a character that is no letter and no digit,
    because of what it is made of. -/
inductive Misnamed (document : Json) : String → Prop where
  /-- Nothing is left of the last token of a reference, which has no letter. -/
  | target {reference : String} (referred : Registry.Referred document (calls document) reference)
      (letterless : ∀ token, (Reference.tokens reference).getLast? = some token →
        Text.hasLetter token = false) :
      Misnamed document ""
  /-- Nothing is left of an id without a letter and a status without a letter. -/
  | response {reading : Reading} {response : String × MaybeRef Response} {request : Request}
      (mem : reading ∈ readings document) (responds : response ∈ reading.written.raw.responses)
      (registers : responseRequest? document reading.schemaId response = some request)
      (inline : request.reference? = none) (letterless : reading.written.letterless = true)
      (first : reading.schemaId = "") (worded : Text.startsDigit response.1 = false)
      (mute : Text.hasLetter response.1 = false) :
      Misnamed document ""
  /-- The number that tells an id without a letter from another one comes first. -/
  | numbered {reading : Reading} {request : Request} {name : String}
      (mem : reading ∈ readings document) (registers : request ∈ reading.requests document)
      (inline : request.reference? = none) (letterless : reading.written.letterless = true)
      (later : reading.schemaId ≠ "") (under : NamedUnder request.name name) :
      Misnamed document name
  /-- A status that starts with a digit comes first, or has a foreign character. -/
  | status {reading : Reading} {response : String × MaybeRef Response} {request : Request}
      {name : String} (mem : reading ∈ readings document)
      (responds : response ∈ reading.written.raw.responses)
      (registers : responseRequest? document reading.schemaId response = some request)
      (inline : request.reference? = none) (numeric : Text.startsDigit response.1 = true)
      (bad : reading.written.letterless = true ∨ Text.isAlphanumeric response.1 = false)
      (under : NamedUnder request.name name) :
      Misnamed document name

/-- A name under one that is neither empty nor an identifier is no identifier. -/
theorem isIdentifier_of_under {root name : String} (hunder : NamedUnder root name)
    (hroot : Text.isIdentifier root = false) (hempty : root ≠ "") :
    Text.isIdentifier name = false := by
  rw [Bool.eq_false_iff]
  intro hname
  rcases hunder.isIdentifier_iff.mp hname with h | ⟨h, -⟩
  · exact absurd h (by rw [hroot]; exact Bool.false_ne_true)
  · exact hempty h

theorem Misnamed.isIdentifier_eq {name : String} (h : Misnamed document name) :
    Text.isIdentifier name = false := by
  cases h with
  | target => rfl
  | response => rfl
  | @numbered reading request _ mem registers inline letterless later under =>
    -- The name of the call starts with the number.
    have hdigit : Text.startsDigit request.name = true := by
      have hid := startsDigit_schemaId mem letterless later
      rcases name_of_mem_requests registers with ⟨role, -, -, hname⟩ | ⟨response, -, -, hname⟩
      · exact hname ▸ Text.startsDigit_append hid
      · exact hname ▸ Text.startsDigit_append hid
    exact isIdentifier_of_under under (Text.of_startsDigit hdigit).1
      (Text.ne_empty_of_startsDigit hdigit)
  | @status reading response request _ mem responds registers inline numeric bad under =>
    have hname : request.name = reading.schemaId ++ response.1 := by
      rw [name_of_responseRequest registers, statusSuffix_of_startsDigit numeric]
    have hstatus : response.1 ≠ "" := Text.ne_empty_of_startsDigit numeric
    have hroot : Text.isIdentifier request.name = false := by
      rw [hname]
      by_cases hid : reading.schemaId = ""
      · rw [hid, String.empty_append]
        exact (Text.of_startsDigit numeric).1
      · rw [Text.isIdentifier_append hid]
        rcases bad with hletter | hforeign
        · rw [(Text.of_startsDigit (startsDigit_schemaId mem hletter hid)).1]
          rfl
        · rw [hforeign, Bool.and_false]
    refine isIdentifier_of_under under hroot fun hempty => hstatus ?_
    rw [hname, String.append_eq_empty_iff] at hempty
    exact hempty.2

section

variable {name : String} (hmem : reading ∈ readings document)
  (hcall : request ∈ reading.requests document) (hinline : request.reference? = none)
  (hunder : NamedUnder request.name name) (hbad : Text.isIdentifier request.name = false)
include hmem hcall hinline hunder hbad

/-- After an id that is an identifier only a status that is written as it is can be bad. -/
theorem misnamed_of_lettered (hletter : reading.written.letterless = false) :
    Misnamed document name := by
  have hid := isIdentifier_schemaId hmem hletter
  have hne := Text.ne_empty_of_isIdentifier hid
  rcases name_of_mem_requests hcall with ⟨role, hrole, -, hname⟩ |
    ⟨response, hresponds, hregisters, hname⟩
  · rw [hname, Text.isIdentifier_append hne, hid, Text.isAlphanumeric_of_isIdentifier hrole] at hbad
    cases hbad
  · rw [hname, Text.isIdentifier_append hne, hid, Bool.true_and] at hbad
    cases hdigit : Text.startsDigit response.1 with
    | true =>
      rw [statusSuffix_of_startsDigit hdigit] at hbad
      exact .status hmem hresponds hregisters hinline hdigit (Or.inr hbad) hunder
    | false =>
      rw [statusSuffix_of_not_startsDigit hdigit,
        (Text.isPart_identifier response.1).isAlphanumeric] at hbad
      cases hbad

/-- After an id of which nothing is left comes a number, or a status, or nothing at all. -/
theorem misnamed_of_letterless (hletter : reading.written.letterless = true)
    (hempty : request.name = "" → name = "") : Misnamed document name := by
  by_cases hid : reading.schemaId = ""
  · -- The name of the call is just its role, or its status.
    rcases name_of_mem_requests hcall with ⟨role, hrole, -, hname⟩ |
      ⟨response, hresponds, hregisters, hname⟩
    · rw [hname, hid, String.empty_append, hrole] at hbad
      cases hbad
    · cases hdigit : Text.startsDigit response.1 with
      | true => exact .status hmem hresponds hregisters hinline hdigit (Or.inl hletter) hunder
      | false =>
        rw [statusSuffix_of_not_startsDigit hdigit, hid, String.empty_append] at hname
        rw [hname, Text.isIdentifier_identifier] at hbad
        rw [hempty (hname.trans (Text.identifier_of_not_hasLetter hbad))]
        exact .response hmem hresponds hregisters hinline hletter hid hdigit hbad
  · exact .numbered hmem hcall hinline hletter hid hunder

end

/-- The identifier of a token is bad when the token has no letter. -/
theorem misnamed_of_referred {reference : String}
    (hreferred : Registry.Referred document (calls document) reference)
    (hbad : Text.isIdentifier (Reference.name reference) = false) :
    Misnamed document "" ∧ Reference.name reference = "" := by
  unfold Reference.name at hbad ⊢
  cases hlast : (Reference.tokens reference).getLast? with
  | none =>
    refine ⟨.target hreferred fun token htoken => ?_, rfl⟩
    rw [hlast] at htoken
    cases htoken
  | some token =>
    rw [hlast] at hbad
    have hletter : Text.hasLetter token = false :=
      (Text.isIdentifier_identifier token).symm.trans hbad
    refine ⟨.target hreferred fun other hother => ?_, Text.identifier_of_not_hasLetter hletter⟩
    obtain rfl := Option.some.inj (hlast.symm.trans hother)
    exact hletter

/-- A name that a walk can give is no identifier just because of what it is made of. -/
theorem misnamed_iff {root name : String} (hroot : RootName document (calls document) root)
    (hunder : NamedUnder root name) :
    Misnamed document name ↔ Text.isIdentifier name = false := by
  refine ⟨Misnamed.isIdentifier_eq, fun hname => ?_⟩
  -- The start of the name is no identifier either, and if it is empty the name is.
  have hbad : Text.isIdentifier root = false := by
    rw [Bool.eq_false_iff]
    intro h
    rw [hunder.isIdentifier_iff.mpr (Or.inl h)] at hname
    cases hname
  have hempty : root = "" → name = "" := by
    intro h
    by_contra hrest
    rw [hunder.isIdentifier_iff.mpr (Or.inr ⟨h, hrest⟩)] at hname
    cases hname
  cases hroot with
  | target referred =>
    obtain ⟨hmisnamed, hnothing⟩ := misnamed_of_referred referred hbad
    rw [hempty hnothing]
    exact hmisnamed
  | @shape request mem inline =>
    obtain ⟨reading, hreading, hcall⟩ := List.mem_flatMap.mp mem
    cases hletter : reading.written.letterless with
    | true => exact misnamed_of_letterless hreading hcall inline hunder hbad hletter hempty
    | false => exact misnamed_of_lettered hreading hcall inline hunder hbad hletter

/-- A name that a walk starts from does not start with a small letter. -/
theorem startsSmall_root {root : String} (h : RootName document (calls document) root) :
    Text.startsSmall root = false := by
  cases h with
  | @target reference =>
    unfold Reference.name
    split
    · exact Text.startsSmall_identifier _
    · rfl
  | @shape request mem =>
    obtain ⟨reading, hreading, hmem⟩ := List.mem_flatMap.mp mem
    have hid := startsSmall_schemaId hreading
    rcases name_of_mem_requests hmem with ⟨role, -, hrole, hname⟩ | ⟨response, -, -, hname⟩
    · exact hname ▸ Text.startsSmall_append hid hrole
    · refine hname ▸ Text.startsSmall_append hid ?_
      unfold statusSuffix
      split
      · next hdigit => exact (Text.of_startsDigit hdigit).2
      · exact Text.startsSmall_identifier _

end Operation
end TypedClient
