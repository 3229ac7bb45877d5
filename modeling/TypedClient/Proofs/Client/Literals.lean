/-
  TypedClient.Proofs.Client.Literals

  The double-quoted literals of a client.  The id of an operation and the fields of its request are
  printed with quotes and backslashes escaped; the statuses of its table and the tags of its errors
  are printed as they are.  Nothing escapes the end of a line.  So literals are sound as long as the
  texts that are escaped stay on single lines, and the others have nothing to escape either; a
  status with a quote in it ends the key of its row.
-/
import TypedClient.Proofs.Client.Agreement
import TypedClient.Proofs.Text.Pieces
import TypedClient.Proofs.Text.StringLiteral

namespace TypedClient.Client

open StringLiteral (OneLine Plain)

/-! ## Literals -/

/-- A double-quoted literal for a text, with the quotes of the text escaped or as it is. -/
inductive Literal where
  | escaped (text : String)
  | bare (text : String)
  deriving DecidableEq, Repr

namespace Literal

/-- The text that a literal is for. -/
def original : Literal → String
  | escaped text => text
  | bare text => text

/-- A literal as it is printed. -/
def printed : Literal → String
  | escaped text => Text.quoted text
  | bare text => "\"" ++ text ++ "\""

/-- A literal is sound if it is one literal of the language, and stands for its text. -/
def Sound (literal : Literal) : Prop :=
  StringLiteral.value? literal.printed = some literal.original

theorem sound_escaped_iff {text : String} : (escaped text).Sound ↔ OneLine text :=
  StringLiteral.value?_quoted_iff

theorem sound_bare_iff {text : String} : (bare text).Sound ↔ Plain text :=
  StringLiteral.value?_between_quotes_iff

end Literal

/-- A text is printed with literals that stand in it in their order, each of them for itself. -/
abbrev Prints (text : String) (literals : List Literal) : Prop :=
  Text.Has text (literals.map Literal.printed)

/-- Texts are printed with literals, one text after the other. -/
abbrev PrintsAll (texts : List String) (literals : List Literal) : Prop :=
  Text.AllHave texts (literals.map Literal.printed)

/-! ## The literals of an operation -/

/-- Literals in the signature of an operation: its id, and the tags of its errors. -/
def signatureLiterals (operation : Operation) : List Literal :=
  .escaped operation.id :: (Keyed.values operation.errorSchemas).map .bare

/-- Literals of a record with some fields: each is the key of an entry, and read from there. -/
def fieldLiterals (fields : List String) : List Literal :=
  fields.flatMap fun field => [.escaped field, .escaped field]

/-- Literals in the steps that complete a request. -/
def requestLiterals (operation : Operation) : List Literal :=
  fieldLiterals operation.urlParams ++ fieldLiterals operation.headers ++
    fieldLiterals operation.cookies

/-- Literals in the row of a case: the status, and the tag of an error. -/
def StatusCase.literals : StatusCase → List Literal
  | .success status _ => [.bare status]
  | .error status name => [.bare status, .bare name]
  | .void status => [.bare status]

/-- Literals in the table of an operation. -/
def tableLiterals (operation : Operation) : List Literal :=
  (statusCases operation).flatMap StatusCase.literals

/-- Literals in the callable of an operation. -/
def callableLiterals (operation : Operation) : List Literal :=
  .escaped operation.id :: (requestLiterals operation ++ tableLiterals operation)

/-- The texts of an operation can be printed as literals: what is escaped is on single lines, and
    what is not has no quotes and backslashes either. -/
structure Printable (operation : Operation) : Prop where
  id : OneLine operation.id
  fields : ∀ field ∈ operation.urlParams ++ operation.headers ++ operation.cookies, OneLine field
  statuses : ∀ status ∈ operation.decodedStatuses, Plain status
  tags : ∀ name ∈ Keyed.values operation.errorSchemas, Plain name

variable {operation : Operation}

theorem sound_fieldLiterals_iff {fields : List String} :
    (∀ literal ∈ fieldLiterals fields, literal.Sound) ↔ ∀ field ∈ fields, OneLine field := by
  have hfield : ∀ field : String, (∀ literal ∈ [Literal.escaped field, Literal.escaped field],
      literal.Sound) ↔ OneLine field := by
    simp [Literal.sound_escaped_iff]
  unfold fieldLiterals
  simp only [List.forall_mem_flatMap, hfield]

theorem sound_requestLiterals_iff :
    (∀ literal ∈ requestLiterals operation, literal.Sound) ↔
      ∀ field ∈ operation.urlParams ++ operation.headers ++ operation.cookies, OneLine field := by
  unfold requestLiterals
  simp only [List.forall_mem_append, sound_fieldLiterals_iff]

theorem StatusCase.sound_literals_iff {statusCase : StatusCase} :
    (∀ literal ∈ statusCase.literals, literal.Sound) ↔
      Plain statusCase.status ∧ ∀ status name, statusCase = .error status name → Plain name := by
  cases statusCase with
  | success status name => simp [literals, StatusCase.status, Literal.sound_bare_iff]
  | error status name => simp [literals, StatusCase.status, Literal.sound_bare_iff]
  | void status => simp [literals, StatusCase.status, Literal.sound_bare_iff]

theorem sound_tableLiterals_iff :
    (∀ literal ∈ tableLiterals operation, literal.Sound) ↔
      (∀ status ∈ operation.decodedStatuses, Plain status) ∧
      ∀ name ∈ Keyed.values operation.errorSchemas, Plain name := by
  unfold tableLiterals
  rw [List.forall_mem_flatMap, ← map_status_statusCases, List.forall_mem_map]
  simp only [StatusCase.sound_literals_iff]
  constructor
  · intro h
    refine ⟨fun statusCase hcase => (h statusCase hcase).1, fun name hname => ?_⟩
    obtain ⟨⟨status, _⟩, hmem, rfl⟩ := List.mem_map.mp hname
    exact (h _ (error_mem_statusCases.mpr hmem)).2 status _ rfl
  · rintro ⟨hstatuses, htags⟩ statusCase hcase
    refine ⟨hstatuses statusCase hcase, ?_⟩
    rintro status name rfl
    exact htags name (List.mem_map_of_mem (error_mem_statusCases.mp hcase))

/-- The literals of an operation are sound if its texts are printable. -/
theorem sound_iff_printable :
    (∀ literal ∈ signatureLiterals operation ++ callableLiterals operation, literal.Sound) ↔
      Printable operation := by
  have htags : (∀ literal ∈ (Keyed.values operation.errorSchemas).map Literal.bare,
      literal.Sound) ↔ ∀ name ∈ Keyed.values operation.errorSchemas, Plain name := by
    simp only [List.forall_mem_map, Literal.sound_bare_iff]
  unfold signatureLiterals callableLiterals
  rw [List.forall_mem_append, List.forall_mem_cons, List.forall_mem_cons, List.forall_mem_append,
    Literal.sound_escaped_iff, htags, sound_requestLiterals_iff, sound_tableLiterals_iff]
  constructor
  · rintro ⟨⟨hid, htags⟩, -, hfields, hstatuses, -⟩
    exact ⟨hid, hfields, hstatuses, htags⟩
  · rintro ⟨hid, hfields, hstatuses, htags⟩
    exact ⟨⟨hid, htags⟩, hid, hfields, hstatuses, htags⟩

/-! ## The texts of a client -/

section

variable {first second : String} {literals others : List Literal}

theorem prints_literal (literal : Literal) : Prints literal.printed [literal] :=
  Text.hasPieces_self literal.printed

theorem Prints.append (h : Prints first literals) (hsecond : Prints second others) :
    Prints (first ++ second) (literals ++ others) := by
  unfold Prints
  rw [List.map_append]
  exact Text.Has.append h hsecond

theorem PrintsAll.append {texts later : List String} (h : PrintsAll texts literals)
    (hlater : PrintsAll later others) : PrintsAll (texts ++ later) (literals ++ others) := by
  unfold PrintsAll
  rw [List.map_append]
  exact Text.AllHave.append h hlater

theorem printsAll_map {α : Type} {items : List α} {text : α → String}
    {literals : α → List Literal} (h : ∀ item ∈ items, Prints (text item) (literals item)) :
    PrintsAll (items.map text) (items.flatMap literals) := by
  unfold PrintsAll
  rw [List.map_flatMap]
  exact Text.allHave_map h

end

/-! ### Requests -/

theorem prints_fieldAccess (operation : Operation) (field : String) :
    Prints (fieldAccess operation field) [.escaped field] :=
  ((prints_literal (.escaped field)).prepend _).postpend "]"

theorem prints_fieldRecord (operation : Operation) (fields : List String) (suffix : String) :
    Prints (fieldRecord operation fields suffix) (fieldLiterals fields) := by
  have hentry : ∀ field ∈ fields, Prints
      (Text.quoted field ++ ": " ++ fieldAccess operation field ++ suffix)
      [.escaped field, .escaped field] := by
    intro field _
    have hkey : Prints (Text.quoted field ++ ": ") [.escaped field] :=
      (prints_literal (.escaped field)).postpend ": "
    exact (hkey.append (prints_fieldAccess operation field)).postpend suffix
  exact (((printsAll_map hentry).intercalate ", ").prepend "\x7b ").postpend " \x7d"

theorem printsAll_fieldStep (operation : Operation) (setter : String) (fields : List String)
    (suffix : String) :
    PrintsAll (fieldStep operation setter fields suffix) (fieldLiterals fields) := by
  unfold fieldStep
  cases fields with
  | nil => exact .nil
  | cons field fields =>
    exact (((prints_fieldRecord operation (field :: fields) suffix).prepend
      (setter ++ "(")).postpend "),").alone

theorem printsAll_requestSteps (operation : Operation) :
    PrintsAll (requestSteps operation) (requestLiterals operation) := by
  have hpayload : PrintsAll (payloadStep operation) [] := Text.allHave_nil _
  have hsteps := (((printsAll_fieldStep operation "HttpClientRequest.setUrlParams"
    operation.urlParams " as any").append (printsAll_fieldStep operation
      "HttpClientRequest.setHeaders" operation.headers " ?? undefined")).append
    (printsAll_fieldStep operation "setCookies" operation.cookies "")).append hpayload
  rwa [List.append_nil] at hsteps

/-! ### Responses -/

section

variable (flavor : Flavor)

theorem prints_errorDecoder (name : String) :
    Prints (flavor.words.errorDecoder name) [.bare name] := by
  have htag : Prints ("decodeError(" ++ (Literal.bare name).printed) [.bare name] :=
    (prints_literal (.bare name)).prepend "decodeError("
  cases flavor with
  | schema =>
    have htext : Flavor.schema.words.errorDecoder name =
        "decodeError(" ++ (Literal.bare name).printed ++ (", " ++ name ++ ")") := by
      apply String.toList_inj.mp
      simp [Flavor.words, runtimeSchemas, Literal.printed]
    rw [htext]
    exact htag.postpend _
  | types =>
    have htext : Flavor.types.words.errorDecoder name =
        "decodeError(" ++ (Literal.bare name).printed ++ ")" := by
      apply String.toList_inj.mp
      simp [Flavor.words, plainTypes, Literal.printed]
    rw [htext]
    exact htag.postpend _

theorem StatusCase.prints_render (statusCase : StatusCase) :
    Prints (statusCase.render flavor.words) statusCase.literals := by
  have htext : statusCase.render flavor.words =
      (Literal.bare statusCase.status).printed ++ ": " ++ statusCase.decoder flavor.words ++ "," := by
    rw [StatusCase.render_eq]
    apply String.toList_inj.mp
    simp [Literal.printed]
  have hstatus : Prints ((Literal.bare statusCase.status).printed ++ ": ")
      [.bare statusCase.status] := (prints_literal (.bare statusCase.status)).postpend ": "
  rw [htext]
  cases statusCase with
  | success status name => exact (hstatus.postpend _).postpend ","
  | error status name => exact (hstatus.append (prints_errorDecoder flavor name)).postpend ","
  | void status => exact (hstatus.postpend _).postpend ","

theorem printsAll_statusTable (operation : Operation) :
    PrintsAll (statusTable flavor.words operation) (tableLiterals operation) := by
  have hrows : PrintsAll ((statusCases operation).map (StatusCase.render flavor.words))
      (tableLiterals operation) :=
    printsAll_map fun statusCase _ => statusCase.prints_render flavor
  have hlast : PrintsAll ["orElse: unexpectedStatus,"] [] := Text.allHave_nil _
  have htable := hrows.append hlast
  rwa [List.append_nil] at htable

theorem prints_errorType (client name : String) :
    Prints (errorType flavor.words client name) [.bare name] := by
  have htext : errorType flavor.words client name = client ++ "Error<" ++
      (Literal.bare name).printed ++ (", " ++ flavor.words.responseType name ++ ">") := by
    apply String.toList_inj.mp
    simp [errorType, Literal.printed]
  rw [htext]
  exact ((prints_literal (.bare name)).prepend _).postpend _

theorem prints_signature (client : String) (operation : Operation) :
    Prints (signature flavor.words client operation) (signatureLiterals operation) := by
  have htags : PrintsAll (failures flavor.words client operation)
      ((Keyed.values operation.errorSchemas).map .bare) := by
    have herrors : PrintsAll
        ((Keyed.values operation.errorSchemas).map (errorType flavor.words client))
        ((Keyed.values operation.errorSchemas).flatMap fun name => [.bare name]) :=
      printsAll_map fun name _ => prints_errorType flavor client name
    rw [← List.map_eq_flatMap] at herrors
    exact .cons (.last _) herrors
  have hid : Prints (Text.comment operation.description ++ "readonly " ++
      Text.quoted operation.id) [.escaped operation.id] :=
    (prints_literal (.escaped operation.id)).prepend _
  -- Between the id and the failures there is code: arguments, and types of answers.
  have hanswers : Prints (Text.comment operation.description ++ "readonly " ++
      Text.quoted operation.id ++ ": (" ++
        ", ".intercalate ((signatureArguments flavor.words operation).map Argument.render) ++
        ") => Effect.Effect<" ++ " | ".intercalate (answerTypes flavor.words operation) ++ ", ")
      [.escaped operation.id] :=
    ((((hid.postpend ": (").postpend _).postpend ") => Effect.Effect<").postpend _).postpend ", "
  exact (hanswers.append (htags.intercalate " | ")).postpend ">"

end

/-! ### The whole client -/

theorem mem_escapeQuotes {c : Char} {text : List Char} (h : c ∈ Text.escapeQuotes text) :
    c = '\\' ∨ c ∈ text := by
  induction text with
  | nil => cases h
  | cons d text ih =>
    rw [Text.escapeQuotes] at h
    split at h
    · rcases List.mem_cons.mp h with rfl | h
      · exact .inl rfl
      · rcases List.mem_cons.mp h with rfl | h
        · exact .inr (List.mem_cons_self ..)
        · exact (ih h).imp_right (List.mem_cons_of_mem d)
    · rcases List.mem_cons.mp h with rfl | h
      · exact .inr (List.mem_cons_self ..)
      · exact (ih h).imp_right (List.mem_cons_of_mem d)

theorem withinLine_between_quotes {printed : String} {inner : List Char}
    (hprinted : printed.toList = '"' :: inner ++ ['"']) (hinner : '\n' ∉ inner) :
    Text.WithinLine printed := by
  refine ⟨?_, '"' :: inner, '"', hprinted, by decide⟩
  rw [hprinted]
  simpa using hinner

/-- A sound literal is on one line, and ends in its closing quote. -/
theorem Literal.Sound.withinLine {literal : Literal} (h : literal.Sound) :
    Text.WithinLine literal.printed := by
  cases literal with
  | escaped text =>
    have hprinted : (escaped text).printed.toList =
        '"' :: Text.escapeQuotes text.toList ++ ['"'] := by
      simp [printed, Text.quoted, Text.escaped]
    refine withinLine_between_quotes hprinted fun hbreak => ?_
    -- Escaping puts in backslashes only, so that the line feed would be one of the text.
    have htext : '\n' ∈ text.toList := (mem_escapeQuotes hbreak).resolve_left (by decide)
    exact (sound_escaped_iff.mp h '\n' htext).1 rfl
  | bare text =>
    have hprinted : (bare text).printed.toList = '"' :: text.toList ++ ['"'] := by
      simp [printed]
    exact withinLine_between_quotes hprinted fun hbreak =>
      absurd (sound_bare_iff.mp h '\n' hbreak) (by decide)

/-- Sound literals stay as they are in an indented text. -/
theorem Prints.indent {text : String} {literals : List Literal} (h : Prints text literals)
    (hsound : ∀ literal ∈ literals, literal.Sound) (width : Nat) :
    Prints (Text.indent width text) literals :=
  Text.Has.indent h (List.forall_mem_map.mpr fun literal hmem => (hsound literal hmem).withinLine)
    width

section

variable (flavor : Flavor) (client : String)

/-- What a callable has before the steps of its request. -/
theorem prints_callable_head (operation : Operation) :
    Prints (Text.quoted operation.id ++ ": (" ++ ", ".intercalate (callableArguments operation) ++
      ") =>\n  HttpClientRequest.make(\"" ++ operation.method.wireName ++ "\")(" ++
      PathPart.renderAll operation.path ++ ").pipe(\n") [.escaped operation.id] := by
  have hid : Prints (Text.quoted operation.id ++ ": (" ++
      ", ".intercalate (callableArguments operation) ++ ") =>\n  HttpClientRequest.make(\"")
      [.escaped operation.id] :=
    (((prints_literal (.escaped operation.id)).postpend ": (").postpend _).postpend _
  exact (((hid.postpend operation.method.wireName).postpend "\")(").postpend _).postpend _

theorem prints_callable_id (operation : Operation) :
    Prints (callable flavor.words operation) [.escaped operation.id] :=
  ((prints_callable_head operation).postpend _).postpend "\n  ),"

theorem prints_callable (hsound : ∀ literal ∈ callableLiterals operation, literal.Sound) :
    Prints (callable flavor.words operation) (callableLiterals operation) := by
  obtain ⟨-, hsteps⟩ := List.forall_mem_cons.mp hsound
  obtain ⟨-, hrows⟩ := List.forall_mem_append.mp hsteps
  have htable : Prints (Text.indent 2 ("\n".intercalate (statusTable flavor.words operation)))
      (tableLiterals operation) :=
    Prints.indent ((printsAll_statusTable flavor operation).intercalate "\n") hrows 2
  have hdecode : Prints ("withResponse(HttpClientResponse.matchStatus(\x7b\n" ++
      Text.indent 2 ("\n".intercalate (statusTable flavor.words operation)) ++ "\n\x7d)),")
      (tableLiterals operation) := (htable.prepend _).postpend _
  -- The table is indented once more, with the steps of the request.
  have hbody := Prints.indent
    (((printsAll_requestSteps operation).append hdecode.alone).intercalate "\n") hsteps 4
  exact ((prints_callable_head operation).append hbody).postpend "\n  ),"

theorem prints_implementationSource {operations : List Operation}
    (hsound : ∀ literal ∈ operations.flatMap callableLiterals, literal.Sound) :
    Prints (implementationSource flavor.words client operations)
      (operations.flatMap callableLiterals) := by
  have hmembers : PrintsAll ("httpClient," :: operations.map (callable flavor.words))
      (operations.flatMap callableLiterals) :=
    .cons (.last _) (printsAll_map fun operation hmem => prints_callable flavor
      fun literal hliteral => hsound literal (List.mem_flatMap.mpr ⟨operation, hmem, hliteral⟩))
  have hresult : Prints ("return \x7b\n" ++ Text.indent 2 ("\n".intercalate
      ("httpClient," :: operations.map (callable flavor.words))) ++ "\n\x7d")
      (operations.flatMap callableLiterals) :=
    ((Prints.indent (hmembers.intercalate "\n") hsound 2).prepend _).postpend _
  have hdefinitions : PrintsAll (preamble ++ flavor.words.decoders client) [] :=
    Text.allHave_nil _
  have hbody := Prints.indent ((hdefinitions.append hresult.alone).intercalate "\n") hsound 2
  have hopening : PrintsAll [
    "export const make = (",
    "  httpClient: HttpClient.HttpClient,",
    "  options: \x7b",
    "    readonly transformClient?: ((client: HttpClient.HttpClient) => " ++
      "Effect.Effect<HttpClient.HttpClient>) | undefined",
    "  \x7d = \x7b\x7d,",
    "): " ++ client ++ " => \x7b"] [] := Text.allHave_nil _
  have hclosing : PrintsAll ["\x7d"] [] := Text.allHave_nil _
  have hsource := ((hopening.append hbody.alone).append hclosing).intercalate "\n"
  rwa [List.append_nil, List.nil_append] at hsource

theorem prints_typesSource {operations : List Operation}
    (hsound : ∀ literal ∈ operations.flatMap signatureLiterals, literal.Sound) :
    Prints (typesSource flavor.words client operations)
      (operations.flatMap signatureLiterals) := by
  have hmembers : PrintsAll ("readonly httpClient: HttpClient.HttpClient" ::
      operations.map (signature flavor.words client)) (operations.flatMap signatureLiterals) :=
    .cons (.last _) (printsAll_map fun operation _ => prints_signature flavor client operation)
  have hindented := Prints.indent (hmembers.intercalate "\n") hsound 2
  exact (((hindented.prepend _).postpend "\n\x7d").postpend "\n\n").postpend (errorSource client)

end

/-- When the literals of a client are sound.  For every operation, the literals stand in the
    signature, at the head of the callable, in the steps of its request and in its table, in the
    order in which their texts are printed there.  All of them are literals of the language with
    their texts as values if and only if the id and the fields have no line ends, and the statuses
    and the names of errors have no quotes, no backslashes and no line ends.  If so, they stand in
    the finished client as well. -/
theorem literals_sound_iff (flavor : Flavor) (client : String) (operations : List Operation) :
    (∀ operation ∈ operations,
      Prints (signature flavor.words client operation) (signatureLiterals operation) ∧
      Prints (callable flavor.words operation) [.escaped operation.id] ∧
      PrintsAll (requestSteps operation) (requestLiterals operation) ∧
      PrintsAll (statusTable flavor.words operation) (tableLiterals operation) ∧
      ((∀ literal ∈ signatureLiterals operation ++ callableLiterals operation, literal.Sound) ↔
        Printable operation)) ∧
    ((∀ operation ∈ operations, Printable operation) →
      Prints (typesSource flavor.words client operations)
        (operations.flatMap signatureLiterals) ∧
      Prints (implementationSource flavor.words client operations)
        (operations.flatMap callableLiterals)) := by
  refine ⟨fun operation _ => ⟨prints_signature flavor client operation,
    prints_callable_id flavor operation, printsAll_requestSteps operation,
    printsAll_statusTable flavor operation, sound_iff_printable⟩, fun hprintable => ?_⟩
  have hsound : ∀ operation ∈ operations,
      ∀ literal ∈ signatureLiterals operation ++ callableLiterals operation, literal.Sound :=
    fun operation hmem => sound_iff_printable.mpr (hprintable operation hmem)
  constructor
  · apply prints_typesSource
    rw [List.forall_mem_flatMap]
    exact fun operation hmem => (List.forall_mem_append.mp (hsound operation hmem)).1
  · apply prints_implementationSource
    rw [List.forall_mem_flatMap]
    exact fun operation hmem => (List.forall_mem_append.mp (hsound operation hmem)).2

/-- An operation that succeeds with a status in which there is a quote. -/
def quotedStatus : Operation where
  id := "a"
  method := .get
  successSchemas := [("2\"0", "Pet")]

/-- The quote of the status ends the key of its row. -/
theorem quotedStatus_unsound :
    statusTable plainTypes quotedStatus =
      ["\"2\"0\": decodeSuccess,", "orElse: unexpectedStatus,"] ∧
    ¬ ∀ literal ∈ signatureLiterals quotedStatus ++ callableLiterals quotedStatus,
      literal.Sound := by
  refine ⟨by decide, fun hsound => ?_⟩
  obtain ⟨hoperations, -⟩ := literals_sound_iff .types "Client" [quotedStatus]
  obtain ⟨-, -, -, -, hiff⟩ := hoperations quotedStatus (List.mem_singleton_self _)
  have hstatus : "2\"0" ∈ quotedStatus.decodedStatuses := by decide
  have hplain := (hiff.mp hsound).statuses "2\"0" hstatus
  exact absurd (hplain '"' (by decide)) (by decide)

end TypedClient.Client
