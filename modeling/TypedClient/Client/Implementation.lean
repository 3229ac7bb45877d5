/-
  TypedClient.Client.Implementation

  The function that makes a client: for each operation a callable that builds the request and
  decodes the response by its status.
-/
import TypedClient.Client.Words
import TypedClient.Text.Lines
import TypedClient.Text.Quoted

namespace TypedClient.Client

/-- Definitions shared by the callables, before the decoders. -/
def preamble : List String := [
    "const unexpectedStatus = (response: HttpClientResponse.HttpClientResponse) =>",
    "  Effect.flatMap(",
    "    Effect.orElseSucceed(response.text, () => \"Unexpected status code\"),",
    "    (description) =>",
    "      Effect.fail(",
    "        new HttpClientError.ResponseError(\x7b",
    "          request: response.request,",
    "          response,",
    "          reason: \"StatusCode\",",
    "          description,",
    "        \x7d),",
    "      ),",
    "  )",
    "const withResponse =",
    "  <A, E>(f: (response: HttpClientResponse.HttpClientResponse) => Effect.Effect<A, E>) =>",
    "  (request: HttpClientRequest.HttpClientRequest): Effect.Effect<any, any> => \x7b",
    "    const client = options.transformClient",
    "      ? options.transformClient(httpClient)",
    "      : Effect.succeed(httpClient)",
    "    return Effect.flatMap(",
    "      Effect.flatMap(client, (client) => client.execute(request)),",
    "      f,",
    "    )",
    "  \x7d",
    "const setCookies =",
    "  (cookies: Record<string, unknown>) =>",
    "  (request: HttpClientRequest.HttpClientRequest) => \x7b",
    "    const header = Object.entries(cookies)",
    "      .filter(([, value]) => value !== undefined && value !== null)",
    "      .map(([key, value]) => \x60$\x7bkey\x7d=$\x7bencodeURIComponent(String(value))\x7d\x60)",
    "      .join(\"; \")",
    "    return header === \"\" ? request : HttpClientRequest.setHeader(request, \"Cookie\", header)",
    "  \x7d",
    "const decodeVoid = (_response: HttpClientResponse.HttpClientResponse) => Effect.void"]

/-! ## Requests -/

/-- Arguments of the callable of an operation. -/
def callableArguments (operation : Operation) : List String :=
  operation.pathIds ++ if operation.hasOptions then ["options"] else []

/-- Access to a field of the parameters. They are the options themselves unless there is a
    payload, and may be missing when none of them is required. -/
def fieldAccess (operation : Operation) (field : String) : String :=
  (if operation.payload.isSome then "options.params" else "options") ++
    (if operation.paramsOptional then "?.[" else "[") ++ Text.quoted field ++ "]"

/-- An object with the values of some fields. -/
def fieldRecord (operation : Operation) (fields : List String) (suffix : String) : String :=
  "\x7b " ++ ", ".intercalate (fields.map fun field =>
    Text.quoted field ++ ": " ++ fieldAccess operation field ++ suffix) ++ " \x7d"

/-- The step of a request that sets some fields, unless there are none. -/
def fieldStep (operation : Operation) (setter : String) (fields : List String) (suffix : String) :
    List String :=
  if fields.isEmpty then []
  else [setter ++ "(" ++ fieldRecord operation fields suffix ++ "),"]

/-- The step of a request that sets its payload, if there is one. -/
def payloadStep (operation : Operation) : List String :=
  let value := if operation.params.isSome then "options.payload" else "options"
  match operation.payload with
  | none => []
  | some (.json _) => ["HttpClientRequest.bodyUnsafeJson(" ++ value ++ "),"]
  | some (.form (some _)) => ["HttpClientRequest.bodyFormDataRecord(" ++ value ++ " as any),"]
  | some (.form none) => ["HttpClientRequest.bodyFormData(" ++ value ++ "),"]

/-- Steps that complete a request before it is sent. -/
def requestSteps (operation : Operation) : List String :=
  fieldStep operation "HttpClientRequest.setUrlParams" operation.urlParams " as any" ++
  fieldStep operation "HttpClientRequest.setHeaders" operation.headers " ?? undefined" ++
  fieldStep operation "setCookies" operation.cookies "" ++
  payloadStep operation

/-! ## Responses -/

/-- How the responses with a status are decoded. -/
inductive StatusCase where
  | success (status name : String)
  | error (status name : String)
  | void (status : String)
  deriving DecidableEq, Repr

/-- The status of a case. -/
def StatusCase.status : StatusCase → String
  | .success status _ => status
  | .error status _ => status
  | .void status => status

/-- The cases of an operation. An error status without content has no case of its own; an
    operation without any success answers nothing for all of them. -/
def statusCases (operation : Operation) : List StatusCase :=
  operation.successSchemas.map (fun (status, name) => .success status name) ++
  operation.errorSchemas.map (fun (status, name) => .error status name) ++
  operation.successVoids.map .void ++
  if operation.successSchemas.isEmpty && operation.successVoids.isEmpty then [.void "2xx"] else []

/-- Text of a case. -/
def StatusCase.render (words : Words) (statusCase : StatusCase) : String :=
  "\"" ++ statusCase.status ++ "\": " ++ (match statusCase with
    | .success _ name => words.successDecoder name
    | .error _ name => words.errorDecoder name
    | .void _ => "decodeVoid") ++ ","

/-- The table that responses are decoded with; any other status fails. -/
def statusTable (words : Words) (operation : Operation) : List String :=
  (statusCases operation).map (StatusCase.render words) ++ ["orElse: unexpectedStatus,"]

/-! ## The client -/

/-- The member of a client for an operation. -/
def callable (words : Words) (operation : Operation) : String :=
  let decode := "withResponse(HttpClientResponse.matchStatus(\x7b\n" ++
    Text.indent 2 ("\n".intercalate (statusTable words operation)) ++ "\n\x7d)),"
  Text.quoted operation.id ++ ": (" ++ ", ".intercalate (callableArguments operation) ++
    ") =>\n  HttpClientRequest.make(\"" ++ operation.method.wireName ++ "\")(" ++
    PathPart.renderAll operation.path ++ ").pipe(\n" ++
    Text.indent 4 ("\n".intercalate (requestSteps operation ++ [decode])) ++ "\n  ),"

/-- The function that makes a client. -/
def implementationSource (words : Words) (client : String) (operations : List Operation) :
    String :=
  let members := "httpClient," :: operations.map (callable words)
  let result := "return \x7b\n" ++ Text.indent 2 ("\n".intercalate members) ++ "\n\x7d"
  let body := preamble ++ words.decoders client ++ [result]
  "\n".intercalate [
    "export const make = (",
    "  httpClient: HttpClient.HttpClient,",
    "  options: \x7b",
    "    readonly transformClient?: ((client: HttpClient.HttpClient) => " ++
      "Effect.Effect<HttpClient.HttpClient>) | undefined",
    "  \x7d = \x7b\x7d,",
    "): " ++ client ++ " => \x7b",
    Text.indent 2 ("\n".intercalate body),
    "\x7d"]

end TypedClient.Client
