/-
  TypedClient.Client.Interface

  The interface of a client: one signature for each operation, and the shape of its errors.
-/
import TypedClient.Client.Words
import TypedClient.Text.Lines
import TypedClient.Text.Quoted

namespace TypedClient.Client

/-- What a call can answer: the value of a declaration, or nothing. -/
inductive Answer where
  | schema (name : String)
  | nothing
  deriving DecidableEq, Repr

/-- An argument of a signature. -/
structure Argument where
  name : String
  type : String
  /-- The argument may be left out. -/
  optional : Bool
  deriving DecidableEq, Repr

/-- Text of an argument. -/
def Argument.render (argument : Argument) : String :=
  if argument.optional then argument.name ++ "?: " ++ argument.type ++ " | undefined"
  else argument.name ++ ": " ++ argument.type

/-- Type of the options of an operation, if it takes any. -/
def optionsType? (words : Words) (operation : Operation) : Option String :=
  match operation.params, operation.payload with
  | some params, none => some (words.paramsType params)
  | none, some payload => some (words.payloadType payload)
  | some params, some payload =>
    some ("\x7b readonly params" ++ (if operation.paramsOptional then "?" else "") ++ ": " ++
      words.paramsType params ++ "; readonly payload: " ++ words.payloadType payload ++ " \x7d")
  | none, none => none

/-- Arguments of a signature: a text for each path parameter, then the options. -/
def signatureArguments (words : Words) (operation : Operation) : List Argument :=
  operation.pathIds.map (⟨·, "string", false⟩) ++
    ((optionsType? words operation).map
      (⟨"options", ·, operation.optionsOptional⟩)).toList

/-- Answers of a call, one for each successful status. -/
def answers (operation : Operation) : List Answer :=
  let schemas := (Keyed.values operation.successSchemas).map Answer.schema
  if schemas.isEmpty || !operation.successVoids.isEmpty then schemas ++ [.nothing] else schemas

/-- Type of an answer. -/
def Answer.type (words : Words) : Answer → String
  | .schema name => words.responseType name
  | .nothing => "void"

/-- Drops every text that is equal to the one before it. -/
def dropRepeats : List String → List String
  | [] => []
  | [text] => [text]
  | first :: second :: rest =>
    if first = second then dropRepeats (second :: rest)
    else first :: dropRepeats (second :: rest)

/-- Type of the error of a client that carries the value of a declaration. -/
def errorType (words : Words) (client name : String) : String :=
  client ++ "Error<\"" ++ name ++ "\", " ++ words.responseType name ++ ">"

/-- The failures of a call. -/
def failures (words : Words) (client : String) (operation : Operation) : List String :=
  words.transportErrors :: (Keyed.values operation.errorSchemas).map (errorType words client)

/-- Signature of an operation in the interface. -/
def signature (words : Words) (client : String) (operation : Operation) : String :=
  Text.comment operation.description ++ "readonly " ++ Text.quoted operation.id ++ ": (" ++
    ", ".intercalate ((signatureArguments words operation).map Argument.render) ++
    ") => Effect.Effect<" ++
    " | ".intercalate (dropRepeats ((answers operation).map (Answer.type words))) ++ ", " ++
    " | ".intercalate (failures words client operation) ++ ">"

/-- The interface of a client. -/
def interfaceSource (words : Words) (client : String) (operations : List Operation) : String :=
  let members := "readonly httpClient: HttpClient.HttpClient" ::
    operations.map (signature words client)
  "export interface " ++ client ++ " \x7b\n" ++ Text.indent 2 ("\n".intercalate members) ++ "\n\x7d"

/-- The error of a client: its shape, and the function that makes one. -/
def errorSource (client : String) : String :=
  "\n".intercalate [
    "export interface " ++ client ++ "Error<Tag extends string, E> \x7b",
    "  readonly _tag: Tag",
    "  readonly request: HttpClientRequest.HttpClientRequest",
    "  readonly response: HttpClientResponse.HttpClientResponse",
    "  readonly cause: E",
    "\x7d",
    "",
    "class " ++ client ++ "ErrorImpl extends Data.Error<\x7b",
    "  _tag: string",
    "  cause: any",
    "  request: HttpClientRequest.HttpClientRequest",
    "  response: HttpClientResponse.HttpClientResponse",
    "\x7d> \x7b\x7d",
    "",
    "export const " ++ client ++ "Error = <Tag extends string, E>(",
    "  tag: Tag,",
    "  cause: E,",
    "  response: HttpClientResponse.HttpClientResponse,",
    "): " ++ client ++ "Error<Tag, E> =>",
    "  new " ++ client ++ "ErrorImpl(\x7b",
    "    _tag: tag,",
    "    cause,",
    "    response,",
    "    request: response.request,",
    "  \x7d) as any"]

/-- The types of a client. -/
def typesSource (words : Words) (client : String) (operations : List Operation) : String :=
  interfaceSource words client operations ++ "\n\n" ++ errorSource client

end TypedClient.Client
