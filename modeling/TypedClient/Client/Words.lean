/-
  TypedClient.Client.Words

  The words in which the clients of the two flavors differ.
-/
import TypedClient.Import
import TypedClient.Operation

namespace TypedClient.Client

/-- The words of a flavor of client. -/
structure Words where
  /-- Import statements at the head of the module. -/
  imports : List Import
  /-- Type of the options when they carry parameters, from the declaration's name. -/
  paramsType : String → String
  /-- Type of a payload. -/
  payloadType : Payload → String
  /-- Type of a decoded response, from the declaration's name. -/
  responseType : String → String
  /-- Failures that every call can end in. -/
  transportErrors : String
  /-- Decoder of a successful response, from the declaration's name. -/
  successDecoder : String → String
  /-- Decoder of an error response, from the declaration's name. -/
  errorDecoder : String → String
  /-- Lines that define the decoders, from the client's name. -/
  decoders : String → List String

/-- A module of the platform library, imported under its own name. -/
def platformModule (name : String) : Import := Import.ofModule name ("@effect/platform/" ++ name)

/-- A module of the effect library, imported under its own name. -/
def effectModule (name : String) : Import := Import.ofModule name ("effect/" ++ name)

/-- The imports of every client. -/
def sharedImports : List Import := [
  (platformModule "HttpClient").asType,
  platformModule "HttpClientError",
  platformModule "HttpClientRequest",
  platformModule "HttpClientResponse",
  effectModule "Data",
  effectModule "Effect"]

/-- Type of a payload of form fields that no declaration describes. -/
def formDataType : String := "globalThis.FormData"

/-- The client that decodes and validates responses. -/
def runtimeSchemas : Words where
  imports := sharedImports ++ [
    (Import.ofNames ["ParseError"] "effect/ParseResult").asType,
    Import.ofModule "S" "effect/Schema"]
  paramsType name := "typeof " ++ name ++ ".Encoded"
  payloadType payload :=
    match payload.name? with
    | some name => "typeof " ++ name ++ ".Encoded"
    | none => formDataType
  responseType name := "typeof " ++ name ++ ".Type"
  transportErrors := "HttpClientError.HttpClientError | ParseError"
  successDecoder name := "decodeSuccess(" ++ name ++ ")"
  errorDecoder name := "decodeError(\"" ++ name ++ "\", " ++ name ++ ")"
  decoders client := [
    "const decodeSuccess =",
    "  <A, I, R>(schema: S.Schema<A, I, R>) =>",
    "  (response: HttpClientResponse.HttpClientResponse) =>",
    "    HttpClientResponse.schemaBodyJson(schema)(response)",
    "const decodeError =",
    "  <const Tag extends string, A, I, R>(tag: Tag, schema: S.Schema<A, I, R>) =>",
    "  (response: HttpClientResponse.HttpClientResponse) =>",
    "    Effect.flatMap(HttpClientResponse.schemaBodyJson(schema)(response), (cause) =>",
    "      Effect.fail(" ++ client ++ "Error(tag, cause, response)),",
    "    )"]

/-- The client that trusts responses. -/
def plainTypes : Words where
  imports := sharedImports
  paramsType name := name
  payloadType payload := payload.name?.getD formDataType
  responseType name := name
  transportErrors := "HttpClientError.HttpClientError"
  successDecoder _ := "decodeSuccess"
  errorDecoder name := "decodeError(\"" ++ name ++ "\")"
  decoders client := [
    "const decodeSuccess = (response: HttpClientResponse.HttpClientResponse) =>",
    "  response.json as Effect.Effect<any, HttpClientError.ResponseError>",
    "const decodeError =",
    "  <const Tag extends string>(tag: Tag) =>",
    "  (response: HttpClientResponse.HttpClientResponse) =>",
    "    Effect.flatMap(response.json, (cause) => Effect.fail(" ++ client ++
      "Error(tag, cause, response)))"]

end TypedClient.Client
