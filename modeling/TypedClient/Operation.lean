/-
  TypedClient.Operation

  One operation of an API as the generated client sees it: every schema it mentions goes by the
  name of its declaration.
-/
import TypedClient.Keyed
import TypedClient.Text.Naming

namespace TypedClient

/-- Methods of HTTP. -/
inductive HttpMethod where
  | get
  | put
  | post
  | delete
  | options
  | head
  | patch
  | trace
  deriving DecidableEq, Repr, Inhabited

namespace HttpMethod

/-- All methods, in the order in which the operations of a path are listed. -/
def all : List HttpMethod := [.get, .put, .post, .delete, .options, .head, .patch, .trace]

/-- The key of the method in a path item. -/
def key : HttpMethod → String
  | .get => "get"
  | .put => "put"
  | .post => "post"
  | .delete => "delete"
  | .options => "options"
  | .head => "head"
  | .patch => "patch"
  | .trace => "trace"

/-- The method as it is sent. -/
def wireName : HttpMethod → String
  | .get => "GET"
  | .put => "PUT"
  | .post => "POST"
  | .delete => "DELETE"
  | .options => "OPTIONS"
  | .head => "HEAD"
  | .patch => "PATCH"
  | .trace => "TRACE"

end HttpMethod

/-- A part of a path: text, or a parameter by the name of the argument that fills it. -/
inductive PathPart where
  | fixed (text : String)
  | parameter (name : String)
  deriving DecidableEq, Repr, Inhabited

/-- The body of a request. -/
inductive Payload where
  /-- JSON, described by a declaration. -/
  | json (name : String)
  /-- Form fields, possibly described by a declaration. -/
  | form (name : Option String)
  deriving DecidableEq, Repr, Inhabited

/-- The name of the declaration that describes a payload. -/
def Payload.name? : Payload → Option String
  | .json name => some name
  | .form name => name

/-- An operation of a client. -/
structure Operation where
  /-- Name of the method on the client. -/
  id : String
  method : HttpMethod
  description : Option String := none
  /-- Path parameters, in the order of the path. -/
  pathIds : List String := []
  path : List PathPart := []
  /-- Declaration of the parameters that are not in the path. -/
  params : Option String := none
  /-- No parameter of that declaration is required. -/
  paramsOptional : Bool := true
  urlParams : List String := []
  headers : List String := []
  cookies : List String := []
  payload : Option Payload := none
  /-- Declarations of the responses by status, for success and for errors. -/
  successSchemas : Keyed String := []
  errorSchemas : Keyed String := []
  /-- Statuses of responses without content. -/
  voidStatuses : List String := []
  deriving Inhabited

/-! ## Statuses -/

/-- The class of a status, which its first character names: 2 for `200` and for `2xx`. -/
def statusClass? (status : String) : Option Nat :=
  match status.toList with
  | c :: _ => if c.isDigit then some (c.toNat - 48) else none
  | [] => none

/-- Statuses below 400 are a success. -/
def isSuccessStatus (status : String) : Bool := (statusClass? status).any (· < 4)

namespace Operation

/-- Does the client method take an argument with options? -/
def hasOptions (operation : Operation) : Bool :=
  operation.params.isSome || operation.payload.isSome

/-- May the options be left out? -/
def optionsOptional (operation : Operation) : Bool :=
  operation.payload.isNone && operation.paramsOptional

/-- Statuses without content that are a success. -/
def successVoids (operation : Operation) : List String :=
  operation.voidStatuses.filter isSuccessStatus

end Operation

/-! ## Path templates -/

namespace PathPart

/-- Escapes what would end a template literal or start a substitution. -/
def escapeTemplate : List Char → List Char
  | '\\' :: rest => '\\' :: '\\' :: escapeTemplate rest
  | '\x60' :: rest => '\\' :: '\x60' :: escapeTemplate rest
  | '$' :: '\x7b' :: rest => '\\' :: '$' :: '\x7b' :: escapeTemplate rest
  | c :: rest => c :: escapeTemplate rest
  | [] => []

/-- One part inside a template literal. -/
def render : PathPart → String
  | .fixed text => String.ofList (escapeTemplate text.toList)
  | .parameter name => "$\x7b" ++ name ++ "\x7d"

/-- A path as a template literal. -/
def renderAll (parts : List PathPart) : String :=
  "\x60" ++ String.join (parts.map render) ++ "\x60"

/-- The part for some text, unless the text is empty. -/
def ofText (text : List Char) : List PathPart :=
  if text.isEmpty then [] else [.fixed (String.ofList text)]

/-- Name of a parameter that is the `index`-th of its path. -/
def parameterName (index : Nat) (name : List Char) : String :=
  let id := Text.camelize (String.ofList name)
  if id.isEmpty then "param" ++ toString index else id

/-- Parts of a path of which `index` parameters have been read, with the text since then held in
    reverse, and the name of the parameter that is being read, if any, held likewise. A brace that
    is never closed is text. -/
def split (index : Nat) (text : List Char) (name : Option (List Char)) :
    List Char → List PathPart
  | [] =>
    match name with
    | none => ofText text.reverse
    | some name => ofText (text.reverse ++ '\x7b' :: name.reverse)
  | c :: rest =>
    match name with
    | none =>
      if c = '\x7b' then split index text (some []) rest else split index (c :: text) none rest
    | some name =>
      if c = '\x7d' then
        ofText text.reverse ++ .parameter (parameterName index name.reverse) ::
          split (index + 1) [] none rest
      else split index text (some (c :: name)) rest

/-- The parts of a path: a parameter from each opening brace to the next closing one. -/
def ofPath (path : String) : List PathPart := split 0 [] none path.toList

/-- Name of the parameter that a part is. -/
def parameter? : PathPart → Option String
  | .parameter name => some name
  | .fixed _ => none

end PathPart

end TypedClient
