/-
  TypedClient.Source

  Where a document is read from, and the format its name tells.
-/
import TypedClient.Json.Read
import TypedClient.Source.Path
import TypedClient.Source.Url
import TypedClient.Yaml.Read

namespace TypedClient

/-- Formats of documents. -/
inductive SpecFormat where
  | json
  | yaml
  deriving DecidableEq, Repr

namespace SpecFormat

/-- The format that a file extension stands for, in any case. -/
def ofExtension? (extension : String) : Option SpecFormat :=
  let small := extension.map Char.toLower
  if small == "json" then some .json
  else if small == "yaml" || small == "yml" then some .yaml
  else none

/-- The value that a text holds. -/
def parse? (format : SpecFormat) (text : String) : Option Json :=
  match format with
  | .json => Json.parse text
  | .yaml => Yaml.parse text

end SpecFormat

/-- Where a document is read from. -/
inductive SpecSource where
  | file (path : String)
  | web (url : Source.Url)
  deriving DecidableEq, Repr

namespace SpecSource

/-- Does the text start like an address of the web? -/
def looksLikeUrl (text : String) : Bool :=
  let small := text.toList.map Char.toLower
  "http://".toList.isPrefixOf small || "https://".toList.isPrefixOf small

/-- An address of the web where the text is one, and the path of a file otherwise. -/
def ofText (text : String) : SpecSource :=
  if looksLikeUrl text then
    match Source.Url.parse? text with
    | some url => .web url
    | none => .file text
  else .file text

/-- Text of a source. -/
def render : SpecSource → String
  | .file path => path
  | .web url => url.render

/-- Extension of the name of the file, or of the last segment of the address. -/
def extension? : SpecSource → Option String
  | .file path => (Source.Path.fileName? path).bind Source.Path.extension?
  | .web url => url.path.getLast?.bind Source.Path.extension?

/-- The format that the name tells. -/
def format? (source : SpecSource) : Option SpecFormat := source.extension?.bind SpecFormat.ofExtension?

end SpecSource

end TypedClient
