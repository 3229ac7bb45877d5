/-
  TypedClient.Yaml.Token.Lexer

  Cutting YAML text into tokens.

  That a scalar is a key shows only at the colon after it. So the lexer remembers where a key may
  have begun, for the current collection and for those around it, and puts the tokens that begin
  a key and its mapping there once a colon comes. Such a key stands on one line and is at most
  1024 characters long.
-/
import TypedClient.Yaml.Token.Block
import TypedClient.Yaml.Token.Plain
import TypedClient.Yaml.Token.Quoted
import TypedClient.Yaml.Token.Tag

namespace TypedClient.Yaml

/-- Where a key may have begun. -/
structure KeyStart where
  /-- Is a key the only thing that may stand there? -/
  required : Bool
  /-- Number of tokens before it. -/
  token : Nat
  index : Nat
  line : Nat
  column : Nat

/-- Longest distance of a colon from the start of its key. -/
def longestKey : Nat := 1024

/-- Can the colon of the key no longer come? -/
def KeyStart.isPast (cursor : Cursor) (start : KeyStart) : Bool :=
  start.line < cursor.line || start.index + longestKey < cursor.index

/-- Forgets a key whose colon can no longer come; nothing when the key was required. -/
def forgetPast? (cursor : Cursor) : Option KeyStart → Option (Option KeyStart)
  | none => some none
  | some start =>
    if start.isPast cursor then if start.required then none else some none else some (some start)

/-- State of cutting a text into tokens. -/
structure Lexer where
  cursor : Cursor
  tokens : Array Token
  /-- Columns of the open block collections, the innermost first. -/
  blocks : List Nat
  /-- May a key begin at the next token? -/
  keyAllowed : Bool
  /-- Where a key of the current collection may have begun. -/
  keyStart : Option KeyStart
  /-- The same for what is around each open bracket, the innermost first. -/
  outer : List (Option KeyStart)

namespace Lexer

/-- The start of a text. -/
def start (text : String) : Lexer := ⟨Cursor.start text, #[], [], true, none, []⟩

/-- Is a bracket open? -/
def inFlow (s : Lexer) : Bool := !s.outer.isEmpty

/-- Appends a token. -/
def emit (token : Token) (s : Lexer) : Lexer := { s with tokens := s.tokens.push token }

/-- Puts a token before those that came from position `index` on. -/
def emitAt (index : Nat) (token : Token) (s : Lexer) : Lexer :=
  { s with tokens := s.tokens.insertIdxIfInBounds index token }

/-- Passes characters and appends a token. -/
def pass (count : Nat) (token : Token) (s : Lexer) : Lexer :=
  { s with cursor := s.cursor.skip count }.emit token

/-- Says whether a key may begin at the next token. -/
def allowKey (allowed : Bool) (s : Lexer) : Lexer := { s with keyAllowed := allowed }

/-! ## Block collections -/

/-- Opens a block collection at a column, unless one that starts there or deeper is open. Its
    token goes before those that came from position `index` on. -/
def openBlock (column index : Nat) (token : Token) (s : Lexer) : Lexer :=
  if !s.inFlow && s.blocks.head?.all (· < column) then
    { s with blocks := column :: s.blocks }.emitAt index token
  else s

/-- Opens a block collection here. -/
def openBlockHere (token : Token) (s : Lexer) : Lexer :=
  s.openBlock s.cursor.column s.tokens.size token

/-- Closes the block collections whose column satisfies a test. -/
def closeBlocks (test : Nat → Bool) (s : Lexer) : Lexer :=
  if s.inFlow then s
  else
    let closed := (s.blocks.takeWhile test).map fun _ => Token.blockEnd
    { s with blocks := s.blocks.dropWhile test, tokens := s.tokens ++ closed.toArray }

/-! ## Starts of keys -/

/-- Forgets where a key may have begun; nothing when the key was required. -/
def dropKey? (s : Lexer) : Option Lexer :=
  if s.keyStart.any (·.required) then none else some { s with keyStart := none }

/-- Remembers that a key may begin here, where that is allowed. -/
def saveKey? (s : Lexer) : Option Lexer :=
  if s.keyAllowed then
    let keyStart : KeyStart := {
      required := !s.inFlow && s.blocks.head? == some s.cursor.column
      token := s.tokens.size
      index := s.cursor.index
      line := s.cursor.line
      column := s.cursor.column }
    s.dropKey?.map fun s => { s with keyStart := some keyStart }
  else some s

/-- Forgets all keys whose colon can no longer come. -/
def forgetPast? (s : Lexer) : Option Lexer := do
  let keyStart ← Yaml.forgetPast? s.cursor s.keyStart
  let outer ← s.outer.mapM (Yaml.forgetPast? s.cursor)
  some { s with keyStart := keyStart, outer := outer }

/-! ## Tokens -/

/-- A directive, which closes every block collection. -/
def directive? (s : Lexer) : Option Lexer := do
  let s ← (s.closeBlocks fun _ => true).dropKey?
  let (token, rest) ← readDirective (s.cursor.rest.drop 1)
  let cursor ← (s.cursor.skipTo rest).finishLine?
  some ({ s with cursor := cursor }.emit token |>.allowKey false)

/-- The mark of a document's start or end. -/
def documentMark? (token : Token) (s : Lexer) : Option Lexer :=
  (s.closeBlocks fun _ => true).dropKey?.map fun s => (s.pass 3 token).allowKey false

/-- An opening bracket. -/
def openFlow? (token : Token) (s : Lexer) : Option Lexer :=
  s.saveKey?.map fun s =>
    { s with keyStart := none, outer := s.keyStart :: s.outer }.pass 1 token |>.allowKey true

/-- A closing bracket. -/
def closeFlow? (token : Token) (s : Lexer) : Option Lexer :=
  s.dropKey?.map fun s =>
    let s := match s.outer with
      | [] => s
      | keyStart :: outer => { s with keyStart := keyStart, outer := outer }
    (s.pass 1 token).allowKey false

/-- A comma between the items of brackets. -/
def flowEntry? (s : Lexer) : Option Lexer :=
  s.dropKey?.map fun s => (s.pass 1 .flowEntry).allowKey true

/-- The dash before an item. -/
def blockEntry? (s : Lexer) : Option Lexer :=
  if !s.inFlow && !s.keyAllowed then none
  else (s.openBlockHere .blockSequenceStart).dropKey?.map fun s =>
    (s.pass 1 .blockEntry).allowKey true

/-- The question mark before a key. -/
def key? (s : Lexer) : Option Lexer :=
  if !s.inFlow && !s.keyAllowed then none
  else (s.openBlockHere .blockMappingStart).dropKey?.map fun s =>
    (s.pass 1 .key).allowKey (!s.inFlow)

/-- The colon before a value: what may have begun as a key is one. -/
def value? (s : Lexer) : Option Lexer :=
  match s.keyStart with
  | some start =>
    let s := ({ s with keyStart := none }.emitAt start.token .key).openBlock
      start.column start.token .blockMappingStart
    some ((s.pass 1 .value).allowKey false)
  | none =>
    if !s.inFlow && !s.keyAllowed then none
    else some (((s.openBlockHere .blockMappingStart).pass 1 .value).allowKey (!s.inFlow))

/-- An anchor, or a reference to one. -/
def anchor? (token : String → Token) (s : Lexer) : Option Lexer := do
  let s ← s.saveKey?
  let (name, rest) ← readAnchorName (s.cursor.rest.drop 1)
  some ({ s with cursor := s.cursor.skipTo rest }.emit (token name) |>.allowKey false)

/-- A tag. -/
def tag? (s : Lexer) : Option Lexer := do
  let s ← s.saveKey?
  let (token, rest) ← readTag s.inFlow s.cursor.rest
  some ({ s with cursor := s.cursor.skipTo rest }.emit token |>.allowKey false)

/-- A block of indented lines. -/
def block? (folded : Bool) (s : Lexer) : Option Lexer := do
  let s ← s.dropKey?
  let (text, cursor) ← readBlock folded s.blocks.head? (s.cursor.skip 1)
  some ({ s with cursor := cursor }.emit (.scalar (String.ofList text.reverse) false) |>.allowKey true)

/-- A scalar between quotes. -/
def quoted? (single : Bool) (s : Lexer) : Option Lexer := do
  let s ← s.saveKey?
  let (text, cursor) ← readQuoted single s.cursor.steps [] (s.cursor.skip 1)
  some ({ s with cursor := cursor }.emit (.scalar (String.ofList text.reverse) false)
    |>.allowKey false)

/-- A scalar without quotes. When a line ended after it, a key may begin. -/
def plain? (s : Lexer) : Option Lexer := do
  let s ← s.saveKey?
  let least := (s.blocks.head?.map (· + 1)).getD 0
  let (text, lineEnded, cursor) ← readPlain s.inFlow least s.cursor.steps [] Gap.empty s.cursor
  some ({ s with cursor := cursor }.emit (.scalar (String.ofList text.reverse) true)
    |>.allowKey lineEnded)

/-- May a scalar without quotes begin with `c` before `rest`? -/
def startsPlain (inFlow : Bool) (c : Char) (rest : List Char) : Bool :=
  if c == '-' then !rest.head?.any isBlank
  else if c == '?' || c == ':' then !inFlow && !atWordEnd rest
  else !(isBlank c || isBreak c || ",[]\x7b\x7d#&*!|>'\"%@\x60".toList.contains c)

/-- The token at a character that is neither blank nor a break. -/
def token? (s : Lexer) : Option Lexer :=
  match s.cursor.rest with
  | [] => none
  | c :: rest =>
    if c == '%' && s.cursor.column == 0 then s.directive?
    else if s.cursor.atTriple '-' then s.documentMark? .documentStart
    else if s.cursor.atTriple '.' then s.documentMark? .documentEnd
    else if c == '[' then s.openFlow? .flowSequenceStart
    else if c == '\x7b' then s.openFlow? .flowMappingStart
    else if c == ']' then s.closeFlow? .flowSequenceEnd
    else if c == '\x7d' then s.closeFlow? .flowMappingEnd
    else if c == ',' then s.flowEntry?
    else if c == '-' && atWordEnd rest then s.blockEntry?
    else if c == '?' && (s.inFlow || atWordEnd rest) then s.key?
    else if c == ':' && (s.inFlow || atWordEnd rest) then s.value?
    else if c == '*' then s.anchor? .reference
    else if c == '&' then s.anchor? .anchor
    else if c == '!' then s.tag?
    else if c == '|' && !s.inFlow then s.block? false
    else if c == '>' && !s.inFlow then s.block? true
    else if c == '\'' then s.quoted? true
    else if c == '"' then s.quoted? false
    else if startsPlain s.inFlow c rest then s.plain?
    else none

/-! ## The whole text -/

/-- Passes blanks, comments and line breaks. A tab may not stand where a key may begin in a block
    collection. After a line break outside brackets a key may begin. -/
def skipBlanks : Nat → Lexer → Lexer
  | 0, s => s
  | fuel + 1, s =>
    let cursor := s.cursor
    let cursor :=
      if cursor.column == 0 && cursor.startsWith (Char.ofNat 0xFEFF) then cursor.skip 1 else cursor
    let tabs := s.inFlow || !s.keyAllowed
    let cursor := (cursor.skipWhile fun c => c == ' ' || (tabs && c == '\t')).skipComment
    if cursor.rest.head?.any isBreak then
      skipBlanks fuel { s with cursor := cursor.nextLine, keyAllowed := s.keyAllowed || !s.inFlow }
    else { s with cursor := cursor }

/-- The tokens of the rest of a text. -/
def finish? : Nat → Lexer → Option (List Token)
  | 0, _ => none
  | fuel + 1, s => do
    let s ← (s.skipBlanks s.cursor.steps).forgetPast?
    if s.cursor.rest.isEmpty then
      let s ← (s.closeBlocks fun _ => true).dropKey?
      some s.tokens.toList
    else
      -- Blocks deeper than the token end before it.
      let s ← (s.closeBlocks (s.cursor.column < ·)).token?
      s.finish? fuel

end Lexer

/-- The tokens of a text; nothing when it cannot be cut into tokens. -/
def Token.ofText? (text : String) : Option (List Token) :=
  if text.toList.all isAllowed then
    let s := Lexer.start text
    s.finish? s.cursor.steps
  else none

end TypedClient.Yaml
