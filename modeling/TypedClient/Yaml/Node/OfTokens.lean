/-
  TypedClient.Yaml.Node.OfTokens

  The document that a list of tokens holds.

  An anchor gets the number of names known before it, so that a name given twice makes the next
  new name share a number.
-/
import TypedClient.Keyed
import TypedClient.Yaml.Node
import TypedClient.Yaml.Token

namespace TypedClient.Yaml

/-- What is left of the tokens, and the numbers of the names of anchors. -/
structure Pending where
  tokens : List Token
  anchors : Keyed Nat

/-- A step over tokens that may fail. -/
abbrev TokenReader := StateT Pending Option

/-- What tag handles stand for. -/
abbrev TagHandles := Keyed String

namespace TokenReader

/-- The next token. -/
def peek : TokenReader (Option Token) := do return (← get).tokens.head?

/-- Is the next token one of these? -/
def isNext (tokens : List Token) : TokenReader Bool := do
  return (← peek).any tokens.contains

/-- Passes a token. -/
def pass : TokenReader Unit := modify fun s => { s with tokens := s.tokens.drop 1 }

/-- Passes a token if it is this one, and says whether it was. -/
def passIf (token : Token) : TokenReader Bool := do
  if ← isNext [token] then
    pass
    return true
  else return false

/-- Passes a token, which has to be this one. -/
def expect (token : Token) : TokenReader Unit := do
  if !(← passIf token) then failure

end TokenReader

open TokenReader

/-! ## Properties of nodes -/

/-- Gives the next anchor its number. -/
def nameAnchor (name : String) : TokenReader Nat := do
  let number := (← get).anchors.length
  modify fun s => { s with anchors := s.anchors.insert name number }
  return number

/-- The full text of a tag. -/
def expandTag (handles : TagHandles) (handle suffix : String) : TokenReader String :=
  if handle.isEmpty then return suffix
  else match Keyed.get? handle handles with
    | some expansion => return expansion ++ suffix
    | none => failure

/-- An anchor, if one comes next. -/
def readAnchor : TokenReader (Option String) := do
  match ← peek with
  | some (.anchor name) =>
    pass
    return some name
  | _ => return none

/-- A tag, if one comes next. -/
def readNodeTag (handles : TagHandles) : TokenReader (Option String) := do
  match ← peek with
  | some (.tag handle suffix) =>
    pass
    return some (← expandTag handles handle suffix)
  | _ => return none

/-- Anchor and tag of a node, in either order. -/
def readProperties (handles : TagHandles) : TokenReader (Option Nat × Option String) := do
  let before ← readAnchor
  let tag ← readNodeTag handles
  let after ← if before.isNone && tag.isSome then readAnchor else pure none
  match before.or after with
  | some name => return (some (← nameAnchor name), tag)
  | none => return (none, tag)

/-! ## Collections

The functions below take the reader of a nested node as an argument. -/

/-- A nested node, or an empty one before these tokens. -/
def nodeUnless (tokens : List Token) (node : TokenReader Node) : TokenReader Node := do
  if ← isNext tokens then return Node.empty else node

/-- Items after dashes, up to the end of their block. -/
def blockItems (node : TokenReader Node) : Nat → TokenReader (List Node)
  | 0 => failure
  | fuel + 1 => do
    if ← passIf .blockEntry then
      let item ← nodeUnless [.blockEntry, .blockEnd] node
      return item :: (← blockItems node fuel)
    else
      expect .blockEnd
      return []

/-- Items after dashes that stand no deeper than the key they belong to. -/
def levelItems (node : TokenReader Node) : Nat → TokenReader (List Node)
  | 0 => failure
  | fuel + 1 => do
    if ← passIf .blockEntry then
      let item ← nodeUnless [.blockEntry, .key, .value, .blockEnd] node
      return item :: (← levelItems node fuel)
    else return []

/-- A value after its colon, or an empty one without a colon. -/
def valueUnless (tokens : List Token) (node : TokenReader Node) : TokenReader Node := do
  if ← passIf .value then nodeUnless tokens node else return Node.empty

/-- Keys and values up to the end of their block. -/
def blockEntries (node : TokenReader Node) : Nat → TokenReader (List (Node × Node))
  | 0 => failure
  | fuel + 1 => do
    if ← passIf .key then
      let key ← nodeUnless [.key, .value, .blockEnd] node
      let value ← valueUnless [.key, .value, .blockEnd] node
      return (key, value) :: (← blockEntries node fuel)
    else
      expect .blockEnd
      return []

/-- A key and its value within a flow sequence. A key that is left out takes the token after it
    along. -/
def pairItem (node : TokenReader Node) : TokenReader Node := do
  let key ←
    if ← isNext [.value, .flowEntry, .flowSequenceEnd] then
      pass
      pure Node.empty
    else node
  let value ← valueUnless [.flowEntry, .flowSequenceEnd] node
  return .mapping none none [(key, value)]

/-- Items up to the closing bracket. Each but the first follows a comma. -/
def flowItems (node : TokenReader Node) : Nat → Bool → TokenReader (List Node)
  | 0, _ => failure
  | fuel + 1, first => do
    if ← passIf .flowSequenceEnd then return []
    else
      if !first then expect .flowEntry
      if ← passIf .flowSequenceEnd then return []
      else
        let item ← if ← passIf .key then pairItem node else node
        return item :: (← flowItems node fuel false)

/-- Keys and values up to the closing brace. Each pair but the first follows a comma. -/
def flowEntries (node : TokenReader Node) : Nat → Bool → TokenReader (List (Node × Node))
  | 0, _ => failure
  | fuel + 1, first => do
    if ← passIf .flowMappingEnd then return []
    else
      if !first then expect .flowEntry
      if ← passIf .flowMappingEnd then return []
      else
        let entry ←
          if ← passIf .key then
            let key ← nodeUnless [.value, .flowEntry, .flowMappingEnd] node
            let value ← valueUnless [.flowEntry, .flowMappingEnd] node
            pure (key, value)
          else
            let key ← node
            pure (key, Node.empty)
        return entry :: (← flowEntries node fuel false)

/-! ## Nodes -/

/-- Where a node stands: within brackets, in a block, or in a block directly after a key or a
    colon, where dashes need no deeper column. -/
inductive NodePlace where
  | flow
  | block
  | entry
  deriving DecidableEq

/-- A node. The tag `!` of a scalar says nothing. -/
def readNode (handles : TagHandles) : Nat → NodePlace → TokenReader Node
  | 0, _ => failure
  | fuel + 1, place => do
    match ← peek with
    | some (.reference name) =>
      pass
      match Keyed.get? name (← get).anchors with
      | some number => return .reference number
      | none => failure
    | _ =>
      let (anchor, tag) ← readProperties handles
      match ← peek with
      | some (.scalar text plain) =>
        pass
        return .scalar anchor (tag.filter (· != "!")) text plain
      | some .flowSequenceStart =>
        pass
        return .sequence anchor tag (← flowItems (readNode handles fuel .flow) fuel true)
      | some .flowMappingStart =>
        pass
        return .mapping anchor tag (← flowEntries (readNode handles fuel .flow) fuel true)
      | next =>
        -- Dashes at the column of their key open no block of their own.
        if next == some .blockEntry && place == .entry then
          return .sequence anchor tag (← levelItems (readNode handles fuel .block) fuel)
        else if next == some .blockSequenceStart && place != .flow then
          pass
          return .sequence anchor tag (← blockItems (readNode handles fuel .block) fuel)
        else if next == some .blockMappingStart && place != .flow then
          pass
          return .mapping anchor tag (← blockEntries (readNode handles fuel .entry) fuel)
        -- An anchor or a tag alone names an empty node.
        else if anchor.isNone && tag.isNone then failure
        else return .scalar anchor tag "" true

/-! ## Documents -/

/-- The handles that every document knows. -/
def commonHandles : TagHandles := [("!", "!"), ("!!", "tag:yaml.org,2002:")]

/-- The handles that the directives before a document define. The version is given once at most,
    and no handle is defined twice. -/
def readDirectives : Nat → Bool → TagHandles → TokenReader TagHandles
  | 0, _, _ => failure
  | fuel + 1, versioned, handles => do
    match ← peek with
    | some (.version major minor) =>
      if versioned || major != 1 || (minor != 1 && minor != 2) then failure
      else
        pass
        readDirectives fuel true handles
    | some (.tagHandle handle expansion) =>
      if Keyed.has handle handles then failure
      else
        pass
        readDirectives fuel versioned (handles ++ [(handle, expansion)])
    | _ => return handles

/-- Is the token a directive? -/
def Token.isDirective : Token → Bool
  | .version .. => true
  | .tagHandle .. => true
  | _ => false

/-- Passes the marks of a document's end. -/
def passEnds : Nat → TokenReader Unit
  | 0 => return
  | fuel + 1 => do
    if ← passIf .documentEnd then passEnds fuel

/-- The only document; nothing before the end of the tokens when there is none. -/
def readDocument (fuel : Nat) : TokenReader (Option Node) := do
  match ← peek with
  | none => return none
  | some token =>
    if token.isDirective || token == .documentStart then
      let handles ← readDirectives fuel false []
      expect .documentStart
      let next ← peek
      if next.all fun token =>
          token.isDirective || token == .documentStart || token == .documentEnd then
        return some Node.empty
      else return some (← readNode (handles.union commonHandles) fuel .block)
    else return some (← readNode commonHandles fuel .block)

/-- The document that tokens hold, if there is one; fails when they do not form a document, or
    more than one. -/
def Node.ofTokens? (tokens : List Token) : Option (Option Node) := do
  let fuel := 2 * tokens.length + 2
  let (node, pending) ← (readDocument fuel).run ⟨tokens, []⟩
  let (_, pending) ← (passEnds fuel).run pending
  if pending.tokens.isEmpty then some node else none

end TypedClient.Yaml
