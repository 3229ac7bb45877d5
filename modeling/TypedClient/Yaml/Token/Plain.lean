/-
  TypedClient.Yaml.Token.Plain

  Scalars without quotes. Within a line such a scalar ends at a comment or before a colon that a
  blank follows; inside brackets it also ends at brackets and commas.
-/
import TypedClient.Yaml.Token.Gap

namespace TypedClient.Yaml

/-- Marks that end a scalar without quotes inside brackets. -/
def isFlowMark (c : Char) : Bool := ",[]\x7b\x7d".toList.contains c

/-- The characters up to the next blank, break or end of the scalar, in reverse. Inside brackets
    a colon may not stand before another mark. -/
def plainRun? (inFlow : Bool) (read : List Char) : List Char → Option (List Char)
  | [] => some read
  | c :: rest =>
    if isBlank c || isBreak c then some read
    else if inFlow && c == ':' && rest.head?.any (fun d => d == '?' || isFlowMark d) then none
    else if (c == ':' && atWordEnd rest) || (inFlow && isFlowMark c) then some read
    else plainRun? inFlow (c :: read) rest

/-- A scalar that goes on after `gap`, with `read` read before it: its text in reverse, and
    whether a line ended last. Outside brackets its lines start at column `least` or later. -/
def readPlain (inFlow : Bool) (least : Nat) :
    Nat → List Char → Gap → Cursor → Option (List Char × Bool × Cursor)
  | 0, _, _, _ => none
  | fuel + 1, read, gap, cursor =>
    if cursor.atDocumentMark || cursor.startsWith '#' then some (read, gap.folded, cursor)
    else do
      let piece ← plainRun? inFlow [] cursor.rest
      let cursor := cursor.skip piece.length
      let (read, gap) :=
        if piece.isEmpty then (read, gap) else (piece ++ gap.text ++ read, Gap.empty)
      match cursor.rest with
      | [] => some (read, gap.folded, cursor)
      | c :: _ =>
        if isBlank c || isBreak c then
          let (gap, cursor) ← readGap least cursor.steps gap cursor
          if !inFlow && cursor.column < least then some (read, gap.folded, cursor)
          else readPlain inFlow least fuel read gap cursor
        else some (read, gap.folded, cursor)

end TypedClient.Yaml
