/-
  TypedClient.Source.Address

  Hosts of web addresses: names in small letters, with labels beyond ASCII in their ASCII form,
  and the two kinds of numeric addresses in their usual spelling.
-/
import TypedClient.Text.Digits
import TypedClient.Text.Percent
import TypedClient.Text.Uppercase

namespace TypedClient.Source.Address

/-! ## Numeric addresses of four bytes -/

/-- A number with its base told by its start: `0x`, `0`, or neither. -/
def number? : List Char → Option Nat
  | [] => none
  | '0' :: 'x' :: digits => Text.numberIn? 16 digits
  | '0' :: 'X' :: digits => Text.numberIn? 16 digits
  | ['0'] => some 0
  | '0' :: digits => Text.numberIn? 8 digits
  | digits => Text.numberIn? 10 digits

/-- The labels of a name, without the empty one after a final dot. -/
def labels (name : String) : List String :=
  let parts := name.splitOn "."
  match parts.reverse with
  | "" :: (rest@(_ :: _)) => rest.reverse
  | _ => parts

/-- Does the last label have to be read as a number? -/
def endsInNumber (name : String) : Bool :=
  match (labels name).getLast? with
  | none => false
  | some label =>
    let chars := label.toList
    (!chars.isEmpty && chars.all Char.isDigit) ||
      ((chars.take 2 == ['0', 'x'] || chars.take 2 == ['0', 'X']) && (number? chars).isSome)

/-- The address that at most four numbers name; the last one fills the bytes that are left. -/
def ofNumbers? (numbers : List Nat) : Option Nat :=
  match numbers.reverse with
  | [] => none
  | last :: others =>
    if 3 < others.length || others.any (255 < ·) || Nat.pow 256 (4 - others.length) ≤ last then none
    else
      let leading := others.reverse.zipIdx.foldl (fun sum (n, i) => sum + n * Nat.pow 256 (3 - i)) 0
      some (leading + last)

/-- A four-byte address in its usual spelling. -/
def renderFour (address : Nat) : String :=
  ".".intercalate ([3, 2, 1, 0].map fun place => toString (address / Nat.pow 256 place % 256))

/-- The four-byte address that a name spells. -/
def fourBytes? (name : String) : Option String := do
  let numbers ← (labels name).mapM fun label => number? label.toList
  (ofNumbers? numbers).map renderFour

/-! ## Numeric addresses of eight groups -/

/-- A group of one to four hexadecimal digits. -/
def group? (text : String) : Option Nat :=
  if text.isEmpty || 4 < text.length then none else Text.numberIn? 16 text.toList

/-- A byte in decimal, without a leading zero. -/
def byte? (text : String) : Option Nat :=
  let chars := text.toList
  if chars.isEmpty || 3 < chars.length || (1 < chars.length && chars.head? == some '0') then none
  else (Text.numberIn? 10 chars).filter (· ≤ 255)

/-- The groups of a list of texts, the last of which may be a four-byte address. -/
def groups? (texts : List String) : Option (List Nat) :=
  match texts.reverse with
  | [] => some []
  | last :: others => do
    let leading ← others.reverse.mapM group?
    if last.toList.contains '.' then
      match ← (last.splitOn ".").mapM byte? with
      | [a, b, c, d] => some (leading ++ [a * 256 + b, c * 256 + d])
      | _ => none
    else some (leading ++ [← group? last])

/-- Groups between colons; none when the text is empty. -/
def groupsOf? (text : String) : Option (List Nat) :=
  if text.isEmpty then some [] else groups? (text.splitOn ":")

/-- The eight groups that a text spells; two colons in a row stand for groups of zero. -/
def eightGroups? (text : String) : Option (List Nat) :=
  match text.splitOn "::" with
  | [all] => (groupsOf? all).filter (·.length == 8)
  | [before, after] => do
    if before.toList.contains '.' then none
    else
      let front ← groupsOf? before
      let back ← groupsOf? after
      if 7 < front.length + back.length then none
      else some (front ++ List.replicate (8 - front.length - back.length) 0 ++ back)
  | _ => none

/-- Length of the run of zeros at the start of a list. -/
def zeroRun (groups : List Nat) : Nat := (groups.takeWhile (· == 0)).length

/-- Start and length of the first longest run of two or more zeros. -/
def longestZeros? (groups : List Nat) : Option (Nat × Nat) :=
  let runs := (List.range groups.length).map fun start => (start, zeroRun (groups.drop start))
  let longest := runs.foldl (fun most run => max most run.2) 0
  if longest < 2 then none else runs.find? (·.2 == longest)

/-- A group in small hexadecimal digits. -/
def renderGroup (group : Nat) : String := String.ofList (Nat.toDigits 16 group)

/-- An address of eight groups in its usual spelling. -/
def renderEight (groups : List Nat) : String :=
  let join (groups : List Nat) : String := ":".intercalate (groups.map renderGroup)
  match longestZeros? groups with
  | none => join groups
  | some (start, count) => join (groups.take start) ++ "::" ++ join (groups.drop (start + count))

/-! ## Names -/

/-- Small letter of a character of any script, where it has one. -/
def smallLetter (c : Char) : Char :=
  if c.toNat < 0x80 then c.toLower
  else
    let small? := Text.uppercaseRuns.findSome? fun run =>
      let code := ((c.toNat : Int) - run.offset).toNat
      if run.covers code && code != c.toNat && 0x80 ≤ code then some code else none
    match small? with
    | some code => Char.ofNat code
    | none => c

/-- Digit of the ASCII form of a label. -/
def labelDigit (value : Nat) : Char :=
  Char.ofNat (if value < 26 then 97 + value else 22 + value)

/-- Shrinks a difference until it is small, adding to the bias in each step. -/
def shrinkToBias (fuel delta bias : Nat) : Nat :=
  match fuel with
  | 0 => bias
  | fuel + 1 =>
    if 455 < delta then shrinkToBias fuel (delta / 35) (bias + 36)
    else bias + 36 * delta / (delta + 38)

/-- The bias after a difference has been written. -/
def adaptBias (delta points : Nat) (first : Bool) : Nat :=
  let delta := if first then delta / 700 else delta / 2
  shrinkToBias 64 (delta + delta / points) 0

/-- Digits of a difference under a bias. -/
def differenceDigits (fuel value k bias : Nat) : List Char :=
  match fuel with
  | 0 => []
  | fuel + 1 =>
    let threshold := if k ≤ bias then 1 else if bias + 26 ≤ k then 26 else k - bias
    if value < threshold then [labelDigit value]
    else
      let rest := value - threshold
      labelDigit (threshold + rest % (36 - threshold)) ::
        differenceDigits fuel (rest / (36 - threshold)) (k + 36) bias

/-- State of writing a label: the digits so far, the difference, the bias, and how many characters
    have been written. -/
structure LabelState where
  digits : List Char
  delta : Nat
  bias : Nat
  written : Nat

/-- Writes every occurrence of one code point; smaller ones have been written. -/
def writePoint (codes : List Nat) (basic : Nat) (state : LabelState) (code : Nat) : LabelState :=
  let state := codes.foldl (fun state other =>
    if other < code then { state with delta := state.delta + 1 }
    else if other == code then
      { digits := state.digits ++ differenceDigits 64 state.delta 36 state.bias
        delta := 0
        bias := adaptBias state.delta (state.written + 1) (state.written == basic)
        written := state.written + 1 }
    else state) state
  { state with delta := state.delta + 1 }

/-- The ASCII form of a label. -/
def asciiLabel (label : String) : String :=
  let codes := label.toList.map Char.toNat
  if codes.all (· < 0x80) then label
  else
    -- ASCII characters come first as they are; the others are told by differences between their
    -- places, from the smallest code point up.
    let basic := codes.filter (· < 0x80)
    let points := ((codes.filter (0x80 ≤ ·)).mergeSort (· ≤ ·)).foldl
      (fun seen code => if seen.contains code then seen else seen ++ [code]) []
    let start : List Char := basic.map Char.ofNat ++ if basic.isEmpty then [] else ['-']
    let (state, _) := points.foldl (fun (state, previous) code =>
      let skipped := (code - previous) * (state.written + 1)
      (writePoint codes basic.length { state with delta := state.delta + skipped } code, code + 1))
      (⟨start, 0, 72, basic.length⟩, 0x80)
    "xn--" ++ String.ofList state.digits

/-- Characters that no name holds. -/
def isForbidden (c : Char) : Bool :=
  c.toNat ≤ 32 || c.toNat == 127 || "#/:<>?@[\\]^|%".toList.contains c

/-- A host in its usual spelling; nothing when it is not one. -/
def host? (text : String) : Option String :=
  match text.toList with
  | '[' :: rest =>
    match rest.reverse with
    | ']' :: inner =>
      (eightGroups? (String.ofList inner.reverse)).map fun groups => "[" ++ renderEight groups ++ "]"
    | _ => none
  | _ =>
    let small := (Text.percentDecode text).map fun c =>
      if c.toNat == 0x3002 then '.' else smallLetter c
    let name := ".".intercalate ((small.splitOn ".").map asciiLabel)
    if name.isEmpty || name.toList.any isForbidden then none
    else if endsInNumber name then fourBytes? name
    else some name

end TypedClient.Source.Address
