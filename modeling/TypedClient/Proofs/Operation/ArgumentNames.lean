/-
  TypedClient.Proofs.Operation.ArgumentNames

  The names in the callables of a client.  The arguments are the parameters of the path and the
  options, and nothing keeps them apart from each other or from the words of the language; the
  member of an operation goes by its id, which nothing keeps apart from the member of the
  underlying client.  When they are apart can be told from what is written.
-/
import TypedClient.Client.Implementation
import TypedClient.Client.Interface
import TypedClient.Proofs.Operation.PathTemplate
import TypedClient.Proofs.Operation.UniqueIds

namespace TypedClient

/-! ## Parameters of a path -/

namespace PathPart

/-- What stands in the braces of a placeholder. -/
def Placeholder.spelling (placeholder : Placeholder) : String := String.ofList placeholder.name

variable {index : Nat} {placeholder : Placeholder} {placeholders : List Placeholder}

/-- A name with a letter is in camel case. -/
theorem parameterName_of_hasLetter (h : Text.hasLetter placeholder.spelling = true) :
    parameterName index placeholder.name = Text.camelize placeholder.spelling := by
  have hname : Text.camelize (String.ofList placeholder.name) ≠ "" :=
    Text.ne_empty_of_isIdentifier ((Text.isIdentifier_camelize _).trans h)
  exact if_neg (by simpa using hname)

/-- A name without a letter is a number. -/
theorem parameterName_of_not_hasLetter (h : Text.hasLetter placeholder.spelling = false) :
    parameterName index placeholder.name = "param" ++ toString index := by
  have hname : Text.camelize (String.ofList placeholder.name) = "" :=
    Text.camelize_of_not_hasLetter h
  exact if_pos (by simpa using hname)

theorem getElem?_placeholderNames (start index : Nat) (placeholders : List Placeholder) :
    (placeholderNames start placeholders)[index]? =
      placeholders[index]?.map fun placeholder =>
        parameterName (start + index) placeholder.name := by
  induction placeholders generalizing start index with
  | nil => rfl
  | cons placeholder placeholders ih =>
    cases index with
    | zero => rfl
    | succ index =>
      rw [placeholderNames, List.getElem?_cons_succ, List.getElem?_cons_succ, ih,
        Nat.add_right_comm start 1 index, Nat.add_assoc]

/-- A placeholder with a letter gives its name to a parameter. -/
theorem camelize_mem_placeholderNames (hmem : placeholder ∈ placeholders)
    (hletter : Text.hasLetter placeholder.spelling = true) :
    Text.camelize placeholder.spelling ∈ placeholderNames 0 placeholders := by
  obtain ⟨index, hindex⟩ := List.mem_iff_getElem?.mp hmem
  refine List.mem_iff_getElem?.mpr ⟨index, ?_⟩
  rw [getElem?_placeholderNames, hindex, Option.map_some, parameterName_of_hasLetter hletter]

/-- A parameter has its name from a placeholder with a letter, or is a number. -/
theorem mem_placeholderNames_cases {name : String} (h : name ∈ placeholderNames 0 placeholders) :
    (∃ placeholder ∈ placeholders, name = Text.camelize placeholder.spelling) ∨
      ∃ index : Nat, name = "param" ++ toString index := by
  obtain ⟨index, hindex⟩ := List.mem_iff_getElem?.mp h
  rw [getElem?_placeholderNames] at hindex
  obtain ⟨placeholder, hplaceholder, rfl⟩ := Option.map_eq_some_iff.mp hindex
  cases hletter : Text.hasLetter placeholder.spelling with
  | true =>
    rw [parameterName_of_hasLetter hletter]
    exact Or.inl ⟨placeholder, List.mem_of_getElem? hplaceholder, rfl⟩
  | false => exact Or.inr ⟨_, parameterName_of_not_hasLetter hletter⟩

end PathPart

namespace Client

open PathPart (Placeholder Placeholders)

/-! ## Clashes -/

/-- The words that the generated language keeps for itself, in the code of a module. -/
def reservedWords : List String :=
  ["await", "break", "case", "catch", "class", "const", "continue", "debugger", "default", "delete",
    "do", "else", "enum", "export", "extends", "false", "finally", "for", "function", "if",
    "implements", "import", "in", "instanceof", "interface", "let", "new", "null", "package",
    "private", "protected", "public", "return", "static", "super", "switch", "this", "throw",
    "true", "try", "typeof", "var", "void", "while", "with", "yield"]

/-- The arguments of a callable have names of their own, that the language does not keep for
    itself. -/
structure ArgumentsApart (operation : Operation) : Prop where
  distinct : (callableArguments operation).Nodup
  unreserved : ∀ argument ∈ callableArguments operation, argument ∉ reservedWords

/-- A signature has the arguments of the callable. -/
theorem names_signatureArguments (words : Words) (operation : Operation) :
    (signatureArguments words operation).map (·.name) = callableArguments operation := by
  have hoptions : (optionsType? words operation).isSome = operation.hasOptions := by
    unfold optionsType? Operation.hasOptions
    cases operation.params <;> cases operation.payload <;> rfl
  unfold signatureArguments callableArguments
  rw [← hoptions, List.map_append, List.map_map, Function.comp_def, List.map_id']
  cases optionsType? words operation <;> rfl

/-- Arguments of a callable clash because of what the placeholders of its path are called. -/
inductive ArgumentsClash (placeholders : List Placeholder) (hasOptions : Bool) : Prop
  /-- Two placeholders have one name in camel case. -/
  | repeated {i j : Nat} {first second : Placeholder} (differ : i ≠ j)
      (atFirst : placeholders[i]? = some first) (atSecond : placeholders[j]? = some second)
      (letter : Text.hasLetter first.spelling = true)
      (same : Text.camelize first.spelling = Text.camelize second.spelling)
  /-- A placeholder has the name that another one without a letter gets for its number. -/
  | numbered {i : Nat} {first second : Placeholder} (atFirst : placeholders[i]? = some first)
      (mem : second ∈ placeholders) (letterless : Text.hasLetter first.spelling = false)
      (same : Text.camelize second.spelling = "param" ++ toString i)
  /-- A placeholder has the name of the options, and there are options. -/
  | options {placeholder : Placeholder} (takes : hasOptions = true)
      (mem : placeholder ∈ placeholders) (same : Text.camelize placeholder.spelling = "options")
  /-- A placeholder has the name of a word of the language. -/
  | reserved {placeholder : Placeholder} (mem : placeholder ∈ placeholders)
      (word : Text.camelize placeholder.spelling ∈ reservedWords)

variable {placeholders : List Placeholder} {operation : Operation}

/-- A text that does not start like the name for a number is none. -/
theorem param_append_ne {word : String} (h : "param".toList.isPrefixOf word.toList = false)
    (number : String) : "param" ++ number ≠ word := by
  rintro rfl
  rw [String.toList_append] at h
  have hstarts : "param".toList.isPrefixOf ("param".toList ++ number.toList) = true :=
    List.isPrefixOf_iff_prefix.mpr (List.prefix_append ..)
  rw [hstarts] at h
  cases h

/-- A placeholder whose name in camel case is not empty has a letter. -/
theorem hasLetter_of_camelize {spelling : String} (h : Text.camelize spelling ≠ "") :
    Text.hasLetter spelling = true := by
  by_contra hletter
  exact h (Text.camelize_of_not_hasLetter (Bool.not_eq_true _ ▸ hletter))

section

variable (hids : operation.pathIds = PathPart.placeholderNames 0 placeholders)
include hids

/-- Two parameters that have one name clash. -/
theorem clash_of_same {i j : Nat} (hlt : i < j) {name : String}
    (hfirst : operation.pathIds[i]? = some name) (hsecond : operation.pathIds[j]? = some name) :
    ArgumentsClash placeholders operation.hasOptions := by
  rw [hids, PathPart.getElem?_placeholderNames, Nat.zero_add] at hfirst hsecond
  obtain ⟨first, atFirst, rfl⟩ := Option.map_eq_some_iff.mp hfirst
  obtain ⟨second, atSecond, hsame⟩ := Option.map_eq_some_iff.mp hsecond
  have hmemFirst := List.mem_of_getElem? atFirst
  have hmemSecond := List.mem_of_getElem? atSecond
  cases hletter : Text.hasLetter first.spelling with
  | true =>
    rw [PathPart.parameterName_of_hasLetter hletter] at hsame
    cases hletter' : Text.hasLetter second.spelling with
    | true =>
      rw [PathPart.parameterName_of_hasLetter hletter'] at hsame
      exact .repeated (Nat.ne_of_lt hlt) atFirst atSecond hletter hsame.symm
    | false =>
      rw [PathPart.parameterName_of_not_hasLetter hletter'] at hsame
      exact .numbered atSecond hmemFirst hletter' hsame.symm
  | false =>
    rw [PathPart.parameterName_of_not_hasLetter hletter] at hsame
    cases hletter' : Text.hasLetter second.spelling with
    | true =>
      rw [PathPart.parameterName_of_hasLetter hletter'] at hsame
      exact .numbered atFirst hmemSecond hletter hsame
    | false =>
      -- The numbers of two placeholders differ.
      rw [PathPart.parameterName_of_not_hasLetter hletter'] at hsame
      exact absurd (Operation.numbered_injective "param" hsame).symm (Nat.ne_of_lt hlt)

/-- A parameter with the name of a word that starts unlike a number has it from a placeholder. -/
theorem exists_placeholder_of_mem {word : String} (hmem : word ∈ operation.pathIds)
    (hword : "param".toList.isPrefixOf word.toList = false) :
    ∃ placeholder ∈ placeholders, Text.camelize placeholder.spelling = word := by
  rw [hids] at hmem
  rcases PathPart.mem_placeholderNames_cases hmem with ⟨placeholder, hplaceholder, rfl⟩ | ⟨i, rfl⟩
  · exact ⟨placeholder, hplaceholder, rfl⟩
  · exact absurd rfl (param_append_ne hword (toString i))

theorem argumentsApart_of_not_clash (h : ¬ ArgumentsClash placeholders operation.hasOptions) :
    ArgumentsApart operation where
  distinct := by
    unfold callableArguments
    refine List.nodup_append.mpr ⟨?_, ?_, ?_⟩
    · refine List.nodup_iff_getElem?_ne_getElem?.mpr fun i j hlt hj heq => ?_
      have hsecond := List.getElem?_eq_getElem hj
      exact h (clash_of_same hids hlt (heq.trans hsecond) hsecond)
    · split
      · exact List.nodup_singleton _
      · exact List.nodup_nil
    · intro name hname other hother heq
      subst heq
      split at hother
      · next htakes =>
        rw [List.mem_singleton] at hother
        subst hother
        obtain ⟨placeholder, hmem, hsame⟩ :=
          exists_placeholder_of_mem hids hname (by decide +kernel)
        exact h (.options htakes hmem hsame)
      · cases hother
  unreserved := by
    have hnumbers : ∀ word ∈ reservedWords, "param".toList.isPrefixOf word.toList = false := by
      decide +kernel
    intro argument hargument hword
    rcases List.mem_append.mp hargument with hname | hoptions
    · obtain ⟨placeholder, hmem, hsame⟩ :=
        exists_placeholder_of_mem hids hname (hnumbers argument hword)
      exact h (.reserved hmem (hsame ▸ hword))
    · split at hoptions
      · rw [List.mem_singleton.mp hoptions] at hword
        exact absurd hword (by decide +kernel)
      · cases hoptions

theorem ArgumentsApart.not_clash (h : ArgumentsApart operation) :
    ¬ ArgumentsClash placeholders operation.hasOptions := by
  have hnames : operation.pathIds.Nodup := (List.nodup_append.mp h.distinct).1
  have hat : ∀ i placeholder, placeholders[i]? = some placeholder →
      operation.pathIds[i]? = some (PathPart.parameterName i placeholder.name) := by
    intro i placeholder hplaceholder
    rw [hids, PathPart.getElem?_placeholderNames, hplaceholder, Nat.zero_add]
    rfl
  have hpositions : ∀ (i j : Nat) (name : String), operation.pathIds[i]? = some name →
      operation.pathIds[j]? = some name → i = j := by
    intro i j name hi hj
    have hlt : i < operation.pathIds.length := (List.getElem?_eq_some_iff.mp hi).1
    exact (List.getElem?_inj hlt hnames).mp (hi.trans hj.symm)
  intro hclash
  cases hclash with
  | @repeated i j first second differ atFirst atSecond letter same =>
    have hletter : Text.hasLetter second.spelling = true := by
      rw [← Text.isIdentifier_camelize, ← same, Text.isIdentifier_camelize, letter]
    have hfirst := hat i first atFirst
    have hsecond := hat j second atSecond
    rw [PathPart.parameterName_of_hasLetter letter] at hfirst
    rw [PathPart.parameterName_of_hasLetter hletter, ← same] at hsecond
    exact differ (hpositions i j _ hfirst hsecond)
  | @numbered i first second atFirst mem letterless same =>
    obtain ⟨j, atSecond⟩ := List.mem_iff_getElem?.mp mem
    have hletter : Text.hasLetter second.spelling = true :=
      hasLetter_of_camelize (same ▸ param_append_ne rfl (toString i))
    have hfirst := hat i first atFirst
    have hsecond := hat j second atSecond
    rw [PathPart.parameterName_of_not_hasLetter letterless] at hfirst
    rw [PathPart.parameterName_of_hasLetter hletter, same] at hsecond
    -- One placeholder cannot both have a letter and have none.
    rw [hpositions i j _ hfirst hsecond, atSecond] at atFirst
    rw [Option.some.inj atFirst, letterless] at hletter
    cases hletter
  | @options placeholder takes mem same =>
    have hletter : Text.hasLetter placeholder.spelling = true :=
      hasLetter_of_camelize (same ▸ by decide)
    have hname := PathPart.camelize_mem_placeholderNames mem hletter
    rw [same, ← hids] at hname
    have hdistinct := h.distinct
    unfold callableArguments at hdistinct
    rw [if_pos takes] at hdistinct
    exact (List.nodup_append.mp hdistinct).2.2 _ hname _ (List.mem_singleton.mpr rfl) rfl
  | @reserved placeholder mem word =>
    have hletter : Text.hasLetter placeholder.spelling = true := by
      refine hasLetter_of_camelize fun hempty => ?_
      rw [hempty] at word
      exact absurd word (by decide)
    have hname := PathPart.camelize_mem_placeholderNames mem hletter
    rw [← hids] at hname
    exact h.unreserved _ (List.mem_append_left _ hname) word

end

/-! ## Callables of a document -/

open Operation (Written Reading written readings extractAll baseId)

variable {document : Json} {fuel : Nat} {start registry : Registry} {operations : List Operation}

/-- A text that does not end in a digit does not end in a number. -/
theorem append_number_ne {word : String} (h : word.toList.getLast?.any Char.isDigit = false)
    (base : String) (n : Nat) : base ++ toString n ≠ word := by
  rintro rfl
  have hne : (toString n).toList ≠ [] := by
    rw [Nat.toString_eq_ofList_toDigits, String.toList_ofList]
    exact Nat.toDigits_ne_nil
  have hdigit := List.all_eq_true.mp (Text.all_isDigit_toString n) _ (List.getLast_mem hne)
  rw [String.toList_append, List.getLast?_append, List.getLast?_eq_getLast_of_ne_nil hne,
    Option.some_or, Option.any_some, hdigit] at h
  cases h

/-- An operation has the member of the underlying client when it has an id of its own that becomes
    that name: an id made of a method starts with a capital. -/
theorem baseId_eq_httpClient_iff {first : Written} : baseId first = "httpClient" ↔
    ∃ id, first.raw.operationId.bind Text.nonEmpty? = some id ∧
      Text.camelize id = "httpClient" := by
  unfold Operation.baseId Operation.baseIds
  cases first.raw.operationId.bind Text.nonEmpty? with
  | some id => simp
  | none =>
    simp only [reduceCtorEq, false_and, exists_false, iff_false]
    intro h
    have hchars := congrArg (fun text => text.toList.head?) h
    rw [String.toList_append] at hchars
    cases hmethod : first.method <;> rw [hmethod] at hchars <;> cases hchars

/-- The parameters of an operation are those of the path that it is written under. -/
theorem pathIds_of_extracts {reading : Reading} {operation : Operation}
    (h : Operation.Extracts document fuel reading operation) : operation.pathIds =
      (PathPart.ofPath reading.written.path).filterMap PathPart.parameter? := by
  obtain ⟨taken, before, after, -, hextract⟩ := h
  obtain ⟨params, first, payload, second, responses, -, -, -, rfl⟩ :=
    Operation.extract_cases hextract
  rfl

/-- The member of the underlying client is taken just when an operation starts with its name: the
    name does not end in a number that would have been added. -/
theorem httpClient_mem_readings_iff : "httpClient" ∈ (readings document).map (·.id) ↔
    ∃ first ∈ written document, baseId first = "httpClient" := by
  constructor
  · intro hmem
    obtain ⟨base, hbase, hnumbered⟩ :=
      exists_of_forall₂_right (Operation.numbered_readFrom [] (written document)) hmem
    obtain ⟨first, hfirst, rfl⟩ := List.mem_map.mp hbase
    rcases hnumbered with hsame | ⟨n, -, hsame⟩
    · exact ⟨first, hfirst, hsame.symm⟩
    · exact absurd hsame.symm (append_number_ne (by decide +kernel) _ n)
  · rintro ⟨first, hfirst, hbase⟩
    exact hbase ▸ Operation.baseId_mem_readFrom [] hfirst

/-- The names in the callables of a client are apart just when what they are made of is.  For every
    operation, the arguments of its callable differ pairwise and are no words of the language just
    when no placeholders of its path clash; and an operation takes the place of the underlying
    client just when some operation has an id that becomes its name. -/
theorem callableNames_apart_iff
    (h : extractAll document fuel start = some (operations, registry)) :
    List.Forall₂ (fun written operation => ∀ placeholders last,
        Placeholders written.path.toList placeholders last →
        (ArgumentsApart operation ↔ ¬ ArgumentsClash placeholders operation.hasOptions))
      (written document) operations ∧
    ("httpClient" ∈ operations.map (·.id) ↔ ∃ first ∈ written document, ∃ id,
      first.raw.operationId.bind Text.nonEmpty? = some id ∧ Text.camelize id = "httpClient") := by
  obtain ⟨hextracts, -⟩ := Operation.extractAll_extracts h
  constructor
  · have hwritten : (readings document).map (·.written) = written document :=
      Operation.map_written_readFrom [] (written document)
    rw [← hwritten, List.forall₂_map_left_iff]
    refine hextracts.imp fun reading operation hextract placeholders last hpath => ?_
    have hids := pathIds_of_extracts hextract
    rw [PathPart.ofPath_eq_partsFrom hpath, PathPart.filterMap_partsFrom] at hids
    exact ⟨fun hapart => hapart.not_clash hids, argumentsApart_of_not_clash hids⟩
  · rw [Operation.map_id_of_extracts hextracts, httpClient_mem_readings_iff]
    exact exists_congr fun first => and_congr_right fun _ => baseId_eq_httpClient_iff

/-! ### Placeholders that differ in a hyphen -/

/-- A path with two placeholders of one name in camel case. -/
def hyphenatedPath : String := "/a/\x7bpet-id\x7d/b/\x7bpetId\x7d"

def hyphenatedPlaceholders : List Placeholder :=
  [⟨"/a/".toList, "pet-id".toList⟩, ⟨"/b/".toList, "petId".toList⟩]

theorem placeholders_hyphenatedPath :
    Placeholders hyphenatedPath.toList hyphenatedPlaceholders [] := by
  refine .next ⟨"/a/".toList, "pet-id".toList⟩ (by decide +kernel) (by decide +kernel)
    (.next ⟨"/b/".toList, "petId".toList⟩ (by decide +kernel) (by decide +kernel) (.last ?_))
  intro before after hnothing
  simp at hnothing

/-- A document with an operation at the path. -/
def hyphenated : Json := .obj [("paths", .obj [(hyphenatedPath, .obj [("get", .obj [])])])]

/-- Both arguments of the callable have one name. -/
theorem hyphenated_clashes : ∃ operation registry,
    extractAll hyphenated 8 .empty = some ([operation], registry) ∧
    callableArguments operation = ["petId", "petId"] ∧
    ArgumentsClash hyphenatedPlaceholders operation.hasOptions ∧ ¬ ArgumentsApart operation := by
  have hends : (extractAll hyphenated 8 .empty).map
      (fun result => result.1.map fun operation => callableArguments operation) =
        some [["petId", "petId"]] := by decide +kernel
  obtain ⟨⟨operations, registry⟩, h, hnames⟩ := Option.map_eq_some_iff.mp hends
  obtain ⟨operation, rfl, harguments⟩ := List.map_eq_singleton_iff.mp hnames
  have hclash : ArgumentsClash hyphenatedPlaceholders operation.hasOptions :=
    .repeated Nat.zero_ne_one rfl rfl (by decide +kernel) (by decide +kernel)
  refine ⟨operation, registry, h, harguments, hclash, fun hapart => ?_⟩
  -- The only operation that is written is at the path with these placeholders.
  obtain ⟨hwritten, -⟩ := callableNames_apart_iff h
  obtain ⟨first, rest, hapart_iff, -, heq⟩ := List.forall₂_cons_right_iff.mp hwritten
  have hpaths : (written hyphenated).map (·.path) = [hyphenatedPath] := by decide +kernel
  rw [heq] at hpaths
  have hpath : first.path = hyphenatedPath := (List.cons.inj hpaths).1
  exact (hapart_iff _ _ (hpath ▸ placeholders_hyphenatedPath)).mp hapart hclash

end Client
end TypedClient
