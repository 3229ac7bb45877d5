/-
  TypedClient.Proofs.Swagger.ParameterReferences

  References to the global parameters of a Swagger 2.0 document are read in two ways.  Conversion
  takes all that follows `#/parameters/` for one name, in which `~1` and `~0` are escapes.
  Everywhere else a reference is a pointer: it is split at slashes, and its segments are percent
  decoded before their escapes are read.  The two ways agree on a reference in every document just
  when there is nothing to split and nothing to decode in it.

  That the names differ otherwise is shown by a weight of texts.  Reading the escapes keeps it, and
  decoding lowers it unless it leaves the text as it is.
-/
import Mathlib.Algebra.GroupWithZero.Nat
import TypedClient.Proofs.Reference.Reading
import TypedClient.Proofs.Swagger.Upgraded

namespace TypedClient

namespace Reference

open Text (hexDigit? percentDecode percentDecodeBytes)

/-! ## Weights -/

/-- Weight of a byte: a zero weighs nothing, so that `~0` weighs as much as its tilde; a slash
    weighs as much as `~1`; and a percent sign weighs more than what it can be decoded to. -/
def byteWeight (byte : UInt8) : Nat :=
  if byte = 48 then 0 else if byte = 47 then 2 else if byte = 37 then 3 else 1

/-- Weight of bytes. -/
def bytesWeight (bytes : List UInt8) : Nat := (bytes.map byteWeight).sum

/-- Weight of a text: that of its bytes. -/
def weight (chars : List Char) : Nat := bytesWeight (chars.flatMap String.utf8EncodeChar)

theorem bytesWeight_cons (byte : UInt8) (bytes : List UInt8) :
    bytesWeight (byte :: bytes) = byteWeight byte + bytesWeight bytes := List.sum_cons

theorem weight_append (front back : List Char) :
    weight (front ++ back) = weight front + weight back := by
  simp [weight, bytesWeight]

theorem weight_cons (c : Char) (chars : List Char) :
    weight (c :: chars) = weight [c] + weight chars := weight_append [c] chars

theorem weight_toList (text : String) : weight text.toList = bytesWeight text.toUTF8.toList := by
  rw [weight, Text.toList_toUTF8]

/-- Two digits of no weight are zeros, and stand for no percent sign. -/
theorem byteWeight_lt_of_hexDigit? {high low highValue lowValue : UInt8}
    (hhigh : hexDigit? high = some highValue) (hlow : hexDigit? low = some lowValue) :
    byteWeight (highValue * 16 + lowValue) < 3 + byteWeight high + byteWeight low := by
  have hzero : ∀ byte value, hexDigit? byte = some value → byteWeight byte = 0 → value = 0 := by
    intro byte value hvalue hweight
    have hbyte : byte = 48 := by
      unfold byteWeight at hweight
      split at hweight
      · assumption
      · split at hweight
        · cases hweight
        · split at hweight <;> cases hweight
    subst hbyte
    exact (Option.some.inj hvalue).symm
  by_cases hpercent : highValue * 16 + lowValue = 37
  · have hsome : byteWeight high ≠ 0 ∨ byteWeight low ≠ 0 := by
      refine Decidable.byContradiction fun hnone => ?_
      obtain ⟨hhighZero, hlowZero⟩ := not_or.mp hnone
      rw [hzero _ _ hhigh (not_not.mp hhighZero), hzero _ _ hlow (not_not.mp hlowZero)] at hpercent
      exact absurd hpercent (by decide)
    rw [hpercent]
    have hthree : byteWeight 37 = 3 := rfl
    omega
  · have htwo : byteWeight (highValue * 16 + lowValue) ≤ 2 := by
      unfold byteWeight
      rw [if_neg hpercent]
      split
      · exact Nat.zero_le _
      · split <;> omega
    omega

/-- Decoding makes bytes lighter, or it does nothing. -/
theorem bytesWeight_percentDecodeBytes (bytes : List UInt8) :
    bytesWeight (percentDecodeBytes bytes) < bytesWeight bytes ∨
      percentDecodeBytes bytes = bytes := by
  fun_induction percentDecodeBytes bytes with
  | case1 => exact Or.inr rfl
  | case2 high low rest lowValue highValue hlow hhigh ih =>
    have hbyte := byteWeight_lt_of_hexDigit? hhigh hlow
    have hrest : bytesWeight (percentDecodeBytes rest) ≤ bytesWeight rest := by
      rcases ih with hlt | heq
      · exact hlt.le
      · rw [heq]
    have hthree : byteWeight 37 = 3 := rfl
    simp only [bytesWeight_cons, hthree]
    omega
  | case3 high low rest _ ih =>
    rw [bytesWeight_cons, bytesWeight_cons]
    rcases ih with hlt | heq
    · exact Or.inl (Nat.add_lt_add_left hlt _)
    · exact Or.inr (congrArg _ heq)
  | case4 byte rest _ ih =>
    rw [bytesWeight_cons, bytesWeight_cons]
    rcases ih with hlt | heq
    · exact Or.inl (Nat.add_lt_add_left hlt _)
    · exact Or.inr (congrArg _ heq)

/-- Decoding makes a text lighter, or it does nothing. -/
theorem weight_percentDecode (text : String) :
    weight (percentDecode text).toList < weight text.toList ∨ percentDecode text = text := by
  unfold percentDecode
  dsimp only
  cases hdecoded : String.fromUTF8?
      ⟨(percentDecodeBytes text.toUTF8.toList).toArray⟩ with
  | none => exact Or.inr rfl
  | some decoded =>
    have hbytes : decoded.toUTF8 = ⟨(percentDecodeBytes text.toUTF8.toList).toArray⟩ := by
      unfold String.fromUTF8? at hdecoded
      split at hdecoded
      · rw [← Option.some.inj hdecoded]
        rfl
      · cases hdecoded
    have hlist : decoded.toUTF8.toList = percentDecodeBytes text.toUTF8.toList := by
      rw [hbytes, Text.toList_eq_data]
    rw [Option.getD_some, weight_toList, weight_toList, hlist]
    refine (bytesWeight_percentDecodeBytes text.toUTF8.toList).imp_right fun heq => ?_
    have hsame : some decoded = some text := by
      rw [← Text.fromUTF8?_toUTF8 decoded, ← Text.fromUTF8?_toUTF8 text, hbytes, heq,
        Text.toList_eq_data]
    exact Option.some.inj hsame

/-- Reading the escapes keeps the weight. -/
theorem weight_unescapeToken (token : List Char) : weight (unescapeToken token) = weight token := by
  fun_induction unescapeToken token with
  | case1 rest ih =>
    have hpair : weight ['~'] + weight ['1'] = weight ['/'] := by decide
    rw [weight_cons, weight_cons '~', weight_cons '1', ih]
    omega
  | case2 rest ih =>
    have hzero : weight ['0'] = 0 := by decide
    rw [weight_cons, weight_cons '~' ('0' :: rest), weight_cons '0', ih]
    omega
  | case3 c rest _ _ ih => rw [weight_cons, weight_cons c rest, ih]
  | case4 => rfl

/-! ## Names and tokens -/

/-- The name that a token stands for when it is not split and not decoded. -/
def unescaped (token : String) : String := String.ofList (unescapeToken token.toList)

theorem weight_unescaped (token : String) :
    weight (unescaped token).toList = weight token.toList := by
  rw [unescaped, String.toList_ofList, weight_unescapeToken]

theorem decodeSegment_eq (segment : List Char) :
    decodeSegment segment = unescaped (percentDecode (String.ofList segment)) := rfl

/-- The text is read plainly: there is no slash to split it at, and decoding does nothing to it. -/
def IsPlainToken (token : String) : Prop := '/' ∉ token.toList ∧ percentDecode token = token

/-- A plain token stands for one name. -/
theorem IsPlainToken.segments_eq {token : String} (h : IsPlainToken token) :
    (splitSlashes token.toList).map decodeSegment = [unescaped token] := by
  rw [splitSlashes_of_not_mem h.1, List.map_singleton, decodeSegment_eq, String.ofList_toList, h.2]

/-- Of any other token the first segment stands for another name than the whole. -/
theorem exists_segments_of_not_plain {token : String} (h : ¬ IsPlainToken token) :
    ∃ first others, (splitSlashes token.toList).map decodeSegment = first :: others ∧
      first ≠ unescaped token := by
  obtain ⟨first, others, hsplit, htext, hslash⟩ := exists_segments token.toList
  refine ⟨decodeSegment first, others.map decodeSegment, by rw [hsplit, List.map_cons], ?_⟩
  intro heq
  have hsame : weight (percentDecode (String.ofList first)).toList = weight token.toList := by
    rw [← weight_unescaped, ← weight_unescaped token, ← decodeSegment_eq, heq]
  have hdecoded := weight_percentDecode (String.ofList first)
  rw [String.toList_ofList] at hdecoded
  cases others with
  | nil =>
    rw [List.flatMap_nil, List.append_nil] at htext
    have htoken : String.ofList first = token := by rw [← htext, String.ofList_toList]
    rw [htoken] at hdecoded hsame
    rw [← htext] at hdecoded
    refine h ⟨?_, ?_⟩
    · rw [htext]
      exact hslash first (List.mem_cons_self ..)
    · exact hdecoded.resolve_left (by omega)
  | cons second others =>
    -- The slash after the first segment weighs something.
    have hlonger : weight first < weight token.toList := by
      have hpositive : weight ['/'] = 2 := by decide
      rw [htext, List.flatMap_cons, List.cons_append, weight_append, weight_cons]
      omega
    rcases hdecoded with hlt | heq
    · omega
    · rw [heq, String.toList_ofList] at hsame
      omega

end Reference

namespace Swagger

open Reference (IsPlainToken unescaped)

/-! ## Two readers -/

/-- A document of version 2 without repeated keys, whose global parameters are a map of objects. -/
structure HasParameters (root parameters : Keyed Json) : Prop where
  version : isVersion2 (.obj root) = true
  distinct : (Json.obj root).Distinct
  section_eq : Keyed.get? "parameters" root = some (.obj parameters)
  objects : HoldsObjects parameters

section

variable {root parameters : Keyed Json} {token : String} {target : Json}

/-- The reference to a global parameter, as an element of a list of parameters. -/
def referenceTo (token : String) : Json := .obj [("$ref", .str (parameterPrefix ++ token))]

/-- Conversion looks up the text after the prefix as one name. -/
theorem resolve_referenceTo (context : Context) (token : String) :
    context.resolve (referenceTo token) =
      match Keyed.get? (unescaped token) context.parameters with
      | some target => .ok (target, some (parameterPrefix ++ token))
      | none => .error (.unresolvedParameter (parameterPrefix ++ token)) := by
  have hreference : textAt? "$ref" (referenceTo token) = some (parameterPrefix ++ token) := rfl
  have hparameter : context.parameter? (parameterPrefix ++ token) =
      Keyed.get? (unescaped token) context.parameters := by
    unfold Context.parameter?
    rw [afterStart?_append]
    rfl
  rw [Context.resolve, hreference]
  dsimp only
  cases hvalue : Keyed.get? (unescaped token) context.parameters with
  | none => simp only [hparameter, hvalue]
  | some target => simp only [hparameter, hvalue]

theorem HasParameters.parameters_eq (h : HasParameters root parameters) :
    (Context.of root).parameters = parameters := by
  show fieldsOf (Keyed.get? "parameters" root) = parameters
  rw [h.section_eq]
  rfl

/-- A pointer into the global parameters is followed segment by segment. -/
theorem HasParameters.resolve_eq (h : HasParameters root parameters) (token : String) :
    Reference.resolve (.obj root) (parameterPrefix ++ token) = Reference.follow (.obj parameters)
      ((Reference.splitSlashes token.toList).map Reference.decodeSegment) := by
  have hchars : (parameterPrefix ++ token).toList =
      '#' :: '/' :: ("parameters".toList ++ '/' :: token.toList) := by
    simp [parameterPrefix]
  have hinternal : Reference.isInternal (parameterPrefix ++ token) = true := by
    rw [Reference.isInternal, hchars]
    rfl
  have hdecode : Reference.decodeSegment "parameters".toList = "parameters" := by decide +kernel
  rw [Reference.resolve, if_pos hinternal, tokens_of_toList hchars,
    Reference.splitSlashes_append (by decide), List.map_cons, hdecode, Reference.follow,
    Reference.step, h.section_eq, Option.bind_some]

/-- Conversion finds a parameter for the reference in a document just when the reference leads to a
    value there, and finds that value. -/
def ReadAlike (root : Keyed Json) (token : String) : Prop :=
  ∀ target,
    (Context.of root).resolve (referenceTo token) = .ok (target, some (parameterPrefix ++ token)) ↔
      Reference.resolve (.obj root) (parameterPrefix ++ token) = some target

/-- The reference passes conversion though it leads nowhere. -/
def LetThrough (root : Keyed Json) (token : String) : Prop :=
  (∃ resolved, (Context.of root).resolve (referenceTo token) = .ok resolved) ∧
    Reference.resolve (.obj root) (parameterPrefix ++ token) = none

/-- Conversion refuses the reference though it leads to a value. -/
def Refused (root : Keyed Json) (token : String) : Prop :=
  (Context.of root).resolve (referenceTo token) =
      .error (.unresolvedParameter (parameterPrefix ++ token)) ∧
    ∃ target, Reference.resolve (.obj root) (parameterPrefix ++ token) = some target

theorem HasParameters.readAlike (h : HasParameters root parameters) (htoken : IsPlainToken token) :
    ReadAlike root token := by
  intro target
  rw [resolve_referenceTo, h.parameters_eq, h.resolve_eq, htoken.segments_eq]
  simp only [Reference.follow, Reference.step]
  cases Keyed.get? (unescaped token) parameters with
  | none => simp
  | some value => simp

theorem ReadAlike.not_letThrough (h : ReadAlike root token) : ¬ LetThrough root token := by
  rintro ⟨⟨⟨target, reference⟩, hresolved⟩, hnone⟩
  have hreference : reference = some (parameterPrefix ++ token) := by
    rw [resolve_referenceTo] at hresolved
    split at hresolved
    · exact (Prod.mk.inj (Except.ok.inj hresolved)).2.symm
    · cases hresolved
  rw [hreference, h, hnone] at hresolved
  cases hresolved

theorem ReadAlike.not_refused (h : ReadAlike root token) : ¬ Refused root token := by
  rintro ⟨hrefused, target, htarget⟩
  rw [← h, hrefused] at htarget
  cases htarget

/-! ## Documents that tell the readers apart -/

/-- An object under keys, one inside the other. -/
def nested : List String → Json
  | [] => .obj []
  | key :: keys => .obj [(key, nested keys)]

theorem nested_obj (keys : List String) : ∃ fields, nested keys = .obj fields := by
  cases keys with
  | nil => exact ⟨[], rfl⟩
  | cons key keys => exact ⟨_, rfl⟩

theorem distinct_nested (keys : List String) : (nested keys).Distinct := by
  induction keys with
  | nil => exact Json.distinct_nil
  | cons key keys ih => exact Json.distinct_nil.insert key ih

theorem follow_nested (keys : List String) :
    Reference.follow (nested keys) keys = some (.obj []) := by
  induction keys with
  | nil => rfl
  | cons key keys ih =>
    rw [nested, Reference.follow, Reference.step, Keyed.get?_singleton, if_pos rfl,
      Option.bind_some, ih]

/-- The document whose one global parameter is a nest of objects. -/
def nestDocument (key : String) (keys : List String) : Keyed Json :=
  [("swagger", .str "2.0"), ("parameters", .obj [(key, nested keys)])]

theorem hasParameters_nestDocument (key : String) (keys : List String) :
    HasParameters (nestDocument key keys) [(key, nested keys)] where
  version := rfl
  distinct := by
    have hparameters : (Json.obj [(key, nested keys)]).Distinct :=
      Json.distinct_nil.insert key (distinct_nested keys)
    exact (Json.distinct_nil.insert "swagger" (Json.distinct_str "2.0")).insert "parameters"
      hparameters
  section_eq := rfl
  objects := by
    intro field hfield
    rw [List.mem_singleton.mp hfield]
    exact nested_obj keys

/-- A token that is not plain is let through where its name as a whole is a key. -/
theorem exists_letThrough (h : ¬ IsPlainToken token) :
    ∃ root parameters, HasParameters root parameters ∧ LetThrough root token := by
  obtain ⟨first, others, hsegments, hne⟩ := Reference.exists_segments_of_not_plain h
  have hdocument := hasParameters_nestDocument (unescaped token) []
  refine ⟨_, _, hdocument, ?_, ?_⟩
  · refine ⟨(nested [], some (parameterPrefix ++ token)), ?_⟩
    rw [resolve_referenceTo, hdocument.parameters_eq, Keyed.get?_singleton, if_pos rfl]
  · rw [hdocument.resolve_eq, hsegments, Reference.follow, Reference.step, Keyed.get?_singleton,
      if_neg hne]
    rfl

/-- A token that is not plain is refused where its segments are keys inside each other. -/
theorem exists_refused (h : ¬ IsPlainToken token) :
    ∃ root parameters, HasParameters root parameters ∧ Refused root token := by
  obtain ⟨first, others, hsegments, hne⟩ := Reference.exists_segments_of_not_plain h
  have hdocument := hasParameters_nestDocument first others
  refine ⟨_, _, hdocument, ?_, .obj [], ?_⟩
  · rw [resolve_referenceTo, hdocument.parameters_eq, Keyed.get?_singleton, if_neg hne.symm]
  · rw [hdocument.resolve_eq, hsegments]
    exact follow_nested (first :: others)

end

/-- Which references to global parameters conversion reads as they are read everywhere else.  It
    reads a reference so in every document, with the same parameter found or none, if and only if
    the text after `#/parameters/` is plain: it has no slash, and percent decoding leaves it as it
    is.  Every other one is let through in some document where it leads nowhere, and in some
    document it is refused, and conversion given up, though it leads to a value. -/
theorem readAlike_iff_plain (token : String) :
    ((∀ root parameters, HasParameters root parameters → ReadAlike root token) ↔
      IsPlainToken token) ∧
    ((∃ root parameters, HasParameters root parameters ∧ LetThrough root token) ↔
      ¬ IsPlainToken token) ∧
    ((∃ root parameters, HasParameters root parameters ∧ Refused root token) ↔
      ¬ IsPlainToken token) := by
  have hplain : IsPlainToken token →
      ∀ root parameters, HasParameters root parameters → ReadAlike root token :=
    fun htoken _ _ h => h.readAlike htoken
  refine ⟨⟨fun hall => ?_, hplain⟩, ⟨?_, exists_letThrough⟩, ⟨?_, exists_refused⟩⟩
  · refine Classical.byContradiction fun htoken => ?_
    obtain ⟨root, parameters, h, hthrough⟩ := exists_letThrough htoken
    exact (hall root parameters h).not_letThrough hthrough
  · rintro ⟨root, parameters, h, hthrough⟩ htoken
    exact (hplain htoken root parameters h).not_letThrough hthrough
  · rintro ⟨root, parameters, h, hrefused⟩ htoken
    exact (hplain htoken root parameters h).not_refused hrefused

/-- A document with two global parameters: the name of one has a slash, of the other a blank. -/
def spelledParameters : Keyed Json := [
  ("a/b", .obj [("name", .str "limit"), ("in", .str "query")]),
  ("page size", .obj [("name", .str "size"), ("in", .str "query")])]

/-- The document of these parameters. -/
def spelledDocument : Keyed Json := [
  ("swagger", .str "2.0"), ("parameters", .obj spelledParameters)]

/-- In it the slash is read alike as `~1`; the blank is refused as `%20`. -/
theorem spelledDocument_reads :
    HasParameters spelledDocument spelledParameters ∧ ReadAlike spelledDocument "a~1b" ∧
      Refused spelledDocument "page%20size" ∧ LetThrough spelledDocument "a/b" ∧
      (∃ root parameters, HasParameters root parameters ∧ Refused root "a/b") := by
  have hdocument : HasParameters spelledDocument spelledParameters := by
    refine ⟨rfl, ?_, rfl, by simp [HoldsObjects, spelledParameters]⟩
    simp [spelledDocument, spelledParameters, Json.distinct_obj_iff, Keyed.keys, Json.distinct_str]
  obtain ⟨hplain, -, -⟩ := readAlike_iff_plain "a~1b"
  obtain ⟨-, -, hrefused⟩ := readAlike_iff_plain "a/b"
  have htoken : IsPlainToken "a~1b" := ⟨by decide, by decide +kernel⟩
  have hslash : ¬ IsPlainToken "a/b" := fun h => h.1 (by decide)
  have hblank : unescaped "page%20size" = "page%20size" := by decide +kernel
  have hdecoded : (Reference.splitSlashes "page%20size".toList).map Reference.decodeSegment =
      ["page size"] := by decide +kernel
  have hname : unescaped "a/b" = "a/b" := by decide +kernel
  have hsegments : (Reference.splitSlashes "a/b".toList).map Reference.decodeSegment =
      ["a", "b"] := by decide +kernel
  refine ⟨hdocument, hplain.mpr htoken _ _ hdocument, ⟨?_, ?_⟩, ⟨?_, ?_⟩, hrefused.mpr hslash⟩
  · rw [resolve_referenceTo, hdocument.parameters_eq, hblank]
    rfl
  · rw [hdocument.resolve_eq, hdecoded]
    exact ⟨_, rfl⟩
  · rw [resolve_referenceTo, hdocument.parameters_eq, hname]
    exact ⟨_, rfl⟩
  · rw [hdocument.resolve_eq, hsegments]
    rfl

end Swagger
end TypedClient
