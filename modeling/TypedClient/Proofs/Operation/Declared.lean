/-
  TypedClient.Proofs.Operation.Declared

  Whether a name in the generated code has a declaration.  Operations carry the names that their
  calls answered, and fragments mention names of entries; but the call of a reference answers the
  name of a target that may not be there, and an entry may be without a fragment.  The names that
  dangle are those two kinds, and no others.
-/
import TypedClient.Proofs.Fragment.Absence
import TypedClient.Proofs.Operation.Requests

namespace TypedClient

open Registry (Request Adds)

variable {document : Json} {fuel : Nat} {registry : Registry} {spelling : Spelling}
  {declarations : List String} {name : String}

namespace Registry

/-! ## Declarations -/

/-- The declarations have that of the entry under the name. -/
def Declares (registry : Registry) (document : Json) (fuel : Nat) (spelling : Spelling)
    (declarations : List String) (name : String) : Prop :=
  ∃ entry, registry.get? name = some entry ∧ ∃ text ∈ declarations,
    registry.declare? document fuel spelling (name, entry) = some (some text)

/-- The entry under the name has no fragment. -/
def Blank (registry : Registry) (document : Json) (name : String) : Prop :=
  ∃ entry, registry.get? name = some entry ∧
    Vanishes registry document (Point.ofEntry (name, entry))

/-- A call answered the name of a reference that leads nowhere, and there is no entry under it. -/
def Astray (registry : Registry) (document : Json) (calls : List Request) (name : String) : Prop :=
  registry.has name = false ∧ ∃ request ∈ calls, ∃ reference,
    request.reference? = some reference ∧ Reference.name reference = name ∧
      Reference.resolve document reference = none

/-- The declaration of an entry mentions the name. -/
def Mentions (registry : Registry) (document : Json) (fuel : Nat) (name : String) : Prop :=
  ∃ entry ∈ registry.entries, ∃ fragment,
    registry.fragmentOf document fuel entry = some (some fragment) ∧ name ∈ fragment.names

/-- Rendering an entry answers for the point that its declaration is rendered from. -/
theorem fragmentOf_answers {entry : String × Entry} {result : Option Fragment}
    (h : registry.fragmentOf document fuel entry = some result) :
    Fragment.Answers registry document (Point.ofEntry entry) result :=
  (Fragment.ofNode_answers registry document fuel).1 _ _ _ _ h

/-- Every entry is declared that has a fragment. -/
theorem exists_fragmentOf (h : registry.declareAll document fuel spelling = some declarations)
    {entry : String × Entry} (hentry : entry ∈ registry.entries) :
    ∃ result, registry.fragmentOf document fuel entry = some result ∧
      ∀ fragment, result = some fragment →
        spelling.declaration (declarationOf spelling entry fragment) ∈ declarations := by
  unfold declareAll at h
  obtain ⟨texts, htexts, h⟩ := Option.bind_eq_some_iff.mp h
  obtain rfl := Option.some.inj h
  obtain ⟨text, htext, hdeclare⟩ := exists_of_forall₂_left (mapM_eq_some_iff.mp htexts) hentry
  obtain ⟨result, hresult, heq⟩ := Option.bind_eq_some_iff.mp hdeclare
  refine ⟨result, hresult, ?_⟩
  rintro fragment rfl
  obtain rfl := Option.some.inj heq
  exact Fragment.mem_filterMap_id.mpr htext

/-- A registered name is declared unless its entry has no fragment. -/
theorem declares_iff_not_blank
    (h : registry.declareAll document fuel spelling = some declarations)
    (hname : registry.has name = true) :
    registry.Declares document fuel spelling declarations name ↔
      ¬ registry.Blank document name := by
  constructor
  · rintro ⟨entry, hentry, text, -, hdeclare⟩ ⟨other, hother, hvanishes⟩
    obtain rfl := Option.some.inj (hentry.symm.trans hother)
    obtain ⟨result, hresult, heq⟩ := Option.bind_eq_some_iff.mp hdeclare
    have hnone : result = none := (fragmentOf_answers hresult).absent.mpr hvanishes
    rw [hnone] at heq
    cases heq
  · intro hblank
    obtain ⟨entry, hentry⟩ := has_iff_exists.mp hname
    obtain ⟨result, hresult, htext⟩ := exists_fragmentOf h (Keyed.mem_of_get? hentry)
    cases result with
    | none => exact absurd ⟨entry, hentry, (fragmentOf_answers hresult).absent.mp rfl⟩ hblank
    | some fragment =>
      refine ⟨entry, hentry, _, htext fragment rfl, ?_⟩
      unfold declare?
      rw [hresult]
      rfl

/-- A name that is declared has an entry. -/
theorem Declares.has (h : registry.Declares document fuel spelling declarations name) :
    registry.has name = true := by
  obtain ⟨entry, hentry, -⟩ := h
  exact has_iff_exists.mpr ⟨entry, hentry⟩

/-- A mentioned name has an entry. -/
theorem Mentions.has (h : registry.Mentions document fuel name) : registry.has name = true := by
  obtain ⟨entry, -, fragment, hfragment, hname⟩ := h
  exact (fragmentOf_answers hfragment).registered fragment name rfl hname

end Registry

namespace Operation

/-- Once a document has been read and its entries have been declared: a name that an operation
    carries has a declaration unless it went astray or its entry has no fragment, and a name that
    the declarations mention has one unless its entry has no fragment. -/
theorem declares_iff_not_astray_not_blank {operations : List Operation}
    (hextract : extractAll document fuel .empty = some (operations, registry))
    (hdeclare : registry.declareAll document fuel spelling = some declarations) :
    (∀ operation ∈ operations, ∀ name, operation.Carries name →
      (registry.Declares document fuel spelling declarations name ↔
        ¬ registry.Astray document (calls document) name ∧ ¬ registry.Blank document name)) ∧
    (∀ name, registry.Mentions document fuel name →
      (registry.Declares document fuel spelling declarations name ↔
        ¬ registry.Blank document name)) := by
  obtain ⟨hreads, hcalls⟩ := extractAll_reads hextract
  refine ⟨fun operation hoperation name hcarries => ?_, fun name hmentions => ?_⟩
  · obtain ⟨reading, hreading, hread⟩ := exists_of_forall₂_right hreads hoperation
    obtain ⟨request, hrequest, hanswer⟩ := hread.carried name hcarries
    have hcall : request ∈ calls document := List.mem_flatMap.mpr ⟨reading, hreading, hrequest⟩
    constructor
    · intro hdeclares
      refine ⟨fun hastray => ?_, (Registry.declares_iff_not_blank hdeclare hdeclares.has).mp
        hdeclares⟩
      have hmissing := hastray.1
      rw [hdeclares.has] at hmissing
      cases hmissing
    · rintro ⟨hastray, hblank⟩
      refine (Registry.declares_iff_not_blank hdeclare ?_).mpr hblank
      rcases (Registry.adds_of_addAll hcalls).has_answer hcall with hhas | ⟨reference, href, hnone⟩
      · exact hanswer ▸ hhas
      · by_contra hmissing
        rw [Bool.not_eq_true] at hmissing
        refine hastray ⟨hmissing, request, hcall, reference, href, ?_, hnone⟩
        rw [← hanswer, Request.answer, href]
  · exact Registry.declares_iff_not_blank hdeclare hmentions.has

/-! ### A declaration that is missing -/

/-- A document whose only named schema is a reference out of the document. The answer of its
    operation refers to that schema. -/
def borrowed : Json :=
  .obj [
    ("paths", .obj [("/things", .obj [("get", .obj [("responses", .obj [("200", .obj [("content",
      .obj [("application/json", .obj [("schema", .obj [("type", .str "object"), ("properties",
        .obj [("a", .obj [("$ref", .str "#/components/schemas/Thing")])])])])])])])])])]),
    ("components", .obj [("schemas", .obj [("Thing", .obj [("$ref", .str "other.yaml#/Thing")])])])]

/-- Names of the entries of a document, each with the names that its declaration mentions, if it
    has one. -/
def mentioned (document : Json) (fuel : Nat) (spelling : Spelling) :
    Option (List (String × Option (List String))) := do
  let (_, registry) ← extractAll document fuel .empty
  let _ ← registry.declareAll document fuel spelling
  registry.entries.mapM fun entry => do
    let fragment ← registry.fragmentOf document fuel entry
    some (entry.1, fragment.map Fragment.names)

/-- The answer of the operation mentions a name that has no declaration. -/
theorem borrowed_mentions_undeclared : ∃ operations registry declarations,
    extractAll borrowed 64 .empty = some (operations, registry) ∧
      registry.declareAll borrowed 64 PlainTypes.spelling = some declarations ∧
      registry.Mentions borrowed 64 "Thing" ∧
      ¬ registry.Declares borrowed 64 PlainTypes.spelling declarations "Thing" := by
  have hmentioned : mentioned borrowed 64 PlainTypes.spelling =
      some [("Thing", none), ("GetThings200", some ["Thing"])] := by decide +kernel
  obtain ⟨⟨operations, registry⟩, hextract, h⟩ := Option.bind_eq_some_iff.mp hmentioned
  obtain ⟨declarations, hdeclare, h⟩ := Option.bind_eq_some_iff.mp h
  have hentries := mapM_eq_some_iff.mp h
  generalize hall : registry.entries = entries at hentries
  -- The two entries, each with what it is rendered to.
  obtain _ | @⟨thing, _, _, _, hthing, _ | @⟨answer, _, _, _, hanswer, -⟩⟩ := hentries
  obtain ⟨result, hresult, heq⟩ := Option.bind_eq_some_iff.mp hanswer
  obtain ⟨missing, hmissing, hname⟩ := Option.bind_eq_some_iff.mp hthing
  obtain ⟨-, hresultNames⟩ := Prod.mk.inj (Option.some.inj heq)
  obtain ⟨fragment, rfl, hnames⟩ := Option.map_eq_some_iff.mp hresultNames
  obtain ⟨hthingName, hmissingNone⟩ := Prod.mk.inj (Option.some.inj hname)
  obtain rfl := Option.map_eq_none_iff.mp hmissingNone
  have hmentions : registry.Mentions borrowed 64 "Thing" := by
    refine ⟨answer, ?_, fragment, hresult, ?_⟩
    · rw [hall]
      exact List.mem_cons_of_mem _ (List.mem_cons_self ..)
    · rw [hnames]
      exact List.mem_singleton.mpr rfl
  have hblank : registry.Blank borrowed "Thing" := by
    have hanswers := Registry.fragmentOf_answers hmissing
    refine ⟨thing.2, ?_, hthingName ▸ hanswers.absent.mp rfl⟩
    unfold Registry.get?
    rw [hall, Keyed.get?_cons]
    exact if_pos hthingName.symm
  refine ⟨operations, registry, declarations, hextract, hdeclare, hmentions, fun hdeclares => ?_⟩
  exact ((declares_iff_not_astray_not_blank hextract hdeclare).2 _ hmentions).mp hdeclares hblank

end Operation
end TypedClient
