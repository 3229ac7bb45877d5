/-
  TypedClient.Proofs.Swagger.Acceptance

  Which documents are converted.  Conversion is refused from four nested levels: the document, its
  path items, their operations, and the parameters that apply to an operation.  What each level
  accepts is said here of the document alone, and the steps of the conversion succeed on just that.
-/
import TypedClient.Proofs.Override
import TypedClient.Proofs.Schema.Distinct
import TypedClient.Proofs.Swagger.Sections

namespace TypedClient
namespace Swagger

/-! ## Steps that can fail -/

section

variable {ε α β : Type} {f : α → Except ε β} {items : List α}

/-- Two steps give a result when the first one does, and the second one from what it gave. -/
theorem bind_eq_ok_iff {first : Except ε α} {result : β} :
    (first >>= f) = .ok result ↔ ∃ value, first = .ok value ∧ f value = .ok result := by
  cases first <;> simp [bind, Except.bind]

/-- A refusal is no result. -/
theorem refused_iff {error : ε} {accepted : Prop} (h : ¬ accepted) :
    (∃ result, (.error error : Except ε α) = .ok result) ↔ accepted :=
  iff_of_false (fun ⟨_, hresult⟩ => by cases hresult) h

/-- A step for each item gives the results item by item. -/
theorem mapM_eq_ok_iff {results : List β} :
    items.mapM f = .ok results ↔
      List.Forall₂ (fun item result => f item = .ok result) items results := by
  induction items generalizing results with
  | nil =>
    rw [List.mapM_nil, List.forall₂_nil_left_iff]
    exact ⟨fun h => (Except.ok.inj h).symm, fun h => congrArg Except.ok h.symm⟩
  | cons item rest ih =>
    rw [List.mapM_cons, List.forall₂_cons_left_iff]
    constructor
    · intro h
      obtain ⟨result, hresult, h⟩ := bind_eq_ok_iff.mp h
      obtain ⟨others, hothers, h⟩ := bind_eq_ok_iff.mp h
      exact ⟨result, others, hresult, ih.mp hothers, (Except.ok.inj h).symm⟩
    · rintro ⟨result, others, hresult, hothers, rfl⟩
      exact bind_eq_ok_iff.mpr
        ⟨result, hresult, bind_eq_ok_iff.mpr ⟨others, ih.mpr hothers, rfl⟩⟩

/-- A step for each item succeeds when it does so for every item. -/
theorem exists_mapM_eq_ok_iff :
    (∃ results, items.mapM f = .ok results) ↔ ∀ item ∈ items, ∃ result, f item = .ok result := by
  simp only [mapM_eq_ok_iff]
  induction items with
  | nil => simp
  | cons item rest ih =>
    simp only [List.forall₂_cons_left_iff, List.forall_mem_cons, ← ih]
    constructor
    · rintro ⟨-, result, others, hresult, hothers, rfl⟩
      exact ⟨⟨result, hresult⟩, others, hothers⟩
    · rintro ⟨⟨result, hresult⟩, others, hothers⟩
      exact ⟨_, result, others, hresult, hothers, rfl⟩

end

/-! ## Parameters -/

/-- Every `first` followed by `second` becomes `written`, from the front on. -/
def replacePair (first second written : Char) : List Char → List Char
  | [] => []
  | [c] => [c]
  | c :: d :: rest =>
    if c = first ∧ d = second then written :: replacePair first second written rest
    else c :: replacePair first second written (d :: rest)

/-- The reference leads to a global parameter: what follows `#/parameters/` is its key, once `~1`
    is read as a slash and then `~0` as a tilde. -/
def Names (globals : Keyed Json) (reference : String) (parameter : Json) : Prop :=
  ∃ token : String, reference = "#/parameters/" ++ token ∧
    Keyed.get? (String.ofList (replacePair '~' '0' '~' (replacePair '~' '1' '/' token.toList)))
      globals = some parameter

/-- What an element of a list of parameters stands for: the global parameter that it refers to, or
    else itself. -/
inductive Means (globals : Keyed Json) : Json → Resolved → Prop where
  | own {parameter : Json} (noReference : textAt? "$ref" parameter = none) :
      Means globals parameter (parameter, none)
  | global {parameter target : Json} {reference : String}
      (byReference : textAt? "$ref" parameter = some reference)
      (names : Names globals reference target) :
      Means globals parameter (target, some reference)

/-- The parameters that apply to an operation: those of its path, then its own, one for each name
    and location, at the place of the first one and equal to the last. -/
def Merged (globals : Keyed Json) (shared own : List Json) (merged : List Resolved) : Prop :=
  ∃ resolved, List.Forall₂ (Means globals) (shared ++ own) resolved ∧
    Overrides (fun parameter => parameterKey parameter.1) resolved merged

/-- The parameter is the last one that stands for a body. -/
def LastBody (merged : List Resolved) (body : Json) : Prop :=
  ∃ before reference after, merged = before ++ (body, reference) :: after ∧ isBody body = true ∧
    ∀ later ∈ after, isBody later.1 = false

/-- The parameters of an operation can be converted: references lead to global parameters, and the
    last body has a schema. -/
structure AcceptsParameters (globals : Keyed Json) (shared own : List Json) : Prop where
  references : ∀ parameter ∈ shared ++ own, ∀ reference,
    textAt? "$ref" parameter = some reference → ∃ target, Names globals reference target
  body : ∀ merged, Merged globals shared own merged → ∀ body, LastBody merged body →
    ∃ schema, body.get? "schema" = some schema

section

variable {context : Context} {globals : Keyed Json} {shared own : List Json}
  {merged : List Resolved}

theorem replacePair_cons_of_ne {first second written c : Char} (h : c ≠ first)
    (rest : List Char) :
    replacePair first second written (c :: rest) = c :: replacePair first second written rest := by
  cases rest with
  | nil => rfl
  | cons d rest => rw [replacePair, if_neg fun hpair => h hpair.1]

/-- Reading both escapes in one pass is reading `~1` first and `~0` in the outcome: no slash that
    the first reading puts in can be a part of a `~0`. -/
theorem unescapeToken_eq (token : List Char) :
    Reference.unescapeToken token =
      replacePair '~' '0' '~' (replacePair '~' '1' '/' token) := by
  induction token using Reference.unescapeToken.induct with
  | case1 rest ih =>
    have hslash : replacePair '~' '1' '/' ('~' :: '1' :: rest) =
        '/' :: replacePair '~' '1' '/' rest := if_pos ⟨rfl, rfl⟩
    rw [hslash, replacePair_cons_of_ne (by decide), ← ih]
    rfl
  | case2 rest ih =>
    have htilde : replacePair '~' '1' '/' ('~' :: '0' :: rest) =
        '~' :: '0' :: replacePair '~' '1' '/' rest := by
      rw [replacePair, if_neg (by decide), replacePair_cons_of_ne (by decide)]
    rw [htilde, replacePair, if_pos ⟨rfl, rfl⟩, ← ih]
    rfl
  | case3 c rest hslash htilde ih =>
    rw [Reference.unescapeToken.eq_3 _ _ hslash htilde, ih]
    by_cases hc : c = '~'
    · subst hc
      cases rest with
      | nil => rfl
      | cons d rest =>
        have hone : d ≠ '1' := fun heq => hslash rest rfl (heq ▸ rfl)
        have hzero : d ≠ '0' := fun heq => htilde rest rfl (heq ▸ rfl)
        rw [replacePair.eq_3 '~' '1' '/' '~' d, if_neg fun hpair => hone hpair.2]
        -- The first reading starts with `d` again, or with a slash, and neither is a zero.
        have hhead : ∃ e tail, replacePair '~' '1' '/' (d :: rest) = e :: tail ∧ e ≠ '0' := by
          cases rest with
          | nil => exact ⟨d, [], rfl, hzero⟩
          | cons e rest =>
            rw [replacePair]
            split
            · exact ⟨'/', _, rfl, by decide⟩
            · exact ⟨d, _, rfl, hzero⟩
        obtain ⟨e, tail, heq, he⟩ := hhead
        rw [heq, replacePair.eq_3 '~' '0' '~' '~' e, if_neg fun hpair => he hpair.2]
    · rw [replacePair_cons_of_ne hc, replacePair_cons_of_ne hc]
  | case4 => rfl

theorem afterStart?_eq_some_iff {start text rest : String} :
    afterStart? start text = some rest ↔ text = start ++ rest := by
  constructor
  · intro h
    unfold afterStart? at h
    split at h
    · next hprefix =>
      obtain ⟨tail, htail⟩ := List.isPrefixOf_iff_prefix.mp hprefix
      rw [← htail, List.drop_left] at h
      rw [← String.ofList_toList (s := text), ← htail, String.ofList_append,
        String.ofList_toList, Option.some.inj h]
    · cases h
  · rintro rfl
    exact afterStart?_append start rest

theorem parameter?_eq_some_iff {reference : String} {target : Json} :
    context.parameter? reference = some target ↔ Names context.parameters reference target := by
  unfold Context.parameter? Names
  simp only [Option.bind_eq_bind, Option.bind_eq_some_iff, afterStart?_eq_some_iff,
    unescapeToken_eq]
  rfl

theorem resolve_eq_ok_iff {parameter : Json} {resolved : Resolved} :
    context.resolve parameter = .ok resolved ↔ Means context.parameters parameter resolved := by
  unfold Context.resolve
  constructor
  · intro h
    split at h
    · next hnone =>
      cases h
      exact .own hnone
    · next reference href =>
      split at h
      · next target htarget =>
        cases h
        exact .global href (parameter?_eq_some_iff.mp htarget)
      · cases h
  · intro h
    cases h with
    | own hnone => simp only [hnone]
    | global href hnames => simp only [href, parameter?_eq_some_iff.mpr hnames]

/-- An element is resolved unless it has a reference that leads nowhere. -/
theorem exists_means_iff {parameter : Json} :
    (∃ resolved, Means globals parameter resolved) ↔
      ∀ reference, textAt? "$ref" parameter = some reference →
        ∃ target, Names globals reference target := by
  constructor
  · rintro ⟨resolved, h⟩ reference href
    cases h with
    | own hnone =>
      rw [hnone] at href
      cases href
    | global hother hnames =>
      rw [hother] at href
      cases href
      exact ⟨_, hnames⟩
  · intro h
    cases href : textAt? "$ref" parameter with
    | none => exact ⟨_, .own href⟩
    | some reference =>
      obtain ⟨target, hnames⟩ := h reference href
      exact ⟨_, .global href hnames⟩

theorem merge_eq_ok_iff :
    context.merge shared own = .ok merged ↔ Merged context.parameters shared own merged := by
  unfold Context.merge Merged
  rw [bind_eq_ok_iff]
  refine exists_congr fun resolved => and_congr ?_ ?_
  · rw [mapM_eq_ok_iff]
    simp only [resolve_eq_ok_iff]
  · rw [overrides_iff]
    exact ⟨fun h => (Except.ok.inj h).symm, fun h => congrArg Except.ok h.symm⟩

/-- Parameters merge when each of them is resolved. -/
theorem exists_merge_iff :
    (∃ merged, context.merge shared own = .ok merged) ↔
      ∀ parameter ∈ shared ++ own, ∃ resolved, Means context.parameters parameter resolved := by
  simp only [← resolve_eq_ok_iff, ← exists_mapM_eq_ok_iff]
  unfold Context.merge
  constructor
  · rintro ⟨merged, h⟩
    obtain ⟨resolved, hresolved, -⟩ := bind_eq_ok_iff.mp h
    exact ⟨resolved, hresolved⟩
  · rintro ⟨resolved, hresolved⟩
    exact ⟨_, bind_eq_ok_iff.mpr ⟨resolved, hresolved, rfl⟩⟩

/-! ## Request bodies -/

theorem lastBody_iff {body : Json} :
    LastBody merged body ↔ ((merged.map (·.1)).filter isBody).getLast? = some body := by
  constructor
  · rintro ⟨before, reference, after, rfl, hbody, hafter⟩
    have hnone : (after.map (·.1)).filter isBody = [] := by
      rw [List.filter_eq_nil_iff, List.forall_mem_map]
      intro later hlater
      rw [hafter later hlater]
      decide
    rw [List.map_append, List.map_cons, List.filter_append, List.filter_cons, if_pos hbody, hnone,
      List.getLast?_concat]
  · intro h
    obtain ⟨bodies, hbodies⟩ := List.getLast?_eq_some_iff.mp h
    obtain ⟨before, after, heq, -, hafter⟩ := List.filter_eq_append_iff.mp hbodies
    obtain ⟨skipped, rest, hrest, hskipped, hbody, hlast⟩ := List.filter_eq_cons_iff.mp hafter
    rw [hrest, ← List.append_assoc] at heq
    obtain ⟨front, back, hmerged, -, hback⟩ := List.map_eq_append_iff.mp heq
    obtain ⟨pair, tail, rfl, rfl, rfl⟩ := List.map_eq_cons_iff.mp hback
    refine ⟨front, pair.2, tail, hmerged, hbody, fun later hlater => ?_⟩
    have hplain := List.filter_eq_nil_iff.mp hlast later.1 (List.mem_map_of_mem hlater)
    exact Bool.eq_false_iff.mpr hplain

theorem bodyRequest?_isSome (mediaTypes : List String) (body : Json) :
    (bodyRequest? mediaTypes body).isSome = (body.get? "schema").isSome := by
  unfold bodyRequest?
  cases body.get? "schema" <;> rfl

/-- Parameters amount to a request body, or to none, unless the last body has no schema. -/
theorem exists_requestOf_iff {mediaTypes : List String} {path method : String} :
    (∃ request, requestOf mediaTypes merged path method = .ok request) ↔
      ∀ body, LastBody merged body → ∃ schema, body.get? "schema" = some schema := by
  simp only [lastBody_iff, ← Option.isSome_iff_exists]
  unfold requestOf
  dsimp only
  cases hlast : ((merged.map (·.1)).filter isBody).getLast? with
  | none =>
    refine iff_of_true ?_ fun _ h => by cases h
    cases (merged.map (·.1)).filter isFormField with
    | nil => exact ⟨_, rfl⟩
    | cons field fields => exact ⟨_, rfl⟩
  | some body =>
    have hsome := bodyRequest?_isSome mediaTypes body
    dsimp only
    cases hrequest : bodyRequest? mediaTypes body with
    | none =>
      rw [hrequest] at hsome
      refine refused_iff fun h => ?_
      have hschema := h body rfl
      rw [← hsome] at hschema
      cases hschema
    | some request =>
      rw [hrequest] at hsome
      refine iff_of_true ⟨_, rfl⟩ fun other hother => ?_
      cases hother
      exact hsome.symm

/-! ## Operations -/

/-- The fields of an operation that conversion does not read: taking the others out moves them. -/
def restOf (fields : Keyed Json) : Keyed Json :=
  ["consumes", "produces", "schemes", "parameters"].foldl (fun fields key => fields.swapErase key)
    fields

/-- What an operation becomes when it has these merged parameters and amounts to this request. -/
def operationOf (context : Context) (fields : Keyed Json) (merged : List Resolved)
    (request : Option Json) : Keyed Json :=
  let kept := keptParameters merged
  let rest := if kept.isEmpty then restOf fields
    else (restOf fields).insert "parameters" (.arr kept)
  let rest := match request with
    | some request => rest.insert "requestBody" request
    | none => rest
  let produces := (mediaTypes? (Keyed.get? "produces" fields)).getD context.produces
  (rest.swapErase "responses").insert "responses"
    (.obj (convertResponses produces (fieldsOf (Keyed.get? "responses" rest))))

/-- Media types that an operation takes. -/
def consumesOf (context : Context) (fields : Keyed Json) : List String :=
  (mediaTypes? (Keyed.get? "consumes" fields)).getD context.consumes

/-- Converting an operation is merging its parameters, then finding the request that they amount
    to; nothing else of it can fail. -/
theorem operation_eq {fields : Keyed Json} (h : (Keyed.keys fields).Nodup)
    (path method : String) :
    context.operation path method shared fields =
      context.merge shared (itemsOf (Keyed.get? "parameters" fields)) >>= fun merged =>
        requestOf (consumesOf context fields) merged path method >>= fun request =>
          .ok (operationOf context fields merged request) := by
  have hproduces : Keyed.get? "produces" (fields.swapErase "consumes") =
      Keyed.get? "produces" fields := Keyed.get?_removeAll h ["consumes"] (by decide)
  have hparameters : Keyed.get? "parameters"
      (((fields.swapErase "consumes").swapErase "produces").swapErase "schemes") =
        Keyed.get? "parameters" fields :=
    Keyed.get?_removeAll h ["consumes", "produces", "schemes"] (by decide)
  unfold Context.operation takeField
  dsimp only
  rw [hproduces, hparameters]
  rfl

theorem exists_operation_iff {fields : Keyed Json} (h : (Keyed.keys fields).Nodup)
    {path method : String} :
    (∃ converted, context.operation path method shared fields = .ok converted) ↔
      AcceptsParameters context.parameters shared
        (itemsOf (Keyed.get? "parameters" fields)) := by
  simp only [operation_eq h, bind_eq_ok_iff]
  constructor
  · rintro ⟨converted, merged, hmerged, request, hrequest, -⟩
    refine ⟨fun parameter hparameter => ?_, fun other hother => ?_⟩
    · exact exists_means_iff.mp (exists_merge_iff.mp ⟨merged, hmerged⟩ parameter hparameter)
    · -- There is just one outcome of the merge.
      have hsame := merge_eq_ok_iff.mpr hother
      rw [hmerged] at hsame
      cases hsame
      exact exists_requestOf_iff.mp ⟨request, hrequest⟩
  · rintro ⟨hreferences, hbody⟩
    obtain ⟨merged, hmerged⟩ := exists_merge_iff.mpr fun parameter hparameter =>
      exists_means_iff.mpr (hreferences parameter hparameter)
    obtain ⟨request, hrequest⟩ := exists_requestOf_iff.mpr
      (hbody merged (merge_eq_ok_iff.mp hmerged))
    exact ⟨_, merged, hmerged, request, hrequest, rfl⟩

end

/-! ## Path items and documents -/

/-- A path item can be converted: what stands under a method is an operation whose parameters can
    be. -/
def AcceptsItem (globals item : Keyed Json) : Prop :=
  ∀ method ∈ methodKeys, ∀ value, Keyed.get? method item = some value →
    ∃ fields, value = .obj fields ∧
      AcceptsParameters globals (itemsOf (Keyed.get? "parameters" item))
        (itemsOf (Keyed.get? "parameters" fields))

/-- A document can be converted: it is an object, and its paths, if it has any, are a map of items
    that can be. -/
def Convertible (document : Json) : Prop :=
  ∃ root, document = .obj root ∧ ∀ paths, Keyed.get? "paths" root = some paths →
    ∃ items, paths = .obj items ∧ ∀ item ∈ items, ∃ fields, item.2 = .obj fields ∧
      AcceptsItem (fieldsOf (Keyed.get? "parameters" root)) fields

section

variable {context : Context} {shared : List Json} {path : String}

/-- The value of a field of a path item can be converted. -/
theorem exists_itemField_iff {field : String × Json} (h : field.2.Distinct) :
    (∃ converted, context.itemField path shared field = .ok converted) ↔
      (field.1 ∈ methodKeys → ∃ fields, field.2 = .obj fields ∧
        AcceptsParameters context.parameters shared
          (itemsOf (Keyed.get? "parameters" fields))) := by
  obtain ⟨key, value⟩ := field
  unfold Context.itemField
  dsimp only at h ⊢
  by_cases hkey : key ∈ methodKeys
  · rw [if_pos (List.contains_iff_mem.mpr hkey)]
    cases value with
    | obj fields =>
      rw [Json.Distinct] at h
      have hoperation : (∃ converted, context.operation path key shared fields = .ok converted) ↔
          AcceptsParameters context.parameters shared
            (itemsOf (Keyed.get? "parameters" fields)) := exists_operation_iff h.1
      simp only [bind_eq_ok_iff]
      constructor
      · rintro ⟨_, converted, hconverted, -⟩ -
        exact ⟨fields, rfl, hoperation.mp ⟨converted, hconverted⟩⟩
      · intro haccepts
        obtain ⟨others, heq, haccepts⟩ := haccepts hkey
        cases heq
        obtain ⟨converted, hconverted⟩ := hoperation.mpr haccepts
        exact ⟨_, converted, hconverted, rfl⟩
    | _ =>
      refine refused_iff fun h => ?_
      obtain ⟨_, heq, -⟩ := h hkey
      cases heq
  · rw [if_neg fun hcontains => hkey (List.contains_iff_mem.mp hcontains)]
    exact iff_of_true ⟨_, rfl⟩ fun hmem => absurd hmem hkey

theorem exists_pathItem_iff {item : String × Json} (h : item.2.Distinct) :
    (∃ converted, context.pathItem item = .ok converted) ↔
      ∃ fields, item.2 = .obj fields ∧ AcceptsItem context.parameters fields := by
  obtain ⟨path, value⟩ := item
  unfold Context.pathItem
  cases value with
  | obj fields =>
    rw [Json.Distinct] at h
    obtain ⟨hnodup, hdistinct⟩ := h
    -- Apart from its sequence, what is left are the fields but for the shared parameters.
    have hmem : ∀ field, field ∈ Keyed.swapErase "parameters" fields ↔
        field ∈ fields ∧ field.1 ≠ "parameters" := by
      intro field
      rw [(Keyed.swapErase_perm hnodup).mem_iff, Keyed.erase, List.mem_filter, bne_iff_ne]
    have hitem : (∃ converted, (Keyed.swapErase "parameters" fields).mapM
        (context.itemField path (itemsOf (Keyed.get? "parameters" fields))) = .ok converted) ↔
          AcceptsItem context.parameters fields := by
      rw [exists_mapM_eq_ok_iff]
      constructor
      · intro hall method hmethod value hvalue
        have hfield := Keyed.mem_of_get? hvalue
        have hne : method ≠ "parameters" := fun heq => absurd (heq ▸ hmethod) (by decide)
        exact (exists_itemField_iff (hdistinct.of_mem hfield)).mp
          (hall _ ((hmem _).mpr ⟨hfield, hne⟩)) hmethod
      · intro haccepts field hfield
        have hfield := ((hmem field).mp hfield).1
        refine (exists_itemField_iff (hdistinct.of_mem hfield)).mpr fun hmethod => ?_
        exact haccepts field.1 hmethod field.2 (Keyed.get?_of_mem hnodup hfield)
    dsimp only [takeField]
    simp only [bind_eq_ok_iff]
    constructor
    · rintro ⟨_, converted, hconverted, -⟩
      exact ⟨fields, rfl, hitem.mp ⟨converted, hconverted⟩⟩
    · rintro ⟨others, heq, haccepts⟩
      cases heq
      obtain ⟨converted, hconverted⟩ := hitem.mpr haccepts
      exact ⟨_, converted, hconverted, rfl⟩
  | _ =>
    refine refused_iff fun h => ?_
    obtain ⟨_, heq, -⟩ := h
    cases heq

theorem exists_paths_iff {paths : Option Json} (h : ∀ value, paths = some value → value.Distinct) :
    (∃ converted, context.paths paths = .ok converted) ↔
      ∀ value, paths = some value → ∃ items, value = .obj items ∧
        ∀ item ∈ items, ∃ fields, item.2 = .obj fields ∧
          AcceptsItem context.parameters fields := by
  unfold Context.paths
  cases paths with
  | none => exact iff_of_true ⟨_, rfl⟩ fun _ hvalue => by cases hvalue
  | some value =>
    have hdistinct := h value rfl
    cases value with
    | obj items =>
      rw [Json.Distinct] at hdistinct
      dsimp only
      rw [exists_mapM_eq_ok_iff]
      constructor
      · intro hall value hvalue
        cases hvalue
        refine ⟨items, rfl, fun item hitem => ?_⟩
        exact (exists_pathItem_iff (hdistinct.2.of_mem hitem)).mp (hall item hitem)
      · intro hall item hitem
        obtain ⟨others, heq, hothers⟩ := hall _ rfl
        cases heq
        exact (exists_pathItem_iff (hdistinct.2.of_mem hitem)).mpr (hothers item hitem)
    | _ =>
      refine refused_iff fun h => ?_
      obtain ⟨_, heq, -⟩ := h _ rfl
      cases heq

end

/-- Converting an object is converting its paths; nothing else of it can fail. -/
theorem convert_obj_eq_ok_iff {root : Keyed Json} (h : (Keyed.keys root).Nodup) {output : Json} :
    convert (.obj root) = .ok output ↔
      ∃ paths, (Context.of root).paths (Keyed.get? "paths" root) = .ok paths ∧
        upgrade (.obj (outcomeOf root paths)) = output := by
  change (convertRoot root >>= fun root => .ok (upgrade (.obj root))) = _ ↔ _
  rw [convertRoot_eq h]
  simp only [bind_eq_ok_iff]
  constructor
  · rintro ⟨_, ⟨paths, hpaths, heq⟩, houtput⟩
    cases heq
    exact ⟨paths, hpaths, Except.ok.inj houtput⟩
  · rintro ⟨paths, hpaths, rfl⟩
    exact ⟨_, ⟨paths, hpaths, rfl⟩, rfl⟩

/-- Conversion succeeds on just the documents that can be converted. -/
theorem convert_succeeds_iff {document : Json} (h : document.Distinct) :
    (∃ output, convert document = .ok output) ↔ Convertible document := by
  cases document with
  | obj root =>
    rw [Json.Distinct] at h
    have hdistinct : ∀ value, Keyed.get? "paths" root = some value → value.Distinct :=
      fun _ hvalue => h.2.of_mem (Keyed.mem_of_get? hvalue)
    have hpaths : (∃ converted, (Context.of root).paths (Keyed.get? "paths" root) =
        .ok converted) ↔ _ := exists_paths_iff hdistinct
    constructor
    · rintro ⟨output, houtput⟩
      obtain ⟨converted, hconverted, -⟩ := (convert_obj_eq_ok_iff h.1).mp houtput
      exact ⟨root, rfl, hpaths.mp ⟨converted, hconverted⟩⟩
    · rintro ⟨others, heq, haccepts⟩
      cases heq
      obtain ⟨converted, hconverted⟩ := hpaths.mpr haccepts
      exact ⟨_, (convert_obj_eq_ok_iff h.1).mpr ⟨converted, hconverted, rfl⟩⟩
  | _ =>
    refine refused_iff fun h => ?_
    obtain ⟨_, heq, -⟩ := h
    cases heq

/-- A document in which the body of a path, a global one without a schema, is replaced by a body of
    the operation with these fields. -/
def replacedBody (fields : Keyed Json) : Json := .obj [
  ("swagger", .str "2.0"),
  ("parameters", .obj [("a/b", .obj [("name", .str "pet"), ("in", .str "body")])]),
  ("paths", .obj [("/pets", .obj [
    ("parameters", .arr [.obj [("$ref", .str "#/parameters/a~1b")]]),
    ("post", .obj [("parameters", .arr [
      .obj ([("name", .str "pet"), ("in", .str "body")] ++ fields)])])])])]

theorem replacedBody_convertible :
    (replacedBody [("schema", .obj [])]).Distinct ∧
      Convertible (replacedBody [("schema", .obj [])]) ∧ (replacedBody []).Distinct ∧
      ¬ Convertible (replacedBody []) := by
  have hdistinct : (replacedBody [("schema", .obj [])]).Distinct := by
    simp [replacedBody, Json.Distinct, Json.DistinctFields, Json.DistinctItems, Keyed.keys]
  have hdistinct' : (replacedBody []).Distinct := by
    simp [replacedBody, Json.Distinct, Json.DistinctFields, Json.DistinctItems, Keyed.keys]
  -- The body of the operation counts, and not the one that its path refers to.
  have haccepted : ∃ output, convert (replacedBody [("schema", .obj [])]) = .ok output := ⟨_, rfl⟩
  have hrefused : ¬ ∃ output, convert (replacedBody []) = .ok output := by
    rintro ⟨output, houtput⟩
    cases houtput
  exact ⟨hdistinct, (convert_succeeds_iff hdistinct).mp haccepted, hdistinct',
    fun h => hrefused ((convert_succeeds_iff hdistinct').mpr h)⟩

end Swagger
end TypedClient
