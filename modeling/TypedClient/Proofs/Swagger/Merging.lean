/-
  TypedClient.Proofs.Swagger.Merging

  The parameters of a path and those of an operation are merged twice: as they are written, when a
  document is converted, and as they are read, when its operations are.  Both merges follow one
  law, that of overriding lists.  They tell parameters apart by the same two texts, so that they
  keep the same ones.
-/
import TypedClient.Operation.Extract
import TypedClient.Proofs.Fuel
import TypedClient.Proofs.Swagger.Acceptance

namespace TypedClient

open Document

namespace Swagger

variable {parameter : Json} {parameters : List Json}

/-! ## Parameters written out -/

/-- The parameter is written out in full: it has a name, a location and no reference, and says
    whether it is required, if it does, by a truth value. -/
structure WrittenOut (parameter : Json) : Prop where
  name : ∃ name, textAt? "name" parameter = some name
  location : ∃ location, textAt? "in" parameter = some location
  required : ∀ value, parameter.get? "required" = some value → ∃ flag, value = .bool flag
  noReference : textAt? "$ref" parameter = none

/-- What is read from the parameter has the name and the location that are written. -/
theorem WrittenOut.exists_read (h : WrittenOut parameter) :
    ∃ read, MaybeRef.ofJson? Parameter.ofJson? parameter = some (.item read) ∧
      parameterKey parameter = (some read.name, some read.location) := by
  obtain ⟨name, hname⟩ := h.name
  obtain ⟨location, hlocation⟩ := h.location
  cases parameter with
  | obj fields =>
    obtain ⟨nameValue, hnameField, hnameText⟩ := Option.bind_eq_some_iff.mp hname
    obtain ⟨locationValue, hlocationField, hlocationText⟩ := Option.bind_eq_some_iff.mp hlocation
    obtain ⟨required, hrequired⟩ : ∃ required,
        orDefault Json.asBool? false (Keyed.get? "required" fields) = some required := by
      cases hfield : Keyed.get? "required" fields with
      | none => exact ⟨false, rfl⟩
      | some value =>
        obtain ⟨flag, rfl⟩ := h.required value hfield
        exact ⟨flag, rfl⟩
    obtain ⟨schema, hschema⟩ : ∃ schema,
        orNothing some (Keyed.get? "schema" fields) = some schema := by
      unfold orNothing
      split <;> exact ⟨_, rfl⟩
    refine ⟨⟨name, location, required, schema⟩, ?_, ?_⟩
    · have hfields : fieldsOf? ["name", "in", "required", "schema"] (.obj fields) =
          some [some nameValue, some locationValue, Keyed.get? "required" fields,
            Keyed.get? "schema" fields] := by
        rw [← hnameField, ← hlocationField]
        rfl
      have hitem : Parameter.ofJson? (.obj fields) =
          some ⟨name, location, required, schema⟩ := by
        simp only [Parameter.ofJson?, hfields, hnameText, hlocationText, hrequired, hschema]
        rfl
      have hreference : ((Json.obj fields).get? "$ref").bind Json.asString? = none := h.noReference
      rw [MaybeRef.ofJson?, hreference, hitem]
      rfl
    · rw [parameterKey, hname, hlocation]
  | _ => cases hname

/-- Parameters that are written out are read one by one. -/
theorem exists_reads (h : ∀ parameter ∈ parameters, WrittenOut parameter) :
    ∃ reads : List Parameter,
      parametersOf? (some (.arr parameters)) = some (reads.map .item) ∧
      parameters.map parameterKey =
        (reads.map Operation.parameterKey).map (Prod.map some some) := by
  induction parameters with
  | nil => exact ⟨[], rfl, rfl⟩
  | cons parameter rest ih =>
    obtain ⟨hfirst, hrest⟩ := List.forall_mem_cons.mp h
    obtain ⟨read, hread, hkey⟩ := hfirst.exists_read
    obtain ⟨reads, hreads, hkeys⟩ := ih hrest
    refine ⟨read :: reads, ?_, ?_⟩
    · show (parameter :: rest).mapM (MaybeRef.ofJson? Parameter.ofJson?) = _
      rw [mapM_eq_some_iff, List.map_cons]
      exact .cons hread (mapM_eq_some_iff.mp hreads)
    · rw [List.map_cons, hkey, hkeys]
      rfl

/-- Parameters that are read from what is written out have no references to follow. -/
theorem mergedParameters_items (document : Json) (shared own : List Parameter) :
    Operation.mergedParameters document (shared.map .item) (own.map .item) =
      overrideAll Operation.parameterKey (shared ++ own) := by
  unfold Operation.mergedParameters
  rw [← List.map_append, List.filterMap_map]
  exact congrArg _ List.filterMap_some

/-- Parameters that are written out stand for themselves. -/
theorem merge_of_writtenOut {shared own : List Json} (context : Context)
    (h : ∀ parameter ∈ shared ++ own, WrittenOut parameter) :
    context.merge shared own = .ok ((overrideAll parameterKey (shared ++ own)).map (·, none)) := by
  rw [merge_eq_ok_iff]
  refine ⟨(shared ++ own).map (·, none), ?_, ?_⟩
  · rw [List.forall₂_map_right_iff, List.forall₂_same]
    exact fun parameter hparameter => .own (h parameter hparameter).noReference
  · have hmap : overrideAll (fun parameter : Resolved => parameterKey parameter.1)
        ((shared ++ own).map (·, none)) =
          (overrideAll parameterKey (shared ++ own)).map (·, none) :=
      overrideAll_map fun _ _ _ _ => Iff.rfl
    exact overrides_iff.mpr hmap.symm

/-! ## One law -/

/-- References that all lead somewhere are followed one by one. -/
theorem forall₂_filterMap {α β : Type} {f : α → Option β} {items : List α}
    (h : ∀ item ∈ items, ∃ target, f item = some target) :
    List.Forall₂ (fun item target => f item = some target) items (items.filterMap f) := by
  induction items with
  | nil => exact .nil
  | cons item rest ih =>
    obtain ⟨hfirst, hrest⟩ := List.forall_mem_cons.mp h
    obtain ⟨target, htarget⟩ := hfirst
    rw [List.filterMap_cons_some htarget]
    exact .cons htarget (ih hrest)

/-- The parameters are merged as they are read: one for each name and location of what their
    references lead to, at the place of the first one and equal to the last. -/
def MergesRead (document : Json) (shared own : List (MaybeRef Parameter)) : Prop :=
  ∃ resolved, List.Forall₂ (fun parameter target =>
      parameter.resolve document Parameter.ofJson? = some target) (shared ++ own) resolved ∧
    Overrides Operation.parameterKey resolved (Operation.mergedParameters document shared own)

/-- The parameters are merged as they are written: one for each name and location of what they
    stand for, at the place of the first one and equal to the last. -/
def MergesWritten (context : Context) (shared own : List Json) : Prop :=
  ∃ resolved merged, List.Forall₂ (Means context.parameters) (shared ++ own) resolved ∧
    context.merge shared own = .ok merged ∧
    Overrides (fun parameter => parameterKey parameter.1) resolved merged

/-- Both merges keep the parameters at the same positions, in one sequence. -/
def KeepAlike (document : Json) (context : Context) (shared own : List Json) : Prop :=
  ∃ sharedRead ownRead merged positions,
    parametersOf? (some (.arr shared)) = some sharedRead ∧
    parametersOf? (some (.arr own)) = some ownRead ∧
    context.merge shared own = .ok merged ∧
    ItemsAt ((shared ++ own).map (·, none)) positions merged ∧
    ItemsAt (sharedRead ++ ownRead) positions
      ((Operation.mergedParameters document sharedRead ownRead).map .item)

/-- Both merges follow one law.  Parameters of a path and of an operation whose references all lead
    to some leave one for each name and location, at the place of the first and equal to the last,
    as they are read and as they are written.  And of parameters that are written out in full,
    without references, both merges keep the same ones in the same sequence. -/
theorem merges_alike (document : Json) (context : Context) :
    (∀ shared own : List (MaybeRef Parameter),
      (∀ parameter ∈ shared ++ own, ∃ target,
        parameter.resolve document Parameter.ofJson? = some target) →
      MergesRead document shared own) ∧
    (∀ shared own : List Json,
      (∀ parameter ∈ shared ++ own, ∃ resolved, Means context.parameters parameter resolved) →
      MergesWritten context shared own) ∧
    ∀ shared own : List Json, (∀ parameter ∈ shared ++ own, WrittenOut parameter) →
      KeepAlike document context shared own := by
  refine ⟨fun shared own h => ?_, fun shared own h => ?_, fun shared own h => ?_⟩
  · exact ⟨_, forall₂_filterMap h, overrides_overrideAll _ _⟩
  · obtain ⟨merged, hmerged⟩ := exists_merge_iff.mpr h
    obtain ⟨resolved, hresolved, hoverrides⟩ := merge_eq_ok_iff.mp hmerged
    exact ⟨resolved, merged, hresolved, hmerged, hoverrides⟩
  · obtain ⟨sharedReads, hshared, hsharedKeys⟩ :=
      exists_reads fun parameter hparameter => h parameter (List.mem_append_left _ hparameter)
    obtain ⟨ownReads, hown, hownKeys⟩ :=
      exists_reads fun parameter hparameter => h parameter (List.mem_append_right _ hparameter)
    -- The keys of both lists are the same texts.
    have hpositions : keptPositions ((shared ++ own).map parameterKey) =
        keptPositions ((sharedReads ++ ownReads).map Operation.parameterKey) := by
      have hinjective : Function.Injective
          (Prod.map some some : String × String → Option String × Option String) :=
        (Option.some_injective _).prodMap (Option.some_injective _)
      rw [← keptPositions_map hinjective, List.map_append, List.map_append, List.map_append,
        hsharedKeys, hownKeys]
    refine ⟨_, _, _, keptPositions ((shared ++ own).map parameterKey), hshared, hown,
      merge_of_writtenOut context h, ?_, ?_⟩
    · exact (itemsAt_overrideAll parameterKey _).map _
    · rw [mergedParameters_items, ← List.map_append, hpositions]
      exact (itemsAt_overrideAll Operation.parameterKey _).map _

/-- A limit on the number of items, as a parameter of a query. -/
def limitParameter (type : String) : Json :=
  .obj [("name", .str "limit"), ("in", .str "query"), ("type", .str type)]

/-- A header. -/
def traceParameter : Json := .obj [("name", .str "trace"), ("in", .str "header")]

/-- The root of a document with the limit as its one global parameter. -/
def limited : Keyed Json := [("parameters", .obj [("limit", limitParameter "integer")])]

/-- A reference to the global limit. -/
def limitReference : Json := .obj [("$ref", .str "#/parameters/limit")]

theorem limits_merge_alike :
    MergesRead (.obj limited) [.ref "#/parameters/limit"] [.item ⟨"limit", "query", true, none⟩] ∧
      MergesWritten (Context.of limited) [limitReference, traceParameter]
        [limitParameter "number"] ∧
      KeepAlike (.obj limited) (Context.of limited)
        [limitParameter "integer", traceParameter] [limitParameter "number"] := by
  obtain ⟨hread, hwritten, halike⟩ := merges_alike (.obj limited) (Context.of limited)
  have hout : ∀ type, WrittenOut (limitParameter type) :=
    fun _ => ⟨⟨_, rfl⟩, ⟨_, rfl⟩, fun _ h => (by cases h), rfl⟩
  have htrace : WrittenOut traceParameter := ⟨⟨_, rfl⟩, ⟨_, rfl⟩, fun _ h => (by cases h), rfl⟩
  have hglobal : Means (Context.of limited).parameters limitReference
      (limitParameter "integer", some "#/parameters/limit") :=
    .global rfl ⟨"limit", rfl, rfl⟩
  have hresolve : ((MaybeRef.ref "#/parameters/limit").resolve (.obj limited)
      Parameter.ofJson?).isSome = true := by decide +kernel
  refine ⟨hread _ _ ?_, hwritten _ _ ?_, halike _ _ ?_⟩
  · simp only [List.cons_append, List.nil_append, List.forall_mem_cons]
    exact ⟨Option.isSome_iff_exists.mp hresolve, ⟨_, rfl⟩, by simp⟩
  · simp only [List.cons_append, List.nil_append, List.forall_mem_cons]
    exact ⟨⟨_, hglobal⟩, ⟨_, .own htrace.noReference⟩, ⟨_, .own (hout _).noReference⟩, by simp⟩
  · simp only [List.cons_append, List.nil_append, List.forall_mem_cons]
    exact ⟨hout _, htrace, hout _, by simp⟩

end Swagger

end TypedClient
