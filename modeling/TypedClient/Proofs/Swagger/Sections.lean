/-
  TypedClient.Proofs.Swagger.Sections

  References into the sections of a Swagger 2.0 document.  Conversion moves a section into the
  components of the outcome and converts its members, and renaming a reference moves it along: so a
  renamed reference leads to what its target was converted to.

  The pass over the whole outcome (`upgrade`) also edits the maps that a reference goes through.  It
  changes the values of a map of objects and none of its keys, since the keys that it renames hold
  texts and truth values.
-/
import TypedClient.Proofs.Keyed
import TypedClient.Proofs.Reference.Tokens
import TypedClient.Swagger.Convert

namespace TypedClient
namespace Swagger

/-! ## Upgrading maps -/

theorem upgradeFields_eq (fields : Keyed Json) :
    upgradeFields fields = Keyed.mapValues upgrade fields := by
  induction fields with
  | nil => rfl
  | cons field rest ih =>
    obtain ⟨key, value⟩ := field
    rw [upgradeFields, ih]
    rfl

/-- Every value of the map is an object. -/
def HoldsObjects (fields : Keyed Json) : Prop := ∀ field ∈ fields, ∃ inner, field.2 = .obj inner

/-- What is found in a map of objects is an object. -/
theorem HoldsObjects.get? {fields : Keyed Json} (h : HoldsObjects fields) {key : String}
    {value : Json} (hvalue : Keyed.get? key fields = some value) : ∃ inner, value = .obj inner :=
  h (key, value) (Keyed.mem_of_get? hvalue)

theorem HoldsObjects.mapValues {fields : Keyed Json} (h : HoldsObjects fields) {f : Json → Json}
    (hf : ∀ inner, ∃ outer, f (.obj inner) = .obj outer) :
    HoldsObjects (Keyed.mapValues f fields) := by
  intro field hfield
  obtain ⟨old, hold, rfl⟩ := List.mem_map.mp hfield
  obtain ⟨inner, hinner⟩ := h old hold
  rw [hinner]
  exact hf inner

/-- Renaming changes nothing when the reference stays as it is and neither keyword is there. -/
theorem renameFields_eq_self {fields : Keyed Json}
    (href : ∀ reference, Keyed.get? "$ref" fields = some (.str reference) →
      renameReference reference = reference)
    (hnullable : ∀ flag, Keyed.get? "x-nullable" fields ≠ some (.bool flag))
    (hfile : Keyed.get? "type" fields ≠ some (.str "file")) : renameFields fields = fields := by
  have href : renameRef fields = fields := by
    unfold renameRef
    split
    · next hvalue =>
      rw [href _ hvalue]
      exact Keyed.insert_of_get? hvalue
    · rfl
  have hnullable : renameNullable fields = fields := by
    unfold renameNullable
    split
    · next hvalue => exact absurd hvalue (hnullable _)
    · rfl
  have hfile : renameFile fields = fields := by
    unfold renameFile
    split
    · next hvalue => exact absurd hvalue hfile
    · rfl
  rw [renameFields, href, hnullable, hfile]

/-- In a map of objects there is nothing to rename. -/
theorem HoldsObjects.renameFields_eq {fields : Keyed Json} (h : HoldsObjects fields) :
    renameFields fields = fields := by
  have hobject : ∀ {key value}, Keyed.get? key fields = some value →
      ∃ inner, value = .obj inner := h.get?
  refine renameFields_eq_self (fun _ hvalue => ?_) (fun _ hvalue => ?_) fun hvalue => ?_
  · obtain ⟨inner, hinner⟩ := hobject hvalue
    cases hinner
  · obtain ⟨inner, hinner⟩ := hobject hvalue
    cases hinner
  · obtain ⟨inner, hinner⟩ := hobject hvalue
    cases hinner

/-- Upgrading a map of objects is upgrading its values. -/
theorem upgrade_of_holdsObjects {fields : Keyed Json} (h : HoldsObjects fields) :
    upgrade (.obj fields) = .obj (Keyed.mapValues upgrade fields) := by
  rw [upgrade, upgradeFields_eq, (h.mapValues fun inner => ⟨_, rfl⟩).renameFields_eq]

/-! ## Renaming in an object -/

section

variable {fields : Keyed Json} {key : String}

theorem get?_renameRef_of_ne (fields : Keyed Json) (hkey : key ≠ "$ref") :
    Keyed.get? key (renameRef fields) = Keyed.get? key fields := by
  unfold renameRef
  split
  · exact Keyed.get?_insert_of_ne _ _ hkey
  · rfl

theorem nodup_keys_renameRef (h : (Keyed.keys fields).Nodup) :
    (Keyed.keys (renameRef fields)).Nodup := by
  unfold renameRef
  split
  · exact Keyed.nodup_keys_insert h
  · exact h

theorem get?_renameNullable_of_ne (h : (Keyed.keys fields).Nodup) (hold : key ≠ "x-nullable")
    (hnew : key ≠ "nullable") :
    Keyed.get? key (renameNullable fields) = Keyed.get? key fields := by
  unfold renameNullable
  split
  · rw [Keyed.get?_insert_of_ne _ _ hnew, Keyed.get?_swapErase_of_ne h hold]
  · rfl

theorem nodup_keys_renameNullable (h : (Keyed.keys fields).Nodup) :
    (Keyed.keys (renameNullable fields)).Nodup := by
  unfold renameNullable
  split
  · exact Keyed.nodup_keys_insert (Keyed.nodup_keys_swapErase h)
  · exact h

theorem get?_renameFile_of_ne (fields : Keyed Json) (htype : key ≠ "type")
    (hformat : key ≠ "format") :
    Keyed.get? key (renameFile fields) = Keyed.get? key fields := by
  unfold renameFile
  split
  · rw [Keyed.get?_insert_of_ne _ _ hformat, Keyed.get?_insert_of_ne _ _ htype]
  · rfl

theorem nodup_keys_renameFile (h : (Keyed.keys fields).Nodup) :
    (Keyed.keys (renameFile fields)).Nodup := by
  unfold renameFile
  split
  · exact Keyed.nodup_keys_insert (Keyed.nodup_keys_insert h)
  · exact h

theorem nodup_keys_renameFields (h : (Keyed.keys fields).Nodup) :
    (Keyed.keys (renameFields fields)).Nodup :=
  nodup_keys_renameFile (nodup_keys_renameNullable (nodup_keys_renameRef h))

/-- Keys that upgrading an object may change. -/
def renamedKeys : List String := ["$ref", "x-nullable", "nullable", "type", "format"]

/-- Renaming changes nothing under any other key. -/
theorem get?_renameFields (h : (Keyed.keys fields).Nodup) (hkey : key ∉ renamedKeys) :
    Keyed.get? key (renameFields fields) = Keyed.get? key fields := by
  have hne : key ≠ "$ref" ∧ key ≠ "x-nullable" ∧ key ≠ "nullable" ∧ key ≠ "type" ∧
      key ≠ "format" := by simpa [renamedKeys] using hkey
  obtain ⟨href, hold, hnew, htype, hformat⟩ := hne
  rw [renameFields, get?_renameFile_of_ne _ htype hformat,
    get?_renameNullable_of_ne (nodup_keys_renameRef h) hold hnew, get?_renameRef_of_ne _ href]

theorem nodup_keys_upgradeFields (h : (Keyed.keys fields).Nodup) :
    (Keyed.keys (upgradeFields fields)).Nodup := by
  rw [upgradeFields_eq, Keyed.keys_mapValues]
  exact h

/-- Under a key that is not renamed an upgraded object has an upgraded value. -/
theorem get?_upgrade (h : (Keyed.keys fields).Nodup) (hkey : key ∉ renamedKeys) :
    Keyed.get? key (renameFields (upgradeFields fields)) = (Keyed.get? key fields).map upgrade := by
  rw [get?_renameFields (nodup_keys_upgradeFields h) hkey, upgradeFields_eq, Keyed.get?_mapValues]

end

/-! ## The outcome of a conversion -/

/-- What the operations of a document share. -/
def Context.of (root : Keyed Json) : Context where
  parameters := fieldsOf (Keyed.get? "parameters" root)
  consumes := (mediaTypes? (Keyed.get? "consumes" root)).getD defaultMediaTypes
  produces := (mediaTypes? (Keyed.get? "produces" root)).getD defaultMediaTypes

/-- The components of the outcome, told from the root of a document. -/
def componentsOf (root : Keyed Json) : Keyed Json :=
  components (Context.of root) (Keyed.get? "definitions" root) (Keyed.get? "responses" root)

/-- The extensions of a document, in the sequence that taking other fields out leaves them in. -/
def extensionsOf (root : Keyed Json) : Keyed Json :=
  (["parameters", "info", "tags", "externalDocs"].foldl
    (fun fields key => fields.swapErase key) root).filter (isExtension ·.1)

/-- The outcome for a root whose paths have been converted, before references and schemas are. -/
def outcomeOf (root paths : Keyed Json) : Keyed Json :=
  [("openapi", .str "3.0.3"),
    ("info", (Keyed.get? "info" root).getD (.obj [("title", .str ""), ("version", .str "")]))] ++
  fieldOf "servers" (servers? root) ++ fieldOf "tags" (Keyed.get? "tags" root) ++
  fieldOf "externalDocs" (Keyed.get? "externalDocs" root) ++ extensionsOf root ++
  [("paths", .obj paths)] ++
  if (componentsOf root).isEmpty then [] else [("components", .obj (componentsOf root))]

/-- The servers depend on three fields of the root. -/
theorem servers?_congr {root other : Keyed Json}
    (h : ∀ key ∈ ["basePath", "host", "schemes"], Keyed.get? key root = Keyed.get? key other) :
    servers? root = servers? other := by
  have hbasePath := h "basePath" (by decide)
  have hhost := h "host" (by decide)
  have hschemes := h "schemes" (by decide)
  simp only [servers?, hbasePath, hhost, hschemes]

/-- Conversion puts the outcome together from the fields of the root: that taking a field out moves
    another one shows in the sequence of the extensions only. -/
theorem convertRoot_eq {root : Keyed Json} (h : (Keyed.keys root).Nodup) :
    convertRoot root =
      (Context.of root).paths (Keyed.get? "paths" root) >>= fun paths =>
        .ok (outcomeOf root paths) := by
  have hparameters : ∀ key, key ∉ ["parameters"] →
      Keyed.get? key (root.swapErase "parameters") = Keyed.get? key root :=
    fun key hkey => Keyed.get?_removeAll h ["parameters"] hkey
  have hinfo : ∀ key, key ∉ ["parameters", "info"] →
      Keyed.get? key ((root.swapErase "parameters").swapErase "info") = Keyed.get? key root :=
    fun key hkey => Keyed.get?_removeAll h ["parameters", "info"] hkey
  have htags : ∀ key, key ∉ ["parameters", "info", "tags"] →
      Keyed.get? key (((root.swapErase "parameters").swapErase "info").swapErase "tags") =
        Keyed.get? key root :=
    fun key hkey => Keyed.get?_removeAll h ["parameters", "info", "tags"] hkey
  have hall : ∀ key, key ∉ ["parameters", "info", "tags", "externalDocs"] →
      Keyed.get? key ((((root.swapErase "parameters").swapErase "info").swapErase "tags").swapErase
        "externalDocs") = Keyed.get? key root :=
    fun key hkey => Keyed.get?_removeAll h ["parameters", "info", "tags", "externalDocs"] hkey
  have hservers : servers? ((root.swapErase "parameters").swapErase "info") = servers? root :=
    servers?_congr fun key hkey => hinfo key (by revert key; decide)
  unfold convertRoot takeField
  dsimp only
  rw [hservers, hparameters "info" (by decide), hparameters "consumes" (by decide),
    hparameters "produces" (by decide), hinfo "tags" (by decide), htags "externalDocs" (by decide),
    hall "paths" (by decide), hall "definitions" (by decide), hall "responses" (by decide)]
  rfl

theorem get?_fieldOf (key other : String) (value : Option Json) :
    Keyed.get? key (fieldOf other value) = if key = other then value else none := by
  cases value with
  | none => simp [fieldOf, Keyed.get?]
  | some value => exact Keyed.get?_singleton other key value

theorem keys_fieldOf_sublist (key : String) (value : Option Json) :
    (Keyed.keys (fieldOf key value)).Sublist [key] := by
  cases value with
  | none => exact List.nil_sublist _
  | some value => exact List.Sublist.refl _

theorem isExtension_of_mem {root : Keyed Json} {key : String}
    (h : key ∈ Keyed.keys (extensionsOf root)) : isExtension key = true := by
  obtain ⟨field, hfield, rfl⟩ := List.mem_map.mp h
  exact (List.mem_filter.mp hfield).2

/-- Keys of the outcome before those of extensions. -/
def frontKeys : List String := ["openapi", "info", "servers", "tags", "externalDocs"]

/-- Keys of the outcome after those of extensions. -/
def backKeys : List String := ["paths", "components"]

/-- A field that is missing leaves its key out. -/
theorem keys_outcomeOf_sublist (root paths : Keyed Json) :
    (Keyed.keys (outcomeOf root paths)).Sublist
      (frontKeys ++ Keyed.keys (extensionsOf root) ++ backKeys) := by
  have hcomponents : (Keyed.keys (if (componentsOf root).isEmpty then []
      else [("components", Json.obj (componentsOf root))])).Sublist ["components"] := by
    split
    · exact List.nil_sublist _
    · exact List.Sublist.refl _
  have hsublist : (Keyed.keys (outcomeOf root paths)).Sublist
      (frontKeys ++ Keyed.keys (extensionsOf root) ++ ["paths"] ++ ["components"]) := by
    unfold outcomeOf
    simp only [Keyed.keys, List.map_append]
    exact (((((List.Sublist.refl _).append (keys_fieldOf_sublist ..)).append
      (keys_fieldOf_sublist ..)).append (keys_fieldOf_sublist ..)).append
        (List.Sublist.refl _)).append (List.Sublist.refl _) |>.append hcomponents
  rw [List.append_assoc] at hsublist
  exact hsublist

/-- The outcome has distinct keys: its own ones, and those of extensions. -/
theorem nodup_keys_outcomeOf {root : Keyed Json} (h : (Keyed.keys root).Nodup)
    (paths : Keyed Json) : (Keyed.keys (outcomeOf root paths)).Nodup := by
  have hextensions : (Keyed.keys (extensionsOf root)).Nodup :=
    (Keyed.nodup_keys_removeAll h _).sublist (List.filter_sublist.map _)
  have hown : ∀ key ∈ frontKeys ++ backKeys, key ∉ Keyed.keys (extensionsOf root) := by
    intro key hkey hmem
    have hplain : ∀ key ∈ frontKeys ++ backKeys, isExtension key = false := by decide
    have hextension := isExtension_of_mem hmem
    rw [hplain key hkey] at hextension
    cases hextension
  have hfront : (frontKeys ++ Keyed.keys (extensionsOf root)).Nodup := by
    refine List.nodup_append.mpr ⟨by decide, hextensions, ?_⟩
    intro key hkey other hother heq
    exact hown key (List.mem_append_left _ hkey) (heq ▸ hother)
  have hall : (frontKeys ++ Keyed.keys (extensionsOf root) ++ backKeys).Nodup := by
    refine List.nodup_append.mpr ⟨hfront, by decide, ?_⟩
    intro key hkey other hother heq
    rcases List.mem_append.mp hkey with hkey | hkey
    · have hapart : ∀ key ∈ frontKeys, ∀ other ∈ backKeys, key ≠ other := by decide
      exact hapart key hkey other hother heq
    · exact hown other (List.mem_append_right _ hother) (heq ▸ hkey)
  exact hall.sublist (keys_outcomeOf_sublist root paths)

/-- Every key of the outcome is one of its own, or that of an extension. -/
theorem mem_keys_outcomeOf {root paths : Keyed Json} {key : String}
    (h : key ∈ Keyed.keys (outcomeOf root paths)) :
    key ∈ frontKeys ++ backKeys ∨ isExtension key = true := by
  rcases List.mem_append.mp ((keys_outcomeOf_sublist root paths).subset h) with hkey | hback
  · rcases List.mem_append.mp hkey with hfront | hextension
    · exact Or.inl (List.mem_append_left _ hfront)
    · exact Or.inr (isExtension_of_mem hextension)
  · exact Or.inl (List.mem_append_right _ hback)

/-! ## Sections -/

/-- The sections of a document that references lead into. -/
inductive Section where
  | definitions
  | parameters
  | responses
  deriving DecidableEq, Repr

namespace Section

/-- The key of a section in a document. -/
def key : Section → String
  | .definitions => "definitions"
  | .parameters => "parameters"
  | .responses => "responses"

/-- The key of a section among the components of the outcome. -/
def component : Section → String
  | .definitions => "schemas"
  | .parameters => "parameters"
  | .responses => "responses"

/-- The start of references to the members of a section. -/
def start : Section → String
  | .definitions => "#/definitions/"
  | .parameters => "#/parameters/"
  | .responses => "#/responses/"

/-- The start of references to the members of a section of the outcome. -/
def movedStart : Section → String
  | .definitions => "#/components/schemas/"
  | .parameters => "#/components/parameters/"
  | .responses => "#/components/responses/"

/-- What a member becomes before references and schemas are upgraded. -/
def convertMember (produces : List String) : Section → Json → Json
  | .definitions, value => value
  | .parameters, value => convertParameter value
  | .responses, value => convertResponse produces value

/-- Does the member stay in its section?  A body and a form field move into operations. -/
def keeps : Section → Json → Bool
  | .parameters, value => !isBody value && !isFormField value
  | _, _ => true

/-- The members of a section of the outcome, before references and schemas are upgraded. -/
def membersOf (kind : Section) (root : Keyed Json) : Keyed Json :=
  Keyed.mapValues (kind.convertMember (Context.of root).produces)
    ((fieldsOf (Keyed.get? kind.key root)).filter fun member => kind.keeps member.2)

/-- What the outcome holds for a section, before references and schemas are upgraded. -/
def value? (kind : Section) (root : Keyed Json) : Option Json :=
  match kind with
  | .definitions => Keyed.get? kind.key root
  | .parameters =>
    if (kind.membersOf root).isEmpty then none else some (.obj (kind.membersOf root))
  | .responses => ((Keyed.get? kind.key root).bind Json.asObject?).map fun responses =>
    .obj (convertResponses (Context.of root).produces responses)

end Section

/-- In the root every section that is there is a map of objects. -/
def HoldsSections (root : Keyed Json) : Prop :=
  ∀ (kind : Section) (value : Json), Keyed.get? kind.key root = some value →
    ∃ members, value = .obj members ∧ HoldsObjects members

section

variable {root : Keyed Json} {kind : Section}

/-- A member that stays in its section is there in the outcome, converted. -/
theorem get?_membersOf {name : String} {member : Json}
    (h : Keyed.get? name (fieldsOf (Keyed.get? kind.key root)) = some member)
    (hkeeps : kind.keeps member = true) :
    Keyed.get? name (kind.membersOf root) =
      some (kind.convertMember (Context.of root).produces member) := by
  have hkept : Keyed.get? name ((fieldsOf (Keyed.get? kind.key root)).filter
      fun member => kind.keeps member.2) = some member := Keyed.get?_filter h hkeeps
  rw [Section.membersOf, Keyed.get?_mapValues, hkept]
  rfl

/-- A converted member is an object. -/
theorem convertMember_obj (produces : List String) (kind : Section) (fields : Keyed Json) :
    ∃ converted, kind.convertMember produces (.obj fields) = .obj converted := by
  cases kind with
  | definitions => exact ⟨fields, rfl⟩
  | parameters => exact ⟨_, rfl⟩
  | responses =>
    simp only [Section.convertMember, convertResponse]
    split
    · exact ⟨fields, rfl⟩
    · exact ⟨_, rfl⟩

theorem holdsObjects_membersOf (h : HoldsSections root) (kind : Section) :
    HoldsObjects (kind.membersOf root) := by
  have hmembers : HoldsObjects (fieldsOf (Keyed.get? kind.key root)) := by
    cases hvalue : Keyed.get? kind.key root with
    | none => exact fun _ hmem => by cases hmem
    | some value =>
      obtain ⟨members, rfl, hmembers⟩ := h kind value hvalue
      exact hmembers
  have hkept : HoldsObjects ((fieldsOf (Keyed.get? kind.key root)).filter
      fun member => kind.keeps member.2) :=
    fun member hmem => hmembers member (List.mem_filter.mp hmem).1
  exact hkept.mapValues (convertMember_obj _ kind)

theorem membersOf_definitions (root : Keyed Json) :
    Section.definitions.membersOf root = fieldsOf (Keyed.get? "definitions" root) := by
  have hall : (fieldsOf (Keyed.get? "definitions" root)).filter
      (fun member => Section.definitions.keeps member.2) =
        fieldsOf (Keyed.get? "definitions" root) := List.filter_eq_self.mpr fun _ _ => rfl
  exact (congrArg _ hall).trans (List.map_id _)

theorem membersOf_responses (root : Keyed Json) :
    Section.responses.membersOf root = convertResponses (Context.of root).produces
      (fieldsOf (Keyed.get? "responses" root)) := by
  have hall : (fieldsOf (Keyed.get? "responses" root)).filter
      (fun member => Section.responses.keeps member.2) =
        fieldsOf (Keyed.get? "responses" root) := List.filter_eq_self.mpr fun _ _ => rfl
  exact congrArg _ hall

/-- A section that is an object and has members is an object of them. -/
theorem value?_of_obj {members : Keyed Json} (h : Keyed.get? kind.key root = some (.obj members))
    (hne : kind.membersOf root ≠ []) : kind.value? root = some (.obj (kind.membersOf root)) := by
  cases kind with
  | definitions =>
    rw [membersOf_definitions]
    show Keyed.get? "definitions" root = some (.obj (fieldsOf (Keyed.get? "definitions" root)))
    have h : Keyed.get? "definitions" root = some (.obj members) := h
    rw [h]
    rfl
  | parameters =>
    have hempty : ¬ (Section.parameters.membersOf root).isEmpty = true :=
      fun hempty => hne (List.isEmpty_iff.mp hempty)
    exact if_neg hempty
  | responses =>
    rw [membersOf_responses]
    unfold Section.value?
    dsimp only
    have hresponses : Keyed.get? "responses" root = some (.obj members) := h
    rw [h, hresponses]
    rfl

/-- A section that has members is an object of them. -/
theorem value?_eq (h : HoldsSections root) (hne : kind.membersOf root ≠ []) :
    kind.value? root = some (.obj (kind.membersOf root)) := by
  cases hvalue : Keyed.get? kind.key root with
  | none => exact absurd (by rw [Section.membersOf, hvalue]; rfl) hne
  | some value =>
    obtain ⟨members, rfl, -⟩ := h kind value hvalue
    exact value?_of_obj hvalue hne

/-- The components are the sections of the outcome. -/
theorem componentsOf_eq (root : Keyed Json) :
    componentsOf root = fieldOf Section.definitions.component (Section.definitions.value? root) ++
      fieldOf Section.parameters.component (Section.parameters.value? root) ++
      fieldOf Section.responses.component (Section.responses.value? root) := by
  have hparameters : (if (Section.parameters.membersOf root).isEmpty then []
      else [("parameters", Json.obj (Section.parameters.membersOf root))]) =
        fieldOf "parameters" (Section.parameters.value? root) := by
    unfold Section.value?
    dsimp only
    split <;> rfl
  change _ = _ ++ fieldOf "parameters" (Section.parameters.value? root) ++ _
  rw [← hparameters]
  rfl

theorem get?_componentsOf (root : Keyed Json) (kind : Section) :
    Keyed.get? kind.component (componentsOf root) = kind.value? root := by
  rw [componentsOf_eq, Keyed.get?_append, Keyed.get?_append, get?_fieldOf, get?_fieldOf,
    get?_fieldOf]
  cases kind <;> simp [Section.component]

theorem mem_fieldOf {key : String} {value : Option Json} {field : String × Json}
    (h : field ∈ fieldOf key value) : value = some field.2 := by
  cases value with
  | none => cases h
  | some value => rw [List.mem_singleton.mp h]

/-- What the outcome holds for a section is an object. -/
theorem value?_obj (h : HoldsSections root) {value : Json} (hvalue : kind.value? root = some value) :
    ∃ members, value = .obj members := by
  cases kind with
  | definitions =>
    obtain ⟨members, rfl, -⟩ := h .definitions value hvalue
    exact ⟨members, rfl⟩
  | parameters =>
    unfold Section.value? at hvalue
    dsimp only at hvalue
    split at hvalue
    · cases hvalue
    · exact ⟨_, (Option.some.inj hvalue).symm⟩
  | responses =>
    obtain ⟨members, -, rfl⟩ := Option.map_eq_some_iff.mp hvalue
    exact ⟨_, rfl⟩

theorem holdsObjects_componentsOf (h : HoldsSections root) :
    HoldsObjects (componentsOf root) := by
  intro field hfield
  rw [componentsOf_eq] at hfield
  rcases List.mem_append.mp hfield with hfield | hfield
  · rcases List.mem_append.mp hfield with hfield | hfield
    · exact value?_obj h (mem_fieldOf hfield)
    · exact value?_obj h (mem_fieldOf hfield)
  · exact value?_obj h (mem_fieldOf hfield)

end

/-! ## References -/

theorem afterStart?_append (start text : String) : afterStart? start (start ++ text) = some text := by
  have hstart : start.toList.isPrefixOf (start ++ text).toList = true := by
    rw [String.toList_append, List.isPrefixOf_iff_prefix]
    exact List.prefix_append ..
  rw [afterStart?, if_pos hstart, String.toList_append, List.drop_left, String.ofList_toList]

/-- Renaming a reference moves it to the components, however its token is spelled. -/
theorem renameReference_start (kind : Section) (token : String) :
    renameReference (kind.start ++ token) = kind.movedStart ++ token := by
  unfold renameReference referencePrefixes
  cases kind with
  | definitions =>
    simp only [Section.start, List.findSome?_cons, afterStart?_append, Option.map_some]
    rfl
  | parameters =>
    have hdefinitions : afterStart? "#/definitions/" ("#/parameters/" ++ token) = none := by
      simp [afterStart?]
    simp only [Section.start, List.findSome?_cons, hdefinitions, afterStart?_append,
      Option.map_none, Option.map_some]
    rfl
  | responses =>
    have hdefinitions : afterStart? "#/definitions/" ("#/responses/" ++ token) = none := by
      simp [afterStart?]
    have hparameters : afterStart? "#/parameters/" ("#/responses/" ++ token) = none := by
      simp [afterStart?]
    simp only [Section.start, List.findSome?_cons, hdefinitions, hparameters, afterStart?_append,
      Option.map_none, Option.map_some]
    rfl

/-- The tokens of a reference are those of the text after its `#/`. -/
theorem tokens_of_toList {reference : String} {rest : List Char}
    (h : reference.toList = '#' :: '/' :: rest) :
    Reference.tokens reference = (Reference.splitSlashes rest).map Reference.decodeSegment := by
  unfold Reference.tokens
  rw [h]
  change (List.drop 1 (Reference.splitSlashes ('/' :: rest))).map _ = _
  rw [Reference.splitSlashes_slash]
  rfl

/-- The tokens of a reference that starts with a section. -/
theorem tokens_start {kind : Section} {token : String} (h : '/' ∉ token.toList) :
    Reference.tokens (kind.start ++ token) =
      [kind.key, Reference.decodeSegment token.toList] := by
  have hlist : (kind.start ++ token).toList =
      '#' :: '/' :: (kind.key.toList ++ '/' :: token.toList) := by
    cases kind <;> simp [Section.start, Section.key]
  have hkey : '/' ∉ kind.key.toList := by cases kind <;> decide
  have hdecode : Reference.decodeSegment kind.key.toList = kind.key := by
    cases kind <;> decide +kernel
  rw [tokens_of_toList hlist, Reference.splitSlashes_append hkey,
    Reference.splitSlashes_of_not_mem h, List.map_cons, List.map_cons, List.map_nil, hdecode]

/-- The tokens of a reference that starts with a section of the outcome. -/
theorem tokens_movedStart {kind : Section} {token : String} (h : '/' ∉ token.toList) :
    Reference.tokens (kind.movedStart ++ token) =
      ["components", kind.component, Reference.decodeSegment token.toList] := by
  have hlist : (kind.movedStart ++ token).toList = '#' :: '/' ::
      ("components".toList ++ '/' :: (kind.component.toList ++ '/' :: token.toList)) := by
    cases kind <;> simp [Section.movedStart, Section.component]
  have hcomponents : '/' ∉ "components".toList := by decide
  have hcomponent : '/' ∉ kind.component.toList := by cases kind <;> decide
  have hdecode : Reference.decodeSegment "components".toList = "components" := by decide +kernel
  have hdecode' : Reference.decodeSegment kind.component.toList = kind.component := by
    cases kind <;> decide +kernel
  rw [tokens_of_toList hlist, Reference.splitSlashes_append hcomponents,
    Reference.splitSlashes_append hcomponent, Reference.splitSlashes_of_not_mem h, List.map_cons,
    List.map_cons, List.map_cons, List.map_nil, hdecode, hdecode']

/-- A reference to a member of a section leads to it. -/
theorem resolve_start {root : Keyed Json} {kind : Section} {token : String}
    (hsections : HoldsSections root) (h : '/' ∉ token.toList) :
    Reference.resolve (.obj root) (kind.start ++ token) =
      Keyed.get? (Reference.decodeSegment token.toList)
        (fieldsOf (Keyed.get? kind.key root)) := by
  have hinternal : Reference.isInternal (kind.start ++ token) = true := by
    cases kind <;> simp [Reference.isInternal, Section.start]
  rw [Reference.resolve, if_pos hinternal, tokens_start h]
  simp only [Reference.follow, Reference.step]
  cases hvalue : Keyed.get? kind.key root with
  | none => rfl
  | some value =>
    obtain ⟨members, rfl, -⟩ := hsections kind value hvalue
    simp [fieldsOf, Json.asObject?]

/-- The outcome has the components, if there are any. -/
theorem get?_outcomeOf_components {root : Keyed Json} (hroot : (Keyed.keys root).Nodup)
    (hne : componentsOf root ≠ []) (paths : Keyed Json) :
    Keyed.get? "components" (outcomeOf root paths) = some (.obj (componentsOf root)) := by
  refine Keyed.get?_of_mem (nodup_keys_outcomeOf hroot paths) (List.mem_append_right _ ?_)
  rw [if_neg fun hempty => hne (List.isEmpty_iff.mp hempty)]
  exact List.mem_singleton.mpr rfl

/-- The components of the outcome, upgraded, are found under their key. -/
theorem get?_components_outcomeOf {root : Keyed Json} (hroot : (Keyed.keys root).Nodup)
    (hne : componentsOf root ≠ []) (paths : Keyed Json) :
    Keyed.get? "components" (renameFields (upgradeFields (outcomeOf root paths))) =
      some (upgrade (.obj (componentsOf root))) := by
  rw [get?_upgrade (nodup_keys_outcomeOf hroot paths) (by decide),
    get?_outcomeOf_components hroot hne, Option.map_some]

/-- In the outcome a reference leads to a member of a section, upgraded. -/
theorem resolve_movedStart {root paths : Keyed Json} {kind : Section} {token : String}
    (hroot : (Keyed.keys root).Nodup) (hsections : HoldsSections root)
    (h : '/' ∉ token.toList) {member : Json}
    (hmember : Keyed.get? (Reference.decodeSegment token.toList) (kind.membersOf root) =
      some member) :
    Reference.resolve (upgrade (.obj (outcomeOf root paths))) (kind.movedStart ++ token) =
      some (upgrade member) := by
  have hinternal : Reference.isInternal (kind.movedStart ++ token) = true := by
    cases kind <;> simp [Reference.isInternal, Section.movedStart]
  have hne : kind.membersOf root ≠ [] := by
    intro hempty
    rw [hempty] at hmember
    cases hmember
  have hsection : Keyed.get? kind.component (componentsOf root) =
      some (.obj (kind.membersOf root)) :=
    (get?_componentsOf root kind).trans (value?_eq hsections hne)
  have hcomponents : componentsOf root ≠ [] := by
    intro hempty
    rw [hempty] at hsection
    cases hsection
  rw [Reference.resolve, if_pos hinternal, tokens_movedStart h, upgrade]
  simp only [Reference.follow, Reference.step,
    get?_components_outcomeOf hroot hcomponents, Option.bind_some,
    upgrade_of_holdsObjects (holdsObjects_componentsOf hsections), Keyed.get?_mapValues,
    hsection, Option.map_some, upgrade_of_holdsObjects (holdsObjects_membersOf hsections kind),
    hmember]

/-- A converted document is its outcome, upgraded. -/
theorem convert_eq_ok {root : Keyed Json} (h : (Keyed.keys root).Nodup) {output : Json}
    (hconvert : convert (.obj root) = .ok output) :
    ∃ paths, output = upgrade (.obj (outcomeOf root paths)) := by
  change (convertRoot root >>= fun root => .ok (upgrade (.obj root))) = _ at hconvert
  rw [convertRoot_eq h] at hconvert
  cases hpaths : (Context.of root).paths (Keyed.get? "paths" root) with
  | error e =>
    rw [hpaths] at hconvert
    cases hconvert
  | ok paths =>
    rw [hpaths] at hconvert
    exact ⟨paths, (Except.ok.inj hconvert).symm⟩

/-- Conversion keeps references meaningful.  In a document whose sections are maps of objects, take
    a reference to a member of a section, in whatever spelling, that leads to `value`.  When the
    member stays in its section, the renamed reference leads in the outcome to what the conversion
    and the upgrade of `value` are. -/
theorem convert_keeps_references {root : Keyed Json} {output value : Json} {kind : Section}
    {token : String} (hdistinct : (Keyed.keys root).Nodup)
    (hconvert : convert (.obj root) = .ok output) (hsections : HoldsSections root)
    (htoken : '/' ∉ token.toList)
    (hvalue : Reference.resolve (.obj root) (kind.start ++ token) = some value)
    (hkeeps : kind.keeps value = true) :
    Reference.resolve output (renameReference (kind.start ++ token)) =
      some (upgrade (kind.convertMember (Context.of root).produces value)) := by
  obtain ⟨paths, rfl⟩ := convert_eq_ok hdistinct hconvert
  rw [resolve_start hsections htoken] at hvalue
  have hmember := get?_membersOf hvalue hkeeps
  rw [renameReference_start]
  exact resolve_movedStart hdistinct hsections htoken hmember

/-- A document with a definition and a response whose keys need an escape in a reference. -/
def escapedKeys : Keyed Json := [
  ("swagger", .str "2.0"),
  ("produces", .arr [.str "text/plain"]),
  ("paths", .obj []),
  ("definitions", .obj [("a/b", .obj [("type", .str "file"), ("x-nullable", .bool true)])]),
  ("responses", .obj [("Not Found",
    .obj [("schema", .obj [("$ref", .str "#/definitions/a~1b")])])])]

theorem escapedKeys_keep_references :
    ∃ output, convert (.obj escapedKeys) = .ok output ∧
      Reference.resolve output (renameReference "#/definitions/a~1b") = some (.obj
        [("type", .str "string"), ("nullable", .bool true), ("format", .str "binary")]) ∧
      Reference.resolve output (renameReference "#/responses/Not%20Found") = some (.obj
        [("description", .str ""), ("content", .obj [("text/plain",
          .obj [("schema", .obj [("$ref", .str "#/components/schemas/a~1b")])])])]) := by
  obtain ⟨output, houtput⟩ : ∃ output, convert (.obj escapedKeys) = .ok output := ⟨_, rfl⟩
  have hdistinct : (Keyed.keys escapedKeys).Nodup := by decide
  have hsections : HoldsSections escapedKeys := by
    intro kind value hvalue
    cases kind with
    | definitions => exact ⟨_, (Option.some.inj hvalue).symm, by simp [HoldsObjects]⟩
    | parameters => cases hvalue
    | responses => exact ⟨_, (Option.some.inj hvalue).symm, by simp [HoldsObjects]⟩
  -- The escapes are read back, and the members are found under their keys.
  have hslash : Reference.decodeSegment "a~1b".toList = "a/b" := by decide +kernel
  have hspace : Reference.decodeSegment "Not%20Found".toList = "Not Found" := by decide +kernel
  have hfile : Reference.resolve (.obj escapedKeys) (Section.definitions.start ++ "a~1b") =
      some (.obj [("type", .str "file"), ("x-nullable", .bool true)]) := by
    rw [resolve_start hsections (by decide), hslash]
    rfl
  have hmissing : Reference.resolve (.obj escapedKeys) (Section.responses.start ++ "Not%20Found") =
      some (.obj [("schema", .obj [("$ref", .str "#/definitions/a~1b")])]) := by
    rw [resolve_start hsections (by decide), hspace]
    rfl
  have hdefinition :=
    convert_keeps_references hdistinct houtput hsections (by decide) hfile rfl
  have hresponse :=
    convert_keeps_references hdistinct houtput hsections (by decide) hmissing rfl
  exact ⟨output, houtput, hdefinition, hresponse⟩

end Swagger
end TypedClient
