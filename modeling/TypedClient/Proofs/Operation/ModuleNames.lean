/-
  TypedClient.Proofs.Operation.ModuleNames

  The names at the top of a generated module: of the declarations, of the imports and of the
  client.  The registry keeps the declarations apart from each other, and none is the function that
  makes a client.  Nothing keeps them apart from the imports and from the types of the client, and
  nothing sees to it that their names are identifiers.
-/
import TypedClient.Generate
import TypedClient.Proofs.Operation.CallNames
import TypedClient.Proofs.Registry.Consistency

namespace TypedClient

/-! ## Declarations -/

namespace Registry

variable {registry : Registry} {document : Json} {fuel : Nat} {spelling : Spelling}
  {declarations : List Declaration}

/-- The declaration of an entry, unless it has no fragment. -/
def declaration? (registry : Registry) (document : Json) (fuel : Nat) (spelling : Spelling)
    (entry : String × Entry) : Option (Option Declaration) :=
  (registry.fragmentOf document fuel entry).map (Option.map (declarationOf spelling entry))

/-- The declarations of all entries that have a fragment, in order. -/
def declarations? (registry : Registry) (document : Json) (fuel : Nat) (spelling : Spelling) :
    Option (List Declaration) :=
  (registry.entries.mapM (registry.declaration? document fuel spelling)).map (·.filterMap id)

theorem declare?_eq_map (entry : String × Entry) : registry.declare? document fuel spelling entry =
    (registry.declaration? document fuel spelling entry).map (Option.map spelling.declaration) := by
  unfold declare? declaration?
  cases registry.fragmentOf document fuel entry with
  | none => rfl
  | some fragment => cases fragment <;> rfl

/-- What is written for the entries is the texts of their declarations. -/
theorem declareAll_eq_map : registry.declareAll document fuel spelling =
    (registry.declarations? document fuel spelling).map (List.map spelling.declaration) := by
  unfold declareAll declarations?
  rw [mapM_congr fun entry _ => declare?_eq_map entry, mapM_map_answers]
  cases registry.entries.mapM (registry.declaration? document fuel spelling) with
  | none => rfl
  | some answers =>
    refine congrArg some ?_
    rw [List.filterMap_map, List.map_filterMap]
    rfl

theorem sublist_keys_of_forall₂ {entries : Keyed Entry} {answers : List (Option Declaration)}
    (h : List.Forall₂ (fun entry answer => ∀ declaration, answer = some declaration →
      declaration.name = entry.1) entries answers) :
    ((answers.filterMap id).map (·.name)).Sublist (Keyed.keys entries) := by
  induction h with
  | nil => exact .slnil
  | @cons entry answer entries answers hname _ ih =>
    cases answer with
    | none => exact ih.cons _
    | some declaration =>
      rw [List.filterMap_cons_some (by rfl), List.map_cons, hname declaration rfl]
      exact ih.cons_cons _

/-- The names that are declared are among the names of the entries, in order. -/
theorem sublist_names (h : registry.declarations? document fuel spelling = some declarations) :
    (declarations.map (·.name)).Sublist registry.names := by
  obtain ⟨answers, hanswers, rfl⟩ := Option.map_eq_some_iff.mp h
  refine sublist_keys_of_forall₂ ((mapM_eq_some_iff.mp hanswers).imp ?_)
  rintro entry answer hanswer declaration rfl
  obtain ⟨fragment, -, hfragment⟩ := Option.map_eq_some_iff.mp hanswer
  obtain ⟨fragment, -, rfl⟩ := Option.map_eq_some_iff.mp hfragment
  rfl

end Registry

/-- The text exports a class, an interface or another type with the name. -/
def Exports (text name : String) : Prop :=
  ∃ comment keyword rest, keyword ∈ ["class", "interface", "type"] ∧
    text = comment ++ "export " ++ keyword ++ " " ++ name ++ " " ++ rest

theorem exports_declaration (flavor : Flavor) (declaration : Declaration) :
    Exports (flavor.spelling.declaration declaration) declaration.name := by
  cases flavor with
  | schema =>
    have hclass : ∃ body, RuntimeSchemas.declaration declaration =
        Text.comment declaration.description ++ "export class " ++ declaration.name ++
          " extends " ++ body := by
      unfold RuntimeSchemas.declaration
      dsimp only
      split
      · exact ⟨_, by simp only [String.append_assoc]; rfl⟩
      · exact ⟨_, by simp only [String.append_assoc]; rfl⟩
    obtain ⟨body, hbody⟩ := hclass
    refine ⟨Text.comment declaration.description, "class", "extends " ++ body, by simp, ?_⟩
    refine Eq.trans hbody ?_
    simp only [String.append_assoc]
    rfl
  | types =>
    change Exports (PlainTypes.declaration declaration) declaration.name
    unfold PlainTypes.declaration
    split
    · refine ⟨Text.comment declaration.description, "interface", declaration.source, by simp, ?_⟩
      simp only [String.append_assoc]
      rfl
    · refine ⟨Text.comment declaration.description, "type", "= " ++ declaration.source, by simp, ?_⟩
      simp only [String.append_assoc]
      rfl

/-- A generated module has the texts of the declarations of a registry that calls lead to. -/
theorem exists_declarations {document : Json} {fuel : Nat} {options : Options} {code : String}
    (h : generateWithin fuel document options = some code) : ∃ operations registry declarations,
      Operation.extractAll document fuel .empty = some (operations, registry) ∧
      registry.declarations? document fuel options.flavor.spelling = some declarations ∧
      code = moduleSource options
        (declarations.map options.flavor.spelling.declaration) operations := by
  obtain ⟨⟨operations, registry⟩, hextract, h⟩ := Option.bind_eq_some_iff.mp h
  obtain ⟨texts, htexts, h⟩ := Option.bind_eq_some_iff.mp h
  rw [Registry.declareAll_eq_map] at htexts
  obtain ⟨declarations, hdeclarations, rfl⟩ := Option.map_eq_some_iff.mp htexts
  exact ⟨operations, registry, declarations, hextract, hdeclarations, (Option.some.inj h).symm⟩

/-! ## The other names -/

/-- The names that an import binds. -/
def Import.localNames (statement : Import) : List String :=
  match statement.binding with
  | .module localName => [localName]
  | .names items => items.map fun item => item.localName.getD item.name

/-- The names that the imports of a flavor bind. -/
def Flavor.importedNames (flavor : Flavor) : List String :=
  flavor.words.imports.flatMap Import.localNames

namespace Options

/-- The types of a client and of its errors. -/
def clientTypes (options : Options) : List String :=
  [options.name, options.name ++ "Error", options.name ++ "ErrorImpl"]

/-- The name is imported, or a type of the client has it. -/
def Takes (options : Options) (name : String) : Prop :=
  name ∈ options.flavor.importedNames ∨ name ∈ options.clientTypes

/-- The client has names of its own. -/
structure Apart (options : Options) : Prop where
  make : options.name ≠ "make"
  client : options.name ∉ options.flavor.importedNames
  error : options.name ++ "Error" ∉ options.flavor.importedNames

end Options

/-- A text that does not end in the suffix is not put together with it. -/
theorem ne_append_of_not_isSuffixOf {text suffix : String}
    (h : suffix.toList.isSuffixOf text.toList = false) (name : String) : text ≠ name ++ suffix := by
  rintro rfl
  rw [String.toList_append] at h
  have hsuffix : suffix.toList.isSuffixOf (name.toList ++ suffix.toList) = true :=
    List.isSuffixOf_iff_suffix.mpr (List.suffix_append ..)
  rw [hsuffix] at h
  cases h

theorem ne_append_self {suffix : String} (h : suffix.length ≠ 0) (name : String) :
    name ≠ name ++ suffix := by
  intro heq
  have hlength := congrArg String.length heq
  rw [String.length_append] at hlength
  omega

/-- The imports are kept apart from each other and from the one kind of name with a suffix that
    none of them has. -/
theorem Flavor.importedNames_apart (flavor : Flavor) : flavor.importedNames.Nodup ∧
    "make" ∉ flavor.importedNames ∧
      ∀ name ∈ flavor.importedNames, ∀ client, name ≠ client ++ "ErrorImpl" := by
  have hsuffix : ∀ name ∈ flavor.importedNames,
      "ErrorImpl".toList.isSuffixOf name.toList = false := by cases flavor <;> decide +kernel
  refine ⟨by cases flavor <;> decide +kernel, by cases flavor <;> decide +kernel, ?_⟩
  exact fun name hname client => ne_append_of_not_isSuffixOf (hsuffix name hname) client

/-- The imports, the function that makes the client and the types of the client are kept apart just
    when the client has names of its own. -/
theorem nodup_otherNames_iff (options : Options) :
    (options.flavor.importedNames ++ "make" :: options.clientTypes).Nodup ↔ options.Apart := by
  obtain ⟨hnodup, hmake, himpl⟩ := options.flavor.importedNames_apart
  have herror : "make" ≠ options.name ++ "Error" :=
    ne_append_of_not_isSuffixOf (by decide +kernel) _
  have himplMake : "make" ≠ options.name ++ "ErrorImpl" :=
    ne_append_of_not_isSuffixOf (by decide +kernel) _
  unfold Options.clientTypes
  rw [List.nodup_append]
  constructor
  · rintro ⟨-, hclient, hdisjoint⟩
    refine ⟨fun h => ?_, fun h => ?_, fun h => ?_⟩
    · rw [h] at hclient
      simp at hclient
    · exact hdisjoint _ h _ (by simp) rfl
    · exact hdisjoint _ h _ (by simp) rfl
  · rintro ⟨hname, hclient, hclientError⟩
    refine ⟨hnodup, ?_, ?_⟩
    · have hclientError : options.name ≠ options.name ++ "Error" := ne_append_self (by decide) _
      have hclientImpl : options.name ≠ options.name ++ "ErrorImpl" := ne_append_self (by decide) _
      simp [herror, himplMake, hclientError, hclientImpl, Ne.symm hname]
    · intro name hmem other hother heq
      subst heq
      simp only [List.mem_cons, List.not_mem_nil, or_false] at hother
      rcases hother with rfl | rfl | rfl | rfl
      · exact hmake hmem
      · exact hclient hmem
      · exact hclientError hmem
      · exact himpl _ hmem _ rfl

/-! ## Hygiene -/

/-- The names of the declarations are identifiers, and nothing in the module has a name twice. -/
structure Hygienic (options : Options) (declared : List String) : Prop where
  identifiers : ∀ name ∈ declared, Text.isIdentifier name = true
  distinct : (declared ++ (options.flavor.importedNames ++ "make" :: options.clientTypes)).Nodup

/-- The names of a generated module are hygienic just when the client has names of its own, no
    declaration is misnamed, and none has a name that is taken.  Two declarations never have the
    same name, and none is the function that makes the client. -/
theorem moduleNames_hygienic_iff {document : Json} {fuel : Nat} {options : Options} {code : String}
    (h : generateWithin fuel document options = some code) : ∃ operations registry declarations,
      Operation.extractAll document fuel .empty = some (operations, registry) ∧
      registry.declarations? document fuel options.flavor.spelling = some declarations ∧
      code = moduleSource options
        (declarations.map options.flavor.spelling.declaration) operations ∧
      (∀ declaration ∈ declarations,
        Exports (options.flavor.spelling.declaration declaration) declaration.name) ∧
      (declarations.map (·.name)).Nodup ∧ "make" ∉ declarations.map (·.name) ∧
      (Hygienic options (declarations.map (·.name)) ↔ options.Apart ∧
        ∀ declaration ∈ declarations, ¬ Operation.Misnamed document declaration.name ∧
          ¬ options.Takes declaration.name) := by
  obtain ⟨operations, registry, declarations, hextract, hdeclarations, hcode⟩ :=
    exists_declarations h
  have hadds := Registry.adds_of_addAll (Operation.extractAll_reads hextract).2
  have hsublist := Registry.sublist_names hdeclarations
  have hnodup : (declarations.map (·.name)).Nodup := hsublist.nodup hadds.consistent.names
  have hroots : ∀ name ∈ declarations.map (·.name), ∃ root,
      Registry.RootName document (Operation.calls document) root ∧
        Registry.NamedUnder root name :=
    fun name hname => hadds.namedUnder (hsublist.subset hname)
  have hmake : "make" ∉ declarations.map (·.name) := by
    intro hmem
    obtain ⟨root, hroot, hunder⟩ := hroots "make" hmem
    have hsmall := hunder.startsSmall (Operation.startsSmall_root hroot)
    exact absurd hsmall (by decide +kernel)
  have hmisnamed : ∀ declaration ∈ declarations,
      Operation.Misnamed document declaration.name ↔
        Text.isIdentifier declaration.name = false := by
    intro declaration hmem
    obtain ⟨root, hroot, hunder⟩ := hroots declaration.name (List.mem_map_of_mem hmem)
    exact Operation.misnamed_iff hroot hunder
  refine ⟨operations, registry, declarations, hextract, hdeclarations, hcode,
    fun declaration _ => exports_declaration _ declaration, hnodup, hmake, ?_⟩
  constructor
  · rintro ⟨hidentifiers, hdistinct⟩
    obtain ⟨-, hothers, hdisjoint⟩ := List.nodup_append.mp hdistinct
    refine ⟨(nodup_otherNames_iff options).mp hothers, fun declaration hmem => ⟨?_, ?_⟩⟩
    · rw [hmisnamed declaration hmem, Bool.not_eq_false]
      exact hidentifiers _ (List.mem_map_of_mem hmem)
    · rintro (himported | hclient)
      · exact hdisjoint _ (List.mem_map_of_mem hmem) _ (List.mem_append_left _ himported) rfl
      · exact hdisjoint _ (List.mem_map_of_mem hmem) _
          (List.mem_append_right _ (List.mem_cons_of_mem _ hclient)) rfl
  · rintro ⟨hapart, hdeclared⟩
    refine ⟨fun name hname => ?_, List.nodup_append.mpr
      ⟨hnodup, (nodup_otherNames_iff options).mpr hapart, fun name hname other hother => ?_⟩⟩
    · obtain ⟨declaration, hmem, rfl⟩ := List.mem_map.mp hname
      have hnot := (hdeclared declaration hmem).1
      rwa [hmisnamed declaration hmem, Bool.not_eq_false] at hnot
    · rintro rfl
      obtain ⟨declaration, hmem, hsame⟩ := List.mem_map.mp hname
      have htaken := (hdeclared declaration hmem).2
      rw [hsame] at htaken
      rcases List.mem_append.mp hother with himported | hother
      · exact htaken (Or.inl himported)
      · rcases List.mem_cons.mp hother with rfl | hclient
        · exact hmake hname
        · exact htaken (Or.inr hclient)

/-! ### A component without a letter -/

/-- A document with an operation that answers with the component under a number. -/
def numericKey : Json :=
  .obj [
    ("paths", .obj [("/a", .obj [("get", .obj [("operationId", .str "list"),
      ("responses", .obj [("200", .obj [("content", .obj [("application/json",
        .obj [("schema", .obj [("$ref", .str "#/components/schemas/200")])])])])])])])]),
    ("components", .obj [("schemas", .obj [("200", .obj [("type", .str "string")])])])]

/-- The names that a document has declared. -/
def declaredNames (fuel : Nat) (document : Json) (options : Options) : Option (List String) := do
  let (_, registry) ← Operation.extractAll document fuel .empty
  let declarations ← registry.declarations? document fuel options.flavor.spelling
  some (declarations.map (·.name))

/-- The component is declared under an empty name. -/
theorem numericKey_not_hygienic : ∃ code,
    generateWithin 64 numericKey ⟨"Client", .types⟩ = some code ∧
      declaredNames 64 numericKey ⟨"Client", .types⟩ = some [""] ∧
      Operation.Misnamed numericKey "" ∧ ¬ Hygienic ⟨"Client", .types⟩ [""] := by
  have hnames : declaredNames 64 numericKey ⟨"Client", .types⟩ = some [""] := by decide +kernel
  have hends : (generateWithin 64 numericKey ⟨"Client", .types⟩).isSome = true := by
    decide +kernel
  obtain ⟨code, hcode⟩ := Option.isSome_iff_exists.mp hends
  obtain ⟨operations, registry, declarations, hextract, hdeclarations, -, -, -, -, hhygienic⟩ :=
    moduleNames_hygienic_iff hcode
  have hdeclared : declarations.map (·.name) = [""] := by
    unfold declaredNames at hnames
    rw [hextract, Option.bind_eq_bind, Option.bind_some] at hnames
    dsimp only at hnames
    rw [hdeclarations] at hnames
    exact Option.some.inj hnames
  -- The only call is the reference, whose last token is the number.
  have hreferences : (Operation.calls numericKey).map Registry.Request.reference? =
      [some "#/components/schemas/200"] := by decide +kernel
  have hreferred : Registry.Referred numericKey (Operation.calls numericKey)
      "#/components/schemas/200" := by
    have hmem : some "#/components/schemas/200" ∈
        (Operation.calls numericKey).map Registry.Request.reference? :=
      hreferences ▸ List.mem_singleton.mpr rfl
    obtain ⟨request, hrequest, hreference⟩ := List.mem_map.mp hmem
    exact Or.inl ⟨request, hrequest, hreference⟩
  have hlast : (Reference.tokens "#/components/schemas/200").getLast? = some "200" := by
    decide +kernel
  have hmisnamed : Operation.Misnamed numericKey "" := by
    refine .target hreferred fun token htoken => ?_
    obtain rfl := Option.some.inj (hlast.symm.trans htoken)
    decide +kernel
  refine ⟨code, hcode, hnames, hmisnamed, fun h => ?_⟩
  obtain ⟨declaration, rfl, hname⟩ := List.map_eq_singleton_iff.mp hdeclared
  have hgood := (hhygienic.mp (hdeclared ▸ h)).2 declaration (List.mem_singleton.mpr rfl)
  exact hgood.1 (hname ▸ hmisnamed)

end TypedClient
