import Deployment.Proofs.Document.Distinct

/-! # A document declares what its files declare

`Config.Block.declared` is the document of a single block. Gathering goes on after an issue, and
what gives rise to one is left out. If there is no issue in the end, though, nothing has been left
out: every block was `Accepted`, and the document is that of the blocks in order
(`Gathering.addBlocks_extends`). Each kind of declarations then corresponds to the blocks of one
type, and the names in the document are all names in the files. As the names in a document are
different (`Document.Distinct`), files that declare a name twice have no document
(`Document.ofFiles_declarations`).
-/

namespace Deployment

open Config (Block Structure)

/-! ## Names of declarations -/

/-- The kinds of declarations. -/
inductive DeclarationKind
  | resources
  | vars
  | locals
  | modules
  | providers

/-- The names of one kind in a document: addresses of resources, keys of providers. -/
def Document.names (document : Document) : DeclarationKind → List String
  | .resources => document.resources.map Resource.address
  | .vars => document.vars.map Variable.name
  | .locals => document.locals.keys
  | .modules => document.modules.map Module.name
  | .providers => document.providers.map Provider.key

/-- The names of one kind that a block declares. -/
def Config.Block.names (block : Block) (kind : DeclarationKind) : List String :=
  match kind, block.type, block.labels with
  | .resources, "resource", [type, name] => [type ++ "." ++ name]
  | .vars, "variable", [name] => [name]
  | .locals, "locals", [] => (Config.attributesOf block.body).map (·.1)
  | .modules, "module", [name] => [name]
  | .providers, "provider", [name] => [(Provider.ofBody name block.body).key]
  | _, _, _ => []

/-- The names of one kind that files declare, in order. -/
def namesDeclared (kind : DeclarationKind) (files : List SourceFile) : List String :=
  (rootBlocks files).flatMap (·.item.names kind)

/-- In a document with distinct declarations the names of each kind are different. -/
theorem Document.Distinct.names {document : Document} (h : document.Distinct)
    (kind : DeclarationKind) : (document.names kind).Nodup := by
  cases kind with
  | resources => exact h.resources
  | vars => exact h.vars
  | locals => exact h.locals
  | modules => exact h.modules
  | providers => exact h.providers

@[simp] theorem Document.names_empty (kind : DeclarationKind) :
    Document.empty.names kind = [] := by
  cases kind <;> rfl

/-! ## What a single block declares -/

/-- A module has the name that it is read under. -/
theorem Module.name_ofBody? {name : String} {body : List Structure} {m : Module}
    (h : Module.ofBody? name body = some m) : m.name = name := by
  obtain ⟨source, -, hm⟩ := Option.bind_eq_some_iff.mp h
  obtain rfl := Option.some.inj hm
  rfl

/-- A module can be read exactly if its source is a text. -/
theorem Module.isSome_ofBody? (name : String) (body : List Structure) :
    (Module.ofBody? name body).isSome = (textOf? body sourceAttribute).isSome := by
  unfold Module.ofBody?
  cases textOf? body sourceAttribute <;> rfl

namespace Config.Block

/-- The document that a block declares on its own. -/
def declared (block : Block) : Document :=
  match block.type, block.labels with
  | "resource", [type, name] =>
    { Document.empty with resources := [Resource.ofBody type name block.body] }
  | "variable", [name] => { Document.empty with vars := [Variable.ofBody name block.body] }
  | "module", [name] =>
    { Document.empty with modules := (Module.ofBody? name block.body).toList }
  | "provider", [name] =>
    { Document.empty with providers := [Provider.ofBody name block.body] }
  | "locals", [] =>
    { Document.empty with
      locals := (Config.attributesOf block.body).map fun (name, t) => (name, t.toDraft) }
  | _, _ => .empty

/-- A block without an issue of its own: it has the labels that blocks of its type take, a resource
has no dynamic blocks, and a module has a source. -/
structure Accepted (block : Block) : Prop where
  labels : ∀ expected, Gathering.expectedLabels? block.type = some expected →
    block.labels.length = expected
  dynamic : block.type = "resource" → dynamicBlocks block.body = []
  source : block.type = "module" → (textOf? block.body sourceAttribute).isSome

variable {block : Block}

/-- An accepted block of a module declares one. -/
theorem Accepted.exists_module (h : block.Accepted) (htype : block.type = "module")
    (name : String) : ∃ m, Module.ofBody? name block.body = some m := by
  rw [← Option.isSome_iff_exists, Module.isSome_ofBody?]
  exact h.source htype

/-- An accepted block of a resource declares this resource alone, under its two labels. -/
theorem Accepted.resources (h : block.Accepted) (htype : block.type = "resource") :
    ∃ r, block.declared.resources = [r] ∧ block.labels = [r.type, r.name] ∧
      r = .ofBody r.type r.name block.body := by
  obtain ⟨type, name, hlabels⟩ := List.length_eq_two.mp (h.labels 2 (by rw [htype]; rfl))
  refine ⟨.ofBody type name block.body, ?_, hlabels, rfl⟩
  simp only [declared, htype, hlabels]

/-- An accepted block of a variable declares this variable alone, under its label. -/
theorem Accepted.vars (h : block.Accepted) (htype : block.type = "variable") :
    ∃ v, block.declared.vars = [v] ∧ block.labels = [v.name] ∧
      v = .ofBody v.name block.body := by
  obtain ⟨name, hlabels⟩ := List.length_eq_one_iff.mp (h.labels 1 (by rw [htype]; rfl))
  refine ⟨.ofBody name block.body, ?_, hlabels, rfl⟩
  simp only [declared, htype, hlabels]

/-- An accepted block of local values declares one for every attribute, in their order. -/
theorem Accepted.locals (h : block.Accepted) (htype : block.type = "locals") :
    block.declared.locals =
      (Config.attributesOf block.body).map fun (name, t) => (name, t.toDraft) := by
  have hlabels := List.length_eq_zero_iff.mp (h.labels 0 (by rw [htype]; rfl))
  simp only [declared, htype, hlabels]

/-- An accepted block of a module declares this module alone, under its label. -/
theorem Accepted.modules (h : block.Accepted) (htype : block.type = "module") :
    ∃ m, block.declared.modules = [m] ∧ block.labels = [m.name] ∧
      Module.ofBody? m.name block.body = some m := by
  obtain ⟨name, hlabels⟩ := List.length_eq_one_iff.mp (h.labels 1 (by rw [htype]; rfl))
  obtain ⟨m, hm⟩ := h.exists_module htype name
  obtain rfl := Module.name_ofBody? hm
  refine ⟨m, ?_, hlabels, hm⟩
  simp only [declared, htype, hlabels, hm, Option.toList_some]

/-- An accepted block of a provider declares this provider alone, under its label. -/
theorem Accepted.providers (h : block.Accepted) (htype : block.type = "provider") :
    ∃ p, block.declared.providers = [p] ∧ block.labels = [p.name] ∧
      p = .ofBody p.name block.body := by
  obtain ⟨name, hlabels⟩ := List.length_eq_one_iff.mp (h.labels 1 (by rw [htype]; rfl))
  refine ⟨.ofBody name block.body, ?_, hlabels, rfl⟩
  simp only [declared, htype, hlabels]

/-- Blocks of the other types declare nothing of a kind. -/
theorem declared_eq_nil :
    (block.type ≠ "resource" → block.declared.resources = []) ∧
      (block.type ≠ "variable" → block.declared.vars = []) ∧
      (block.type ≠ "locals" → block.declared.locals = []) ∧
      (block.type ≠ "module" → block.declared.modules = []) ∧
      (block.type ≠ "provider" → block.declared.providers = []) := by
  unfold declared
  split
  all_goals
    refine ⟨fun h => ?_, fun h => ?_, fun h => ?_, fun h => ?_, fun h => ?_⟩
    all_goals first | rfl | exact absurd ‹_› h

/-- The names in the document of a block are those that the block declares. -/
theorem Accepted.names (h : block.Accepted) (kind : DeclarationKind) :
    block.declared.names kind = block.names kind := by
  unfold declared
  split
  case h_3 name htype hlabels =>
    obtain ⟨m, hm⟩ := h.exists_module htype name
    obtain rfl := Module.name_ofBody? hm
    cases kind <;> simp only [Document.names, Block.names, htype, hlabels, hm] <;> rfl
  -- Names are matched in another order than declarations, so the other types are excluded one by
  -- one.
  case h_6 hresource hvar hmodule hprovider hlocals =>
    unfold Block.names
    split
    · exact (hresource _ _ ‹_› ‹_›).elim
    · exact (hvar _ ‹_› ‹_›).elim
    · exact (hlocals ‹_› ‹_›).elim
    · exact (hmodule _ ‹_› ‹_›).elim
    · exact (hprovider _ ‹_› ‹_›).elim
    · exact Document.names_empty _
  case h_5 htype hlabels =>
    cases kind <;>
      simp only [Document.names, Block.names, htype, hlabels, Entries.keys, List.map_map] <;> rfl
  all_goals
    rename_i htype hlabels
    cases kind <;> simp only [Document.names, Block.names, htype, hlabels] <;> rfl

end Config.Block

/-! ## Gathering without issues -/

/-- A document with the declarations of blocks behind its own. -/
structure Document.Extends (document : Document) (blocks : List Block) (extended : Document) :
    Prop where
  resources : extended.resources = document.resources ++ blocks.flatMap (·.declared.resources)
  vars : extended.vars = document.vars ++ blocks.flatMap (·.declared.vars)
  locals : extended.locals = document.locals ++ blocks.flatMap (·.declared.locals)
  modules : extended.modules = document.modules ++ blocks.flatMap (·.declared.modules)
  providers : extended.providers = document.providers ++ blocks.flatMap (·.declared.providers)

namespace Document.Extends

variable {document extended further : Document} {blocks more : List Block}

theorem refl (document : Document) : document.Extends [] document :=
  ⟨by simp, by simp, by simp, by simp, by simp⟩

/-- What two lists of blocks add one after the other is what they add together. -/
theorem trans (h : document.Extends blocks extended) (h' : extended.Extends more further) :
    document.Extends (blocks ++ more) further where
  resources := by rw [h'.resources, h.resources, List.append_assoc, List.flatMap_append]
  vars := by rw [h'.vars, h.vars, List.append_assoc, List.flatMap_append]
  locals := by rw [h'.locals, h.locals, List.append_assoc, List.flatMap_append]
  modules := by rw [h'.modules, h.modules, List.append_assoc, List.flatMap_append]
  providers := by rw [h'.providers, h.providers, List.append_assoc, List.flatMap_append]

/-- The names in a document of accepted blocks are those that the blocks declare. -/
theorem names (h : Document.empty.Extends blocks document)
    (haccepted : ∀ block ∈ blocks, block.Accepted) (kind : DeclarationKind) :
    document.names kind = blocks.flatMap (·.names kind) := by
  have hnames : blocks.flatMap (·.declared.names kind) = blocks.flatMap (·.names kind) :=
    List.flatMap_congr fun block hblock => (haccepted block hblock).names kind
  rw [← hnames]
  cases kind with
  | resources => simp only [Document.names, h.resources, empty, List.nil_append, List.map_flatMap]
  | vars => simp only [Document.names, h.vars, empty, List.nil_append, List.map_flatMap]
  | locals =>
    simp only [Document.names, h.locals, empty, List.nil_append, Entries.keys, List.map_flatMap]
  | modules => simp only [Document.names, h.modules, empty, List.nil_append, List.map_flatMap]
  | providers => simp only [Document.names, h.providers, empty, List.nil_append, List.map_flatMap]

end Document.Extends

namespace Gathering

variable {g : Gathering}

/-- Issues are never taken back: if none are left after a report, there were none before and nothing
was reported. -/
theorem report_eq_nil {issues : List Issue} (h : (g.report issues).issues = []) :
    g.issues = [] ∧ issues = [] :=
  List.append_eq_nil_iff.mp h

/-- A resource that gives rise to no issue is added behind the others. It has no dynamic blocks
then. -/
theorem addResource_document {type name : String} {body : List Structure}
    (h : (g.addResource type name body).issues = []) :
    g.issues = [] ∧ dynamicBlocks body = [] ∧ (g.addResource type name body).document =
      { g.document with
        resources := g.document.resources ++ [Resource.ofBody type name body] } := by
  unfold addResource at h ⊢
  dsimp only at h ⊢
  split at h
  · cases (report_eq_nil h).2
  · rename_i hnew
    rw [if_neg hnew]
    exact ⟨(report_eq_nil h).1, List.map_eq_nil_iff.mp (report_eq_nil h).2, rfl⟩

/-- A variable that gives rise to no issue is added behind the others. -/
theorem addVariable_document {name : String} {body : List Structure}
    (h : (g.addVariable name body).issues = []) :
    g.issues = [] ∧ (g.addVariable name body).document =
      { g.document with vars := g.document.vars ++ [Variable.ofBody name body] } := by
  by_cases hnew : g.document.vars.any (·.name == name)
  · rw [addVariable, if_pos hnew] at h
    cases (report_eq_nil h).2
  · refine ⟨?_, addVariable_document_of_new hnew⟩
    rw [addVariable, if_neg hnew] at h
    dsimp only at h
    split at h
    · exact h
    · cases (report_eq_nil h).2
    · exact h

/-- A module that gives rise to no issue has a source and is added behind the others. -/
theorem addModule_document {name : String} {body : List Structure}
    (h : (g.addModule name body).issues = []) :
    g.issues = [] ∧ ∃ m, Module.ofBody? name body = some m ∧
      (g.addModule name body).document =
        { g.document with modules := g.document.modules ++ [m] } := by
  unfold addModule at h ⊢
  split at h
  · cases (report_eq_nil h).2
  · rename_i hnew
    rw [if_neg hnew]
    cases hm : Module.ofBody? name body with
    | none =>
      rw [hm] at h
      cases (report_eq_nil h).2
    | some m =>
      rw [hm] at h
      exact ⟨h, m, rfl, rfl⟩

/-- A provider that gives rise to no issue is added behind the others. -/
theorem addProvider_document {name : String} {body : List Structure}
    (h : (g.addProvider name body).issues = []) :
    g.issues = [] ∧ (g.addProvider name body).document =
      { g.document with
        providers := g.document.providers ++ [Provider.ofBody name body] } := by
  unfold addProvider at h ⊢
  dsimp only at h ⊢
  split at h
  · cases (report_eq_nil h).2
  · rename_i hnew
    rw [if_neg hnew]
    exact ⟨h, rfl⟩

/-- A local value that gives rise to no issue is added behind the others. -/
theorem addLocal_document {name : String} {t : Config.Term}
    (h : (g.addLocal name t).issues = []) :
    g.issues = [] ∧ (g.addLocal name t).document =
      { g.document with locals := g.document.locals ++ [(name, t.toDraft)] } := by
  unfold addLocal at h ⊢
  split at h
  · cases (report_eq_nil h).2
  · rename_i hnew
    rw [if_neg hnew]
    exact ⟨h, rfl⟩

/-- Without an issue at the end, all local values of a block are added in their order. -/
theorem addLocals_document {attributes : List (String × Config.Term)}
    (h : (attributes.foldl (fun g (name, t) => g.addLocal name t) g).issues = []) :
    g.issues = [] ∧ (attributes.foldl (fun g (name, t) => g.addLocal name t) g).document =
      { g.document with
        locals := g.document.locals ++ attributes.map fun (name, t) => (name, t.toDraft) } := by
  induction attributes generalizing g with
  | nil => exact ⟨h, by simp⟩
  | cons pair rest ih =>
    obtain ⟨hfirst, hrest⟩ := ih h
    obtain ⟨hg, hdocument⟩ := addLocal_document hfirst
    refine ⟨hg, ?_⟩
    rw [List.foldl_cons, hrest, hdocument]
    simp

/-- Of the blocks with other labels or of other types only the skipped ones have no issue, and these
declare nothing. -/
theorem nothing_declared {file : String} {block : Block} (h : blockIssue? file block = none) :
    expectedLabels? block.type = none ∧ block.declared = .empty := by
  obtain ⟨type, labels, body⟩ := block
  unfold blockIssue? at h
  split at h
  · rename_i hskipped
    have htype : type ∈ skippedTypes := List.contains_iff_mem.mp hskipped
    simp only [skippedTypes, List.mem_cons, List.not_mem_nil, or_false] at htype
    rcases htype with rfl | rfl | rfl | rfl | rfl | rfl | rfl
    all_goals exact ⟨rfl, rfl⟩
  · split at h
    all_goals cases h

/-- A block without an issue is accepted, and all it declares is added. -/
theorem addBlock_extends {block : Located Block} (h : (g.addBlock block).issues = []) :
    g.issues = [] ∧ block.item.Accepted ∧
      g.document.Extends [block.item] (g.addBlock block).document := by
  obtain ⟨file, type, labels, body⟩ := block
  unfold addBlock at h ⊢
  dsimp only at h ⊢
  split at h
  case h_1 type name =>
    obtain ⟨hg, hdynamic, hdocument⟩ := addResource_document h
    refine ⟨hg, ⟨by simp [expectedLabels?], fun _ => hdynamic, by simp⟩, ?_⟩
    rw [hdocument]
    constructor <;> simp [Block.declared, Document.empty]
  case h_2 name =>
    obtain ⟨hg, hdocument⟩ := addVariable_document h
    refine ⟨hg, ⟨by simp [expectedLabels?], by simp, by simp⟩, ?_⟩
    rw [hdocument]
    constructor <;> simp [Block.declared, Document.empty]
  case h_3 name =>
    obtain ⟨hg, m, hm, hdocument⟩ := addModule_document h
    refine ⟨hg, ⟨by simp [expectedLabels?], by simp, fun _ => ?_⟩, ?_⟩
    · rw [← Module.isSome_ofBody? name, hm]
      rfl
    · rw [hdocument]
      constructor <;> simp [Block.declared, Document.empty, hm]
  case h_4 name =>
    obtain ⟨hg, hdocument⟩ := addProvider_document h
    refine ⟨hg, ⟨by simp [expectedLabels?], by simp, by simp⟩, ?_⟩
    rw [hdocument]
    constructor <;> simp [Block.declared, Document.empty]
  case h_5 =>
    obtain ⟨hg, hdocument⟩ := addLocals_document h
    refine ⟨hg, ⟨by simp [expectedLabels?], by simp, by simp⟩, ?_⟩
    rw [hdocument]
    constructor <;> simp [Block.declared, Document.empty]
  -- Labels that do not fit are an issue, so this is a block of a type that is skipped.
  case h_6 =>
    obtain ⟨hg, hissue⟩ := report_eq_nil h
    obtain ⟨hexpected, hdeclared⟩ := nothing_declared (Option.toList_eq_nil_iff.mp hissue)
    refine ⟨hg, ⟨by simp [hexpected], ?_, ?_⟩, ?_⟩
    · rintro rfl
      cases hexpected
    · rintro rfl
      cases hexpected
    · constructor <;> simp [hdeclared, report, Document.empty]

/-- If gathering has come to no issue, all blocks were accepted, and the document consists of what
they declare. -/
theorem addBlocks_extends {blocks : List (Located Block)}
    (h : (blocks.foldl addBlock g).issues = []) :
    g.issues = [] ∧ (∀ block ∈ blocks, block.item.Accepted) ∧
      g.document.Extends (blocks.map Located.item) (blocks.foldl addBlock g).document := by
  induction blocks generalizing g with
  | nil => exact ⟨h, by simp, .refl _⟩
  | cons block rest ih =>
    obtain ⟨hblock, haccepted, hrest⟩ := ih h
    obtain ⟨hg, hfirst, hextends⟩ := addBlock_extends hblock
    exact ⟨hg, List.forall_mem_cons.mpr ⟨hfirst, haccepted⟩, hextends.trans hrest⟩

end Gathering

/-! ## Documents -/

section Blocks

variable {α : Type} {f : Block → List α} {blocks : List Block}

/-- What blocks of one type declare is what all blocks declare, if the others declare nothing. -/
theorem flatMap_ofType {type : String} (h : ∀ block : Block, block.type ≠ type → f block = []) :
    (blocks.filter (·.type == type)).flatMap f = blocks.flatMap f := by
  induction blocks with
  | nil => rfl
  | cons block rest ih =>
    by_cases htype : block.type = type
    · rw [List.filter_cons_of_pos (by simpa using htype), List.flatMap_cons, List.flatMap_cons, ih]
    · rw [List.filter_cons_of_neg (by simpa using htype), List.flatMap_cons, h block htype, ih,
        List.nil_append]

/-- Blocks that declare one thing each correspond to what they declare. -/
theorem forall₂_flatMap {R : Block → α → Prop}
    (h : ∀ block ∈ blocks, ∃ a, f block = [a] ∧ R block a) :
    List.Forall₂ R blocks (blocks.flatMap f) := by
  induction blocks with
  | nil => exact .nil
  | cons block rest ih =>
    obtain ⟨a, ha, hR⟩ := h block List.mem_cons_self
    rw [List.flatMap_cons, ha]
    exact .cons hR (ih fun other hother => h other (List.mem_cons_of_mem _ hother))

end Blocks

/-- The blocks of a type at the top of files, in order. -/
def blocksOfType (type : String) (files : List SourceFile) : List Block :=
  ((rootBlocks files).map Located.item).filter (·.type == type)

/-- The declarations of a document are those of files: one for every block of the type that belongs
to them, in the order of the blocks, and one local value for every attribute of a block of local
values. -/
structure Document.DeclaredIn (document : Document) (files : List SourceFile) : Prop where
  resources : List.Forall₂ (fun block r => block.labels = [r.type, r.name] ∧
    r = .ofBody r.type r.name block.body) (blocksOfType "resource" files) document.resources
  vars : List.Forall₂ (fun block v => block.labels = [v.name] ∧
    v = .ofBody v.name block.body) (blocksOfType "variable" files) document.vars
  locals : document.locals = ((blocksOfType "locals" files).flatMap
    (Config.attributesOf ·.body)).map fun (name, t) => (name, t.toDraft)
  modules : List.Forall₂ (fun block m => block.labels = [m.name] ∧
    Module.ofBody? m.name block.body = some m) (blocksOfType "module" files) document.modules
  providers : List.Forall₂ (fun block p => block.labels = [p.name] ∧
    p = .ofBody p.name block.body) (blocksOfType "provider" files) document.providers

/-- The document that accepted blocks extend the empty one to is declared in their files. -/
theorem Document.Extends.declaredIn {document : Document} {files : List SourceFile}
    (h : Document.empty.Extends ((rootBlocks files).map Located.item) document)
    (haccepted : ∀ block ∈ (rootBlocks files).map Located.item, block.Accepted) :
    document.DeclaredIn files := by
  have hof {type : String} {block : Block} (hblock : block ∈ blocksOfType type files) :
      block.Accepted ∧ block.type = type := by
    obtain ⟨hmem, htype⟩ := List.mem_filter.mp hblock
    exact ⟨haccepted block hmem, by simpa using htype⟩
  -- Restricted to the blocks of its own type, each kind of declarations corresponds to them one by
  -- one.
  constructor
  case resources =>
    rw [h.resources, ← flatMap_ofType fun _ => Block.declared_eq_nil.1]
    exact forall₂_flatMap fun block hblock => (hof hblock).1.resources (hof hblock).2
  case vars =>
    rw [h.vars, ← flatMap_ofType fun _ => Block.declared_eq_nil.2.1]
    exact forall₂_flatMap fun block hblock => (hof hblock).1.vars (hof hblock).2
  case locals =>
    rw [h.locals, ← flatMap_ofType fun _ => Block.declared_eq_nil.2.2.1, List.map_flatMap]
    exact List.flatMap_congr fun block hblock => (hof hblock).1.locals (hof hblock).2
  case modules =>
    rw [h.modules, ← flatMap_ofType fun _ => Block.declared_eq_nil.2.2.2.1]
    exact forall₂_flatMap fun block hblock => (hof hblock).1.modules (hof hblock).2
  case providers =>
    rw [h.providers, ← flatMap_ofType fun _ => Block.declared_eq_nil.2.2.2.2]
    exact forall₂_flatMap fun block hblock => (hof hblock).1.providers (hof hblock).2

/-- A document from files is what their blocks declare, and each of them was accepted. -/
theorem Document.extends_of_ofFiles {document : Document} {files : List SourceFile}
    (h : Document.ofFiles files = .ok document) :
    (∀ block ∈ (rootBlocks files).map Located.item, block.Accepted) ∧
      Document.empty.Extends ((rootBlocks files).map Located.item) document := by
  unfold ofFiles at h
  dsimp only at h
  split at h
  · cases h
  split at h
  · rename_i hissues
    obtain ⟨-, haccepted, hextends⟩ := Gathering.addBlocks_extends hissues
    obtain rfl := Except.ok.inj h
    exact ⟨List.forall_mem_map.mpr haccepted, hextends⟩
  · cases h

/-- A document declares what its files declare, neither more nor less and each name once, and files
that declare two things of one kind under the same name have no document. -/
theorem Document.ofFiles_declarations (files : List SourceFile) :
    (∀ document, Document.ofFiles files = .ok document →
      document.DeclaredIn files ∧ ∀ kind, (document.names kind).Nodup) ∧
    ∀ kind, ¬(namesDeclared kind files).Nodup →
      ∃ e, Document.ofFiles files = .error e := by
  refine ⟨fun document h => ?_, fun kind hrepeated => ?_⟩
  · obtain ⟨haccepted, hextends⟩ := extends_of_ofFiles h
    exact ⟨hextends.declaredIn haccepted, (ofFiles_distinct files document h).names⟩
  · cases h : Document.ofFiles files with
    | error e => exact ⟨e, rfl⟩
    | ok document =>
      obtain ⟨haccepted, hextends⟩ := extends_of_ofFiles h
      have hnodup := (ofFiles_distinct files document h).names kind
      rw [hextends.names haccepted kind, List.flatMap_map] at hnodup
      exact absurd hnodup hrepeated

/-- A file that declares a local value. -/
def Document.regional : SourceFile :=
  ⟨some "region.tf", [.block "locals" [] [.attribute "region" (.text "us-east-1")]]⟩

/-- A file that declares a variable under the same name, which is no repetition. -/
def Document.regionVariable : SourceFile :=
  ⟨some "variables.tf", [.block "variable" ["region"] []]⟩

/-- The two files have a document. With the first of them once more there is none. -/
theorem Document.regional_declarations :
    (∃ document, Document.ofFiles [regional, regionVariable] = .ok document ∧
      document.DeclaredIn [regional, regionVariable]) ∧
    ∃ e, Document.ofFiles [regional, regionVariable, regional] = .error e :=
  ⟨⟨_, rfl, ((ofFiles_declarations _).1 _ rfl).1⟩, (ofFiles_declarations _).2 .locals (by decide)⟩

end Deployment
