import Deployment.Proofs.Document.Overflow

/-! # Dynamic blocks

A dynamic block would repeat the block that it stands for. Gathering reports it where it stands
directly in the body of a resource, and only there (`Document.ofFiles_dynamicBlock_iff`). A nested
block becomes an attribute whatever its own blocks are, so files with a dynamic block further down
have a document (`Document.ofFiles_nestedDynamic`).
-/

namespace Deployment

open Config (Block Structure)

/-! ## Bodies with dynamic blocks -/

/-- A body holds a dynamic block directly. -/
def HoldsDynamicHere (body : List Structure) : Prop :=
  ∃ labels inner, .block dynamicType labels inner ∈ body

/-- A body holds a dynamic block, directly or in one of its nested blocks. Blocks that are dropped
do not count. -/
inductive HoldsDynamic : List Structure → Prop
  | here {body : List Structure} (h : HoldsDynamicHere body) : HoldsDynamic body
  | within {body : List Structure} (type : String) (labels : List String) (inner : List Structure)
      (h : .block type labels inner ∈ body) (kept : type ∉ droppedBlocks)
      (held : HoldsDynamic inner) : HoldsDynamic body

/-- The gate looks for what is directly in the body. -/
theorem exists_mem_dynamicBlocks {body : List Structure} :
    (∃ block, block ∈ dynamicBlocks body) ↔ HoldsDynamicHere body := by
  simp only [HoldsDynamicHere, dynamicBlocks, Config.blocksOf, List.mem_filter, List.mem_filterMap,
    beq_iff_eq]
  constructor
  · rintro ⟨block, ⟨element, hmem, heq⟩, htype⟩
    obtain ⟨name, t⟩ | ⟨type, labels, inner⟩ := element
    · cases heq
    · obtain rfl := Option.some.inj heq
      obtain rfl : type = dynamicType := htype
      exact ⟨labels, inner, hmem⟩
  · rintro ⟨labels, inner, hmem⟩
    exact ⟨⟨dynamicType, labels, inner⟩, ⟨_, hmem, rfl⟩, rfl⟩

/-! ## Blocks that declare an address -/

/-- The block declares a resource with the address and the body. -/
def Config.Block.Declares (block : Block) (address : String) (body : List Structure) : Prop :=
  ∃ type name, block = ⟨"resource", [type, name], body⟩ ∧ address = type ++ "." ++ name

/-- A block of a resource declares the address of its labels, with its own body. -/
theorem Config.Block.declares_resource {type name address : String} {body body' : List Structure} :
    (⟨"resource", [type, name], body⟩ : Block).Declares address body' ↔
      address = type ++ "." ++ name ∧ body' = body := by
  constructor
  · rintro ⟨_, _, heq, rfl⟩
    cases heq
    exact ⟨rfl, rfl⟩
  · rintro ⟨rfl, rfl⟩
    exact ⟨type, name, rfl, rfl⟩

/-- The addresses among the names of a block are those that it declares. -/
theorem Config.Block.mem_names_resources {block : Block} {address : String} :
    address ∈ block.names .resources ↔ ∃ body, block.Declares address body := by
  obtain ⟨type, labels, body⟩ := block
  unfold Block.names Declares
  split
  case h_1 type' name _ htype hlabels =>
    simp_all
  case h_6 hresource _ _ _ _ =>
    simp only [List.not_mem_nil, false_iff]
    rintro ⟨body', type', name, heq, -⟩
    obtain ⟨htype, hlabels, -⟩ := Block.mk.inj heq
    exact hresource type' name rfl htype hlabels
  all_goals simp at *

/-- The first block that declares a resource with the address has the body. Later ones are
duplicates. -/
inductive DeclaresFirst (address : String) (body : List Structure) : List Block → Prop
  | here {block : Block} (rest : List Block) (h : block.Declares address body) :
      DeclaresFirst address body (block :: rest)
  | later {block : Block} {rest : List Block} (h : address ∉ block.names .resources)
      (declares : DeclaresFirst address body rest) : DeclaresFirst address body (block :: rest)

/-- The first declaration is the first block, or the first one behind a block that declares
something else. -/
theorem declaresFirst_cons {address : String} {body : List Structure} {block : Block}
    {rest : List Block} :
    DeclaresFirst address body (block :: rest) ↔
      block.Declares address body ∨
        address ∉ block.names .resources ∧ DeclaresFirst address body rest := by
  constructor
  · rintro (⟨_, h⟩ | ⟨h, declares⟩)
    · exact .inl h
    · exact .inr ⟨h, declares⟩
  · rintro (h | ⟨h, declares⟩)
    · exact .here rest h
    · exact .later h declares

/-! ## What a step of gathering reports -/

namespace Gathering

variable {g : Gathering} {address : String}

/-- Whether a resource is there already is decided by the addresses. -/
theorem any_address_iff :
    g.document.resources.any (·.address == address) ↔ address ∈ g.document.names .resources := by
  simp [Document.names]

/-- Reports add up. -/
@[simp] theorem mem_report {issue : Issue} {issues : List Issue} :
    issue ∈ (g.report issues).issues ↔ issue ∈ g.issues ∨ issue ∈ issues :=
  List.mem_append

/-- A resource is searched for dynamic blocks only if its address is new. -/
theorem addResource_dynamicBlock {type name : String} {body : List Structure} :
    .dynamicBlock address ∈ (g.addResource type name body).issues ↔
      .dynamicBlock address ∈ g.issues ∨ address = type ++ "." ++ name ∧
        address ∉ g.document.names .resources ∧ HoldsDynamicHere body := by
  rw [← exists_mem_dynamicBlocks]
  unfold addResource
  dsimp only
  split
  · rename_i hold
    have hold : type ++ "." ++ name ∈ g.document.names .resources := any_address_iff.mp hold
    simp only [mem_report, List.mem_singleton, reduceCtorEq, or_false]
    refine ⟨.inl, ?_⟩
    -- A repeated address is reported as such, without a look at its body.
    rintro (h | ⟨rfl, hnew, -⟩)
    · exact h
    · exact absurd hold hnew
  · rename_i hnew
    have hnew : type ++ "." ++ name ∉ g.document.names .resources := mt any_address_iff.mpr hnew
    rw [mem_report, List.mem_map]
    -- What is reported for this address now is what the gate finds in the body.
    refine or_congr_right ⟨?_, ?_⟩
    · rintro ⟨block, hblock, heq⟩
      obtain rfl := Issue.dynamicBlock.inj heq
      exact ⟨rfl, hnew, block, hblock⟩
    · rintro ⟨rfl, -, block, hblock⟩
      exact ⟨block, hblock, rfl⟩

/-- Afterwards the address of the resource is taken, whether it was new or not. -/
theorem addResource_names {type name : String} {body : List Structure} :
    address ∈ (g.addResource type name body).document.names .resources ↔
      address ∈ g.document.names .resources ∨ address = type ++ "." ++ name := by
  unfold addResource
  dsimp only
  split
  · rename_i hold
    refine ⟨.inl, ?_⟩
    rintro (h | rfl)
    · exact h
    · exact any_address_iff.mp hold
  · simp [Document.names, report, Resource.address, Resource.ofBody]

/-- A step that adds no resource and reports no dynamic block. -/
structure LeavesResources (g g' : Gathering) : Prop where
  resources : g'.document.resources = g.document.resources
  issues : ∀ address, .dynamicBlock address ∈ g'.issues ↔ .dynamicBlock address ∈ g.issues

namespace LeavesResources

variable {g' g'' : Gathering}

theorem refl (g : Gathering) : g.LeavesResources g :=
  ⟨rfl, fun _ => .rfl⟩

/-- Two steps that leave the resources alone are one. -/
theorem trans (h : g.LeavesResources g') (h' : g'.LeavesResources g'') : g.LeavesResources g'' :=
  ⟨h'.resources.trans h.resources, fun address => (h'.issues address).trans (h.issues address)⟩

/-- Other issues may be reported on the way. -/
theorem report (h : g.LeavesResources g') {issues : List Issue}
    (hissues : ∀ address, .dynamicBlock address ∉ issues) :
    g.LeavesResources (g'.report issues) :=
  ⟨h.resources, fun address => by simp [h.issues address, hissues address]⟩

end LeavesResources

/-- Variables do not touch the resources. Neither do modules, providers and local values. -/
theorem addVariable_leaves (name : String) (body : List Structure) :
    g.LeavesResources (g.addVariable name body) := by
  have hadded : g.LeavesResources
      { g with document.vars := g.document.vars ++ [Variable.ofBody name body] } :=
    ⟨rfl, fun _ => .rfl⟩
  unfold addVariable
  dsimp only
  split
  · exact .report (.refl g) (by simp)
  · split
    · exact hadded
    · exact hadded.report (by simp)
    · exact ⟨hadded.resources, hadded.issues⟩

theorem addModule_leaves (name : String) (body : List Structure) :
    g.LeavesResources (g.addModule name body) := by
  unfold addModule
  split
  · exact .report (.refl g) (by simp)
  · split
    · exact ⟨rfl, fun _ => .rfl⟩
    · exact .report (.refl g) (by simp)

theorem addProvider_leaves (name : String) (body : List Structure) :
    g.LeavesResources (g.addProvider name body) := by
  unfold addProvider
  dsimp only
  split
  · exact .report (.refl g) (by simp)
  · exact ⟨rfl, fun _ => .rfl⟩

theorem addLocals_leaves (attributes : List (String × Config.Term)) :
    g.LeavesResources (attributes.foldl (fun g (name, t) => g.addLocal name t) g) := by
  induction attributes generalizing g with
  | nil => exact .refl g
  | cons pair rest ih =>
    refine .trans ?_ ih
    dsimp only
    unfold addLocal
    split
    · exact .report (.refl g) (by simp)
    · exact ⟨rfl, fun _ => .rfl⟩

/-- A block that is not understood may be reported, but for no dynamic block. -/
theorem blockIssue_leaves (file : String) (block : Block) :
    g.LeavesResources (g.report (blockIssue? file block).toList) := by
  refine .report (.refl g) fun address => ?_
  unfold blockIssue?
  split
  · simp
  · split <;> simp

/-- A step that adds the address which a block declares. The body is searched for dynamic blocks if
the address is new. -/
structure AddsBlock (g g' : Gathering) (block : Block) (address : String) : Prop where
  names : address ∈ g'.document.names .resources ↔
    address ∈ g.document.names .resources ∨ address ∈ block.names .resources
  issues : .dynamicBlock address ∈ g'.issues ↔
    .dynamicBlock address ∈ g.issues ∨ address ∉ g.document.names .resources ∧
      ∃ body, block.Declares address body ∧ HoldsDynamicHere body

/-- Blocks that declare no resource leave the resources and their issues as they are. -/
theorem LeavesResources.addsBlock {g' : Gathering} {block : Block} (h : g.LeavesResources g')
    (hno : ∀ body, ¬block.Declares address body) : g.AddsBlock g' block address where
  names := by
    have hnames : address ∉ block.names .resources :=
      fun hmem => (Block.mem_names_resources.mp hmem).elim hno
    simp [Document.names, h.resources, hnames]
  issues := by simp [h.issues, hno]

/-- Every step adds what its block declares. -/
theorem addBlock_addsBlock (block : Located Block) (address : String) :
    g.AddsBlock (g.addBlock block) block.item address := by
  obtain ⟨file, type, labels, body⟩ := block
  unfold addBlock
  dsimp only
  split
  case h_1 type name =>
    constructor
    · rw [addResource_names, Block.mem_names_resources]
      simp only [Block.declares_resource, exists_and_left, exists_eq, and_true]
    · rw [addResource_dynamicBlock]
      simp only [Block.declares_resource, and_assoc, exists_eq_left, and_left_comm]
  case h_2 => exact (addVariable_leaves _ _).addsBlock (by simp [Block.Declares])
  case h_3 => exact (addModule_leaves _ _).addsBlock (by simp [Block.Declares])
  case h_4 => exact (addProvider_leaves _ _).addsBlock (by simp [Block.Declares])
  case h_5 => exact (addLocals_leaves _).addsBlock (by simp [Block.Declares])
  -- Blocks with other labels than a resource has declare none, even under its type.
  case h_6 hresource _ _ _ _ =>
    refine (blockIssue_leaves _ _).addsBlock ?_
    rintro body' ⟨type', name, heq, -⟩
    obtain ⟨htype, hlabels, -⟩ := Block.mk.inj heq
    exact hresource type' name htype hlabels

/-- A dynamic block is reported for an address if it is directly in the first body that is declared
under the address. -/
theorem addBlocks_dynamicBlock {blocks : List (Located Block)} :
    .dynamicBlock address ∈ (blocks.foldl addBlock g).issues ↔ .dynamicBlock address ∈ g.issues ∨
      address ∉ g.document.names .resources ∧
        ∃ body, DeclaresFirst address body (blocks.map Located.item) ∧ HoldsDynamicHere body := by
  induction blocks generalizing g with
  | nil =>
    simp only [List.foldl_nil, List.map_nil, iff_self_or]
    rintro ⟨-, body, hdeclares, -⟩
    cases hdeclares
  | cons block rest ih =>
    obtain ⟨hnames, hissues⟩ := addBlock_addsBlock (g := g) block address
    rw [List.foldl_cons, ih, hnames, hissues, List.map_cons, or_assoc, not_or, and_assoc]
    simp only [declaresFirst_cons, or_and_right, exists_or, and_or_left, exists_and_left, and_assoc]

end Gathering

/-! ## Documents -/

/-- What was gathered is reported, unless the default of a variable overflows. -/
theorem Document.mem_issues_of_ofFiles {files : List SourceFile} {issue : Issue} :
    (∃ issues, Document.ofFiles files = .error (.issues issues) ∧ issue ∈ issues.toList) ↔
      ¬DefaultOverflows ((rootBlocks files).map Located.item) ∧
        issue ∈ (Gathering.ofFiles files).issues := by
  rw [← Gathering.ofFiles_overflowed, ofFiles]
  split
  · rename_i hoverflowed
    simp [hoverflowed]
  · rename_i hoverflowed
    split
    · rename_i hnone
      simp [hnone]
    · rename_i first others hsome
      simp [hsome, hoverflowed, Issues.toList]

/-- A dynamic block is reported for the address of a resource exactly if it stands directly in the
body of the resource, the first one of the address. If the default of a variable overflows, though,
the run ends without a report. -/
theorem Document.ofFiles_dynamicBlock_iff (files : List SourceFile) (address : String) :
    (∃ issues, Document.ofFiles files = .error (.issues issues) ∧
        .dynamicBlock address ∈ issues.toList) ↔
      ¬DefaultOverflows ((rootBlocks files).map Located.item) ∧
        ∃ body, DeclaresFirst address body ((rootBlocks files).map Located.item) ∧
          HoldsDynamicHere body := by
  have hnone (issues : List Issue) :
      address ∉ (Gathering.empty.report issues).document.names .resources := List.not_mem_nil
  rw [mem_issues_of_ofFiles, Gathering.ofFiles, Gathering.addBlocks_dynamicBlock,
    Gathering.mem_report]
  simp only [hnone, not_false_eq_true, true_and]
  simp [Gathering.empty]

/-- The body of a resource with a dynamic block in a nested one. -/
def nestedDynamicBody : List Structure :=
  [.attribute "region" (.text "us-east-1"),
    .block "root_block_device" []
      [.block "dynamic" ["tag"]
        [.attribute "for_each" (.array [.number (.integer 1)]), .block "content" [] []]]]

/-- A file that declares the resource. -/
def Document.nestedDynamic : SourceFile :=
  ⟨none, [.block "resource" ["aws_instance", "web"] nestedDynamicBody]⟩

/-- A dynamic block that is nested deeper is not reported: the files have a document. -/
theorem Document.ofFiles_nestedDynamic :
    ¬∀ files address body, DeclaresFirst address body ((rootBlocks files).map Located.item) →
      HoldsDynamic body →
      ∃ issues, Document.ofFiles files = .error (.issues issues) ∧
        .dynamicBlock address ∈ issues.toList := by
  intro h
  have hdeclares : DeclaresFirst "aws_instance.web" nestedDynamicBody
      ((rootBlocks [Document.nestedDynamic]).map Located.item) :=
    .here [] ⟨"aws_instance", "web", rfl, rfl⟩
  have hholds : HoldsDynamic nestedDynamicBody := by
    refine .within "root_block_device" [] _ (.tail _ (.head _)) (by decide) (.here ?_)
    exact ⟨["tag"], _, .head _⟩
  obtain ⟨issues, hissues, -⟩ := h _ _ _ hdeclares hholds
  obtain ⟨document, hdocument⟩ :
      ∃ document, Document.ofFiles [Document.nestedDynamic] = .ok document := ⟨_, rfl⟩
  rw [hdocument] at hissues
  cases hissues

end Deployment
