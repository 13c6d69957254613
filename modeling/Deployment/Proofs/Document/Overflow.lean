import Deployment.Proofs.Config.PlainData
import Deployment.Proofs.Document.Declarations

/-! # Files that overflow

A default that negates the least integer ends the run while the declarations are gathered, and then
there is neither a document nor a report of issues. This happens exactly if the files declare such a
default (`Document.ofFiles_overflow_iff`). The default of a variable that has been declared before
is not converted at all, so only the first declaration of each name counts.
-/

namespace Deployment

open Config (Block Structure Term)

/-! ## Defaults that overflow -/

/-- The body of a variable has a default that overflows. -/
def OverflowsHere (body : List Structure) : Prop :=
  ∃ t, termOf? body "default" = some t ∧ t.Overflows

/-- Among blocks there is a variable with a default that overflows, and no block before it declares
a variable of this name. -/
def DefaultOverflows (blocks : List Block) : Prop :=
  ∃ before name body after, blocks = before ++ ⟨"variable", [name], body⟩ :: after ∧
    name ∉ before.flatMap (·.names .vars) ∧ OverflowsHere body

/-- The variable names of a block are those that it declares. -/
theorem Config.Block.mem_names_vars {block : Block} {name : String} :
    name ∈ block.names .vars ↔ ∃ body, block = ⟨"variable", [name], body⟩ := by
  obtain ⟨type, labels, body⟩ := block
  unfold Block.names
  split
  case h_2 name' _ htype hlabels =>
    simp_all [eq_comm]
  case h_6 hvariable _ _ _ =>
    simp only [List.not_mem_nil, false_iff]
    rintro ⟨body', heq⟩
    obtain ⟨htype, hlabels, -⟩ := Block.mk.inj heq
    exact hvariable name rfl htype hlabels
  all_goals simp at *

/-- The conversion of a default overflows exactly if the default does. -/
theorem defaultFault?_overflow {body : List Structure} :
    defaultFault? body = some .overflow ↔ OverflowsHere body := by
  unfold defaultFault? OverflowsHere
  cases termOf? body "default" with
  | none => simp
  | some t =>
    simp only [Option.map_some, Option.some.injEq, exists_eq_left']
    rw [← t.toValue_overflow_iff]
    cases t.toValue <;> simp

/-! ## What a step of gathering notices -/

namespace Gathering

variable {g : Gathering}

/-- A step that adds no variable and has nothing to convert. -/
structure LeavesVariables (g g' : Gathering) : Prop where
  vars : g'.document.vars = g.document.vars
  overflowed : g'.overflowed = g.overflowed

namespace LeavesVariables

/-- Resources leave the variables alone. So do modules, providers and local values. -/
theorem addResource (type name : String) (body : List Structure) :
    g.LeavesVariables (g.addResource type name body) := by
  unfold Gathering.addResource
  dsimp only
  split <;> exact ⟨rfl, rfl⟩

theorem addModule (name : String) (body : List Structure) :
    g.LeavesVariables (g.addModule name body) := by
  unfold Gathering.addModule
  split
  · exact ⟨rfl, rfl⟩
  · split <;> exact ⟨rfl, rfl⟩

theorem addProvider (name : String) (body : List Structure) :
    g.LeavesVariables (g.addProvider name body) := by
  unfold Gathering.addProvider
  dsimp only
  split <;> exact ⟨rfl, rfl⟩

theorem addLocals (attributes : List (String × Term)) :
    g.LeavesVariables (attributes.foldl (fun g (name, t) => g.addLocal name t) g) := by
  induction attributes generalizing g with
  | nil => exact ⟨rfl, rfl⟩
  | cons pair rest ih =>
    have hfirst : g.LeavesVariables (g.addLocal pair.1 pair.2) := by
      unfold addLocal
      split <;> exact ⟨rfl, rfl⟩
    exact ⟨ih.vars.trans hfirst.vars, ih.overflowed.trans hfirst.overflowed⟩

end LeavesVariables

/-- The block declares a variable whose name is not among the given ones, with a default that
overflows. -/
def OverflowsUnder (names : List String) (block : Block) : Prop :=
  ∃ name body, block = ⟨"variable", [name], body⟩ ∧ name ∉ names ∧ OverflowsHere body

/-- A step that adds the variable which a block declares. Its default is converted if the name is
new. -/
structure AddsVariable (g g' : Gathering) (block : Block) : Prop where
  names : ∀ name, name ∈ g'.document.names .vars ↔
    name ∈ g.document.names .vars ∨ name ∈ block.names .vars
  overflowed : g'.overflowed ↔ g.overflowed ∨ OverflowsUnder (g.document.names .vars) block

/-- A variable that was declared before is left out with its default, so only a new one can
overflow. -/
theorem addVariable_adds (name : String) (body : List Structure) :
    g.AddsVariable (g.addVariable name body) ⟨"variable", [name], body⟩ := by
  have hblock : (⟨"variable", [name], body⟩ : Block).names .vars = [name] := rfl
  -- Only under a new name is the default converted at all.
  by_cases hold : g.document.vars.any (·.name == name)
  · have hmem : name ∈ g.document.names .vars := by simpa [Document.names] using hold
    rw [addVariable, if_pos hold]
    constructor
    · intro other
      rw [hblock, List.mem_singleton]
      exact ⟨.inl, Or.rec id fun heq => heq ▸ hmem⟩
    · refine ⟨.inl, Or.rec id ?_⟩
      rintro ⟨_, _, heq, hnew, -⟩
      cases heq
      exact absurd hmem hnew
  · have hnew : name ∉ g.document.names .vars := by simpa [Document.names] using hold
    constructor
    · intro other
      rw [addVariable_document_of_new hold]
      simp [Document.names, Variable.ofBody, hblock]
    · have hunder : OverflowsUnder (g.document.names .vars) ⟨"variable", [name], body⟩ ↔
          OverflowsHere body := by
        constructor
        · rintro ⟨_, _, heq, -, hoverflows⟩
          cases heq
          exact hoverflows
        · intro hoverflows
          exact ⟨name, body, rfl, hnew, hoverflows⟩
      rw [hunder, ← defaultFault?_overflow, addVariable, if_neg hold]
      dsimp only
      split <;> simp_all [report]

/-- Blocks that declare no variable leave the variables as they are. -/
theorem LeavesVariables.adds {g' : Gathering} {block : Block} (h : g.LeavesVariables g')
    (hno : ∀ name body, block ≠ ⟨"variable", [name], body⟩) : g.AddsVariable g' block where
  names name := by simp [Document.names, h.vars, Block.mem_names_vars, hno]
  overflowed := by simp [h.overflowed, OverflowsUnder, hno]

/-- Every step adds the variable that its block declares, if it declares one. -/
theorem addBlock_addsVariable (block : Located Block) :
    g.AddsVariable (g.addBlock block) block.item := by
  obtain ⟨file, type, labels, body⟩ := block
  unfold addBlock
  dsimp only
  split
  case h_1 type name => exact (LeavesVariables.addResource _ _ _).adds (by simp)
  case h_2 name => exact addVariable_adds name body
  case h_3 name => exact (LeavesVariables.addModule _ _).adds (by simp)
  case h_4 name => exact (LeavesVariables.addProvider _ _).adds (by simp)
  case h_5 => exact (LeavesVariables.addLocals _).adds (by simp)
  case h_6 hvariable _ _ _ =>
    have hleaves : g.LeavesVariables (g.report (blockIssue? file ⟨type, labels, body⟩).toList) :=
      ⟨rfl, rfl⟩
    refine hleaves.adds fun name body' heq => ?_
    cases heq
    exact hvariable name rfl rfl

/-- Gathering overflows if one of the blocks does, with a name that neither the blocks before it nor
the declarations gathered before have. -/
theorem addBlocks_overflowed {blocks : List (Located Block)} :
    (blocks.foldl addBlock g).overflowed ↔ g.overflowed ∨
      ∃ before name body after,
        blocks.map Located.item = before ++ ⟨"variable", [name], body⟩ :: after ∧
          name ∉ g.document.names .vars ∧ name ∉ before.flatMap (·.names .vars) ∧
            OverflowsHere body := by
  -- By induction on the blocks. The names gathered so far are those of the blocks in front.
  induction blocks generalizing g with
  | nil => simp
  | cons block rest ih =>
    obtain ⟨hnames, hoverflowed⟩ := addBlock_addsVariable (g := g) block
    rw [List.foldl_cons, ih, hoverflowed, or_assoc, List.map_cons]
    refine or_congr_right ⟨?_, ?_⟩
    · rintro (⟨name, body, heq, hnew, hoverflows⟩ |
        ⟨before, name, body, after, heq, hnew, hbefore, hoverflows⟩)
      · exact ⟨[], name, body, rest.map Located.item, by rw [heq]; rfl, hnew, by simp, hoverflows⟩
      · rw [hnames, not_or] at hnew
        refine ⟨block.item :: before, name, body, after, by rw [heq]; rfl, hnew.1, ?_, hoverflows⟩
        rw [List.flatMap_cons, List.mem_append, not_or]
        exact ⟨hnew.2, hbefore⟩
    · rintro ⟨before, name, body, after, heq, hnew, hbefore, hoverflows⟩
      cases before with
      | nil =>
        obtain ⟨hblock, -⟩ := List.cons.inj heq
        exact .inl ⟨name, body, hblock, hnew, hoverflows⟩
      | cons first before =>
        obtain ⟨rfl, hrest⟩ := List.cons.inj heq
        rw [List.flatMap_cons, List.mem_append, not_or] at hbefore
        refine .inr ⟨before, name, body, after, hrest, ?_, hbefore.2, hoverflows⟩
        rw [hnames, not_or]
        exact ⟨hnew, hbefore.1⟩

/-- Gathering files overflows exactly if the default of a first declaration does. -/
theorem ofFiles_overflowed (files : List SourceFile) :
    (ofFiles files).overflowed ↔ DefaultOverflows ((rootBlocks files).map Located.item) := by
  have hnone (issues : List Issue) (name : String) :
      name ∉ (empty.report issues).document.names .vars := List.not_mem_nil
  rw [ofFiles, addBlocks_overflowed]
  simp only [hnone, not_false_eq_true, true_and]
  simp [empty, report, DefaultOverflows]

end Gathering

/-! ## Documents -/

/-- Files have neither a document nor issues to report exactly if a default among them overflows. -/
theorem Document.ofFiles_overflow_iff (files : List SourceFile) :
    Document.ofFiles files = .error .overflow ↔
      DefaultOverflows ((rootBlocks files).map Located.item) := by
  rw [← Gathering.ofFiles_overflowed, ofFiles]
  split
  · simp_all
  · split <;> simp_all

end Deployment
