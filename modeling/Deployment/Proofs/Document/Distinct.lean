import Deployment.Document.Assembly
import Deployment.Proofs.Evaluation.Distinct

/-! # A document declares every name once

The declarations of files are gathered one after the other, and a second declaration of a name is
left out. So whatever has been gathered is `Document.Distinct`: no two declarations of one kind have
the same name. Every step keeps this (`Gathering.addBlock_distinct`), and with it every document
that is made from files (`Document.ofFiles_distinct`).
-/

namespace Deployment

/-! ## Plain data -/

namespace Config

mutual
/-- The value of a term is distinct, as the entries of an object are written one by one. -/
theorem Term.toValue_distinct (t : Term) : Ensures t.toValue Value.Distinct := by
  unfold Term.toValue
  split
  · exact .ok .null
  · exact .ok (.bool _)
  · exact .ok (.number _)
  · exact .ok (.text _)
  · exact .bind (itemValues_distinct _) fun vs hvs => .ok hvs
  · refine .bind (entryValues_distinct _) fun entries hentries => .ok ?_
    refine .map (Entries.nodup_keys_ofPairs entries) fun key v hmem => ?_
    exact hentries key v (Entries.mem_ofPairs hmem)
  · exact Term.toValue_distinct _
  · exact .after fun m => .ok (.number m)
  · exact .error _

/-- Distinct items make a distinct list. -/
theorem itemValues_distinct (items : List Term) :
    Ensures (itemValues items) fun vs => (Value.list vs).Distinct := by
  match items with
  | [] => exact .ok (.list (by simp))
  | t :: rest =>
    refine .bind (Term.toValue_distinct t) fun v hv => ?_
    refine .bind (itemValues_distinct rest) fun vs hvs => .ok (hv.cons hvs)

/-- The values of entries are distinct. Their names may repeat until they are written into a map. -/
theorem entryValues_distinct (entries : List (Term × Term)) :
    Ensures (entryValues entries) fun vs => ∀ key v, (key, v) ∈ vs → v.Distinct := by
  match entries with
  | [] => exact .ok (by simp)
  | (key, t) :: rest =>
    refine .after fun name => .bind (Term.toValue_distinct t) fun v hv => ?_
    refine .bind (entryValues_distinct rest) fun vs hvs => .ok ?_
    intro name' v' hmem
    rcases List.mem_cons.mp hmem with heq | hrest
    · cases heq
      exact hv
    · exact hvs name' v' hrest
end

end Config

/-! ## Documents -/

/-- The declarations of each kind have different names, and defaults are distinct values. -/
structure Document.Distinct (document : Document) : Prop where
  resources : (document.resources.map Resource.address).Nodup
  vars : (document.vars.map Variable.name).Nodup
  locals : document.locals.keys.Nodup
  modules : (document.modules.map Module.name).Nodup
  providers : (document.providers.map Provider.key).Nodup
  defaults : ∀ v ∈ document.vars, ∀ value, v.default = some value → value.Distinct

namespace Gathering

open Config (Block Structure)

variable {g : Gathering}

/-- A declaration with a new name keeps the names different. -/
theorem nodup_snoc {α : Type} {f : α → String} {xs : List α} {x : α} (h : (xs.map f).Nodup)
    (hnew : ¬xs.any (f · == f x)) : ((xs ++ [x]).map f).Nodup := by
  rw [List.map_append, List.map_singleton, ← List.concat_eq_append]
  refine h.concat fun hmem => ?_
  obtain ⟨y, hy, heq⟩ := List.mem_map.mp hmem
  exact hnew (List.any_eq_true.mpr ⟨y, hy, by simpa using heq⟩)

/-- A resource of an address that is there already is left out. -/
theorem addResource_distinct (h : g.document.Distinct) (type name : String)
    (body : List Structure) : (g.addResource type name body).document.Distinct := by
  unfold addResource
  dsimp only
  split
  · exact h
  · rename_i hnew
    exact { h with resources := nodup_snoc h.resources hnew }

/-- A variable is added under a new name, whatever its default is. -/
theorem addVariable_document_of_new {name : String} {body : List Structure}
    (hnew : ¬g.document.vars.any (·.name == name)) : (g.addVariable name body).document =
      { g.document with vars := g.document.vars ++ [Variable.ofBody name body] } := by
  rw [addVariable, if_neg hnew]
  dsimp only
  split <;> rfl

/-- A variable of a name that is there already is left out. Its default is distinct, since the
conversion gives no other values. -/
theorem addVariable_distinct (h : g.document.Distinct) (name : String) (body : List Structure) :
    (g.addVariable name body).document.Distinct := by
  by_cases hnew : g.document.vars.any (·.name == name)
  · rw [addVariable, if_pos hnew]
    exact h
  · rw [addVariable_document_of_new hnew]
    refine { h with vars := nodup_snoc h.vars hnew, defaults := ?_ }
    intro v hv value hvalue
    rcases List.mem_append.mp hv with hold | hlast
    · exact h.defaults v hold value hvalue
    · obtain rfl := List.mem_singleton.mp hlast
      obtain ⟨t, -, ht⟩ := Option.bind_eq_some_iff.mp hvalue
      exact t.toValue_distinct value (Except.toOption_eq_some.mp ht)

theorem addLocal_distinct (h : g.document.Distinct) (name : String) (t : Config.Term) :
    (g.addLocal name t).document.Distinct := by
  unfold addLocal
  split
  · exact h
  · rename_i hnew
    refine { h with locals := ?_ }
    have hput := Entries.put_eq_append
      (Entries.has_eq_false_iff.mp (Bool.eq_false_iff.mpr hnew)) t.toDraft
    rw [← hput]
    exact Entries.nodup_keys_put h.locals name t.toDraft

/-- A module of a name that is there already is left out. -/
theorem addModule_distinct (h : g.document.Distinct) (name : String) (body : List Structure) :
    (g.addModule name body).document.Distinct := by
  unfold addModule
  split
  · exact h
  · rename_i hnew
    split
    · rename_i m hm
      -- The module is kept under the name of its block, which is the one that is checked.
      have hname : m.name = name := by
        obtain ⟨source, -, hm⟩ := Option.bind_eq_some_iff.mp hm
        obtain rfl := Option.some.inj hm
        rfl
      rw [← hname] at hnew
      exact { h with modules := nodup_snoc h.modules hnew }
    · exact h

/-- A provider of a key that is there already is left out. -/
theorem addProvider_distinct (h : g.document.Distinct) (name : String) (body : List Structure) :
    (g.addProvider name body).document.Distinct := by
  unfold addProvider
  dsimp only
  split
  · exact h
  · rename_i hnew
    exact { h with providers := nodup_snoc h.providers hnew }

theorem addLocals_distinct (h : g.document.Distinct) (attributes : List (String × Config.Term)) :
    (attributes.foldl (fun g (name, t) => g.addLocal name t) g).document.Distinct := by
  induction attributes generalizing g with
  | nil => exact h
  | cons pair rest ih => exact ih (addLocal_distinct h pair.1 pair.2)

/-- What a block declares is added only under new names. -/
theorem addBlock_distinct (h : g.document.Distinct) (block : Located Block) :
    (g.addBlock block).document.Distinct := by
  unfold addBlock
  dsimp only
  split
  · exact addResource_distinct h _ _ _
  · exact addVariable_distinct h _ _
  · exact addModule_distinct h _ _
  · exact addProvider_distinct h _ _
  · exact addLocals_distinct h _
  · exact h

/-- Whatever blocks are gathered, the declarations stay distinct. -/
theorem addBlocks_distinct (h : g.document.Distinct) (blocks : List (Located Block)) :
    (blocks.foldl addBlock g).document.Distinct := by
  induction blocks generalizing g with
  | nil => exact h
  | cons block rest ih => exact ih (addBlock_distinct h block)

end Gathering

/-- Nothing is declared twice where nothing is declared. -/
theorem Document.empty_distinct : Document.empty.Distinct where
  resources := List.nodup_nil
  vars := List.nodup_nil
  locals := List.nodup_nil
  modules := List.nodup_nil
  providers := List.nodup_nil
  defaults := by simp [Document.empty]

/-- The declarations of a document from files have different names. -/
theorem Document.ofFiles_distinct (files : List SourceFile) :
    Ensures (Document.ofFiles files) Document.Distinct := by
  unfold Document.ofFiles
  dsimp only
  split
  · exact .error _
  · split
    · exact .ok (Gathering.addBlocks_distinct Document.empty_distinct _)
    · exact .error _

end Deployment
