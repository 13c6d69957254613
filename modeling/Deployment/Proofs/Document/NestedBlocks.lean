import Deployment.Proofs.Document.Declarations

/-! # Nested blocks

The blocks nested in a body become a list under their type, with a map for each of them. They share
the names with the attributes of the body. An attribute in front of the blocks of its name is taken
into account: if it is a list, the maps go behind its items, and otherwise it stays what it is and
the blocks are ignored (`stored`). So a body is represented by its attributes at any depth
(`represents_addBody`), as far as no attribute stands behind a block of its name.
-/

namespace Deployment

open Config (Block Structure)

/-! ## What a body holds -/

/-- The bodies of the nested blocks of a type, in order. -/
def nestedOf (type : String) (body : List Structure) : List (List Structure) :=
  ((Config.blocksOf body).filter (·.type == type)).map Block.body

/-- The draft that the last attribute of a name has. -/
def assigned? (name : String) (body : List Structure) : Option Draft :=
  ((Config.attributesOf body).filter (·.1 == name)).getLast?.map (·.2.toDraft)

/-- The later element is an attribute with the type of the earlier one, a block, as its name. -/
def Overwrites (type : String) : Structure → Structure → Prop
  | .block earlier _ _, .attribute later _ => earlier = type ∧ later = type
  | _, _ => False

/-- No attribute stands behind a block of its name. -/
def AttributesFirst (type : String) (body : List Structure) : Prop :=
  body.Pairwise fun earlier later => ¬Overwrites type earlier later

/-- What is stored under a name, given an attribute and the maps of blocks behind it. -/
def stored : Option Draft → List (Entries Draft) → Option Draft
  | none, [] => none
  | none, maps => some (.list (maps.map .map))
  | some (.list items), maps => some (.list (items ++ maps.map .map))
  | some d, _ => some d

/-- The attributes hold what the elements of the body stand for: there is a map for every nested
block, which represents the body of the block in the same way, and what is under a name is related
to the attributes of that name and to the maps of the blocks of that type. -/
inductive RepresentsBy
    (related : String → List Structure → List (Entries Draft) → Option Draft → Prop) :
    List Structure → Entries Draft → Prop
  | intro {body : List Structure} {attributes : Entries Draft}
      (maps : String → List (Entries Draft))
      (nested : ∀ type, List.Forall₂ (RepresentsBy related) (nestedOf type body) (maps type))
      (listed : ∀ type, related type body (maps type) (attributes.get? type)) :
      RepresentsBy related body attributes

/-- The attributes represent a body: the maps of the blocks of a type go with the attribute of that
name, where that stands in front of them. -/
abbrev Represents : List Structure → Entries Draft → Prop :=
  RepresentsBy fun type body maps draft? =>
    AttributesFirst type body → draft? = stored (assigned? type body) maps

/-! ## One element after the other -/

/-- Maps are put behind the items one by one, or all together. -/
theorem stored_put (assigned : Option Draft) (first : Entries Draft)
    (maps : List (Entries Draft)) : stored (stored assigned [first]) maps =
      stored assigned (first :: maps) := by
  match assigned with
  | none => cases maps <;> rfl
  | some (.list items) => simp [stored]
  | some .null | some (.bool _) | some (.number _) | some (.text _) | some (.map _) => rfl

/-- A block goes behind what is stored under its type. -/
theorem get?_addNested_self (attributes : Entries Draft) (type : String) (body : Entries Draft) :
    (addNested attributes type body).get? type = stored (attributes.get? type) [body] := by
  unfold addNested
  split
  · rename_i h
    rw [h, Entries.get?_put_self]
    rfl
  · rename_i items h
    rw [h, Entries.get?_put_self]
    rfl
  · rename_i d hlist h
    rw [h, stored]
    · exact hlist

/-- A block leaves the other names alone. -/
theorem get?_addNested_of_ne {type other : String} (h : other ≠ type) (attributes : Entries Draft)
    (body : Entries Draft) :
    (addNested attributes type body).get? other = attributes.get? other := by
  unfold addNested
  split
  · exact Entries.get?_put_of_ne _ _ h
  · exact Entries.get?_put_of_ne _ _ h
  · rfl

section Elements

variable {type : String} {rest : List Structure}

theorem nestedOf_attribute (name : String) (t : Config.Term) :
    nestedOf type (.attribute name t :: rest) = nestedOf type rest :=
  rfl

/-- The first block of a type is the first of those nested. -/
theorem nestedOf_block_self (labels : List String) (body : List Structure) :
    nestedOf type (.block type labels body :: rest) = body :: nestedOf type rest := by
  simp [nestedOf, Config.blocksOf]

/-- A block of another type is none of them. -/
theorem nestedOf_block_of_ne {other : String} (h : other ≠ type) (labels : List String)
    (body : List Structure) : nestedOf type (.block other labels body :: rest) =
      nestedOf type rest := by
  simp [nestedOf, Config.blocksOf, h]

theorem assigned?_block (other : String) (labels : List String) (body : List Structure) :
    assigned? type (.block other labels body :: rest) = assigned? type rest :=
  rfl

/-- An attribute counts unless another one of its name comes later. -/
theorem assigned?_attribute_self (t : Config.Term) :
    assigned? type (.attribute type t :: rest) =
      (assigned? type rest).or (some t.toDraft) := by
  simp only [assigned?, Config.attributesOf, List.filterMap_cons, List.filter_cons,
    beq_self_eq_true, if_true, List.getLast?_cons]
  cases ((rest.filterMap _).filter _).getLast? <;> rfl

/-- An attribute of another name does not count. -/
theorem assigned?_attribute_of_ne {name : String} (h : name ≠ type) (t : Config.Term) :
    assigned? type (.attribute name t :: rest) = assigned? type rest := by
  simp [assigned?, Config.attributesOf, h]

/-- There is no attribute behind a block of its name. -/
theorem assigned?_eq_none {labels : List String} {body : List Structure}
    (h : AttributesFirst type (.block type labels body :: rest)) : assigned? type rest = none := by
  have hrest := (List.pairwise_cons.mp h).1
  have hnone : (Config.attributesOf rest).filter (·.1 == type) = [] := by
    refine List.filter_eq_nil_iff.mpr fun pair hmem hname => ?_
    obtain ⟨element, helement, heq⟩ := List.mem_filterMap.mp hmem
    obtain ⟨name, t⟩ | _ := element
    · obtain rfl := Option.some.inj heq
      exact hrest _ helement ⟨rfl, by simpa using hname⟩
    · cases heq
  rw [assigned?, hnone]
  rfl

end Elements

/-- What the elements of a body leave under a name: the last attribute of the name, or what was
there before, with the maps of the blocks of the type behind it. -/
theorem get?_addBody {type : String} {body : List Structure} (h : AttributesFirst type body)
    (attributes : Entries Draft) :
    (addBody attributes body).get? type =
      stored ((assigned? type body).or (attributes.get? type))
        ((nestedOf type body).map (addBody [])) := by
  -- By induction on the body, with whatever attributes there are already.
  induction body generalizing attributes with
  | nil =>
    rw [addBody]
    show attributes.get? type = stored (attributes.get? type) []
    match attributes.get? type with
    | none => rfl
    | some (.list items) => simp [stored]
    | some .null | some (.bool _) | some (.number _) | some (.text _) | some (.map _) => rfl
  | cons element rest ih =>
    have hrest : AttributesFirst type rest := (List.pairwise_cons.mp h).2
    rw [addBody, ih hrest]
    obtain ⟨name, t⟩ | ⟨other, labels, body⟩ := element
    · rw [addElement, nestedOf_attribute]
      by_cases hname : name = type
      · subst hname
        rw [Entries.get?_put_self, assigned?_attribute_self, Option.or_assoc, Option.some_or]
      · rw [Entries.get?_put_of_ne _ _ (Ne.symm hname), assigned?_attribute_of_ne hname]
    · rw [addElement, assigned?_block]
      -- Behind a block of the type stands no attribute of its name, so the maps go behind what is
      -- there.
      by_cases hother : other = type
      · subst hother
        rw [assigned?_eq_none h, Option.none_or, Option.none_or, get?_addNested_self, stored_put,
          nestedOf_block_self, List.map_cons]
      · rw [get?_addNested_of_ne (Ne.symm hother), nestedOf_block_of_ne hother]

/-- The body of a nested block is smaller. -/
theorem sizeOf_lt_of_mem_nestedOf {type : String} {body inner : List Structure}
    (h : inner ∈ nestedOf type body) : sizeOf inner < sizeOf body := by
  obtain ⟨block, hblock, rfl⟩ := List.mem_map.mp h
  obtain ⟨element, hmem, heq⟩ := List.mem_filterMap.mp (List.mem_filter.mp hblock).1
  obtain _ | _ := element
  · cases heq
  · obtain rfl := Option.some.inj heq
    have hlt := List.sizeOf_lt_of_mem hmem
    simp only [Structure.block.sizeOf_spec] at hlt
    dsimp only
    omega

/-- The elements of a body become attributes that represent it. -/
theorem represents_addBody (body : List Structure) : Represents body (addBody [] body) := by
  refine .intro (fun type => (nestedOf type body).map (addBody [])) (fun type => ?_)
    fun type h => ?_
  · rw [List.forall₂_map_right_iff, List.forall₂_same]
    intro inner hinner
    have hlt := sizeOf_lt_of_mem_nestedOf hinner
    exact represents_addBody inner
  · rw [get?_addBody h, Entries.get?_nil, Option.or_none]
termination_by sizeOf body

/-- A name that is there already is written in place, by attributes as by blocks. -/
theorem nodup_keys_addBody (body : List Structure) {attributes : Entries Draft}
    (h : attributes.keys.Nodup) : (addBody attributes body).keys.Nodup := by
  induction body generalizing attributes with
  | nil => exact h
  | cons element rest ih =>
    rw [addBody]
    apply ih
    obtain ⟨name, t⟩ | ⟨type, labels, inner⟩ := element
    · rw [addElement]
      exact Entries.nodup_keys_put h name _
    · rw [addElement, addNested]
      split
      · exact Entries.nodup_keys_put h type _
      · exact Entries.nodup_keys_put h type _
      · exact h

/-! ## Documents -/

/-- Every attribute of a resource in a document has a name of its own. -/
theorem Document.nodup_attributes_of_ofFiles {files : List SourceFile} {document : Document}
    (h : Document.ofFiles files = .ok document) :
    ∀ r ∈ document.resources, r.attributes.keys.Nodup := by
  obtain ⟨-, hextends⟩ := extends_of_ofFiles h
  intro r hr
  rw [hextends.resources, Document.empty, List.nil_append] at hr
  obtain ⟨block, -, hr⟩ := List.mem_flatMap.mp hr
  unfold Block.declared at hr
  split at hr
  case h_1 type name =>
    obtain rfl := List.mem_singleton.mp hr
    exact nodup_keys_addBody _ List.nodup_nil
  all_goals cases hr

/-- Whether an element of a resource's body is represented by its attributes: all are but the
meta-arguments. -/
def isRepresented : Structure → Bool
  | .attribute name _ => name != providerAttribute && !droppedAttributes.contains name
  | .block type _ _ => !droppedBlocks.contains type

/-- Without dynamic blocks, the deployed elements are the represented ones. -/
theorem filter_isDeployed {body : List Structure} (h : dynamicBlocks body = []) :
    body.filter isDeployed = body.filter isRepresented := by
  refine List.filter_congr fun element hmem => ?_
  obtain _ | ⟨type, labels, inner⟩ := element
  · rfl
  · have hne : type ≠ dynamicType := by
      rintro rfl
      have hblock : (⟨dynamicType, labels, inner⟩ : Block) ∈ dynamicBlocks body :=
        List.mem_filter.mpr ⟨List.mem_filterMap.mpr ⟨_, hmem, rfl⟩, by simp⟩
      rw [h] at hblock
      cases hblock
    simp [isDeployed, isRepresented, hne]

/-- In a document, the attributes of every resource represent the body of its block but for the
meta-arguments, and those of every provider represent the body of its block but for the alias. -/
theorem Document.ofFiles_nestedBlocks {files : List SourceFile} {document : Document}
    (h : Document.ofFiles files = .ok document) :
    List.Forall₂ (fun block r => Represents (block.body.filter isRepresented) r.attributes)
      (blocksOfType "resource" files) document.resources ∧
    List.Forall₂ (fun block p => Represents (block.body.filter (!isAlias ·)) p.attributes)
      (blocksOfType "provider" files) document.providers := by
  obtain ⟨haccepted, hextends⟩ := extends_of_ofFiles h
  have hdeclared := hextends.declaredIn haccepted
  constructor
  · have hdynamic : ∀ block ∈ blocksOfType "resource" files, dynamicBlocks block.body = [] := by
      intro block hblock
      obtain ⟨hmem, htype⟩ := List.mem_filter.mp hblock
      exact (haccepted block hmem).dynamic (by simpa using htype)
    refine ((List.forall₂_and_left _ _).mpr ⟨hdynamic, hdeclared.resources⟩).imp ?_
    rintro block r ⟨hnone, -, hr⟩
    have hattributes : r.attributes = addBody [] (block.body.filter isDeployed) :=
      congrArg Resource.attributes hr
    rw [hattributes, filter_isDeployed hnone]
    exact represents_addBody _
  · refine hdeclared.providers.imp ?_
    rintro block p ⟨-, hp⟩
    have hattributes : p.attributes = addBody [] (block.body.filter (!isAlias ·)) :=
      congrArg Provider.attributes hp
    rw [hattributes]
    exact represents_addBody _

/-- A resource with a list in front of blocks of its name, one of them with a block of its own, and
a provider with an alias and a block. -/
def Document.disks : SourceFile :=
  ⟨none, [
    .block "resource" ["aws_instance", "web"] [
      .attribute "disk" (.array [.text "root"]),
      .block "disk" [] [.attribute "size" (.text "1"), .block "tag" [] []],
      .block "lifecycle" [] [],
      .block "disk" [] []],
    .block "provider" ["aws"] [.attribute "alias" (.text "west"), .block "features" [] []]]⟩

/-- The maps of the disks go behind the item that the attribute has put there. -/
theorem Document.disks_nestedBlocks : ∃ document, Document.ofFiles [disks] = .ok document ∧
    document.resources.map (·.attributes) = [[("disk", .list [.text "root",
      .map [("size", .text "1"), ("tag", .list [.map []])], .map []])]] ∧
    List.Forall₂ (fun block r => Represents (block.body.filter isRepresented) r.attributes)
      (blocksOfType "resource" [disks]) document.resources :=
  ⟨_, rfl, rfl, (ofFiles_nestedBlocks rfl).1⟩

/-- The maps of all nested blocks are in a list under their type, in order. -/
abbrev KeepsBlocks : List Structure → Entries Draft → Prop :=
  RepresentsBy fun _ _ maps draft? =>
    maps ≠ [] → ∃ items, draft? = some (.list items) ∧ (maps.map Draft.map).Sublist items

/-- A resource with a block behind an attribute of its name that is no list. -/
def Document.diskless : SourceFile :=
  ⟨none, [.block "resource" ["aws_instance", "web"] [.attribute "region" (.text "us-east-1"),
    .attribute "disk" (.text "none"), .block "disk" [] [.attribute "size" (.text "1")]]]⟩

/-- The block is ignored: the attribute keeps its value. -/
theorem Document.ofFiles_ignoresBlock :
    ¬∀ files document, Document.ofFiles files = .ok document →
      List.Forall₂ (fun block r => KeepsBlocks (block.body.filter isRepresented) r.attributes)
        (blocksOfType "resource" files) document.resources := by
  intro h
  cases h [diskless] _ rfl with
  | cons hblock _ =>
    cases hblock with
    | intro maps nested listed =>
      have hlength : 1 = (maps "disk").length := (nested "disk").length_eq
      have hmaps : maps "disk" ≠ [] := by
        intro hmaps
        rw [hmaps] at hlength
        cases hlength
      obtain ⟨items, hitems, -⟩ := listed "disk" hmaps
      have hdisk : some (Draft.text "none") = some (.list items) := hitems
      cases hdisk

end Deployment
