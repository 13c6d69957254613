import Deployment.Plan.Planned
import Deployment.Proofs.Context.Blame

/-! # What an address says about an instance

The address of a planned instance is put together from the names of the modules around it, the type
and name of its resource, and its key. The parts can be told apart if module and resource names hold
no dot and no bracket and the type holds no dot: then the identifier of the instance is cut behind
the last module name, and two instances with the same address have the same `Origin`
(`Origin.address_inj`). Keys may hold any text.
-/

namespace Deployment

/-! ## Keys -/

namespace IndexKey

theorem escapeChar_ne_nil (c : Char) : escapeChar c ≠ [] := by
  unfold escapeChar
  split <;> exact List.cons_ne_nil _ _

/-- Only escaped characters start with a backslash, and they differ in the character behind it. -/
theorem escapeChar_append_inj {c d : Char} {s t : List Char}
    (h : escapeChar c ++ s = escapeChar d ++ t) : c = d ∧ s = t := by
  unfold escapeChar at h
  split at h <;> split at h <;> grind

/-- An escaped text can be read back, so different keys are written differently. -/
theorem escape_injective : Function.Injective (List.flatMap escapeChar) := by
  intro s t h
  induction s generalizing t with
  | nil =>
    cases t with
    | nil => rfl
    | cons d rest =>
      rw [List.flatMap_nil, List.flatMap_cons] at h
      exact absurd (List.append_eq_nil_iff.mp h.symm).1 (escapeChar_ne_nil d)
  | cons c rest ih =>
    cases t with
    | nil =>
      rw [List.flatMap_nil, List.flatMap_cons] at h
      exact absurd (List.append_eq_nil_iff.mp h).1 (escapeChar_ne_nil c)
    | cons d rest' =>
      rw [List.flatMap_cons, List.flatMap_cons] at h
      obtain ⟨rfl, hrest⟩ := escapeChar_append_inj h
      rw [ih hrest]

theorem render_number_toList (n : Nat) : (number n).render.toList = Nat.toDigits 10 n := by
  rw [render, Nat.toString_eq_repr, Nat.repr_eq_ofList_toDigits, String.toList_ofList]

theorem render_text_toList (s : String) :
    (text s).render.toList = '"' :: s.toList.flatMap escapeChar ++ ['"'] := by
  simp [render]

/-- A text is written in quotes, a number without. -/
theorem render_number_ne_text (n : Nat) (s : String) : (number n).render ≠ (text s).render := by
  intro h
  have hchars := congrArg String.toList h
  rw [render_number_toList, render_text_toList, List.cons_append] at hchars
  have hquote : '"' ∈ Nat.toDigits 10 n := hchars ▸ List.mem_cons_self
  exact absurd (Nat.isDigit_of_mem_toDigits (by decide) (by decide) hquote) (by decide)

/-- A number is written with digits, and a text in quotes. -/
theorem render_injective : Function.Injective render := by
  intro k k' h
  cases k with
  | number n =>
    cases k' with
    | number m =>
      have hvalue := congrArg (Nat.ofDigitChars 10 ·.toList 0) h
      simp only [render_number_toList, Nat.ofDigitChars_ten_toDigits] at hvalue
      rw [hvalue]
    | text t => exact absurd h (render_number_ne_text n t)
  | text s =>
    cases k' with
    | number m => exact absurd h.symm (render_number_ne_text m s)
    | text t =>
      have hchars := congrArg String.toList h
      rw [render_text_toList, render_text_toList] at hchars
      have hescaped := (List.cons.inj (List.append_cancel_right hchars)).2
      rw [String.toList_inj.mp (escape_injective hescaped)]

end IndexKey

/-! ## Identifiers -/

open Context (PlainName)

namespace Instance

/-- What stands behind the name in an identifier. -/
def keyText (key : Option IndexKey) : List Char :=
  match key with
  | some key => '[' :: key.render.toList ++ [']']
  | none => []

theorem identifier_toList (name : String) (key : Option IndexKey) :
    (identifier name key).toList = name.toList ++ keyText key := by
  cases key <;> simp [identifier, keyText]

/-- A key starts with a bracket, which no plain name holds. -/
theorem keyText_head (key : Option IndexKey) : ∀ c ∈ (keyText key).head?, c = '[' := by
  cases key <;> simp [keyText]

/-- The key can be read off what stands behind the name. -/
theorem keyText_injective : Function.Injective keyText := by
  intro key key' h
  cases key with
  | none =>
    cases key' with
    | none => rfl
    | some k' => cases h
  | some k =>
    cases key' with
    | none => cases h
    | some k' =>
      have hrender := List.append_cancel_right (List.cons.inj h).2
      rw [IndexKey.render_injective (String.toList_inj.mp hrender)]

/-- Plain names end where the key starts. -/
theorem identifier_inj {name name' : String} {key key' : Option IndexKey} (hname : PlainName name)
    (hname' : PlainName name') (h : identifier name key = identifier name' key') :
    name = name' ∧ key = key' := by
  have hchars := congrArg String.toList h
  rw [identifier_toList, identifier_toList] at hchars
  have hstop {name : String} (hname : PlainName name) (c : Char) (hc : c ∈ name.toList) :
      c ≠ '[' := ne_of_mem_of_not_mem hc hname.2
  obtain ⟨hnames, hkeys⟩ := Text.append_inj_of_stop (hstop hname) (hstop hname')
    (keyText_head key) (keyText_head key') hchars
  exact ⟨String.toList_inj.mp hnames, keyText_injective hkeys⟩

/-- An identifier does not start with a plain name and a dot. -/
theorem identifier_ne_dotted {name m : String} (hname : PlainName name) (hm : PlainName m)
    (key : Option IndexKey) (rest : List Char) :
    (identifier name key).toList ≠ m.toList ++ '.' :: rest := by
  intro h
  rw [identifier_toList] at h
  -- Either text is cut at its first dot or bracket, and then a key would start with a dot.
  have hstop {name : String} (hname : PlainName name) (c : Char) (hc : c ∈ name.toList) :
      ¬(c = '[' ∨ c = '.') := by
    rintro (rfl | rfl)
    · exact hname.2 hc
    · exact hname.1 hc
  obtain ⟨-, hkey⟩ := Text.append_inj_of_stop (hstop hname) (hstop hm)
    (fun c hc => .inl (keyText_head key c hc)) (by simp) h
  exact absurd (keyText_head key '.' (by rw [hkey]; rfl)) (by decide)

end Instance

/-! ## Origins -/

/-- Where an instance is declared: the modules around it, outermost first, the labels of its
resource, and its key. -/
structure Origin where
  modules : List String
  type : String
  name : String
  key : Option IndexKey
deriving DecidableEq

namespace Origin

/-- What the identifiers within modules start with. -/
def path (modules : List String) : String :=
  modules.foldr (fun name text => modulePrefix name ++ text) ""

/-- The identifier of an instance. -/
def identifier (o : Origin) : String :=
  path o.modules ++ Instance.identifier o.name o.key

/-- The address of an instance. -/
def address (o : Origin) : String :=
  path o.modules ++ o.type ++ "." ++ Instance.identifier o.name o.key

/-- The instance seen from outside of a module. -/
def within (name : String) (o : Origin) : Origin :=
  { o with modules := name :: o.modules }

/-- The names of modules and of the resource hold no dots and brackets, and the type no dots. -/
structure Plain (o : Origin) : Prop where
  modules : ∀ name ∈ o.modules, PlainName name
  type : '.' ∉ o.type.toList
  name : PlainName o.name

@[simp] theorem path_nil : path [] = "" := rfl

@[simp] theorem path_cons (name : String) (rest : List String) :
    path (name :: rest) = modulePrefix name ++ path rest := rfl

/-- Seen from outside of a module, its name stands in front of the identifier. -/
theorem identifier_within (name : String) (o : Origin) :
    (o.within name).identifier = modulePrefix name ++ o.identifier := by
  simp [identifier, within, String.append_assoc]

/-- An origin stays plain in a module with a plain name. -/
theorem Plain.within {o : Origin} {name : String} (h : o.Plain) (hname : PlainName name) :
    (o.within name).Plain :=
  ⟨List.forall_mem_cons.mpr ⟨hname, h.modules⟩, h.type, h.name⟩

theorem modulePrefix_toList (name : String) :
    (modulePrefix name).toList = "module".toList ++ '.' :: (name.toList ++ ['.']) := by
  simp [modulePrefix, moduleMark]

/-! ## The cut behind the modules -/

/-- Behind the name of a module and its dot the rest of the identifier starts. -/
theorem afterModule?_modulePrefix {name : String} (h : '.' ∉ name.toList) (rest : List Char) :
    afterModule? ((modulePrefix name).toList ++ rest) = some rest := by
  have hsplit : (modulePrefix name).toList ++ rest =
      moduleMark.toList ++ (name.toList ++ '.' :: rest) := by
    simp [modulePrefix]
  have hname : (name.toList ++ '.' :: rest).dropWhile (· != '.') = '.' :: rest := by
    rw [List.dropWhile_append_of_pos]
    · simp
    · intro c hc
      simp only [bne_iff_ne, ne_eq]
      rintro rfl
      exact h hc
  have hdrop : ((modulePrefix name).toList ++ rest).drop moduleMark.length =
      name.toList ++ '.' :: rest := by
    rw [hsplit]
    exact List.drop_left
  rw [afterModule?, if_pos (by rw [hsplit]; exact List.isPrefixOf_iff_prefix.mpr ⟨_, rfl⟩), hdrop,
    hname]

/-- No module name is read off the identifier of an instance that stands in none. -/
theorem afterModule?_identifier {name : String} (h : PlainName name) (key : Option IndexKey) :
    afterModule? (Instance.identifier name key).toList = none := by
  unfold afterModule?
  split
  · rename_i hmark
    obtain ⟨rest, hrest⟩ := List.isPrefixOf_iff_prefix.mp hmark
    have hdotted : (Instance.identifier name key).toList = "module".toList ++ '.' :: rest := by
      rw [← hrest]
      rfl
    exact absurd hdotted (Instance.identifier_ne_dotted h (by decide) key rest)
  · rfl

/-- Where no module name stands, nothing is cut off. -/
theorem localIdentifier_of_none {text : List Char} (h : afterModule? text = none) :
    localIdentifier text = text := by
  rw [localIdentifier]
  split
  · rename_i rest hrest
    rw [h] at hrest
    cases hrest
  · rfl

/-- Where one stands, it is cut off and the cut goes on behind it. -/
theorem localIdentifier_of_some {text rest : List Char} (h : afterModule? text = some rest) :
    localIdentifier text = localIdentifier rest := by
  rw [localIdentifier]
  split
  · rename_i rest' hrest
    rw [h] at hrest
    cases hrest
    rfl
  · rename_i hnone
    rw [h] at hnone
    cases hnone

/-- The names of the modules are cut off one after the other, and nothing behind them. -/
theorem localIdentifier_path {modules : List String} (hmodules : ∀ m ∈ modules, PlainName m)
    {name : String} (hname : PlainName name) (key : Option IndexKey) :
    localIdentifier ((path modules).toList ++ (Instance.identifier name key).toList) =
      (Instance.identifier name key).toList := by
  induction modules with
  | nil =>
    rw [path_nil, String.toList_empty, List.nil_append]
    exact localIdentifier_of_none (afterModule?_identifier hname key)
  | cons m rest ih =>
    obtain ⟨hm, hrest⟩ := List.forall_mem_cons.mp hmodules
    rw [path_cons, String.toList_append, List.append_assoc,
      localIdentifier_of_some (afterModule?_modulePrefix hm.1 _)]
    exact ih hrest

/-- An identifier is split exactly behind its module names. -/
theorem splitModules_identifier {o : Origin} (h : o.Plain) :
    splitModules o.identifier = (path o.modules, Instance.identifier o.name o.key) := by
  have hown := localIdentifier_path h.modules h.name o.key
  rw [splitModules, identifier, String.toList_append]
  simp only [hown, List.length_append, Nat.add_sub_cancel, List.take_left', String.ofList_toList]

end Origin

/-- A planned instance has the type and the identifier of an origin. -/
structure Planned.ComesFrom (p : Planned) (o : Origin) : Prop where
  type : p.type = o.type
  identifier : p.identifier = o.identifier

namespace Planned.ComesFrom

variable {p : Planned} {o : Origin}

/-- An instance keeps its origin when it is handed out of a module. -/
theorem within (h : p.ComesFrom o) (name : String) : (p.within name).ComesFrom (o.within name) where
  type := h.type
  identifier := by
    rw [Origin.identifier_within, ← h.identifier]
    rfl

/-- The address of a planned instance is that of its origin. -/
theorem address_eq (h : p.ComesFrom o) (hplain : o.Plain) : p.address = o.address := by
  rw [address, h.identifier, Origin.splitModules_identifier hplain, h.type]
  rfl

end Planned.ComesFrom

/-! ## Addresses determine origins -/

namespace Origin

/-- The address of an instance in no module. -/
theorem address_outside (type name : String) (key : Option IndexKey) :
    (Origin.mk [] type name key).address.toList =
      type.toList ++ '.' :: (Instance.identifier name key).toList := by
  simp [address]

/-- Seen from outside of a module, the mark and the name stand in front of the address. -/
theorem address_within (name : String) (o : Origin) :
    (o.within name).address.toList =
      "module".toList ++ '.' :: (name.toList ++ '.' :: o.address.toList) := by
  simp [address, within, modulePrefix_toList]

/-- Texts without dots end where the first dot stands. -/
theorem append_dot_inj {s s' t t' : List Char} (hs : '.' ∉ s) (hs' : '.' ∉ s')
    (h : s ++ '.' :: t = s' ++ '.' :: t') : s = s' ∧ t = t' := by
  have hstop {s : List Char} (hs : '.' ∉ s) (c : Char) (hc : c ∈ s) : c ≠ '.' :=
    ne_of_mem_of_not_mem hc hs
  obtain ⟨hfirst, hrest⟩ :=
    Text.append_inj_of_stop (hstop hs) (hstop hs') (by simp) (by simp) h
  exact ⟨hfirst, (List.cons.inj hrest).2⟩

/-- Outside of modules the address tells type, name and key: the type ends at its dot, the name
where the key starts. -/
theorem address_outside_inj {type type' name name' : String} {key key' : Option IndexKey}
    (htype : '.' ∉ type.toList) (htype' : '.' ∉ type'.toList) (hname : PlainName name)
    (hname' : PlainName name')
    (h : (Origin.mk [] type name key).address = (Origin.mk [] type' name' key').address) :
    type = type' ∧ name = name' ∧ key = key' := by
  have hchars := congrArg String.toList h
  rw [address_outside, address_outside] at hchars
  obtain ⟨htypes, hidentifiers⟩ := append_dot_inj htype htype' hchars
  exact ⟨String.toList_inj.mp htypes,
    Instance.identifier_inj hname hname' (String.toList_inj.mp hidentifiers)⟩

/-- No address outside of modules is one within a module: even for the type `module` the name in it
would hold a dot. -/
theorem address_ne_within {type name m : String} {key : Option IndexKey} {o : Origin}
    (htype : '.' ∉ type.toList) (hname : PlainName name) (hm : PlainName m) :
    (Origin.mk [] type name key).address ≠ (o.within m).address := by
  intro h
  have hchars := congrArg String.toList h
  rw [address_outside, address_within] at hchars
  obtain ⟨-, hrest⟩ := append_dot_inj htype (by decide) hchars
  exact Instance.identifier_ne_dotted hname hm key _ hrest

/-- Instances with the same address have the same origin. -/
theorem address_inj {o o' : Origin} (h : o.Plain) (h' : o'.Plain) (heq : o.address = o'.address) :
    o = o' := by
  obtain ⟨modules, type, name, key⟩ := o
  obtain ⟨modules', type', name', key'⟩ := o'
  -- Without its outermost module an origin is still plain.
  have hmodule {m : String} {rest : List String} {type name : String} {key : Option IndexKey}
      (h : Plain ⟨m :: rest, type, name, key⟩) : Plain ⟨rest, type, name, key⟩ ∧ PlainName m :=
    ⟨⟨fun n hn => h.modules n (List.mem_cons_of_mem _ hn), h.type, h.name⟩,
      h.modules m List.mem_cons_self⟩
  -- By induction on the modules around the first instance. What stands outside never has the
  -- address of what stands within.
  induction modules generalizing modules' with
  | nil =>
    cases modules' with
    | nil =>
      obtain ⟨rfl, rfl, rfl⟩ := address_outside_inj h.type h'.type h.name h'.name heq
      rfl
    | cons m' rest' =>
      exact absurd heq (address_ne_within (o := ⟨rest', type', name', key'⟩) h.type h.name
        (hmodule h').2)
  | cons m rest ih =>
    cases modules' with
    | nil =>
      exact absurd heq.symm (address_ne_within (o := ⟨rest, type, name, key⟩) h'.type h'.name
        (hmodule h).2)
    | cons m' rest' =>
      have hchars : (within m ⟨rest, type, name, key⟩).address.toList =
          (within m' ⟨rest', type', name', key'⟩).address.toList := congrArg String.toList heq
      rw [address_within, address_within] at hchars
      -- Two cuts, behind the mark and behind the name, leave the addresses in the modules.
      obtain ⟨-, hbehind⟩ := append_dot_inj (by decide) (by decide) hchars
      obtain ⟨hm, haddress⟩ := append_dot_inj (hmodule h).2.1 (hmodule h').2.1 hbehind
      have hrest := ih (hmodule h).1 rest' (hmodule h').1 (String.toList_inj.mp haddress)
      simp only [mk.injEq] at hrest
      obtain ⟨rfl, rfl, rfl, rfl⟩ := hrest
      rw [String.toList_inj.mp hm]

end Origin

namespace Planned

/-- The identifier of an instance is split exactly behind the names of its modules, and its address
tells all of its origin. -/
theorem ComesFrom.address_eq_iff {p p' : Planned} {o o' : Origin} (h : p.ComesFrom o)
    (h' : p'.ComesFrom o') (hplain : o.Plain) (hplain' : o'.Plain) :
    splitModules p.identifier = (Origin.path o.modules, Instance.identifier o.name o.key) ∧
      (p.address = p'.address ↔ o = o') := by
  constructor
  · rw [h.identifier]
    exact Origin.splitModules_identifier hplain
  · rw [h.address_eq hplain, h'.address_eq hplain']
    refine ⟨Origin.address_inj hplain hplain', ?_⟩
    rintro rfl
    rfl

/-- A module and a resource of the name `module`, and a key that looks like more of them. -/
def lookalike : Planned :=
  ⟨"module.module.module[\"a.module.b\"]", "aws_instance", .text "a.module.b", [], "us-east-1"⟩

/-- A resource of that name two modules deep. -/
def nestedLookalike : Planned :=
  ⟨"module.module.module.a.module", "aws_instance", .number 0, [], "us-east-1"⟩

/-- What is in a key is never taken for modules, nor for the name of a resource. -/
theorem lookalike_address_eq_iff :
    splitModules lookalike.identifier = ("module.module.", "module[\"a.module.b\"]") ∧
      lookalike.address ≠ nestedLookalike.address := by
  have h : lookalike.ComesFrom
      ⟨["module"], "aws_instance", "module", some (.text "a.module.b")⟩ := ⟨rfl, by cbv⟩
  have h' : nestedLookalike.ComesFrom
      ⟨["module", "a"], "aws_instance", "module", none⟩ := ⟨rfl, by cbv⟩
  have hplain : Origin.Plain
      ⟨["module"], "aws_instance", "module", some (.text "a.module.b")⟩ :=
    ⟨by simp [PlainName], by decide, by decide⟩
  have hplain' : Origin.Plain ⟨["module", "a"], "aws_instance", "module", none⟩ :=
    ⟨by simp [PlainName], by decide, by decide⟩
  obtain ⟨hsplit, haddress⟩ := h.address_eq_iff h' hplain hplain'
  exact ⟨hsplit, mt haddress.mp (by decide)⟩

end Planned

end Deployment
