import Deployment.Proofs.Syntax.Numerals
import Deployment.Proofs.Syntax.Quoting
import Deployment.Proofs.Syntax.Spelling

/-! # Written expressions are cut into their tokens

`Expr.Readable` is the condition on every node of an expression under which its text is read back.
Most of it holds of everything that was read before: names are names, template texts are not split.
The rest are the cases in which the printer writes something else. Under it the text of an
expression is spelled by `Expr.tokens` (`Expr.cut_of_readable`).
-/

namespace Deployment

open Token (Spelled Boundary Anything joined)

/-! ## What can be read back -/

/-- A name that can stand for itself in an expression. -/
def Text.IsRoot (name : String) : Prop :=
  IsName name ∧ name ∉ ["true", "false", "null"]

instance (name : String) : Decidable (Text.IsRoot name) :=
  inferInstanceAs (Decidable (_ ∧ _))

/-- A value with legible numbers and with different keys in every map. -/
inductive Value.Legible : Value → Prop
  | null : Legible .null
  | bool (b : Bool) : Legible (.bool b)
  | number {n : Number} (h : n.Legible) : Legible (.number n)
  | text (s : String) : Legible (.text s)
  | list {items : List Value} (h : ∀ v ∈ items, Legible v) : Legible (.list items)
  | map {entries : List (String × Value)} (nodup : (entries.map Prod.fst).Nodup)
      (h : ∀ key v, (key, v) ∈ entries → Legible v) : Legible (.map entries)

namespace Template

/-- What may come behind a text in a template: the end, or an interpolation unless the text ends in
a dollar sign. -/
def Ends (s : String) : Template → Prop
  | [] => True
  | .text _ :: _ => False
  | .interpolation _ :: _ => s.toList.getLast? ≠ some '$'

/-- A template whose texts are not empty and are told apart from each other and from what is
interpolated. -/
def Separated : Template → Prop
  | [] => True
  | .interpolation _ :: rest => Separated rest
  | .text s :: rest => s ≠ "" ∧ Ends s rest ∧ Separated rest

end Template

/-- The condition on a node of an expression under which its text is read back. -/
def Expr.Readable : Expr → Prop
  | .literal v => v.Legible
  | .template parts => Template.Separated parts
  | .reference r => Text.IsRoot r.root ∧ ∀ name ∈ r.path, Text.IsName name
  -- The keyword would start a `for` expression.
  | .list items => ∀ e ∈ items.head?, e.tokens.head? ≠ some (.name "for")
  -- The bare word is read as text.
  | .map entries => ∀ entry ∈ entries, entry.1 ≠ .literal .null
  -- The name is read as part of the reference.
  | .attribute object name => Text.IsName name ∧
      ∀ root, object = .reference ⟨root, []⟩ → root ≠ "var" ∧ root ≠ "local"
  | .call name _ => Text.IsRoot name
  | _ => True

/-! ## Texts of lists -/

/-- Items are joined with a comma and a blank. -/
theorem joined_cons_cons (s t : List Char) (rest : List (List Char)) :
    joined (s :: t :: rest) = s ++ ',' :: ' ' :: joined (t :: rest) :=
  rfl

/-- The items of a value are written one behind the other. -/
theorem Value.renderItems_toList (items : List Value) :
    (renderItems items).toList = joined (items.map fun v => v.render.toList) := by
  induction items with
  | nil => rfl
  | cons v rest ih =>
    cases rest with
    | nil => rfl
    | cons w rest =>
      rw [renderItems, String.toList_append, String.toList_append, ih]
      · simp [joined_cons_cons]
      · simp

/-- The text of an entry of a map. -/
def Value.entryText (entry : String × Value) : List Char :=
  '"' :: ((Template.quoted entry.1).toList ++ ['"']) ++
    ' ' :: (['='] ++ ' ' :: entry.2.render.toList)

/-- The entries of a value are written one behind the other. -/
theorem Value.renderEntries_toList (entries : List (String × Value)) :
    (renderEntries entries).toList = joined (entries.map entryText) := by
  induction entries with
  | nil => rfl
  | cons entry rest ih =>
    obtain ⟨key, v⟩ := entry
    cases rest with
    | nil => simp [renderEntries, joined, entryText]
    | cons w rest =>
      rw [renderEntries, String.toList_append, ih]
      · simp [joined_cons_cons, entryText]
      · simp

namespace Expr

/-- The items of a list or of a call are written one behind the other. -/
theorem renderItems_toList (items : List Expr) :
    (renderItems items).toList = joined (items.map fun e => e.render.toList) := by
  induction items with
  | nil => simp [renderItems, joined]
  | cons e rest ih =>
    cases rest with
    | nil => simp [renderItems, joined]
    | cons w rest =>
      rw [renderItems, String.toList_append, String.toList_append, ih]
      · simp [joined_cons_cons]
      · simp

/-- The text of an entry of a map constructor. -/
def entryText (entry : Expr × Expr) : List Char :=
  (parensIf (!entry.1.isBareKey) entry.1.render).toList ++
    ' ' :: (['='] ++ ' ' :: entry.2.render.toList)

/-- The entries of a map constructor are written one behind the other. -/
theorem renderEntries_toList (entries : List (Expr × Expr)) :
    (renderEntries entries).toList = joined (entries.map entryText) := by
  induction entries with
  | nil => simp [renderEntries, joined]
  | cons entry rest ih =>
    obtain ⟨key, e⟩ := entry
    cases rest with
    | nil => simp [renderEntries, joined, entryText]
    | cons w rest =>
      rw [renderEntries, String.toList_append, ih]
      · simp [joined_cons_cons, entryText]
      · simp

end Expr

/-! ## Values -/

/-- A text that is not empty and does not complete a symbol in front of it. -/
def Opens (s : List Char) : Prop :=
  ∃ c rest, s = c :: rest ∧ c ≠ '='

/-- Only the first character counts. -/
theorem Opens.append {s : List Char} (h : Opens s) (t : List Char) : Opens (s ++ t) := by
  obtain ⟨c, rest, rfl, hc⟩ := h
  exact ⟨c, rest ++ t, rfl, hc⟩

theorem Opens.of_cons {c : Char} (hc : c ≠ '=') (rest : List Char) : Opens (c :: rest) :=
  ⟨c, rest, rfl, hc⟩

namespace Token.Spelled

/-- A minus sign is one token, whatever follows. -/
theorem minus : Spelled Anything ['-'] [.symbol .minus] :=
  symbol (fun _ _ => rfl) (by decide)

/-- Quoted text is one token. -/
theorem ofText (s : String) :
    Spelled Anything ('"' :: ((Template.quoted s).toList ++ ['"'])) [.ofText s] := by
  have hwritten : (Template.quoted s).toList = Template.written true s.toList :=
    Template.written_toList true s
  refine quoted fun outer tail => ?_
  rw [hwritten]
  exact Template.closing_written outer (.quote _ tail)

/-- A key and a value with an equals sign between them. -/
theorem entry {key value : List Char} {x y : List Token} (hkey : Spelled Boundary key x)
    (hvalue : Spelled Boundary value y) :
    Spelled Boundary (key ++ ' ' :: (['='] ++ ' ' :: value)) (x ++ .symbol .assign :: y) := by
  refine between (symbol (fun tail htail => ?_) (by decide)) hkey hvalue
  obtain ⟨t, rfl⟩ : ∃ t, tail = ' ' :: t := by
    cases tail with
    | nil => cases htail
    | cons c t => exact ⟨t, by simpa using htail⟩
  rfl

/-- Entries within braces. -/
theorem entries {texts : List (List Char)} {tss : List (List Token)}
    (h : List.Forall₂ (Spelled Boundary) texts tss) :
    Spelled Anything
      ('\x7b' :: ((if texts = [] then [] else ' ' :: (joined texts ++ [' '])) ++ ['\x7d']))
      (enclosed .openBrace .closeBrace (Token.separated tss)) := by
  refine braced ?_
  split
  · rename_i hnil
    subst hnil
    cases h
    exact nil.mono fun _ _ => trivial
  · have hinner : Spelled Anything (joined texts ++ [' ']) (Token.separated tss ++ []) :=
      (separated h).append blank fun _ _ => .of_ne_dot (by decide) (by decide) _
    rw [List.append_nil] at hinner
    exact (blank.cons hinner).mono fun _ _ => trivial

end Token.Spelled

/-- A legible number is cut into its tokens, with its sign as a token of its own. -/
theorem Number.Legible.spelled {n : Number} (h : n.Legible) :
    Spelled Boundary (n.write .expression).toList n.tokens ∧
      Opens (n.write .expression).toList := by
  have hwritten := h.written
  unfold Number.tokens
  generalize (n.write .expression).toList = text at hwritten ⊢
  cases hwritten with
  | positive number reads =>
    have hspelled := Spelled.number number
    obtain ⟨c, rest, rfl, hc⟩ := number.head
    have hminus : c ≠ '-' := by
      rintro rfl
      cases hc
    refine ⟨?_, .of_cons (by rintro rfl; cases hc) rest⟩
    split
    · rename_i heq
      exact absurd (List.cons.inj heq).1 hminus
    · exact hspelled
  | negative number reads negates =>
    exact ⟨Spelled.minus.cons (Spelled.number number), .of_cons (by decide) _⟩

/-- The text of a value is cut into its tokens. -/
theorem Value.Legible.spelled {v : Value} (h : v.Legible) :
    Spelled Boundary v.render.toList v.tokens ∧ Opens v.render.toList := by
  -- By induction on the value, with the legible parts taken from the hypothesis.
  induction v with
  | null => exact ⟨Spelled.name (s := "null") (by decide), .of_cons (by decide) _⟩
  | bool b =>
    cases b
    · exact ⟨Spelled.name (s := "false") (by decide), .of_cons (by decide) _⟩
    · exact ⟨Spelled.name (s := "true") (by decide), .of_cons (by decide) _⟩
  | number n =>
    cases h with
    | number h => exact h.spelled
  | text s =>
    have htext : (render (.text s)).toList = '"' :: ((Template.quoted s).toList ++ ['"']) := by
      simp [render]
    rw [htext]
    exact ⟨(Spelled.ofText s).mono fun _ _ => trivial, .of_cons (by decide) _⟩
  | list items ih =>
    cases h with
    | list h =>
      have htext : (render (.list items)).toList =
          '[' :: (joined (items.map fun v => v.render.toList) ++ [']']) := by
        simp [render, renderItems_toList]
      rw [htext, tokens, tokensOfItems_eq_map]
      refine ⟨(Spelled.separated (Spelled.each fun v hv => ?_)).bracketed.mono fun _ _ => trivial,
        .of_cons (by decide) _⟩
      exact (ih v hv (h v hv)).1
  | map entries ih =>
    cases h with
    | map _ h =>
      have htext : (render (.map entries)).toList = '\x7b' ::
          ((if entries.map entryText = [] then [] else
            ' ' :: (joined (entries.map entryText) ++ [' '])) ++ ['\x7d']) := by
        cases entries with
        | nil => rfl
        | cons entry rest => simp [render, renderEntries_toList]
      rw [htext, tokens, tokensOfEntries_eq_map]
      refine ⟨(Spelled.entries (Spelled.each fun entry hentry => ?_)).mono fun _ _ => trivial,
        .of_cons (by decide) _⟩
      exact Spelled.entry ((Spelled.ofText entry.1).mono fun _ _ => trivial)
        (ih entry.1 entry.2 hentry (h entry.1 entry.2 hentry)).1

/-! ## Expressions -/

/-- An attribute behind a number is no fraction of it. -/
theorem Text.IsName.boundary {name : String} (h : IsName name) (tail : List Char) :
    Boundary ('.' :: (name.toList ++ tail)) := by
  obtain ⟨c, rest, heq, hc, -⟩ := h.cases
  refine ⟨by decide, fun _ d hd => ?_⟩
  obtain rfl : c = d := by simpa [heq] using hd
  exact isDigit_eq_false_of_startsName hc

/-- A name does not complete a symbol in front of it. -/
theorem Text.IsName.opens {name : String} (h : IsName name) : Opens name.toList := by
  obtain ⟨c, rest, heq, hc, -⟩ := h.cases
  rw [heq]
  refine .of_cons ?_ rest
  rintro rfl
  exact absurd hc (by decide)

namespace Token.Spelled

/-- A point and a name are two tokens if the name ends there. -/
theorem access_ended {name : String} (h : Text.IsName name) :
    Spelled NameEnds ('.' :: name.toList) [.symbol .dot, .name name] := by
  have dot : Spelled (fun tail => tail.head? ≠ some '.') ['.'] [.symbol .dot] := by
    refine symbol (fun tail htail => ?_) (by decide)
    rw [List.singleton_append, symbol?]
    · rfl
    · rintro rest rfl
      exact htail rfl
  obtain ⟨c, rest, heq, hc, -⟩ := h.cases
  refine dot.append (Spelled.name_ended h) fun tail _ => ?_
  show (name.toList ++ tail).head? ≠ some '.'
  rw [heq]
  rintro hdot
  obtain rfl : c = '.' := by simpa using hdot
  exact absurd hc (by decide)

/-- A point and a name are two tokens in front of anything the printer writes. -/
theorem access {name : String} (h : Text.IsName name) :
    Spelled Boundary ('.' :: name.toList) [.symbol .dot, .name name] :=
  (access_ended h).mono fun _ htail => htail.head

/-- Attributes behind a reference are cut one by one. -/
theorem path {names : List String} (h : ∀ name ∈ names, Text.IsName name) :
    Spelled NameEnds (names.flatMap fun name => '.' :: name.toList)
      (names.flatMap fun name => [.symbol .dot, .name name]) := by
  induction names with
  | nil => exact nil.mono fun _ _ => trivial
  | cons name rest ih =>
    have hrest := ih fun name hname => h name (List.mem_cons_of_mem _ hname)
    rw [List.flatMap_cons, List.flatMap_cons]
    refine (access_ended (h name (by simp))).append hrest fun tail htail => ?_
    cases rest with
    | nil => exact htail
    | cons next rest =>
      rw [List.flatMap_cons, List.append_assoc, List.cons_append]
      exact ((h next (by simp)).boundary _).head

/-- A reference is cut into its names and points. -/
theorem reference {r : Reference} (hroot : Text.IsName r.root)
    (hpath : ∀ name ∈ r.path, Text.IsName name) :
    Spelled NameEnds r.render.toList (Expr.reference r).tokens := by
  rw [Reference.render_toList, Expr.tokens]
  refine (name_ended hroot).append (path hpath) fun tail htail => ?_
  cases hnames : r.path with
  | nil => simpa using htail
  | cons name rest =>
    rw [List.flatMap_cons, List.append_assoc, List.cons_append]
    exact ((hpath name (by simp [hnames])).boundary _).head

/-- An operator is one token in front of a blank, which the printer always writes there. Without it,
two symbols could make a third one. -/
theorem operator (op : BinaryOp) :
    Spelled (·.head? = some ' ') op.symbol.toList [.symbol op.token] := by
  have hplain : op.symbol.toList.all Token.isPlain := by
    cases op with
    | order op => cases op <;> decide
    | arithmetic op => cases op <;> decide
    | _ => decide
  refine symbol (fun tail htail => ?_) hplain
  obtain ⟨t, rfl⟩ : ∃ t, tail = ' ' :: t := by
    cases tail with
    | nil => cases htail
    | cons c t => exact ⟨t, by simpa using htail⟩
  cases op with
  | order op => cases op <;> rfl
  | arithmetic op => cases op <;> rfl
  | _ => rfl

end Token.Spelled

namespace Expr

open Token (groupedIf)

section Rendering

attribute [local simp] render renderItems renderEntries renderParts tokens

/-- An operand is spelled like its expression or in parentheses. -/
theorem spelled_parensIf {e : Expr} (h : Spelled Boundary e.render.toList e.tokens)
    (hopens : Opens e.render.toList) (condition : Bool) :
    Spelled Boundary (parensIf condition e.render).toList (groupedIf condition e.tokens) ∧
      Opens (parensIf condition e.render).toList := by
  rw [parensIf_toList]
  cases condition with
  | false => exact ⟨h, hopens⟩
  | true => exact ⟨h.parenthesised.mono fun _ _ => trivial, .of_cons (by decide) _⟩

/-- An interpolation is written between its braces, in front of the parts behind it. -/
theorem renderParts_interpolation (inQuotes : Bool) (e : Expr) (rest : Template) :
    (renderParts inQuotes (.interpolation e :: rest)).toList =
      '$' :: '\x7b' :: (e.render.toList ++ '\x7d' :: (renderParts inQuotes rest).toList) := by
  simp

/-- What comes behind a text in a template does not change how the text is read. -/
theorem follows_renderParts (inQuotes : Bool) {s : String} {rest : Template} (h : rest.Ends s)
    {tail : List Char} (htail : Template.Follows s.toList tail) :
    Template.Follows s.toList ((renderParts inQuotes rest).toList ++ tail) := by
  cases rest with
  | nil => simpa using htail
  | cons part rest =>
    cases part with
    | text t => exact h.elim
    | interpolation e => exact ⟨by simp, by simp, fun _ _ => h⟩

/-- A template within quotes is passed over by the search for the closing quote. -/
theorem contained_renderParts {parts : Template} (h : parts.Separated)
    (hparts : ∀ e, .interpolation e ∈ parts → Spelled Boundary e.render.toList e.tokens) :
    Spelled.Contained (renderParts true parts).toList := by
  intro outer tail
  -- By induction on the parts. A text is passed over character by character, an interpolation as a
  -- whole.
  induction parts with
  | nil => simp
  | cons part rest ih =>
    have hrest := fun hseparated => ih hseparated fun e he => hparts e (List.mem_cons_of_mem _ he)
    cases part with
    | text s =>
      obtain ⟨-, hends, hseparated⟩ := h
      have hwritten : (Template.quoted s).toList = Template.written true s.toList :=
        Template.written_toList true s
      have hfollows := follows_renderParts true hends (Template.Follows.quote s.toList tail)
      simp only [renderParts, if_true, String.toList_append, List.append_assoc, hwritten,
        List.length_append]
      rw [Template.closing_written outer hfollows, hrest hseparated, Option.map_map]
      refine congrArg (Option.map · _) (funext fun n => ?_)
      simp only [Function.comp_apply]
      omega
    | interpolation e =>
      have htext : (renderParts true (.interpolation e :: rest)).toList ++ '"' :: tail =
          '$' :: '\x7b' :: (e.render.toList ++
            '\x7d' :: ((renderParts true rest).toList ++ '"' :: tail)) := by simp
      have hlength : (renderParts true (.interpolation e :: rest)).toList.length =
          e.render.toList.length + (renderParts true rest).toList.length + 3 := by
        simp
        omega
      -- The closing brace brings the search back to the quoted text around it.
      have hclose : Template.closing .braces (.quoted :: outer)
          ('\x7d' :: ((renderParts true rest).toList ++ '"' :: tail)) =
            (Template.closing .quoted outer ((renderParts true rest).toList ++ '"' :: tail)).map
              (· + 1) := by
        rw [Template.closing]
      rw [htext, hlength, Template.closing, (hparts e (by simp)).skips, hclose, hrest h]
      simp only [Option.map_map]
      refine congrArg (Option.map · _) (funext fun n => ?_)
      simp only [Function.comp_apply]
      omega

/-! ## One lemma for each kind of expression -/

/-- The text of an expression is cut into its tokens and can stand behind an operator. -/
structure Cut (e : Expr) : Prop where
  spelled : Spelled Boundary e.render.toList e.tokens
  opens : Opens e.render.toList

namespace Cut

variable {e e₁ e₂ : Expr}

/-- An operand of a cut expression is cut as well, in parentheses or not. -/
theorem operand (h : Cut e) : Spelled Boundary (parensIf e.needsParens e.render).toList
    (groupedIf e.needsParens e.tokens) ∧ Opens (parensIf e.needsParens e.render).toList :=
  spelled_parensIf h.spelled h.opens e.needsParens

/-- A template is one quoted token, whatever it interpolates. -/
theorem template {parts : Template} (h : parts.Separated)
    (hparts : ∀ e, .interpolation e ∈ parts → Cut e) : Cut (.template parts) := by
  have hcontained := contained_renderParts h fun e he => (hparts e he).spelled
  have htext : (render (.template parts)).toList =
      '"' :: ((renderParts true parts).toList ++ ['"']) := by simp
  constructor
  · rw [htext, tokens]
    exact (Spelled.quoted hcontained).mono fun _ _ => trivial
  · rw [htext]
    exact .of_cons (by decide) _

/-- A reference is cut into its names. -/
theorem reference {r : Reference} (hroot : Text.IsName r.root)
    (hpath : ∀ name ∈ r.path, Text.IsName name) : Cut (.reference r) := by
  constructor
  · rw [render]
    exact (Spelled.reference hroot hpath).mono fun _ htail => htail.head
  · rw [render, Reference.render_toList]
    exact hroot.opens.append _

/-- A list is cut into its brackets, its items and the commas between them. -/
theorem list {items : List Expr} (h : ∀ e ∈ items, Cut e) : Cut (.list items) := by
  have htext : (render (.list items)).toList =
      '[' :: (joined (items.map fun e => e.render.toList) ++ [']']) := by
    simp [renderItems_toList]
  constructor
  · rw [htext, tokens, tokensOfItems_eq_map]
    exact (Spelled.separated (Spelled.each fun e he => (h e he).spelled)).bracketed.mono
      fun _ _ => trivial
  · rw [htext]
    exact .of_cons (by decide) _

/-- A map constructor is cut into its braces, its entries and the commas between them. -/
theorem map {entries : List (Expr × Expr)} (h : ∀ entry ∈ entries, Cut entry.1 ∧ Cut entry.2) :
    Cut (.map entries) := by
  have htext : (render (.map entries)).toList = '\x7b' ::
      ((if entries.map entryText = [] then [] else
        ' ' :: (joined (entries.map entryText) ++ [' '])) ++ ['\x7d']) := by
    cases entries with
    | nil => simp
    | cons entry rest => rw [render]; simp [renderEntries_toList, -renderEntries]
  constructor
  · rw [htext, tokens, tokensOfEntries_eq_map]
    refine (Spelled.entries (Spelled.each fun entry hentry => ?_)).mono fun _ _ => trivial
    obtain ⟨hkey, he⟩ := h entry hentry
    exact Spelled.entry (spelled_parensIf hkey.spelled hkey.opens _).1 he.spelled
  · rw [htext]
    exact .of_cons (by decide) _

/-- An attribute is cut off behind its object, also behind a number. -/
theorem access {name : String} (h : Cut e) (hname : Text.IsName name) :
    Cut (.attribute e name) := by
  obtain ⟨hobject, hopens⟩ := h.operand
  have htext : (render (.attribute e name)).toList =
      (parensIf e.needsParens e.render).toList ++ '.' :: name.toList := by simp
  constructor
  · rw [htext, tokens]
    exact hobject.append (Spelled.access hname) fun tail _ => hname.boundary tail
  · rw [htext]
    exact hopens.append _

/-- A key is cut off behind its object, within its brackets. -/
theorem index (h : Cut e) (h₁ : Cut e₁) : Cut (.index e e₁) := by
  obtain ⟨hobject, hopens⟩ := h.operand
  have htext : (render (.index e e₁)).toList =
      (parensIf e.needsParens e.render).toList ++ '[' :: (e₁.render.toList ++ [']']) := by
    simp
  constructor
  · rw [htext, tokens]
    exact hobject.append (h₁.spelled.bracketed.mono fun _ _ => trivial) fun tail _ =>
      .of_ne_dot (by decide) (by decide) _
  · rw [htext]
    exact hopens.append _

/-- An operand never continues a negation to an inequality. -/
theorem not (h : Cut e) : Cut (.unary .not e) := by
  obtain ⟨hoperand, c, rest, heq, hc⟩ := h.operand
  have bang : Spelled (fun tail => tail.head? ≠ some '=') ['!'] [.symbol .not] := by
    refine Spelled.symbol (fun tail htail => ?_) (by decide)
    rw [List.singleton_append, Token.symbol?]
    · rfl
    · rintro rest rfl
      exact htail rfl
  have htext : (render (.unary .not e)).toList =
      '!' :: (parensIf e.needsParens e.render).toList := by simp [UnaryOp.symbol]
  constructor
  · rw [htext, tokens]
    refine bang.append hoperand fun tail _ => ?_
    show ((parensIf e.needsParens e.render).toList ++ tail).head? ≠ some '='
    rw [heq]
    simpa using hc
  · rw [htext]
    exact .of_cons (by decide) _

/-- A minus sign and its operand are cut apart. -/
theorem neg (h : Cut e) : Cut (.unary .neg e) := by
  have htext : (render (.unary .neg e)).toList =
      '-' :: (parensIf e.needsParens e.render).toList := by simp [UnaryOp.symbol]
  constructor
  · rw [htext, tokens]
    exact Spelled.minus.cons h.operand.1
  · rw [htext]
    exact .of_cons (by decide) _

/-- An operator is cut apart from its operands by the blanks around it. -/
theorem binary (op : BinaryOp) (h : Cut e) (h₁ : Cut e₁) : Cut (.binary op e e₁) := by
  obtain ⟨hleft, hopens⟩ := h.operand
  have htext : (render (.binary op e e₁)).toList =
      (parensIf e.needsParens e.render).toList ++ ' ' :: (op.symbol.toList ++
        ' ' :: (parensIf e₁.needsParens e₁.render).toList) := by simp
  constructor
  · rw [htext, tokens]
    exact Spelled.between (Spelled.operator op) hleft h₁.operand.1
  · rw [htext]
    exact hopens.append _

/-- A conditional is cut at its two symbols. -/
theorem conditional (h : Cut e) (h₁ : Cut e₁) (h₂ : Cut e₂) : Cut (.conditional e e₁ e₂) := by
  obtain ⟨hcondition, hopens⟩ := h.operand
  have question : Spelled (fun tail => tail.head? = some ' ') ['?'] [.symbol .question] :=
    Spelled.symbol (fun _ _ => rfl) (by decide)
  have colon : Spelled (fun tail => tail.head? = some ' ') [':'] [.symbol .colon] :=
    Spelled.symbol (fun _ _ => rfl) (by decide)
  have htext : (render (.conditional e e₁ e₂)).toList =
      (parensIf e.needsParens e.render).toList ++ ' ' :: (['?'] ++
        ' ' :: ((parensIf e₁.needsParens e₁.render).toList ++ ' ' :: ([':'] ++
          ' ' :: (parensIf e₂.needsParens e₂.render).toList))) := by simp
  constructor
  · rw [htext, tokens]
    exact question.between hcondition (colon.between h₁.operand.1 h₂.operand.1)
  · rw [htext]
    exact hopens.append _

/-- A call is cut into its name, its parentheses and its arguments. -/
theorem call {name : String} {args : List Expr} (hname : Text.IsName name)
    (h : ∀ e ∈ args, Cut e) : Cut (.call name args) := by
  have htext : (render (.call name args)).toList =
      name.toList ++ '(' :: (joined (args.map fun e => e.render.toList) ++ [')']) := by
    simp [renderItems_toList]
  constructor
  · rw [htext, tokens, tokensOfItems_eq_map]
    have hargs := Spelled.separated (Spelled.each fun e he => (h e he).spelled)
    exact (Spelled.name hname).append (hargs.parenthesised.mono fun _ _ => trivial) fun _ _ =>
      .of_ne_dot (by decide) (by decide) _
  · rw [htext]
    exact hname.opens.append _

end Cut

/-- The text of a readable expression is cut into its tokens. -/
theorem cut_of_readable {e : Expr} (h : e.Everywhere Readable) : Cut e := by
  induction h with
  | @intro e here below ih =>
    -- One case for each kind of expression, each settled by the lemma about it.
    cases e using induct with
    | literal v =>
      have hliteral := Value.Legible.spelled here
      exact ⟨by simpa using hliteral.1, by simpa using hliteral.2⟩
    | template parts =>
      exact .template here fun e he => ih e (List.mem_flatMap.mpr ⟨_, he, by simp⟩)
    | reference r => exact .reference here.1.1 here.2
    | list items => exact .list ih
    | map entries =>
      refine .map fun entry hentry => ⟨ih entry.1 ?_, ih entry.2 ?_⟩
      · exact List.mem_flatMap.mpr ⟨_, hentry, by simp⟩
      · exact List.mem_flatMap.mpr ⟨_, hentry, by simp⟩
    | access object name => exact .access (ih object (by simp [children])) here.1
    | index object key =>
      exact .index (ih object (by simp [children])) (ih key (by simp [children]))
    | unary op operand =>
      have hoperand := ih operand (by simp [children])
      cases op with
      | not => exact .not hoperand
      | neg => exact .neg hoperand
    | binary op left right =>
      exact .binary op (ih left (by simp [children])) (ih right (by simp [children]))
    | conditional condition yes no =>
      exact .conditional (ih condition (by simp [children])) (ih yes (by simp [children]))
        (ih no (by simp [children]))
    | call name args => exact .call here.1 ih

end Rendering

end Expr

end Deployment
