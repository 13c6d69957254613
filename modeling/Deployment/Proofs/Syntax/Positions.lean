import Deployment.Proofs.Syntax.Restoring
import Mathlib.Data.List.Induction

/-! # Positions behind points

The older spelling of an index is a point with digits behind it, `list.0` for `list[0]`. The tokens
are cut before anyone knows that they spell positions, and a number is as long as it can be: behind
the first point of `list.1.2` stands the one number `1.2`. So positions behind points are read in
pairs (`Token.paired`), while positions in brackets are read one by one.
-/

namespace Deployment

/-! ## The text -/

namespace Token

/-- Positions, each behind a point. -/
def dotted (positions : List (List Char)) : List Char :=
  positions.flatMap ('.' :: ·)

/-- Positions, each in brackets. -/
def bracketed (positions : List (List Char)) : List Char :=
  positions.flatMap fun digits => '[' :: (digits ++ [']'])

/-- The numbers that positions behind points are cut into: two positions are one decimal. -/
def paired : List (List Char) → List (List Char)
  | whole :: fraction :: rest => (whole ++ '.' :: fraction) :: paired rest
  | rest => rest

/-- Half as many numbers as positions, rounded up. -/
theorem length_paired (positions : List (List Char)) :
    (paired positions).length = (positions.length + 1) / 2 := by
  fun_induction paired positions with
  | case1 whole fraction rest ih =>
    simp only [List.length_cons, ih]
    omega
  | case2 rest h =>
    match rest, h with
    | [], _ => rfl
    | [_], _ => simp
    | a :: b :: rest, h => exact absurd rfl (h a b rest)

/-- The digits behind a point end where the next point stands. -/
theorem numberLength_fraction {whole fraction tail : List Char} (hwhole : IsDigits whole)
    (hfraction : IsDigits fraction) (htail : ∀ c ∈ tail.head?, c = '.') :
    numberLength (whole ++ '.' :: fraction ++ tail) = (whole ++ '.' :: fraction).length := by
  have hdigit : ∀ c ∈ tail.head?, c.isDigit = false := by
    intro c hc
    obtain rfl := htail c hc
    rfl
  -- A point starts no exponent, so the number ends with the fraction.
  have hexponent : exponentLength tail = 0 := by
    cases tail with
    | nil => rfl
    | cons c rest =>
      obtain rfl := htail c rfl
      simp [exponentLength]
  have hwholeRun : runLength Char.isDigit (whole ++ ('.' :: (fraction ++ tail))) = whole.length :=
    runLength_append hwhole.2 (by simp)
  have hrun : runLength Char.isDigit (fraction ++ tail) = fraction.length :=
    runLength_append hfraction.2 hdigit
  have hpos := List.length_pos_iff.mpr hfraction.1
  have hfractionLength : fractionLength ('.' :: (fraction ++ tail)) = fraction.length + 1 := by
    simp [fractionLength, hrun, Nat.pos_iff_ne_zero.mp hpos]
  have hdrop : (whole ++ '.' :: (fraction ++ tail)).drop (whole.length + (fraction.length + 1)) =
      tail := by
    rw [← List.drop_drop, List.drop_left, List.drop_succ_cons, List.drop_left]
  rw [List.append_assoc, List.cons_append, numberLength, hwholeRun, List.drop_left,
    hfractionLength, hdrop, hexponent]
  simp

/-- What starts with digits starts with a digit. -/
theorem IsDigits.isDigit_head {s : List Char} (h : IsDigits s) (tail : List Char) :
    ∀ c ∈ (s ++ tail).head?, c.isDigit := by
  obtain ⟨d, rest, heq, hd⟩ := h.head tail
  rw [heq]
  rintro c hc
  obtain rfl := Option.some.inj hc
  exact hd

/-- A number is cut off if the lexer finds its end there. -/
theorem Lexes.number {s tail : List Char} {ts : List Token} (h : IsNumber s)
    (hlength : numberLength (s ++ tail) = s.length) (htail : Lexes tail ts) :
    Lexes (s ++ tail) (.number (String.ofList s) :: ts) := by
  obtain ⟨c, rest, rfl, hc⟩ := h.head
  obtain ⟨l, hl, htoken, hl'⟩ := lexeme_of_numberLength hc hlength
  rw [List.cons_append, ← htoken]
  refine .lexeme (Text.isBlank_eq_false_of_continuesName (Text.continuesName_of_isDigit hc)) hl ?_
  rw [hl', List.drop_succ_cons, List.drop_left]
  exact htail

/-- A point in front of a digit is a token of its own. -/
theorem Lexes.point {s : List Char} {ts : List Token} (hs : ∀ c ∈ s.head?, c.isDigit)
    (h : Lexes s ts) : Lexes ('.' :: s) (.symbol .dot :: ts) := by
  refine Lexes.symbol (s := ['.']) ?_ (by simp; rfl) h
  rw [List.singleton_append, symbol?]
  · rfl
  · rintro rest rfl
    exact absurd (hs '.' rfl) (by decide)

/-- The tokens of positions behind points. -/
def positionTokens (numbers : List (List Char)) : List Token :=
  numbers.flatMap fun s => [.symbol .dot, .number (String.ofList s)]

/-- Behind a position stands a point or nothing, so the number in front of it does not go on. -/
theorem dotted_head (positions : List (List Char)) : ∀ c ∈ (dotted positions).head?, c = '.' := by
  intro c hc
  cases positions with
  | nil => cases hc
  | cons digits rest => exact (Option.some.inj hc).symm

/-- Positions behind points are cut into pairs. -/
theorem lexes_dotted {positions : List (List Char)} (h : ∀ digits ∈ positions, IsDigits digits) :
    Lexes (dotted positions) (positionTokens (paired positions) ++ [.eof]) := by
  -- By induction on the pairs, each of which is one token.
  fun_induction paired positions with
  | case1 whole fraction rest ih =>
    obtain ⟨hwhole, h⟩ := List.forall_mem_cons.mp h
    obtain ⟨hfraction, hrest⟩ := List.forall_mem_cons.mp h
    have hlength := numberLength_fraction hwhole hfraction (dotted_head rest)
    have hnumber : IsNumber (whole ++ '.' :: fraction) := by
      simpa using IsNumber.intro hwhole (.digits hfraction) .nil
    have htext : dotted (whole :: fraction :: rest) =
        '.' :: (whole ++ '.' :: fraction ++ dotted rest) := by
      simp [dotted]
    have hhead := hwhole.isDigit_head ('.' :: fraction ++ dotted rest)
    rw [← List.append_assoc] at hhead
    rw [htext]
    exact .point hhead (.number hnumber hlength (ih hrest))
  | case2 rest hrest =>
    match rest, hrest with
    | [], _ => exact .nil
    | [digits], _ =>
      have hdigits : IsDigits digits := h digits (by simp)
      have hlength := hdigits.isNumber.numberLength (show Boundary [] from trivial)
      exact .point (hdigits.isDigit_head []) (.number hdigits.isNumber hlength .nil)
    | a :: b :: rest, hrest => exact absurd rfl (hrest a b rest)

/-- The tokens of positions in brackets. -/
def bracketTokens (positions : List (List Char)) : List Token :=
  positions.flatMap fun digits =>
    enclosed .openBracket .closeBracket [.number (String.ofList digits)]

/-- Positions in brackets are cut one by one. -/
theorem lexes_bracketed {positions : List (List Char)}
    (h : ∀ digits ∈ positions, IsDigits digits) :
    Lexes (bracketed positions) (bracketTokens positions ++ [.eof]) := by
  induction positions with
  | nil => exact .nil
  | cons digits rest ih =>
    obtain ⟨hdigits, hrest⟩ := List.forall_mem_cons.mp h
    have hspelled := (Spelled.number hdigits.isNumber).bracketed
    simpa [bracketed, bracketTokens] using hspelled.lexes _ _ trivial (ih hrest)

end Token

/-! ## The tokens -/

namespace Expr

open Token

/-- An expression with numbers as indices, one behind the other. -/
def withIndices (object : Expr) (positions : List Number) : Expr :=
  positions.foldl (fun e n => .index e (.literal (.number n))) object

/-- The indices can be counted. -/
theorem length_eq_of_withIndices_eq {r : Reference} {ms ns : List Number}
    (h : withIndices (.reference r) ms = withIndices (.reference r) ns) :
    ms.length = ns.length := by
  induction ms using List.reverseRecOn generalizing ns with
  | nil =>
    rcases List.eq_nil_or_concat ns with rfl | ⟨ns, n, rfl⟩
    · rfl
    · simp [withIndices] at h
  | append_singleton ms m ih =>
    rcases List.eq_nil_or_concat ns with rfl | ⟨ns, n, rfl⟩
    · simp [withIndices] at h
    · simp only [withIndices, List.concat_eq_append, List.foldl_append, List.foldl_cons,
        List.foldl_nil, index.injEq] at h
      simpa using ih h.1

/-- The parser fails on the tokens. -/
def Fails {α : Type} {bound : List Spanned → Nat}
    (parse : ∀ tokens : List Spanned, Except ParseError (Parsed α (bound tokens)))
    (ts : List Token) : Prop :=
  ∀ spanned : List Spanned, spanned.map Spanned.token = ts → ∃ e, parse spanned = .error e

section Rules

variable {ts ts₁ rest : List Token} {e e₁ : Expr} {spelling : String} {n : Number}

/-- A number behind a point is read like the same number in brackets. -/
theorem Reads.accesses_position (hn : Number.parse? spelling = some n)
    (h : Reads (parseAccesses (.index e (.literal (.number n)))) ts e₁ rest) :
    Reads (parseAccesses e) (.symbol .dot :: .number spelling :: ts) e₁ rest := by
  rintro spanned hspanned
  obtain ⟨position, left, rfl, hmap⟩ := cases_of_map_eq_cons hspanned
  obtain ⟨position₁, left₁, rfl, hmap₁⟩ := cases_of_map_eq_cons hmap
  obtain ⟨left₂, rfl, hlt, heq⟩ := h left₁ hmap₁
  have hle : Spanned.totalWeight left₂ ≤ Spanned.totalWeight left₁ := Nat.le_of_lt_succ hlt
  refine ⟨left₂, rfl, by simp only [Spanned.totalWeight_cons, Token.weight]; omega, ?_⟩
  rw [parseAccesses, parseNumber, hn]
  simp only [bind, Except.bind, heq, Parsed.widen]

namespace Fails

/-- A number behind a point that is none, because it does not fit, ends the reading. -/
theorem accesses_number (hn : Number.parse? spelling = none) :
    Fails (parseAccesses e) (.symbol .dot :: .number spelling :: ts) := by
  rintro spanned hspanned
  obtain ⟨position, left, rfl, hmap⟩ := cases_of_map_eq_cons hspanned
  obtain ⟨position₁, left₁, rfl, -⟩ := cases_of_map_eq_cons hmap
  rw [parseAccesses, parseNumber, hn]
  exact ⟨_, rfl⟩

/-- A failure behind a position is a failure of the whole. -/
theorem accesses_position (hn : Number.parse? spelling = some n)
    (h : Fails (parseAccesses (.index e (.literal (.number n)))) ts) :
    Fails (parseAccesses e) (.symbol .dot :: .number spelling :: ts) := by
  rintro spanned hspanned
  obtain ⟨position, left, rfl, hmap⟩ := cases_of_map_eq_cons hspanned
  obtain ⟨position₁, left₁, rfl, hmap₁⟩ := cases_of_map_eq_cons hmap
  obtain ⟨error, herror⟩ := h left₁ hmap₁
  rw [parseAccesses, parseNumber, hn]
  simp only [bind, Except.bind, herror]
  exact ⟨_, rfl⟩

/-- An operand fails if the accesses behind its primary do. -/
theorem unary_of_accesses (h : Reads parsePrimary ts e ts₁) (h₁ : Fails (parseAccesses e) ts₁)
    (hnot : ts.head? ≠ some (.symbol .not)) (hminus : ts.head? ≠ some (.symbol .minus)) :
    Fails parseUnary ts := by
  rintro spanned hspanned
  obtain ⟨left, hmap, hlt, heq⟩ := h spanned hspanned
  obtain ⟨error, herror⟩ := h₁ left hmap
  subst hspanned
  rw [parseUnary, eat?_eq_none hnot, eat?_eq_none hminus]
  simp only [bind, Except.bind, heq, herror]
  exact ⟨_, rfl⟩

/-- A failing operand fails at every level of the operators, counted here from the innermost. -/
theorem binary_of_unary (h : Fails parseUnary ts) (count : Nat) (hcount : count ≤ 6) :
    Fails (parseBinary (6 - count)) ts := by
  rintro spanned hspanned
  induction count with
  | zero =>
    obtain ⟨error, herror⟩ := h spanned hspanned
    rw [parseBinary, if_neg (by decide), herror]
    exact ⟨_, rfl⟩
  | succ count ih =>
    obtain ⟨error, herror⟩ := ih (by omega)
    have hlevel : 6 - (count + 1) + 1 = 6 - count := by omega
    rw [parseBinary, if_pos (by omega), hlevel, herror]
    exact ⟨_, rfl⟩

/-- An expression fails with its first operand. -/
theorem conditional_of_unary (h : Fails parseUnary ts) : Fails parseConditional ts := by
  rintro spanned hspanned
  obtain ⟨error, herror⟩ := h.binary_of_unary 6 (Nat.le_refl 6) spanned hspanned
  rw [parseConditional, herror]
  exact ⟨_, rfl⟩

/-- A text fails with the tokens that it is cut into. -/
theorem parseText {s : List Char} (hs : Lexes s ts) (h : Fails parseConditional ts) :
    ∃ error, Expr.parseText s = .error error := by
  obtain ⟨spanned, rfl, htokens⟩ := hs 0
  obtain ⟨error, herror⟩ := h spanned rfl
  obtain ⟨⟨_, hweight⟩, hfrom, rfl⟩ := Except.map_eq_ok htokens
  rw [Expr.parseText, Token.tokenize, hfrom]
  simp only [bind, Except.bind, herror]
  exact ⟨_, rfl⟩

end Fails

end Rules

/-! ## The trees -/

open Reads

/-- The numbers that texts denote, if all of them denote one. -/
def numbers? (texts : List (List Char)) : Option (List Number) :=
  texts.mapM fun s => Number.parse? (String.ofList s)

/-- A list of texts denotes numbers exactly if each text does. -/
theorem numbers?_cons {s : List Char} {rest : List (List Char)} {numbers : List Number} :
    numbers? (s :: rest) = some numbers ↔
      ∃ n ns, Number.parse? (String.ofList s) = some n ∧ numbers? rest = some ns ∧
        numbers = n :: ns := by
  simp [numbers?, Option.bind_eq_some_iff, eq_comm (a := numbers)]

/-- Every text denotes one number. -/
theorem length_of_numbers? {texts : List (List Char)} {numbers : List Number}
    (h : numbers? texts = some numbers) : numbers.length = texts.length := by
  induction texts generalizing numbers with
  | nil =>
    obtain rfl := Option.some.inj h
    rfl
  | cons s rest ih =>
    obtain ⟨n, ns, -, hns, rfl⟩ := numbers?_cons.mp h
    rw [List.length_cons, List.length_cons, ih hns]

/-- Positions behind points are read as indices, one for each number that the lexer made of them. -/
theorem accesses_positions {texts : List (List Char)} {numbers : List Number}
    (h : numbers? texts = some numbers) (object : Expr) :
    Reads (parseAccesses object) (positionTokens texts ++ [.eof]) (withIndices object numbers)
      [.eof] := by
  induction texts generalizing object numbers with
  | nil =>
    obtain rfl := Option.some.inj h
    exact accesses_nil Stops.eof.ended
  | cons s rest ih =>
    obtain ⟨n, ns, hn, hns, rfl⟩ := numbers?_cons.mp h
    exact accesses_position hn (ih hns _)

/-- If one of those numbers does not fit, nothing is read. -/
theorem fails_positions {texts : List (List Char)} (h : numbers? texts = none) (object : Expr) :
    Fails (parseAccesses object) (positionTokens texts ++ [.eof]) := by
  induction texts generalizing object with
  | nil => cases h
  | cons s rest ih =>
    cases hn : Number.parse? (String.ofList s) with
    | none => exact .accesses_number hn
    | some n =>
      cases hrest : numbers? rest with
      | none => exact .accesses_position hn (ih hrest _)
      | some ns =>
        rw [numbers?_cons.mpr ⟨n, ns, hn, hrest, rfl⟩] at h
        cases h

/-- Positions in brackets are read as indices, one by one. -/
theorem accesses_brackets {positions : List (List Char)} {number : List Char → Number}
    (h : ∀ digits ∈ positions, Number.parse? (String.ofList digits) = some (number digits))
    (object : Expr) :
    Reads (parseAccesses object) (bracketTokens positions ++ [.eof])
      (withIndices object (positions.map number)) [.eof] := by
  induction positions generalizing object with
  | nil => exact accesses_nil Stops.eof.ended
  | cons digits rest ih =>
    obtain ⟨hdigits, hrest⟩ := List.forall_mem_cons.mp h
    have hstops : Stops (.symbol .closeBracket :: (bracketTokens rest ++ [.eof])) :=
      .symbol (by decide) _
    have hnumber := unary_of_primary (primary_number hdigits) (accesses_nil hstops.ended)
      (by simp) (by simp)
    exact accesses_index (by simp) (conditional_of_unary hnumber hstops) (ih hrest _)

/-- A point with a number behind it does not continue the reference in front of it. -/
theorem detached_positions (r : Reference) (texts : List (List Char)) :
    Detached (.reference r) (positionTokens texts ++ [.eof]) := by
  cases texts with
  | nil => exact .of_ended _ Stops.eof.ended
  | cons s rest => exact ⟨fun _ _ _ _ => nofun, nofun⟩

/-- A bracket does not continue the reference in front of it. -/
theorem detached_brackets (r : Reference) (positions : List (List Char)) :
    Detached (.reference r) (bracketTokens positions ++ [.eof]) := by
  cases positions with
  | nil => exact .of_ended _ Stops.eof.ended
  | cons digits rest => exact ⟨fun _ _ _ _ => nofun, nofun⟩

section Reference

variable {r : Reference} (hroot : Text.IsRoot r.root) (hpath : ∀ name ∈ r.path, Text.IsName name)
  {s : List Char} {ts : List Token}
include hroot hpath

/-- The text of a reference is cut into its tokens, whatever ends its last name. -/
theorem lexes_reference (hs : Lexes s ts) (hends : NameEnds s) :
    Lexes (r.render.toList ++ s) ((reference r).tokens ++ ts) :=
  (Spelled.reference hroot.1 hpath).lexes s ts hends hs

/-- A reference and accesses behind it are read as the accesses of that reference. -/
theorem parseText_reference {e : Expr} (hs : Lexes s ts) (hends : NameEnds s)
    (hts : Detached (.reference r) ts) (h : Reads (parseAccesses (.reference r)) ts e [.eof]) :
    parseText (r.render.toList ++ s) = .ok e :=
  parseText_eq (lexes_reference hroot hpath hs hends)
    (conditional_of_unary ((Restored.reference hroot.2).operand ts e _ hts h) Stops.eof)

/-- Accesses that cannot be read fail the whole text. -/
theorem parseText_reference_fails (hs : Lexes s ts) (hends : NameEnds s)
    (hts : Detached (.reference r) ts) (h : Fails (parseAccesses (.reference r)) ts) :
    ∃ error, parseText (r.render.toList ++ s) = .error error := by
  have hprimary : Reads parsePrimary ((reference r).tokens ++ ts) (.reference r) ts :=
    primary_reference hroot.2 r.path (hts.name r rfl) hts.paren
  exact (Fails.conditional_of_unary (.unary_of_accesses hprimary h nofun nofun)).parseText
    (lexes_reference hroot hpath hs hends)

end Reference

/-! ## References with positions -/

/-- The digits of a position that can be an index: its number fits. -/
def IsPosition (digits : List Char) : Prop :=
  IsDigits digits ∧ Decimal.natOfDigits digits < 2 ^ 63

instance (digits : List Char) : Decidable (IsPosition digits) :=
  decidable_of_iff ((digits ≠ [] ∧ digits.all Char.isDigit) ∧ Decimal.natOfDigits digits < 2 ^ 63)
    (by rw [IsPosition, IsDigits, List.all_eq_true])

/-- The index that digits denote. -/
def integerOf (digits : List Char) : Number :=
  .integer (Int64.ofInt (Decimal.natOfDigits digits))

/-- The digits of a position denote its index, leading zeros or not. -/
theorem parse?_position {digits : List Char} (h : IsPosition digits) :
    Number.parse? (String.ofList digits) = some (integerOf digits) := by
  obtain ⟨hdigits, hfits⟩ := h
  have hleast : Int64.minValue.toInt = -2 ^ 63 := by decide +kernel
  have hgreatest : Int64.maxValue.toInt = 2 ^ 63 - 1 := by decide +kernel
  have hinteger : Number.ofInt? (Decimal.natOfDigits digits) = some (integerOf digits) :=
    if_pos ⟨by omega, by omega⟩
  rw [Number.parse?_eq hdigits.isNumber, if_pos (List.all_eq_true.mpr hdigits.2), hinteger,
    Option.some_or]

/-- A reference with positions behind points. -/
def withPoints (r : Reference) (positions : List (List Char)) : String :=
  r.render ++ String.ofList (dotted positions)

/-- A reference with positions in brackets. -/
def withBrackets (r : Reference) (positions : List (List Char)) : String :=
  r.render ++ String.ofList (bracketed positions)

/-- A point ends the name in front of it. -/
theorem nameEnds_dotted (positions : List (List Char)) : NameEnds (dotted positions) := by
  intro c hc
  obtain rfl := dotted_head positions c hc
  decide

/-- A bracket ends the name in front of it. -/
theorem nameEnds_bracketed (positions : List (List Char)) : NameEnds (bracketed positions) := by
  intro c hc
  cases positions with
  | nil => cases hc
  | cons digits rest =>
    obtain rfl := Option.some.inj hc
    decide

section Reference

variable {r : Reference} (hroot : Text.IsRoot r.root) (hpath : ∀ name ∈ r.path, Text.IsName name)
  {positions : List (List Char)} (h : ∀ digits ∈ positions, IsPosition digits)
include hroot hpath h

/-- Positions in brackets are the indices that they denote. -/
theorem parse_withBrackets :
    parse (withBrackets r positions) =
      .ok (withIndices (.reference r) (positions.map integerOf)) := by
  have hlexes := lexes_bracketed fun digits hdigits => (h digits hdigits).1
  rw [parse, withBrackets, String.toList_append, String.toList_ofList]
  exact parseText_reference hroot hpath hlexes (nameEnds_bracketed positions)
    (detached_brackets r positions)
    (accesses_brackets (fun digits hdigits => parse?_position (h digits hdigits)) _)

/-- Positions behind points are the numbers that they are cut into. -/
theorem parse_withPoints {numbers : List Number}
    (hnumbers : numbers? (paired positions) = some numbers) :
    parse (withPoints r positions) = .ok (withIndices (.reference r) numbers) := by
  have hlexes := lexes_dotted fun digits hdigits => (h digits hdigits).1
  rw [parse, withPoints, String.toList_append, String.toList_ofList]
  exact parseText_reference hroot hpath hlexes (nameEnds_dotted positions)
    (detached_positions r _) (accesses_positions hnumbers _)

/-- Positions behind points are refused if a number that they are cut into does not fit. -/
theorem parse_withPoints_fails (hnumbers : numbers? (paired positions) = none) :
    ∃ error, parse (withPoints r positions) = .error error := by
  have hlexes := lexes_dotted fun digits hdigits => (h digits hdigits).1
  rw [parse, withPoints, String.toList_append, String.toList_ofList]
  exact parseText_reference_fails hroot hpath hlexes (nameEnds_dotted positions)
    (detached_positions r _) (fails_positions hnumbers _)

/-- Two positions behind points are one index, so there are fewer of them than in brackets. -/
theorem parse_withPoints_ne (hlength : 2 ≤ positions.length) :
    parse (withPoints r positions) ≠ parse (withBrackets r positions) := by
  rw [parse_withBrackets hroot hpath h]
  cases hnumbers : numbers? (paired positions) with
  | none =>
    obtain ⟨error, herror⟩ := parse_withPoints_fails hroot hpath h hnumbers
    rw [herror]
    exact nofun
  | some numbers =>
    rw [parse_withPoints hroot hpath h hnumbers]
    intro heq
    have hsame := length_eq_of_withIndices_eq (Except.ok.inj heq)
    rw [length_of_numbers? hnumbers, length_paired, List.length_map] at hsame
    omega

/-- A single position has nothing to be paired with. -/
theorem parse_withPoints_single (hlength : positions.length ≤ 1) :
    parse (withPoints r positions) = parse (withBrackets r positions) := by
  rw [parse_withBrackets hroot hpath h]
  match positions, hlength with
  | [], _ => exact parse_withPoints hroot hpath h rfl
  | [digits], _ =>
    have hdigits := parse?_position (h digits (by simp))
    exact parse_withPoints hroot hpath h (numbers?_cons.mpr ⟨_, [], hdigits, rfl, rfl⟩)

end Reference

/-- A reference with positions in brackets has an index for each of them, and with positions behind
points one for every two: a number with a fraction. So the two spellings mean the same for a single
position only. -/
theorem parse_withPoints_eq_iff {r : Reference} (hroot : Text.IsRoot r.root)
    (hpath : ∀ name ∈ r.path, Text.IsName name) {positions : List (List Char)}
    (h : ∀ digits ∈ positions, IsPosition digits) :
    parse (withBrackets r positions) = .ok (withIndices (.reference r) (positions.map integerOf)) ∧
    (parse (withPoints r positions)).toOption =
      (numbers? (paired positions)).map (withIndices (.reference r)) ∧
    (parse (withPoints r positions) = parse (withBrackets r positions) ↔
      positions.length ≤ 1) := by
  refine ⟨parse_withBrackets hroot hpath h, ?_, ?_, parse_withPoints_single hroot hpath h⟩
  · cases hnumbers : numbers? (paired positions) with
    | none =>
      obtain ⟨error, herror⟩ := parse_withPoints_fails hroot hpath h hnumbers
      rw [herror]
      rfl
    | some numbers =>
      rw [parse_withPoints hroot hpath h hnumbers]
      rfl
  · intro heq
    by_contra hlength
    exact parse_withPoints_ne hroot hpath h (by omega) heq

/-- An attribute, and positions of which one has a leading zero. -/
def positioned : Reference × List (List Char) :=
  (⟨"var", ["list"]⟩, [['0', '7'], ['1'], ['2']])

/-- A leading zero does no harm in brackets, while behind points the first two positions are one
number. -/
theorem positioned_parse :
    withPoints positioned.1 positioned.2 = "var.list.07.1.2" ∧
    withBrackets positioned.1 positioned.2 = "var.list[07][1][2]" ∧
    parse (withBrackets positioned.1 positioned.2) =
      .ok (withIndices (.reference positioned.1) [.integer 7, .integer 1, .integer 2]) ∧
    parse (withPoints positioned.1 positioned.2) ≠
      parse (withBrackets positioned.1 positioned.2) := by
  have hpositions : ∀ digits ∈ positioned.2, IsPosition digits := by decide
  obtain ⟨hbrackets, -, hsame⟩ :=
    parse_withPoints_eq_iff (r := positioned.1) (by decide) (by decide) hpositions
  exact ⟨by decide, by decide, hbrackets, fun heq => absurd (hsame.mp heq) (by decide)⟩

/-- The second position is taken for the fraction of the first. -/
theorem points_merge : parse "r.1.2" ≠ parse "r[1][2]" := by
  have hpoints : withPoints ⟨"r", []⟩ [['1'], ['2']] = "r.1.2" := by decide
  have hbrackets : withBrackets ⟨"r", []⟩ [['1'], ['2']] = "r[1][2]" := by decide
  rw [← hpoints, ← hbrackets]
  exact parse_withPoints_ne (by decide) (by decide) (by decide) (by decide)

end Expr

end Deployment
