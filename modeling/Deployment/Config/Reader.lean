import Deployment.Config.Heredoc
import Deployment.Config.Printer
import Deployment.Config.Scan
import Deployment.Config.Spelling

/-! # Reading configuration source

`Structure.parse?` reads a file and `Term.parse?` a single term. Every function answers with what it
read and the rest of the text, which is shorter than what it was given; that is why the recursion
ends. Terms come with their spelling, which templates keep.

A term ends with its line unless it has parentheses: within them it may go over several lines
(`lines`), and so may what follows them in the same term. Commas and closing brackets may always be
on further lines. An attribute ends its line; a block on one line holds at most one attribute.
-/

namespace Deployment.Config

/-! ## Parts without terms -/

/-- The rest of a text behind an optional character, and whether the character was there. -/
def optionalChar (c : Char) (s : List Char) : Bool × List Char :=
  match char? c s with
  | some rest => (true, rest.1)
  | none => (false, s)

theorem optionalChar_le (c : Char) (s : List Char) : (optionalChar c s).2.length ≤ s.length := by
  unfold optionalChar
  split
  · rename_i rest _
    exact Nat.le_of_lt rest.2
  · exact Nat.le_refl _

/-- The names of a `for` expression, up to and including the keyword `in`. -/
def forNames? (s : List Char) : Option (Read (List String) s.length) := do
  let ⟨first, rest, h⟩ ← name? s
  have h₁ := skip_le true rest
  match hc : char? ',' (skip true rest) with
  | some ⟨rest', h₂⟩ =>
    have h₃ := skip_le true rest'
    let ⟨second, rest₂, h₄⟩ ← name? (skip true rest')
    have h₅ := skip_le true rest₂
    let ⟨rest₃, h₆⟩ ← keyword? "in" (skip true rest₂)
    some ⟨[first, second], rest₃, by omega⟩
  | none =>
    let ⟨rest', h₂⟩ ← keyword? "in" (skip true rest)
    some ⟨[first], rest', by omega⟩

theorem newline?_skip_lt {s rest : List Char}
    (h : newline? (skipLineComment (skip false s)) = some rest) : rest.length < s.length := by
  have h₁ := skip_le false s
  have h₂ := skipLineComment_le (skip false s)
  have h₃ := newline?_lt h
  omega

/-- The rest of a text behind the end of its line, before which there may be blanks and a
comment. -/
def lineBreak? (s : List Char) : Option { r : List Char // r.length < s.length } :=
  match h : newline? (skipLineComment (skip false s)) with
  | some rest => some ⟨rest, newline?_skip_lt h⟩
  | none => none

/-- What stands behind an entry of an object: a comma, the end of the line or, without being passed,
the brace that closes the object. -/
def entryEnd? (s : List Char) : Option (Read Spelling (s.length + 1)) :=
  have h := skip_le false s
  match char? ',' (skip false s) with
  | some ⟨rest, h₁⟩ => some ⟨.source s rest, rest, by omega⟩
  | none =>
    match lineBreak? s with
    | some ⟨rest, h₁⟩ =>
      some ⟨.source s (skipLineComment (skip false s)) ++ .text "\n", rest, by omega⟩
    | none => do
      let _ ← char? '}' (skip false s)
      some ⟨.source s (skip false s), skip false s, by omega⟩

/-- The rest of a text behind the sign of a directive and a keyword. -/
def directiveStart? (keyword : String) (s : List Char) :
    Option { r : List Char // r.length < s.length } := do
  let ⟨rest, h⟩ ← char? '%' s
  let ⟨rest₁, h₁⟩ ← char? '{' rest
  have h₂ := optionalChar_le '~' rest₁
  have h₃ := skip_le true (optionalChar '~' rest₁).2
  let ⟨rest₂, h₄⟩ ← keyword? keyword (skip true (optionalChar '~' rest₁).2)
  some ⟨rest₂, by omega⟩

/-- The rest of a text behind the end of an interpolation or directive. -/
def signEnd? (s : List Char) : Option { r : List Char // r.length < s.length } := do
  have h := skip_le true s
  have h₁ := optionalChar_le '~' (skip true s)
  let ⟨rest, h₂⟩ ← char? '}' (optionalChar '~' (skip true s)).2
  some ⟨rest, by omega⟩

/-- The rest of a text behind a directive that holds a keyword alone. -/
def directive? (keyword : String) (s : List Char) :
    Option { r : List Char // r.length < s.length } := do
  let ⟨rest, h⟩ ← directiveStart? keyword s
  let ⟨rest₁, h₁⟩ ← signEnd? rest
  some ⟨rest₁, by omega⟩

/-- Whether a text starts with a directive that governs what follows it. -/
def startsDirective (s : List Char) : Bool :=
  (directiveStart? "if" s).isSome || (directiveStart? "for" s).isSome

theorem lt_length_succ (s : List Char) : s.length < s.length + 1 :=
  Nat.lt_succ_self s.length

theorem lt_length_cons {c : Char} {s t u : List Char} (h₁ : u.length < t.length)
    (h : t.length ≤ s.length) : u.length < (c :: s).length :=
  Nat.lt_succ_of_lt (Nat.lt_of_lt_of_le h₁ h)

theorem lt_length_cons_of_le {c : Char} {s t u v : List Char} (h₁ : u.length < t.length + 1)
    (h₂ : v.length < u.length + 1) (h : t.length ≤ s.length) : v.length < (c :: s).length :=
  Nat.lt_succ_of_le
    (Nat.le_trans (Nat.le_of_lt_succ h₂) (Nat.le_trans (Nat.le_of_lt_succ h₁) h))

/-- Whether an ellipsis follows, and the rest of the text behind it. -/
def optionalEllipsis (s : List Char) : Read Bool (s.length + 1) :=
  match keyword? "..." (skip true s) with
  | some ⟨rest, h⟩ => ⟨true, rest, Nat.lt_succ_of_lt (Nat.lt_of_lt_of_le h (skip_le true s))⟩
  | none => ⟨false, s, lt_length_succ s⟩

/-! ## Parts of terms -/

/-- An entry of an object with its spelling: the key up to its end, and the rest up to the end of
the entry. -/
structure Entry where
  key : Term
  value : Term
  keySpelling : Spelling
  valueSpelling : Spelling

/-- The entries of an object: a key that is written like an earlier one replaces its value. -/
def mergeEntries (entries : List Entry) : List Entry :=
  let put := fun (merged : Entries Entry) (entry : Entry) =>
    let name := entry.key.render
    let kept := ((merged.get? name).map Entry.keySpelling).getD entry.keySpelling
    merged.put name { entry with keySpelling := kept }
  (entries.foldl put []).map (·.2)

/-- The spelling of entries, with what follows them. -/
def spellEntries (entries : List Entry) (rest : Spelling) : Spelling :=
  entries.foldr (fun entry w => entry.keySpelling ++ entry.valueSpelling ++ w) rest

/-- Quoted text as a term: plain text unless it has interpolations or directives. -/
def quotedTerm : List Piece → Term
  | [] => .text ""
  | [.literal s] => .text s
  | pieces => .template (templateSource pieces)

/-- An operator before an operand. Of several operators only the last one counts. -/
def applyUnary (op : UnaryOp) : Term → Term
  | .unary last operand => .unary last operand
  | operand => .unary op operand

/-- The spelling of an operator before an operand. -/
def unarySpelling (op : Spelling) (operand : Term) (w : Spelling) : Spelling :=
  match operand with
  | .unary .. => w
  | _ => op ++ w

/-- Whether a term may go on behind the end of the line, if it starts with the given one. -/
def continuesOver (lines : Bool) : Term → Bool
  | .parens _ => true
  | _ => lines

/-- A term with accesses behind it. -/
def accessed (object : Term) (accesses : List (Access Term)) : Term :=
  if accesses.isEmpty then object else .traversal object accesses

/-- A name that is not that of a function: a constant or a variable. -/
def nameTerm : String → Term
  | "null" => .null
  | "true" => .bool true
  | "false" => .bool false
  | name => .variable name

mutual
/-- Reads a term: operands with operators between them, or a conditional. -/
def readTerm (lines : Bool) (s : List Char) : Option (Read (Term × Spelling) s.length) := do
  let ⟨(first, w, lines), rest, h⟩ ← readOperand lines s
  let ⟨(others, w₁, lines), rest₁, h₁⟩ ← readOperators lines rest
  let chain := if others.isEmpty then first else .chain first others
  have h₂ := skip_le lines rest₁
  match char? '?' (skip lines rest₁) with
  | none => some ⟨(chain, w ++ w₁), rest₁, by omega⟩
  | some ⟨rest₂, h₃⟩ =>
    have h₄ := skip_le lines rest₂
    let ⟨(yes, w₂), rest₃, h₅⟩ ← readTerm lines (skip lines rest₂)
    have h₆ := skip_le lines rest₃
    let ⟨rest₄, h₇⟩ ← char? ':' (skip lines rest₃)
    have h₈ := skip_le lines rest₄
    let ⟨(no, w₃), rest₅, h₉⟩ ← readTerm lines (skip lines rest₄)
    let w := w ++ w₁ ++ .source rest₁ (skip lines rest₂) ++ w₂ ++
      .source rest₃ (skip lines rest₄) ++ w₃
    some ⟨(.conditional chain yes no, w), rest₅, by omega⟩
termination_by (s.length, 3)
decreasing_by all_goals simp [Prod.lex_def] at * <;> omega

/-- Reads operators with their right operands. Tells whether the term may go over more lines. -/
def readOperators (lines : Bool) (s : List Char) :
    Option (Read (List (BinaryOp × Term) × Spelling × Bool) (s.length + 1)) := do
  have h := skip_le lines s
  match operator? (skip lines s) with
  | none => some ⟨([], .text "", lines), s, by omega⟩
  | some ⟨op, rest, h₁⟩ =>
    have h₂ := skip_le lines rest
    let ⟨(operand, w₁, lines'), rest₁, h₃⟩ ← readOperand lines (skip lines rest)
    let ⟨(others, w₂, lines'), rest₂, h₄⟩ ← readOperators lines' rest₁
    let w := .source s (skip lines rest) ++ w₁ ++ w₂
    some ⟨((op, operand) :: others, w, lines'), rest₂, by omega⟩
termination_by (s.length, 0)
decreasing_by all_goals (simp [Prod.lex_def] at *; omega)

/-- Reads a primary term with operators before it and accesses behind it. A minus before a digit is
the sign of the number. Tells whether the term may go over more lines. -/
def readOperand (lines : Bool) (s : List Char) :
    Option (Read (Term × Spelling × Bool) s.length) :=
  match s with
  | '!' :: rest => do
    have h := skip_le false rest
    let ⟨(operand, w, lines), rest₁, h₁⟩ ← readOperand lines (skip false rest)
    let w := unarySpelling (.source ('!' :: rest) (skip false rest)) operand w
    some ⟨(applyUnary .not operand, w, lines), rest₁, lt_length_cons h₁ h⟩
  | '-' :: rest => do
    have h := skip_le false rest
    if startsWithDigit (skip false rest) then
      let ⟨n, rest₁, h₁⟩ ← number? (skip false rest)
      let ⟨(accesses, w), rest₂, h₂⟩ ← readAccesses lines rest₁
      let w := .source ('-' :: rest) rest₁ ++ w
      let t := accessed (.number n.negate) accesses
      some ⟨(t, w, lines), rest₂, lt_length_cons_of_le h₁ h₂ h⟩
    else
      let ⟨(operand, w, lines), rest₁, h₁⟩ ← readOperand lines (skip false rest)
      let w := unarySpelling (.source ('-' :: rest) (skip false rest)) operand w
      some ⟨(applyUnary .neg operand, w, lines), rest₁, lt_length_cons h₁ h⟩
  | s => do
    let ⟨(object, w), rest, h⟩ ← readPrimary s
    let lines := continuesOver lines object
    let ⟨(accesses, w₁), rest₁, h₁⟩ ← readAccesses lines rest
    some ⟨(accessed object accesses, w ++ w₁, lines), rest₁, by omega⟩
termination_by (s.length, 2)
decreasing_by all_goals simp [Prod.lex_def] at * <;> omega

/-- Reads the accesses behind a term, if there are any. Two points start an ellipsis, which belongs
to what is around the term. -/
def readAccesses (lines : Bool) (s : List Char) :
    Option (Read (List (Access Term) × Spelling) (s.length + 1)) :=
  match skip lines s with
  | '.' :: '.' :: _ => some ⟨([], .text ""), s, lt_length_succ s⟩
  | _ => readAccessList lines s
termination_by (s.length, 1)
decreasing_by all_goals simp [Prod.lex_def] at *

/-- Reads accesses: `.name`, `.0`, `.*`, `[index]` and `[*]`. -/
def readAccessList (lines : Bool) (s : List Char) :
    Option (Read (List (Access Term) × Spelling) (s.length + 1)) := do
  have h := skip_le lines s
  match hs : skip lines s with
  | '.' :: rest =>
    have h₁ := skip_le true rest
    match char? '*' (skip true rest) with
    | some ⟨rest₁, h₂⟩ =>
      let ⟨(accesses, w), rest₂, h₃⟩ ← readAccessList lines rest₁
      let w := .source s rest₁ ++ w
      some ⟨(.attributeSplat :: accesses, w), rest₂, by simp [hs] at *; omega⟩
    | none =>
      if startsWithDigit (skip true rest) then
        let ⟨n, rest₁, h₂⟩ ← position? (skip true rest)
        let ⟨(accesses, w), rest₂, h₃⟩ ← readAccessList lines rest₁
        let w := .source s rest₁ ++ w
        some ⟨(.position n :: accesses, w), rest₂, by simp [hs] at *; omega⟩
      else
        let ⟨name, rest₁, h₂⟩ ← name? (skip true rest)
        let ⟨(accesses, w), rest₂, h₃⟩ ← readAccessList lines rest₁
        let w := .source s rest₁ ++ w
        some ⟨(.attribute name :: accesses, w), rest₂, by simp [hs] at *; omega⟩
  | '[' :: rest =>
    have h₁ := skip_le true rest
    match char? '*' (skip true rest) with
    | some ⟨rest₁, h₂⟩ =>
      have h₃ := skip_le true rest₁
      let ⟨rest₂, h₄⟩ ← char? ']' (skip true rest₁)
      let ⟨(accesses, w), rest₃, h₅⟩ ← readAccessList lines rest₂
      some ⟨(.fullSplat :: accesses, .source s rest₂ ++ w), rest₃, by simp [hs] at *; omega⟩
    | none =>
      let ⟨(t, w), rest₁, h₂⟩ ← readTerm false (skip true rest)
      have h₃ := skip_le true rest₁
      let ⟨rest₂, h₄⟩ ← char? ']' (skip true rest₁)
      let ⟨(accesses, w₁), rest₃, h₅⟩ ← readAccessList lines rest₂
      let w := .source s (skip true rest) ++ w ++ .source rest₁ rest₂ ++ w₁
      some ⟨(.index t :: accesses, w), rest₃, by simp [hs] at *; omega⟩
  | _ => some ⟨([], .text ""), s, by omega⟩
termination_by (s.length, 0)
decreasing_by all_goals (simp_all [Prod.lex_def]; omega)

/-- Reads a term without operators and accesses. -/
def readPrimary (s : List Char) : Option (Read (Term × Spelling) s.length) :=
  match s with
  | '"' :: rest => do
    let ⟨pieces, rest₁, h⟩ ← readQuoted rest
    some ⟨(quotedTerm pieces, quotedSpelling pieces), rest₁, by grind⟩
  | '(' :: rest => do
    have h := skip_le true rest
    let ⟨(inner, w), rest₁, h₁⟩ ← readTerm true (skip true rest)
    have h₂ := skip_le true rest₁
    let ⟨rest₂, h₃⟩ ← char? ')' (skip true rest₁)
    let w := .source ('(' :: rest) (skip true rest) ++ w ++ .source rest₁ rest₂
    some ⟨(.parens inner, w), rest₂, by grind⟩
  | '[' :: rest => do
    have h := skip_le true rest
    match forKeyword? (skip true rest) with
    | some ⟨rest₁, h₁⟩ =>
      let ⟨(names, collection, w), rest₂, h₂⟩ ← readLoop rest₁
      have h₃ := skip_le true rest₂
      let ⟨rest₃, h₄⟩ ← char? ':' (skip true rest₂)
      have h₅ := skip_le true rest₃
      let ⟨(result, w₁), rest₄, h₆⟩ ← readTerm false (skip true rest₃)
      let ⟨(condition, w₂), rest₅, h₇⟩ ← readForEnd ']' rest₄
      let w := .source ('[' :: rest) rest₁ ++ w ++ .source rest₂ (skip true rest₃) ++ w₁ ++ w₂
      some ⟨(.forList names collection result condition, w), rest₅, by grind⟩
    | none =>
      let ⟨(items, expand, w), rest₁, h₁⟩ ← readItems ']' rest
      if expand then none
      else some ⟨(.array items, .source ('[' :: rest) rest ++ w), rest₁, by grind⟩
  | '{' :: rest => do
    have h := skip_le true rest
    match forKeyword? (skip true rest) with
    | some ⟨rest₁, h₁⟩ =>
      let ⟨(names, collection, w), rest₂, h₂⟩ ← readLoop rest₁
      have h₃ := skip_le true rest₂
      let ⟨rest₃, h₄⟩ ← char? ':' (skip true rest₂)
      have h₅ := skip_le true rest₃
      let ⟨(key, w₁), rest₄, h₆⟩ ← readTerm false (skip true rest₃)
      have h₇ := skip_le true rest₄
      let ⟨rest₅, h₈⟩ ← keyword? "=>" (skip true rest₄)
      have h₉ := skip_le true rest₅
      let ⟨(result, w₂), rest₆, h₁₀⟩ ← readTerm false (skip true rest₅)
      let ⟨grouping, rest₇, h₁₁⟩ := optionalEllipsis rest₆
      let ⟨(condition, w₃), rest₈, h₁₂⟩ ← readForEnd '}' rest₇
      let w := .source ('{' :: rest) rest₁ ++ w ++ .source rest₂ (skip true rest₃) ++ w₁ ++
        .source rest₄ (skip true rest₅) ++ w₂ ++ .source rest₆ rest₇ ++ w₃
      some ⟨(.forObject names collection key result grouping condition, w), rest₈, by grind⟩
    | none =>
      let ⟨(entries, w), rest₁, h₁⟩ ← readEntries rest
      let entries := mergeEntries entries
      let w := .source ('{' :: rest) rest ++ spellEntries entries w
      some ⟨(.object (entries.map fun e => (e.key, e.value)), w), rest₁, by grind⟩
  | '<' :: '<' :: rest => do
    have h := optionalChar_le '-' rest
    let ⟨delimiter, rest₁, h₁⟩ ← name? (optionalChar '-' rest).2
    match hn : newline? rest₁ with
    | none => none
    | some rest₂ =>
      have h₂ := newline?_lt hn
      match ht : heredocText? delimiter.toList true rest₂ with
      | none => none
      | some (text, rest₃) =>
        have h₃ := heredocText?_le ht
        -- The text of a heredoc is read on its own; reading goes on behind its delimiter.
        let ⟨pieces, unread, _⟩ ← readPieces false "" text
        if unread.isEmpty then
          let indented := (optionalChar '-' rest).1
          let source := templateSource (if indented then dedent pieces else pieces)
          let w := .source ('<' :: '<' :: rest) rest₂ ++ .text (templateSource pieces) ++
            .source (rest₂.drop text.length) rest₃
          some ⟨(.heredoc indented delimiter source, w), rest₃, by grind⟩
        else none
  | c :: rest =>
    if c.isDigit then
      match number? (c :: rest) with
      | some ⟨n, rest₁, _⟩ =>
        if h : rest₁.length < (c :: rest).length then
          some ⟨(.number n, .source (c :: rest) rest₁), rest₁, h⟩
        else none
      | none => none
    else do
      let ⟨name, rest₁, h⟩ ← name? (c :: rest)
      have h₁ := skip_le true rest₁
      -- A name is that of a function if an opening parenthesis follows it.
      match char? '(' (skip true rest₁) with
      | some ⟨rest₂, h₂⟩ =>
        let ⟨(args, expand, w), rest₃, h₃⟩ ← readItems ')' rest₂
        some ⟨(.call name args expand, .source (c :: rest) rest₂ ++ w), rest₃, by omega⟩
      | none => some ⟨(nameTerm name, .source (c :: rest) rest₁), rest₁, h⟩
  | [] => none
termination_by (s.length, 0)
decreasing_by all_goals simp [Prod.lex_def] at * <;> omega

/-- Reads the names and the collection of a loop, from behind its keyword. -/
def readLoop (s : List Char) : Option (Read (List String × Term × Spelling) s.length) := do
  have h := skip_le true s
  let ⟨names, rest, h₁⟩ ← forNames? (skip true s)
  have h₂ := skip_le true rest
  let ⟨(collection, w), rest₁, h₃⟩ ← readTerm false (skip true rest)
  some ⟨(names, collection, .source s (skip true rest) ++ w), rest₁, by omega⟩
termination_by (s.length, 4)
decreasing_by all_goals (simp [Prod.lex_def] at *; omega)

/-- Reads terms separated by commas up to and including a closing character. A comma may stand
before it; the last argument of a call may be followed by an ellipsis. -/
def readItems (close : Char) (s : List Char) :
    Option (Read (List Term × Bool × Spelling) s.length) := do
  have h := skip_le true s
  match char? close (skip true s) with
  | some ⟨rest, h₁⟩ => some ⟨([], false, .source s rest), rest, by omega⟩
  | none =>
    let ⟨(t, w), rest, h₁⟩ ← readTerm false (skip true s)
    have h₂ := skip_le true rest
    match char? ',' (skip true rest) with
    | some ⟨rest₁, h₃⟩ =>
      let ⟨(items, expand, w₁), rest₂, h₄⟩ ← readItems close rest₁
      let w := .source s (skip true s) ++ w ++ .source rest rest₁ ++ w₁
      some ⟨(t :: items, expand, w), rest₂, by omega⟩
    | none =>
      let ⟨expand, rest₁, h₃⟩ := optionalEllipsis rest
      have h₄ := skip_le true rest₁
      let ⟨rest₂, h₅⟩ ← char? close (skip true rest₁)
      let w := .source s (skip true s) ++ w ++ .source rest rest₂
      some ⟨([t], expand, w), rest₂, by omega⟩
termination_by (s.length, 4)
decreasing_by all_goals (simp_all [Prod.lex_def]; omega)

/-- Reads the entries of an object up to and including the closing brace. -/
def readEntries (s : List Char) : Option (Read (List Entry × Spelling) s.length) := do
  have h := skip_le true s
  match char? '}' (skip true s) with
  | some ⟨rest, h₁⟩ => some ⟨([], .source s rest), rest, by omega⟩
  | none =>
    let ⟨(key, w), rest, h₁⟩ ← readTerm false (skip true s)
    have h₂ := skip_le false rest
    let ⟨rest₁, h₃⟩ ← (char? '=' (skip false rest)).or (char? ':' (skip false rest))
    have h₄ := skip_le false rest₁
    let ⟨(t, w₁), rest₂, h₅⟩ ← readTerm false (skip false rest₁)
    let ⟨w₂, rest₃, h₆⟩ ← entryEnd? rest₂
    let ⟨(entries, w₃), rest₄, h₇⟩ ← readEntries rest₃
    let entry : Entry :=
      { key := key
        value := t
        keySpelling := .source s (skip true s) ++ w
        valueSpelling := .source rest (skip false rest₁) ++ w₁ ++ w₂ }
    some ⟨(entry :: entries, w₃), rest₄, by omega⟩
termination_by (s.length, 4)
decreasing_by all_goals (simp [Prod.lex_def] at *; omega)

/-- Reads the optional condition of a `for` expression and its closing character. -/
def readForEnd (close : Char) (s : List Char) :
    Option (Read (Option Term × Spelling) (s.length + 1)) := do
  have h := skip_le true s
  match keyword? "if" (skip true s) with
  | some ⟨rest, h₁⟩ =>
    have h₂ := skip_le true rest
    let ⟨(condition, w), rest₁, h₃⟩ ← readTerm false (skip true rest)
    have h₄ := skip_le true rest₁
    let ⟨rest₂, h₅⟩ ← char? close (skip true rest₁)
    let w := .source s (skip true rest) ++ w ++ .source rest₁ rest₂
    some ⟨(some condition, w), rest₂, by omega⟩
  | none =>
    let ⟨rest, h₁⟩ ← char? close (skip true s)
    some ⟨(none, .source s rest), rest, by omega⟩
termination_by (s.length, 4)
decreasing_by all_goals (simp [Prod.lex_def] at *; omega)

/-- Reads quoted text, from behind the opening quote up to and including the closing one. -/
def readQuoted (s : List Char) : Option (Read (List Piece) s.length) := do
  let ⟨pieces, rest, h⟩ ← readPieces true "" s
  let ⟨rest₁, h₁⟩ ← char? '"' rest
  some ⟨pieces, rest₁, by omega⟩
termination_by (s.length, 2)
decreasing_by all_goals simp [Prod.lex_def]

/-- Reads the pieces of a template, as far as they go: up to the closing quote, to a directive that
starts neither a condition nor a loop, or to the end of the text. `literal` is the plain text read
since the last interpolation or directive. -/
def readPieces (inQuotes : Bool) (literal : String) (s : List Char) :
    Option (Read (List Piece) (s.length + 1)) :=
  match s with
  | [] => some ⟨literalPiece literal, [], by simp⟩
  | '$' :: '$' :: '{' :: rest => do
    let r ← readPieces inQuotes (literal ++ "$\x7b") rest
    some (r.widen (by grind))
  | '%' :: '%' :: '{' :: rest => do
    let r ← readPieces inQuotes (literal ++ "%\x7b") rest
    some (r.widen (by grind))
  | '$' :: '{' :: rest => do
    have h := optionalChar_le '~' rest
    have h₁ := skip_le true (optionalChar '~' rest).2
    let ⟨(_, w), rest₁, h₂⟩ ← readTerm false (skip true (optionalChar '~' rest).2)
    let ⟨rest₂, h₃⟩ ← signEnd? rest₁
    let ⟨pieces, rest₃, h₄⟩ ← readPieces inQuotes "" rest₂
    let w := .source ('$' :: '{' :: rest) (skip true (optionalChar '~' rest).2) ++ w ++
      .source rest₁ rest₂
    some ⟨literalPiece literal ++ .code w.toString :: pieces, rest₃, by grind⟩
  | '%' :: '{' :: rest =>
    if startsDirective ('%' :: '{' :: rest) then do
      let ⟨w, rest₁, h⟩ ← readDirective ('%' :: '{' :: rest)
      let ⟨pieces, rest₂, h₁⟩ ← readPieces inQuotes "" rest₁
      some ⟨literalPiece literal ++ .code w.toString :: pieces, rest₂, by grind⟩
    else some ⟨literalPiece literal, '%' :: '{' :: rest, Nat.lt_succ_self _⟩
  | c :: rest =>
    if inQuotes ∧ c = '"' then some ⟨literalPiece literal, c :: rest, Nat.lt_succ_self _⟩
    else if inQuotes ∧ c = '\\' then
      match escape? rest with
      | none => none
      | some (decoded, n) => do
        let r ← readPieces inQuotes (literal.push decoded) (rest.drop n)
        some (r.widen (by grind))
    else do
      let r ← readPieces inQuotes (literal.push c) rest
      some (r.widen (by simp))
termination_by (s.length, 1)
decreasing_by all_goals simp [Prod.lex_def] at * <;> omega

/-- Reads a condition or a loop with the templates that it governs. These are read like the text of
a heredoc, also within quotes. -/
def readDirective (s : List Char) : Option (Read Spelling s.length) := do
  match directiveStart? "if" s with
  | some ⟨rest, h⟩ =>
    have h₁ := skip_le true rest
    let ⟨(_, w), rest₁, h₂⟩ ← readTerm false (skip true rest)
    let ⟨rest₂, h₃⟩ ← signEnd? rest₁
    let ⟨yes, rest₃, h₄⟩ ← readPieces false "" rest₂
    let ⟨w₁, rest₄, h₅⟩ ← readAlternative rest₃
    let ⟨rest₅, h₆⟩ ← directive? "endif" rest₄
    let w := .source s (skip true rest) ++ w ++ .source rest₁ rest₂ ++
      .text (templateSource yes) ++ w₁ ++ .source rest₄ rest₅
    some ⟨w, rest₅, by omega⟩
  | none =>
    let ⟨rest, h⟩ ← directiveStart? "for" s
    let ⟨(_, _, w), rest₁, h₁⟩ ← readLoop rest
    let ⟨rest₂, h₂⟩ ← signEnd? rest₁
    let ⟨body, rest₃, h₃⟩ ← readPieces false "" rest₂
    let ⟨rest₄, h₄⟩ ← directive? "endfor" rest₃
    let w := .source s rest ++ w ++ .source rest₁ rest₂ ++ .text (templateSource body) ++
      .source rest₃ rest₄
    some ⟨w, rest₄, by omega⟩
termination_by (s.length, 0)
decreasing_by all_goals (simp [Prod.lex_def] at *; omega)

/-- Reads the alternative of a condition, if there is one. -/
def readAlternative (s : List Char) : Option (Read Spelling (s.length + 1)) := do
  match directive? "else" s with
  | some ⟨rest, h⟩ =>
    let ⟨no, rest₁, h₁⟩ ← readPieces false "" rest
    some ⟨.source s rest ++ .text (templateSource no), rest₁, by omega⟩
  | none => some ⟨.text "", s, lt_length_succ s⟩
termination_by (s.length, 2)
decreasing_by all_goals (simp [Prod.lex_def] at *; omega)
end

/-- Reads a text as one term, without anything before or behind it. -/
def Term.parse? (text : String) : Option Term :=
  match readTerm false text.toList with
  | some ⟨(t, _), [], _⟩ => some t
  | _ => none

/-! ## Bodies -/

/-- The rest of a text behind the end of its line or at the end of the text. -/
def elementEnd? (s : List Char) : Option { r : List Char // r.length ≤ s.length } :=
  match lineBreak? s with
  | some ⟨rest, h⟩ => some ⟨rest, Nat.le_of_lt h⟩
  | none =>
    if (skipLineComment (skip false s)).isEmpty then some ⟨[], Nat.zero_le _⟩ else none

/-- Reads a label: a bare name or quoted text without interpolations. -/
def label? (s : List Char) : Option (Read String s.length) :=
  match s with
  | '"' :: rest =>
    match readQuoted rest with
    | some ⟨[], rest, h⟩ => some ⟨"", rest, Nat.lt_succ_of_lt h⟩
    | some ⟨[.literal label], rest, h⟩ => some ⟨label, rest, Nat.lt_succ_of_lt h⟩
    | _ => none
  | s => name? s

/-- Reads the labels of a block. -/
def readLabels (s : List Char) : Read (List String) (s.length + 1) :=
  have h := skip_le false s
  match label? (skip false s) with
  | some ⟨label, rest, h₁⟩ =>
    let ⟨labels, rest, h₂⟩ := readLabels rest
    ⟨label :: labels, rest, by omega⟩
  | none => ⟨[], skip false s, by omega⟩
termination_by s.length

/-- Whether the attributes of a body have different names. -/
def hasDistinctNames (body : List Structure) : Bool :=
  let names := (attributesOf body).map (·.1)
  names.eraseDups.length == names.length

/-- Reads an attribute: a name, an equals sign and a term. -/
def readAttribute (s : List Char) : Option (Read Structure s.length) := do
  let ⟨name, rest, h⟩ ← name? s
  have h₁ := skip_le false rest
  let ⟨rest, h₂⟩ ← char? '=' (skip false rest)
  have h₃ := skip_le false rest
  let ⟨(t, _), rest, h₄⟩ ← readTerm false (skip false rest)
  some ⟨.attribute name t, rest, by omega⟩

/-- Reads the body of a block on one line, from behind its opening brace. -/
def readLineBody (s : List Char) : Option (Read (List Structure) s.length) := do
  have h := skip_le false s
  match readAttribute (skip false s) with
  | some ⟨element, rest, h₁⟩ =>
    have h₂ := skip_le false rest
    let ⟨rest, h₃⟩ ← char? '}' (skip false rest)
    some ⟨[element], rest, by omega⟩
  | none =>
    let ⟨rest, h₁⟩ ← char? '}' (skip false s)
    some ⟨[], rest, by omega⟩

mutual
/-- Reads an attribute or a block. -/
def readStructure (s : List Char) : Option (Read Structure s.length) := do
  let ⟨name, rest, h⟩ ← name? s
  have h₁ := skip_le false rest
  match char? '=' (skip false rest) with
  | some _ => readAttribute s
  | none =>
    let ⟨labels, rest, h₂⟩ := readLabels rest
    let ⟨rest, h₃⟩ ← char? '{' rest
    -- A line break behind the brace tells a body of many lines from one on a single line.
    match lineBreak? rest with
    | some ⟨rest, h₄⟩ =>
      let ⟨body, rest, h₅⟩ ← readBody true rest
      some ⟨.block name labels body, rest, by omega⟩
    | none =>
      let ⟨body, rest, h₄⟩ ← readLineBody rest
      some ⟨.block name labels body, rest, by omega⟩
termination_by (s.length, 0)
decreasing_by all_goals (simp [Prod.lex_def] at *; omega)

/-- Reads a body: the rest of the text or, if it is nested in a block, up to and including the
closing brace. Its attributes need different names. -/
def readBody (nested : Bool) (s : List Char) : Option (Read (List Structure) (s.length + 1)) := do
  let r ← readStructures nested s
  if hasDistinctNames r.value then some r else none
termination_by (s.length, 2)
decreasing_by all_goals simp [Prod.lex_def] at *

/-- Reads the elements of a body. -/
def readStructures (nested : Bool) (s : List Char) :
    Option (Read (List Structure) (s.length + 1)) := do
  have h := skip_le true s
  match hs : skip true s with
  | [] => if nested then none else some ⟨[], [], by simp⟩
  | c :: rest =>
    if nested ∧ c = '}' then some ⟨[], rest, by simp [hs] at h; omega⟩
    else
      let ⟨element, rest, h₁⟩ ← readStructure (c :: rest)
      let ⟨rest, h₂⟩ ← elementEnd? rest
      let ⟨elements, rest, h₃⟩ ← readStructures nested rest
      some ⟨element :: elements, rest, by simp [hs] at *; omega⟩
termination_by (s.length, 1)
decreasing_by all_goals (simp_all [Prod.lex_def]; omega)
end

/-- Reads the text of a file. -/
def Structure.parse? (text : String) : Option (List Structure) :=
  (readBody false text.toList).map (·.value)

end Deployment.Config
