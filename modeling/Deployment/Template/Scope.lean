/-! # Where quoted text and interpolations end

Quoted text may hold interpolations, and an interpolation may hold quoted text again, so the end
of either is found by keeping track of what has been opened and not yet closed. `closing` walks
over a text with the stack of open scopes and answers how many characters stand before the one
that closes the outermost scope.

- In quoted text a backslash hides the next character, `$${` and `%%{` are plain text, and `${` or
  `%{` opens braces.
- Within braces a quote or an apostrophe opens a string and `{` opens further braces.
- Between apostrophes a backslash hides the next character.
-/

namespace Deployment.Template

/-- What a text can be inside of. -/
inductive Scope
  | quoted
  | braces
  | apostrophes
deriving DecidableEq, Repr

/-- The number of characters before the one that closes all open scopes: the innermost one and the
ones around it. There is none if the text ends first. -/
def closing : Scope → List Scope → List Char → Option Nat
  | _, _, [] => none
  | .quoted, _, ['\\'] => none
  | .quoted, outer, '\\' :: _ :: rest => (closing .quoted outer rest).map (· + 2)
  | .quoted, [], '"' :: _ => some 0
  | .quoted, scope :: outer, '"' :: rest => (closing scope outer rest).map (· + 1)
  | .quoted, outer, '$' :: '$' :: '{' :: rest => (closing .quoted outer rest).map (· + 3)
  | .quoted, outer, '%' :: '%' :: '{' :: rest => (closing .quoted outer rest).map (· + 3)
  | .quoted, outer, '$' :: '{' :: rest => (closing .braces (.quoted :: outer) rest).map (· + 2)
  | .quoted, outer, '%' :: '{' :: rest => (closing .braces (.quoted :: outer) rest).map (· + 2)
  | .quoted, outer, _ :: rest => (closing .quoted outer rest).map (· + 1)
  | .braces, outer, '"' :: rest => (closing .quoted (.braces :: outer) rest).map (· + 1)
  | .braces, outer, '\'' :: rest => (closing .apostrophes (.braces :: outer) rest).map (· + 1)
  | .braces, outer, '{' :: rest => (closing .braces (.braces :: outer) rest).map (· + 1)
  | .braces, [], '}' :: _ => some 0
  | .braces, scope :: outer, '}' :: rest => (closing scope outer rest).map (· + 1)
  | .braces, outer, _ :: rest => (closing .braces outer rest).map (· + 1)
  | .apostrophes, _, ['\\'] => none
  | .apostrophes, outer, '\\' :: _ :: rest => (closing .apostrophes outer rest).map (· + 2)
  | .apostrophes, [], '\'' :: _ => some 0
  | .apostrophes, scope :: outer, '\'' :: rest => (closing scope outer rest).map (· + 1)
  | .apostrophes, outer, _ :: rest => (closing .apostrophes outer rest).map (· + 1)

/-- The closing character is a character of the text. -/
theorem closing_lt_length {scope : Scope} {outer : List Scope} {s : List Char} {n : Nat}
    (h : closing scope outer s = some n) : n < s.length := by
  fun_induction closing scope outer s generalizing n <;> grind [Option.map_eq_some_iff]

/-! ## Ordinary characters

The last case of each scope is that of a character without a meaning, which is known as one that the
cases before do not take.
-/

/-- A backslash either ends the text or escapes the next character. -/
theorem ne_backslash {c : Char} {rest : List Char} (hend : c = '\\' → rest = [] → False)
    (hescape : ∀ d behind, c = '\\' → rest = d :: behind → False) : c ≠ '\\' := by
  intro hc
  cases rest with
  | nil => exact hend hc rfl
  | cons d behind => exact hescape d behind hc rfl

/-- A closing character closes either the last open scope or one with others around it. -/
theorem ne_close {c close : Char} {outer : List Scope} (hlast : outer = [] → c = close → False)
    (hinner : ∀ scope around, outer = scope :: around → c = close → False) : c ≠ close := by
  intro hc
  cases outer with
  | nil => exact hlast rfl hc
  | cons scope around => exact hinner scope around rfl hc

end Deployment.Template
