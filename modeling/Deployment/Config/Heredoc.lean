import Deployment.Config.Spelling
import Deployment.Text.Blank

/-! # Heredocs

A heredoc is the text between two lines: the one that announces its delimiter and the one that holds
nothing else than it. The text keeps its last line break. An indented heredoc loses the indentation
that its lines have in common. Lines without a character do not count, nor do those that start with
an interpolation or directive.
-/

namespace Deployment.Config

/-- A blank within a line. -/
def isIndent (c : Char) : Bool :=
  c == ' ' || c == '\t'

/-- Whether a text is at the end of a line. -/
def atLineEnd : List Char → Bool
  | [] => true
  | '\n' :: _ => true
  | '\r' :: '\n' :: _ => true
  | _ => false

/-- What follows the delimiter, if the line at the start of a text holds the delimiter alone. -/
def delimiterLine? (delimiter s : List Char) : Option (List Char) :=
  if delimiter.isPrefixOf (s.dropWhile isIndent) ∧
      atLineEnd ((s.dropWhile isIndent).drop delimiter.length) then
    some ((s.dropWhile isIndent).drop delimiter.length)
  else none

theorem delimiterLine?_le {delimiter s rest : List Char}
    (h : delimiterLine? delimiter s = some rest) : rest.length ≤ s.length := by
  have hle := (List.dropWhile_suffix isIndent (l := s)).length_le
  unfold delimiterLine? at h
  split at h
  · simp only [Option.some.injEq] at h
    rw [← h, List.length_drop]
    omega
  · simp at h

/-- The text of a heredoc and what follows its closing delimiter. -/
def heredocText? (delimiter : List Char) (atLineStart : Bool) :
    List Char → Option (List Char × List Char)
  | [] => none
  | c :: s =>
    match if atLineStart then delimiterLine? delimiter (c :: s) else none with
    | some rest => some ([], rest)
    | none => (heredocText? delimiter (c == '\n') s).map fun (text, rest) => (c :: text, rest)

theorem heredocText?_le {delimiter s text rest : List Char} {atLineStart : Bool}
    (h : heredocText? delimiter atLineStart s = some (text, rest)) :
    text.length ≤ s.length ∧ rest.length ≤ s.length := by
  fun_induction heredocText? delimiter atLineStart s generalizing text with
  | case1 => simp at h
  | case2 atLineStart c s rest' hd =>
    simp only [Option.some.injEq, Prod.mk.injEq] at h
    obtain ⟨rfl, rfl⟩ := h
    split at hd
    · exact ⟨by simp, delimiterLine?_le hd⟩
    · simp at hd
  | case3 atLineStart c s _ ih =>
    simp only [Option.map_eq_some_iff, Prod.mk.injEq, Prod.exists] at h
    obtain ⟨text', rest', h', rfl, rfl⟩ := h
    have := ih h'
    simp only [List.length_cons]
    omega

/-! ## Common indentation -/

/-- The indentation of a line that ends, if the line has one. `current` is the number of blanks so
far, unless another character has been met. -/
def lineIndent : Option Nat → List Nat
  | some (n + 1) => [n + 1]
  | _ => []

/-- The indentations of the lines of a text that are not empty. -/
def indents : Option Nat → List Char → List Nat
  | current, [] => lineIndent current
  | current, '\n' :: rest => lineIndent current ++ indents (some 0) rest
  | current, '\r' :: '\n' :: rest => lineIndent current ++ indents (some 0) rest
  | none, _ :: rest => indents none rest
  | some n, c :: rest =>
    if Text.isBlank c then indents (some (n + 1)) rest else n :: indents none rest

/-- Removes up to `width` blanks from the start of every line; `left` of them from the current
one. -/
def unindent (width : Nat) : Nat → List Char → List Char
  | _, [] => []
  | left, c :: rest =>
    if c = '\n' then c :: unindent width width rest
    else if 0 < left ∧ Text.isBlank c then unindent width (left - 1) rest
    else c :: unindent width 0 rest

/-- The indentations of the lines that start in the plain text of a template. The first piece starts
a line, the others continue one. -/
def pieceIndents : Bool → List Piece → List Nat
  | _, [] => []
  | startsLine, .literal s :: rest =>
    indents (if startsLine then some 0 else none) s.toList ++ pieceIndents false rest
  | _, .code _ :: rest => pieceIndents false rest

/-- Removes blanks from the start of every line that starts in the plain text of a template. -/
def unindentPieces (width : Nat) : Bool → List Piece → List Piece
  | _, [] => []
  | startsLine, .literal s :: rest =>
    .literal (String.ofList (unindent width (if startsLine then width else 0) s.toList)) ::
      unindentPieces width false rest
  | _, .code source :: rest => .code source :: unindentPieces width false rest

/-- A template without the indentation that its lines have in common. -/
def dedent (pieces : List Piece) : List Piece :=
  unindentPieces ((pieceIndents true pieces).min?.getD 0) true pieces

end Deployment.Config
