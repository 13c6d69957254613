import Deployment.Config.Quoted

/-! # Spellings

Between the signs of an interpolation a template keeps its source: blanks, comments and the way in
which numbers are written. Only quoted text is escaped anew, and of several operators before an
operand the last one alone is kept. A `Spelling` says how a term is kept in this way: mostly by
pointing to the source, which is copied when the template is complete.
-/

namespace Deployment.Config

/-- The source that is kept of a term. -/
inductive Spelling
  /-- The source from a point on up to where the rest begins. -/
  | source (start rest : List Char)
  | text (s : String)
  | append (first second : Spelling)

instance : Append Spelling := ⟨.append⟩

/-- The characters of a spelling. -/
def Spelling.toString : Spelling → String
  | .source start rest => String.ofList (start.take (start.length - rest.length))
  | .text s => s
  | .append first second => first.toString ++ second.toString

/-- A piece of a template: plain text, or the source of an interpolation or directive. -/
inductive Piece
  | literal (s : String)
  | code (source : String)

/-- A piece as source of a template. -/
def Piece.source : Piece → String
  | .literal s => literalSource s
  | .code source => source

/-- A piece as source of a template that is quoted within another one. -/
def Piece.quotedSource : Piece → String
  | .literal s => QuoteStyle.template.write s
  | .code source => source

/-- The source of a template. -/
def templateSource (pieces : List Piece) : String :=
  String.join (pieces.map Piece.source)

/-- The spelling of quoted text, with or without interpolations, in another template. -/
def quotedSpelling (pieces : List Piece) : Spelling :=
  .text ("\"" ++ String.join (pieces.map Piece.quotedSource) ++ "\"")

/-- Plain text as pieces of a template: none if it is empty. -/
def literalPiece (s : String) : List Piece :=
  if s.isEmpty then [] else [.literal s]

end Deployment.Config
