import Deployment.Config.Reader

/-! # Blocks on single lines

The plainest way to write a block is on one line: its type, its labels in quotes, and in braces at
most one attribute with a quoted text. A file of such lines is read as the blocks that it is written
from (`Structure.parse?_lines`), if the names are names and the texts hold nothing that has a
meaning of its own within quotes.

Every scanner and reader on the way takes a piece off the text and leaves the rest (`Takes`), so the
text of a piece is written in front of whatever follows it.
-/

namespace Deployment.Config

variable {α : Type} {n : Nat} {c : Char} {s rest : List Char} {name text : String}

/-! ## Blanks -/

/-- Neither a blank nor the start of a comment. -/
def Stops (c : Char) : Prop :=
  c ∉ [' ', '\t', '\n', '\r', '/', '#']

instance : DecidablePred Stops :=
  fun c => inferInstanceAs (Decidable (c ∉ _))

/-- Where neither a blank nor a comment starts, there is nothing to skip. -/
theorem skip_of_stops (hc : Stops c) (lines : Bool) (s : List Char) :
    skip lines (c :: s) = c :: s := by
  simp only [Stops, List.mem_cons, List.not_mem_nil, or_false, not_or] at hc
  obtain ⟨hblank, htab, hnewline, hreturn, hslash, hnumber⟩ := hc
  rw [skip]
  · simp [hblank, htab, hnewline, hreturn]
  · simp [hslash]
  · simp [hslash]
  · simpa using hnumber

/-- A single blank is skipped and no more. -/
theorem skip_blank (hc : Stops c) (lines : Bool) (s : List Char) :
    skip lines (' ' :: c :: s) = c :: s := by
  have hskip : skip lines (' ' :: c :: s) = skip lines (c :: s) := by
    rw [skip] <;> simp
  rw [hskip, skip_of_stops hc]

/-- A blank with something behind it does not end a line. -/
theorem lineBreak?_blank (hc : Stops c) (s : List Char) : lineBreak? (' ' :: c :: s) = none := by
  have hskip := skip_blank hc false s
  simp only [Stops, List.mem_cons, List.not_mem_nil, or_false, not_or] at hc
  obtain ⟨-, -, hnewline, hreturn, hslash, hnumber⟩ := hc
  have hcomment : skipLineComment (c :: s) = c :: s := by
    unfold skipLineComment
    split <;> simp_all
  unfold lineBreak?
  split
  · rename_i heq
    rw [hskip, hcomment] at heq
    unfold newline? at heq
    split at heq <;> simp_all
  · rfl

/-- A line break ends an element of a body, and what follows starts behind it. -/
theorem elementEnd?_newline (s : List Char) : ∃ h, elementEnd? ('\n' :: s) = some ⟨s, h⟩ := by
  have hend : newline? (skipLineComment (skip false ('\n' :: s))) = some s := by
    rw [skip]
    · simp [skipLineComment, newline?]
    all_goals simp
  have hbreak : lineBreak? ('\n' :: s) = some ⟨s, by simp⟩ := by
    unfold lineBreak?
    split <;> rename_i heq <;> rw [hend] at heq
    · obtain rfl := Option.some.inj heq
      rfl
    · cases heq
  refine ⟨by simp, ?_⟩
  rw [elementEnd?, hbreak]

/-- An expected character is taken off the text. -/
theorem char?_eq_some (h : s = c :: rest) : ∃ hlt, char? c s = some ⟨rest, hlt⟩ := by
  subst h
  exact ⟨by simp, by rw [char?, if_pos rfl]⟩

theorem char?_eq_none {d : Char} (h : s = d :: rest) (hne : d ≠ c) : char? c s = none := by
  subst h
  rw [char?, if_neg hne]

/-! ## Names and quoted text -/

/-- The reader takes a value off a text and leaves the rest. -/
def Takes (r : Option (Read α n)) (value : α) (rest : List Char) : Prop :=
  r.map (fun read => (read.value, read.rest)) = some (value, rest)

theorem Takes.exists_eq {r : Option (Read α n)} {value : α} (h : Takes r value rest) :
    ∃ hlt, r = some ⟨value, rest, hlt⟩ := by
  obtain ⟨⟨value, rest, hlt⟩, hr, heq⟩ := Option.map_eq_some_iff.mp h
  cases heq
  exact ⟨hlt, hr⟩

/-- Text that may stand as a name. -/
def IsName (name : String) : Prop :=
  name.toList.head?.any startsName ∧ name.toList.tail.all continuesName

/-- Text that is written within quotes as it is. -/
def IsPlain (s : List Char) : Prop :=
  ∀ c ∈ s, c ∉ ['"', '\\', '$', '%']

instance : DecidablePred IsName :=
  fun name => inferInstanceAs (Decidable (name.toList.head?.any startsName ∧ _))

instance : DecidablePred IsPlain :=
  fun s => List.decidableBAll _ s

/-- A name is not empty: the first character decides where it may start, the others where it ends.
-/
theorem IsName.exists_cons (h : IsName name) :
    ∃ c s, name.toList = c :: s ∧ startsName c ∧ ∀ d ∈ s, continuesName d := by
  obtain ⟨hstarts, hgoesOn⟩ := h
  cases hname : name.toList with
  | nil =>
    rw [hname] at hstarts
    cases hstarts
  | cons c s =>
    rw [hname] at hstarts hgoesOn
    exact ⟨c, s, rfl, hstarts, List.all_eq_true.mp hgoesOn⟩

/-- No name starts like a blank or a comment, so skipping stops in front of one. -/
theorem IsName.stops (h : IsName name) : ∃ c s, name.toList = c :: s ∧ Stops c := by
  obtain ⟨c, s, hname, hstarts, -⟩ := h.exists_cons
  refine ⟨c, s, hname, fun hmem => ?_⟩
  simp only [List.mem_cons, List.not_mem_nil, or_false] at hmem
  rcases hmem with rfl | rfl | rfl | rfl | rfl | rfl <;> exact absurd hstarts (by decide)

/-- A name is read up to the blank behind it. -/
theorem name?_blank (h : IsName name) (rest : List Char) :
    Takes (name? (name.toList ++ ' ' :: rest)) name (' ' :: rest) := by
  obtain ⟨c, s, hname, hstarts, hgoesOn⟩ := h.exists_cons
  have htake : (s ++ ' ' :: rest).takeWhile continuesName = s := by
    rw [List.takeWhile_append_of_pos hgoesOn, List.takeWhile_cons_of_neg (by decide),
      List.append_nil]
  have hdrop : (s ++ ' ' :: rest).dropWhile continuesName = ' ' :: rest := by
    rw [List.dropWhile_append_of_pos hgoesOn, List.dropWhile_cons_of_neg (by decide)]
  rw [hname, List.cons_append, name?, if_pos hstarts]
  simp only [Takes, Option.map_some, htake, hdrop]
  rw [← hname, String.ofList_toList]

/-- Plain text is one piece, which is collected character by character up to the closing quote. -/
theorem readPieces_plain (hs : IsPlain s) (literal : String) (rest : List Char) :
    Takes (readPieces true literal (s ++ '"' :: rest)) (literalPiece (literal ++ String.ofList s))
      ('"' :: rest) := by
  -- The text read so far is an argument of the reader, so it varies in the induction.
  induction s generalizing literal with
  | nil =>
    rw [List.nil_append, readPieces]
    · simp [Takes]
    all_goals simp
  | cons c s ih =>
    obtain ⟨hc, hs⟩ := List.forall_mem_cons.mp hs
    simp only [List.mem_cons, List.not_mem_nil, or_false, not_or] at hc
    obtain ⟨hquote, hbackslash, hdollar, hpercent⟩ := hc
    obtain ⟨h, hread⟩ := (ih hs (literal.push c)).exists_eq
    have hliteral : literal.push c ++ String.ofList s = literal ++ String.ofList (c :: s) := by
      apply String.toList_injective
      simp
    rw [List.cons_append, readPieces]
    · simp [Takes, hquote, hbackslash, hread, Read.widen, hliteral]
    all_goals simp [hdollar, hpercent]

theorem readQuoted_plain (h : IsPlain text.toList) (rest : List Char) :
    Takes (readQuoted (text.toList ++ '"' :: rest)) (literalPiece text) rest := by
  obtain ⟨hlt, hread⟩ := (readPieces_plain h "" rest).exists_eq
  rw [readQuoted, hread]
  simp [Takes, char?]

/-- A quoted label is its text, the empty one included. -/
theorem label?_quoted (h : IsPlain text.toList) (rest : List Char) :
    Takes (label? ('"' :: (text.toList ++ '"' :: rest))) text rest := by
  obtain ⟨hlt, hread⟩ := (readQuoted_plain h rest).exists_eq
  rw [label?, hread, literalPiece]
  by_cases hempty : text.isEmpty
  · simp only [hempty, if_true]
    simp [Takes, String.isEmpty_iff.mp hempty]
  · simp only [hempty]
    rfl

/-- Quoted text without interpolations is a text and no template. -/
theorem quotedTerm_literalPiece (text : String) : quotedTerm (literalPiece text) = .text text := by
  unfold literalPiece
  split
  · rename_i hempty
    rw [String.isEmpty_iff.mp hempty]
    rfl
  · rfl

/-! ## A text as a term -/

theorem skip_blank_brace (rest : List Char) :
    skip false (' ' :: '}' :: rest) = '}' :: rest :=
  skip_blank (by decide) _ _

/-- A brace behind a term is no access. -/
theorem readAccesses_brace (rest : List Char) :
    Takes (readAccesses false (' ' :: '}' :: rest)) ([], .text "") (' ' :: '}' :: rest) := by
  have hlist : Takes (readAccessList false (' ' :: '}' :: rest)) ([], .text "")
      (' ' :: '}' :: rest) := by
    rw [readAccessList]
    split <;> rename_i heq
    · cases (skip_blank_brace rest).symm.trans heq
    · cases (skip_blank_brace rest).symm.trans heq
    · rfl
  rw [readAccesses, skip_blank_brace]
  exact hlist

theorem readOperators_brace (rest : List Char) :
    Takes (readOperators false (' ' :: '}' :: rest)) ([], .text "", false)
      (' ' :: '}' :: rest) := by
  have hnone : operator? (skip false (' ' :: '}' :: rest)) = none := by
    rw [skip_blank_brace]
    rfl
  rw [readOperators, hnone]
  rfl

/-- A quoted text is an operand. Its spelling is left open, as only templates keep it. -/
theorem readOperand_quoted (htext : IsPlain text.toList) (rest : List Char) :
    ∃ w, Takes (readOperand false ('"' :: (text.toList ++ '"' :: ' ' :: '}' :: rest)))
      (.text text, w, false) (' ' :: '}' :: rest) := by
  obtain ⟨_, hquoted⟩ := (readQuoted_plain htext (' ' :: '}' :: rest)).exists_eq
  have hprimary : Takes (readPrimary ('"' :: (text.toList ++ '"' :: ' ' :: '}' :: rest)))
      (.text text, quotedSpelling (literalPiece text)) (' ' :: '}' :: rest) := by
    rw [readPrimary, hquoted]
    simp [Takes, quotedTerm_literalPiece]
  obtain ⟨_, hprimary⟩ := hprimary.exists_eq
  obtain ⟨_, haccesses⟩ := (readAccesses_brace rest).exists_eq
  refine ⟨quotedSpelling (literalPiece text) ++ .text "", ?_⟩
  rw [readOperand, hprimary]
  · simp [Takes, continuesOver, haccesses, accessed]
  all_goals simp

/-- A quoted text before a closing brace is a term: no operator and no condition follows it. -/
theorem readTerm_quoted (htext : IsPlain text.toList) (rest : List Char) :
    ∃ w, Takes (readTerm false ('"' :: (text.toList ++ '"' :: ' ' :: '}' :: rest)))
      (.text text, w) (' ' :: '}' :: rest) := by
  obtain ⟨w, hoperand⟩ := readOperand_quoted htext rest
  obtain ⟨_, hoperand⟩ := hoperand.exists_eq
  obtain ⟨_, hoperators⟩ := (readOperators_brace rest).exists_eq
  have hcondition : char? '?' (skip false (' ' :: '}' :: rest)) = none :=
    char?_eq_none (skip_blank_brace rest) (by decide)
  refine ⟨w ++ .text "", ?_⟩
  rw [readTerm, hoperand]
  simp only [Option.bind_eq_bind, Option.bind_some, hoperators, hcondition]
  rfl

/-! ## Bodies and labels -/

/-- The body of a block on one line, up to its brace, in front of what follows. -/
def writeBody : Option (String × String) → List Char → List Char
  | none, rest => ' ' :: '}' :: rest
  | some (name, text), rest =>
    ' ' :: (name.toList ++
      (' ' :: '=' :: ' ' :: '"' :: (text.toList ++ '"' :: ' ' :: '}' :: rest)))

/-- Labels in quotes, in front of what follows. -/
def writeLabels : List String → List Char → List Char
  | [], rest => rest
  | label :: labels, rest => ' ' :: '"' :: (label.toList ++ '"' :: writeLabels labels rest)

theorem readAttribute_quoted (hname : IsName name) (htext : IsPlain text.toList)
    (rest : List Char) :
    Takes (readAttribute (name.toList ++
        (' ' :: '=' :: ' ' :: '"' :: (text.toList ++ '"' :: ' ' :: '}' :: rest))))
      (.attribute name (.text text)) (' ' :: '}' :: rest) := by
  obtain ⟨_, hread⟩ := (name?_blank hname
    ('=' :: ' ' :: '"' :: (text.toList ++ '"' :: ' ' :: '}' :: rest))).exists_eq
  obtain ⟨_, hequals⟩ := char?_eq_some (skip_blank (c := '=') (by decide) false
    (' ' :: '"' :: (text.toList ++ '"' :: ' ' :: '}' :: rest)))
  obtain ⟨w, hterm⟩ := readTerm_quoted htext rest
  rw [← skip_blank (by decide) false] at hterm
  obtain ⟨_, hterm⟩ := hterm.exists_eq
  rw [readAttribute, hread]
  simp only [Option.bind_eq_bind, Option.bind_some, hequals, hterm]
  rfl

/-- The attribute may be written on one line: its name is one, and its text is plain. -/
def IsPlainGiven (given? : Option (String × String)) : Prop :=
  ∀ entry ∈ given?, IsName entry.1 ∧ IsPlain entry.2.toList

instance : DecidablePred IsPlainGiven :=
  fun given? => inferInstanceAs (Decidable (∀ entry ∈ given?, _))

/-- Within the braces of a line stands its attribute, if it has one. -/
theorem readLineBody_writeBody {given? : Option (String × String)} (h : IsPlainGiven given?)
    (rest : List Char) :
    Takes (readLineBody (writeBody given? rest))
      (given?.toList.map fun (name, text) => .attribute name (.text text)) rest := by
  obtain ⟨_, hclose⟩ := char?_eq_some (skip_blank_brace rest)
  cases given? with
  -- Without an attribute the reader tries one nevertheless and fails at the brace.
  | none =>
    have hnone : readAttribute (skip false (' ' :: '}' :: rest)) = none := by
      rw [skip_blank_brace, readAttribute, name?, if_neg (by decide)]
      rfl
    rw [writeBody, readLineBody]
    simp only [hnone, hclose]
    rfl
  | some entry =>
    obtain ⟨name, text⟩ := entry
    obtain ⟨hname, htext⟩ := h _ rfl
    have hread := readAttribute_quoted hname htext rest
    obtain ⟨c, s, hcons, hc⟩ := hname.stops
    rw [writeBody]
    rw [hcons, List.cons_append, ← skip_blank hc false] at hread
    obtain ⟨_, hread⟩ := hread.exists_eq
    rw [hcons, List.cons_append, readLineBody]
    simp only [hread, hclose]
    rfl

/-- Labels are read as long as there are quotes, and the opening brace ends them. -/
theorem readLabels_writeLabels {labels : List String} (h : ∀ l ∈ labels, IsPlain l.toList)
    (rest : List Char) :
    Takes (some (readLabels (writeLabels labels (' ' :: '{' :: rest)))) labels ('{' :: rest) := by
  induction labels with
  | nil =>
    have hbrace : skip false (' ' :: '{' :: rest) = '{' :: rest := skip_blank (by decide) _ _
    have hnone : label? (skip false (' ' :: '{' :: rest)) = none := by
      rw [hbrace, label?, name?, if_neg (by decide)]
      simp
    rw [writeLabels, readLabels]
    simp only [hnone]
    simp [Takes, hbrace]
  | cons label labels ih =>
    obtain ⟨hlabel, hlabels⟩ := List.forall_mem_cons.mp h
    obtain ⟨_, hothers⟩ := (ih hlabels).exists_eq
    have hread := label?_quoted hlabel (writeLabels labels (' ' :: '{' :: rest))
    rw [← skip_blank (by decide) false] at hread
    obtain ⟨_, hread⟩ := hread.exists_eq
    rw [writeLabels, readLabels]
    simp only [hread, Option.some.inj hothers]
    rfl

/-- Behind the type of a block stands a label or its brace. -/
theorem writeLabels_eq_cons (labels : List String) (rest : List Char) :
    ∃ c s, writeLabels labels (' ' :: '{' :: rest) = ' ' :: c :: s ∧ Stops c ∧ c ≠ '=' := by
  cases labels with
  | nil => exact ⟨'{', rest, rfl, by decide, by decide⟩
  | cons label labels => exact ⟨'"', _, rfl, by decide, by decide⟩

/-- What stands behind an opening brace on the line is no line break, which would start a body over
several lines. -/
theorem lineBreak?_writeBody {given? : Option (String × String)} (h : IsPlainGiven given?)
    (rest : List Char) : lineBreak? (writeBody given? rest) = none := by
  cases given? with
  | none => exact lineBreak?_blank (by decide) rest
  | some entry =>
    obtain ⟨c, s, hname, hc⟩ := (h entry rfl).1.stops
    rw [writeBody, hname]
    exact lineBreak?_blank hc _

/-! ## Lines -/

/-- A block with labels and at most one attribute. -/
structure Line where
  type : String
  labels : List String
  given? : Option (String × String)

namespace Line

/-- The block on one line, in front of what follows. -/
def write (line : Line) (rest : List Char) : List Char :=
  line.type.toList ++
    writeLabels line.labels (' ' :: '{' :: writeBody line.given? ('\n' :: rest))

/-- The block that is written. -/
def block (line : Line) : Structure :=
  .block line.type line.labels
    (line.given?.toList.map fun (name, text) => .attribute name (.text text))

/-- The block may be written on one line. -/
structure Plain (line : Line) : Prop where
  type : IsName line.type
  labels : ∀ l ∈ line.labels, IsPlain l.toList
  given? : IsPlainGiven line.given?

instance : DecidablePred Plain := fun line =>
  decidable_of_iff
    (IsName line.type ∧ (∀ l ∈ line.labels, IsPlain l.toList) ∧ IsPlainGiven line.given?)
    ⟨fun ⟨type, labels, given?⟩ => ⟨type, labels, given?⟩, fun h => ⟨h.type, h.labels, h.given?⟩⟩

variable {line : Line}

/-- A written line is read as its block, up to the line break. -/
theorem readStructure_write (h : line.Plain) (rest : List Char) :
    Takes (readStructure (line.write rest)) line.block ('\n' :: rest) := by
  -- Behind the type stands a label or the brace, and no equals sign.
  obtain ⟨c, s, hbehind, hc, hne⟩ := writeLabels_eq_cons line.labels
    (writeBody line.given? ('\n' :: rest))
  have hname := name?_blank h.type (c :: s)
  rw [← hbehind] at hname
  obtain ⟨_, hname⟩ := hname.exists_eq
  have hequals := skip_blank hc false s
  rw [← hbehind] at hequals
  obtain ⟨_, hlabels⟩ :=
    (readLabels_writeLabels h.labels (writeBody line.given? ('\n' :: rest))).exists_eq
  have hlabels := Option.some.inj hlabels
  obtain ⟨_, hbrace⟩ := char?_eq_some (congrArg Read.rest hlabels)
  obtain ⟨_, hbody⟩ := (readLineBody_writeBody h.given? ('\n' :: rest)).exists_eq
  rw [write, readStructure, hname]
  simp only [Option.bind_eq_bind, Option.bind_some, char?_eq_none hequals hne, hbrace,
    lineBreak?_writeBody h.given?, hbody]
  simp only [hlabels]
  rfl

/-- A line is not skipped. -/
theorem skip_write (h : line.Plain) (lines : Bool) (rest : List Char) :
    skip lines (line.write rest) = line.write rest := by
  obtain ⟨c, s, hname, hc⟩ := h.type.stops
  rw [write, hname, List.cons_append, skip_of_stops hc]

/-- Lines below each other are read as their blocks in order. -/
theorem readStructures_write {lines : List Line} (h : ∀ line ∈ lines, line.Plain) :
    Takes (readStructures false (lines.foldr write [])) (lines.map block) [] := by
  induction lines with
  | nil =>
    rw [List.foldr_nil, readStructures]
    split <;> rename_i heq
    · rfl
    · rw [skip] at heq
      cases heq
  | cons line lines ih =>
    obtain ⟨hline, hlines⟩ := List.forall_mem_cons.mp h
    have hread := readStructure_write hline (lines.foldr write [])
    obtain ⟨_, hend⟩ := elementEnd?_newline (lines.foldr write [])
    obtain ⟨_, hothers⟩ := (ih hlines).exists_eq
    have hskip := skip_write hline true (lines.foldr write [])
    rw [List.foldr_cons, readStructures]
    -- The reader looks behind the blanks, and in front of a line there are none.
    split <;> rename_i heq
    · obtain ⟨c, s, hname, -⟩ := hline.type.stops
      rw [hskip, write, hname] at heq
      cases heq
    · rw [← hskip, heq] at hread
      obtain ⟨_, hread⟩ := hread.exists_eq
      rw [if_neg (by simp), hread]
      simp only [Option.bind_eq_bind, Option.bind_some, hend, hothers]
      rfl

end Line

/-- A file of blocks on single lines is read as these blocks. -/
theorem Structure.parse?_lines {lines : List Line} (h : ∀ line ∈ lines, line.Plain) :
    Structure.parse? (String.ofList (lines.foldr Line.write [])) = some (lines.map Line.block) := by
  obtain ⟨_, hread⟩ := (Line.readStructures_write h).exists_eq
  -- The attributes of these blocks are not attributes of the file.
  have hattributes : attributesOf (lines.map Line.block) = [] := by
    simp [attributesOf, Line.block]
  have hnames : hasDistinctNames (lines.map Line.block) := by
    rw [hasDistinctNames, hattributes]
    rfl
  rw [parse?, String.toList_ofList, readBody, hread]
  simp [hnames]

end Deployment.Config
