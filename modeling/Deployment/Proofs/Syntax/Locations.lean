import Deployment.Proofs.Syntax.Nesting
import Deployment.Proofs.Syntax.Scanning

/-! # Where errors are

An error arises in one of the texts that are read, and its position counts from the start of that
text. On the way out, every text around it moves the position by the offset at which the inner text
stands in it (`Placed.of_subtext`). So the position is always a place of the whole text, and where a
message says what was found, this stands at that very place in the innermost expression
(`Reading.rejects_located`). It starts with the errors of the lexer, which are at a character, and
those of reading tokens, which are at a token or within quoted text (`Expr.Fault.placed`).
-/

namespace Deployment

open Template (closing pieceLength?)
open Text (utf8Length SliceAt)
open Token (tokenize)

/-- The text cannot be read, for the given error. -/
def Reading.Rejects : Reading → String → ParseError → Prop
  | .expression, text, e => Expr.parse text = .error e
  | .template inQuotes, text, e => Template.parse text inQuotes = .error e

/-- What an expression text has at a byte offset, as messages show it: a token, or its end. -/
inductive Shows (s : List Char) : Nat → String → Prop
  | token {t : Token} {p : Nat}
      {tokens : { tokens : List Spanned // Spanned.totalWeight tokens ≤ s.length }}
      (htokens : tokenize s = .ok tokens) (hmem : ⟨t, p⟩ ∈ tokens.val)
      (hwritten : Token.WrittenAt s p t) : Shows s p t.display
  | eof : Shows s (utf8Length s) "end of expression"

/-- The text can be cut at the position of the error, and what was found instead of something else
is there in the innermost expression. -/
structure Placed (r : Reading) (s : List Char) (e : ParseError) : Prop where
  boundary : SliceAt s e.position []
  found : ∀ what t, e.cause = .expected what t → ∃ offset content,
    Innermost r s e.position offset content ∧ Shows content (e.position - offset) t

/-- The error is placed in a text that starts at the given position. -/
def PlacedFrom (position : Nat) (r : Reading) (s : List Char) (e : ParseError) : Prop :=
  ∃ e', e = e'.shift position ∧ Placed r s e'

section Texts

variable {r r' : Reading} {s s' : List Char} {e : ParseError} {cause : ParseCause}
  {base position n : Nat}

/-- Moving a position twice moves it by the sum. -/
theorem ParseError.shift_shift (a b : Nat) (e : ParseError) :
    (e.shift b).shift a = e.shift (a + b) := by
  simp only [shift, Nat.add_assoc]

/-- Moving a position by nothing leaves the error as it is. -/
theorem ParseError.shift_zero (e : ParseError) : e.shift 0 = e := by
  simp only [shift, Nat.zero_add]

/-! ## Errors of subtexts -/

/-- What is placed in a subtext is placed in the whole text. -/
theorem Placed.of_subtext (h : Subtext r s base r' s') (he : Placed r' s' e) :
    Placed r s (e.shift base) where
  boundary := h.slice.trans he.boundary
  found what t hcause := by
    obtain ⟨offset, content, hinnermost, hshows⟩ := he.found what t hcause
    refine ⟨base + offset, content, hinnermost.of_subtext h, ?_⟩
    rwa [ParseError.shift, Nat.add_sub_add_left]

/-- An error in front of a text is placed if it does not say what was found. -/
theorem PlacedFrom.start (h : ∀ what t, cause ≠ .expected what t) :
    PlacedFrom position r s ⟨cause, position⟩ :=
  ⟨⟨cause, 0⟩, rfl, (SliceAt.refl s).start, fun what t hcause => absurd hcause (h what t)⟩

/-- What is placed behind the first piece of template text is placed in all of it. -/
theorem PlacedFrom.behind {inQuotes : Bool} (hn : pieceLength? inQuotes s = some n)
    (he : PlacedFrom (position + utf8Length (s.take n)) (.template inQuotes) (s.drop n) e) :
    PlacedFrom position (.template inQuotes) s e := by
  obtain ⟨e, rfl, he⟩ := he
  exact ⟨e.shift _, (e.shift_shift _ _).symm, he.of_subtext (.behind hn)⟩

/-- What is placed behind an interpolation is placed in the whole text: the marker has two bytes,
and the closing brace has one. -/
theorem PlacedFrom.behind_interpolation {inQuotes : Bool} {rest : List Char}
    (hn : closing .braces [] rest = some n)
    (he : PlacedFrom (position + 2 + utf8Length (rest.take n) + 1) (.template inQuotes)
      (rest.drop (n + 1)) e) :
    PlacedFrom position (.template inQuotes) ('$' :: '\x7b' :: rest) e := by
  refine .behind (Template.pieceLength?_interpolation inQuotes hn) ?_
  rwa [Template.utf8Length_interpolation hn, ← Nat.add_assoc, ← Nat.add_assoc]

/-- What is placed in the expression of an interpolation is placed behind its marker. -/
theorem PlacedFrom.interpolation {inQuotes : Bool} {rest : List Char}
    (hn : closing .braces [] rest = some n) (he : Placed .expression (rest.take n) e) :
    PlacedFrom position (.template inQuotes) ('$' :: '\x7b' :: rest) (e.shift (position + 2)) :=
  ⟨e.shift 2, (e.shift_shift _ _).symm, he.of_subtext (.interpolation hn)⟩

end Texts

/-- Errors of escapes do not say what was found instead. -/
theorem Template.WrongEscape.ne_expected {s : List Char} {cause : ParseCause}
    (h : WrongEscape s cause) (what t : String) : cause ≠ .expected what t := by
  cases h <;> simp

/-! ## Tokens -/

namespace Token

/-- Errors of the lexer do not say what was found instead. -/
theorem Stops.ne_expected {c : Char} {rest : List Char} {cause : ParseCause}
    (h : Stops c rest cause) (what t : String) : cause ≠ .expected what t := by
  cases h <;> simp

/-- The lexer stops at a character of the text. -/
theorem tokensFrom_stops (position : Nat) (s : List Char) {e : ParseError}
    (h : tokensFrom position s = .error e) :
    ∃ offset c rest, e.position = position + offset ∧ SliceAt s offset (c :: rest) ∧
      Stops c rest e.cause := by
  revert e
  -- Along the tokens. What is behind a lexeme is a slice of the text, and an offset in it is one of
  -- the text.
  refine tokensFrom_induct
    (motive := fun position s r => ∀ {e : ParseError}, r = .error e → ∃ offset c rest,
      e.position = position + offset ∧ SliceAt s offset (c :: rest) ∧ Stops c rest e.cause)
    (fun position blanks _ e he => ?_)
    (fun position blanks c rest cause _ hcause e he => ?_)
    (fun position blanks c rest l behind _ _ ih e he => ?_) position s
  · cases he
  · cases he
    exact ⟨_, c, rest, rfl, ⟨blanks, [], by simp, rfl⟩, (lexeme_stops c rest).fails cause hcause⟩
  · cases behind with
    | ok tokens => cases he
    | error e' =>
      cases he
      obtain ⟨offset, d, left, hposition, hslice, hstops⟩ := ih rfl
      have hbehind : SliceAt (blanks ++ c :: rest)
          (utf8Length (blanks ++ (c :: rest).take l.length)) ((c :: rest).drop l.length) :=
        ⟨blanks ++ (c :: rest).take l.length, [], by simp, rfl⟩
      refine ⟨_, d, left, ?_, hbehind.trans hslice, hstops⟩
      rw [hposition, Text.utf8Length_append, Nat.add_assoc, Nat.add_assoc, Nat.add_assoc]

/-- An error of the lexer is at the character that stops it. -/
theorem placed_of_tokenize {s : List Char} {e : ParseError} (h : tokenize s = .error e) :
    Placed .expression s e := by
  have hfrom : tokensFrom 0 s = .error e := by
    rw [tokensFrom_zero, h]
    rfl
  obtain ⟨offset, c, rest, hposition, hslice, hstops⟩ := tokensFrom_stops 0 s hfrom
  rw [Nat.zero_add] at hposition
  exact ⟨hposition ▸ hslice.start,
    fun what t hcause => absurd hcause (hstops.ne_expected what t)⟩

end Token

namespace Expr

/-- Reading never goes behind the last token, so there is always a next one. -/
theorem Leaves.next_mem {tokens rest : List Spanned} (h : Leaves tokens rest) {p : Nat}
    (heof : ⟨.eof, p⟩ ∈ tokens) : ⟨peek rest, position rest⟩ ∈ tokens := by
  cases rest with
  | nil =>
    obtain ⟨taken, rfl, htaken⟩ := h
    rw [List.append_nil] at heof
    exact absurd rfl (htaken _ heof)
  | cons t rest => exact h.mem List.mem_cons_self

/-- An error of reading the tokens of a text is at one of them, or it is an error of quoted text. -/
theorem Fault.placed {s : List Char} {e : ParseError}
    {tokens : { tokens : List Spanned // Spanned.totalWeight tokens ≤ s.length }}
    (htokens : tokenize s = .ok tokens) (h : Fault tokens.val e)
    (hquoted : ∀ content start, ⟨.quoted content, start⟩ ∈ tokens.val → ∀ e,
      parseTemplate true 0 "" content = .error e → Placed (.template true) content e) :
    Placed .expression s e := by
  -- Either the error is at a token that is left, or it comes from quoted text.
  cases h with
  | @here rest cause hrest hcause =>
    obtain ⟨front, heof, -⟩ := (Token.restores_of_tokenize htokens).eof_last
    have hmem := hrest.next_mem (heof ▸ List.mem_append_right front List.mem_cons_self)
    have hat := Token.writtenAt_of_tokenize htokens hmem
    generalize peek rest = t at hmem hcause hat
    generalize position rest = p at hmem hat
    refine ⟨?_, fun what found hexpected => ?_⟩
    · obtain ⟨-, rfl⟩ | ⟨written, hslice, -⟩ := hat
      · exact .end_nil s
      · exact hslice.start
    · -- Around a token there is no other expression text than the whole.
      have hshows : Shows s p t.display := by
        obtain ⟨rfl, rfl⟩ | hwritten := hat
        · exact .eof
        · exact .token htokens hmem hwritten
      dsimp only at hexpected
      subst hexpected
      cases hcause
      exact ⟨0, s, .of_mem htokens hmem, hshows⟩
  | inside hmem he => exact (hquoted _ _ hmem _ he).of_subtext (.quoted htokens hmem)

/-! ## All readers -/

mutual
/-- Every error of the reader of templates is placed, whatever the position it counts from. -/
theorem parseTemplate_placed (inQuotes : Bool) (position : Nat) (literal : String)
    (s : List Char) :
    Concludes (parseTemplate inQuotes position literal s) (fun _ => True)
      (PlacedFrom position (.template inQuotes) s) := by
  generalize hs : s = t
  unfold parseTemplate
  split
  · exact .ok trivial
  · exact (parseTemplate_placed _ _ _ _).imp_fails fun e he => he.behind (n := 3) rfl
  · exact (parseTemplate_placed _ _ _ _).imp_fails fun e he => he.behind (n := 3) rfl
  · rename_i rest
    split
    · exact .error (.start nofun)
    · rename_i n hn
      dsimp only
      have hlt := Template.closing_lt_length hn
      -- The expression is a subtext of its own, and so is what stands behind its closing brace.
      refine .bind ((parseText_placed (rest.take n)).mapError fun e he => .interpolation hn he) ?_
      intro e _
      have hrest := parseTemplate_placed inQuotes (position + 2 + utf8Length (rest.take n) + 1) ""
        (rest.drop (n + 1))
      refine .bind (hrest.imp_fails fun e he => he.behind_interpolation hn) ?_
      exact fun parts _ => .ok trivial
  · exact .error (.start nofun)
  · rename_i c rest hdollars hpercents hdollar hpercent
    have hpiece : pieceLength? inQuotes (c :: rest) = if inQuotes ∧ c = '\\' then
        (Template.unescape rest).toOption.map fun escape => escape.2 + 1 else some 1 := by
      rw [pieceLength?] <;> simp_all
    split
    · rename_i hescape
      rw [if_pos hescape] at hpiece
      split
      · rename_i cause hcause
        exact .error (.start (Template.wrongEscape_of_unescape hcause).ne_expected)
      · rename_i decoded n hn
        obtain ⟨-, rfl⟩ := hescape
        rw [hn] at hpiece
        refine (parseTemplate_placed _ _ _ _).imp_fails fun e he => .behind hpiece ?_
        rwa [Nat.add_assoc] at he
    · rename_i hplain
      rw [if_neg hplain] at hpiece
      exact (parseTemplate_placed _ _ _ _).imp_fails fun e he => he.behind hpiece
termination_by s.length
decreasing_by
  all_goals
    subst_vars
    simp only [List.length_cons, List.length_take, List.length_drop]
    omega

/-- Every error of the reader of expressions is placed. An error of quoted text counts from the
quoted token, as the template is read from position zero. -/
theorem parseText_placed (s : List Char) :
    Concludes (parseText s) (fun _ => True) (Placed .expression s) := by
  unfold parseText
  have htokens : Concludes (Token.tokenize s) (fun tokens => Token.tokenize s = .ok tokens)
      (Placed .expression s) := ⟨fun _ h => h, fun _ => Token.placed_of_tokenize⟩
  refine .bind htokens fun ⟨tokens, hw⟩ htokens => ?_
  have hfault (e : ParseError) (he : Fault tokens e) : Placed .expression s e := by
    refine he.placed htokens fun content start hmem e he => ?_
    have hlt : content.length < Spanned.totalWeight tokens := Token.length_lt_totalWeight hmem
    obtain ⟨e, rfl, he⟩ := (parseTemplate_placed true 0 "" content).fails e he
    rwa [ParseError.shift_zero]
  refine .bind ((parseConditional_concludes tokens).imp_fails hfault) fun p hp => ?_
  split
  · exact .ok trivial
  · exact .error (hfault _ (.unexpected hp _))
termination_by s.length
decreasing_by omega
end

end Expr

/-! ## Texts that are rejected -/

/-- Where a text can be cut, there is a character boundary. -/
theorem Text.SliceAt.isValid {text : String} {offset : Nat} (h : SliceAt text.toList offset []) :
    String.Pos.Raw.IsValid text ⟨offset⟩ := by
  obtain ⟨before, after, htext, rfl⟩ := h
  refine String.Pos.Raw.isValid_iff_exists_append.mpr
    ⟨String.ofList before, String.ofList after, ?_, ?_⟩
  · rw [← String.ofList_append, ← List.nil_append after, ← htext, String.ofList_toList]
  · rw [← String.toList_ofList (l := before), utf8Length_toList, String.toList_ofList]
    rfl

namespace Reading

variable {r : Reading} {text : String} {e : ParseError}

/-- The error of a text that is rejected is placed in that text. -/
theorem Rejects.placed (h : r.Rejects text e) : Placed r text.toList e := by
  cases r with
  | expression => exact (Expr.parseText_placed text.toList).fails e h
  | template inQuotes =>
    obtain ⟨e, rfl, he⟩ := (Expr.parseTemplate_placed inQuotes 0 "" text.toList).fails e h
    rwa [ParseError.shift_zero]

/-- The error of a text that cannot be read points between two of its characters, or to one of its
ends. If something else was expected, there is an innermost expression text around this position,
and at exactly this place it has the token that is shown as found, or it ends there. (The cause says
what was found. The wording alone does not, since a token may hold backticks itself.) -/
theorem rejects_located (h : r.Rejects text e) :
    String.Pos.Raw.IsValid text ⟨e.position⟩ ∧ e.position ≤ text.utf8ByteSize ∧
      ∀ what t, e.cause = .expected what t →
        (∃ offset content, Innermost r text.toList e.position offset content) ∧
          ∀ offset content, Innermost r text.toList e.position offset content →
            Shows content (e.position - offset) t := by
  have hplaced := h.placed
  have hvalid := hplaced.boundary.isValid
  refine ⟨hvalid, hvalid.le_utf8ByteSize, fun what t hcause => ?_⟩
  obtain ⟨offset, content, hinnermost, hshows⟩ := hplaced.found what t hcause
  refine ⟨⟨offset, content, hinnermost⟩, fun offset' content' hinnermost' => ?_⟩
  obtain ⟨rfl, rfl⟩ := hinnermost.unique hinnermost'
  exact hshows

/-- Two bytes of text, and an interpolation with a call of quoted text, in which another one breaks
off. -/
def brokenOff : String :=
  "é$\x7bf(\"a$\x7bb + \x7d\")\x7d"

set_option maxRecDepth 2000 in
/-- The sum lacks its second summand at the end of the innermost interpolation, and in the quoted
text a second token stands behind a whole expression. -/
theorem brokenOff_located :
    ((template false).Rejects brokenOff ⟨.expected "expression" "end of expression", 14⟩ ∧
      String.Pos.Raw.IsValid brokenOff ⟨14⟩ ∧ 14 ≤ brokenOff.utf8ByteSize ∧
        ∃ offset content, Innermost (template false) brokenOff.toList 14 offset content ∧
          Shows content (14 - offset) "end of expression") ∧
    expression.Rejects "\"$\x7ba 'b'\x7d\"" ⟨.expected "end of expression" "'b'", 5⟩ ∧
      ∃ offset content, Innermost expression "\"$\x7ba 'b'\x7d\"".toList 5 offset content ∧
        Shows content (5 - offset) "'b'" := by
  have hend : (template false).Rejects brokenOff
      ⟨.expected "expression" "end of expression", 14⟩ := by
    show Template.parse brokenOff false = _
    cbv
  have htoken : expression.Rejects "\"$\x7ba 'b'\x7d\""
      ⟨.expected "end of expression" "'b'", 5⟩ := by
    show Expr.parse "\"$\x7ba 'b'\x7d\"" = _
    cbv
  obtain ⟨hvalid, hle, hfound⟩ := rejects_located hend
  obtain ⟨⟨offset, content, hinnermost⟩, hshows⟩ := hfound _ _ rfl
  obtain ⟨⟨offset', content', hinnermost'⟩, hshows'⟩ := (rejects_located htoken).2.2 _ _ rfl
  exact ⟨⟨hend, hvalid, hle, offset, content, hinnermost, hshows _ _ hinnermost⟩, htoken,
    offset', content', hinnermost', hshows' _ _ hinnermost'⟩

end Reading

end Deployment
