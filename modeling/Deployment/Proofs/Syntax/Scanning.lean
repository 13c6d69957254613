import Deployment.Proofs.Syntax.Closing
import Deployment.Proofs.Syntax.Decoding
import Deployment.Proofs.Syntax.Embedding
import Deployment.Proofs.Syntax.Faults
import Deployment.Proofs.Syntax.Reconstruction

/-! # Searches and readers agree

Where quoted text and interpolations end is found by a search, and what stands before the end is
read again: the content of an interpolation by the lexer, and quoted text by the reader of
templates. Both follow the moves of the search, so in a text that the search has gone through
(`Covers`) they never run into the end of it. The lexer only stops at characters without a meaning
(`Token.tokensFrom_unexpected`), and reading a template never misses the end of a string, of an
interpolation or of an escape (`Expr.parseTemplate_terminated`), at any depth.
-/

namespace Deployment

open Template (Scope closing Covers move?)

/-! ## The lexer -/

namespace Token

/-- The searches that the lexer makes itself are the ones within braces. -/
theorem apostrophed_of_closing {s : List Char} {n : Nat} (h : closing .apostrophes [] s = some n) :
    ∃ content, apostrophed s = some (content, n) := by
  -- The search and the lexer go through the same cases.
  fun_induction apostrophed s generalizing n with
  | case1 => cases h
  | case2 =>
    rw [closing] at h
    cases h
    exact ⟨_, rfl⟩
  | case3 => cases h
  | case4 c rest decoded =>
    rename_i ih
    rw [closing] at h
    obtain ⟨m, hm, rfl⟩ := Option.map_eq_some_iff.mp h
    obtain ⟨content, hcontent⟩ := ih hm
    exact ⟨decoded ++ content, by rw [hcontent]; rfl⟩
  | case5 c rest hapostrophe hend hescape ih =>
    have hbackslash := Template.ne_backslash hend hescape
    rw [Template.closing_apostrophes_cons hbackslash hapostrophe] at h
    obtain ⟨m, hm, rfl⟩ := Option.map_eq_some_iff.mp h
    obtain ⟨content, hcontent⟩ := ih hm
    exact ⟨c :: content, by rw [hcontent]; rfl⟩

/-- What stops the lexer. -/
inductive Stops (c : Char) (rest : List Char) : ParseCause → Prop
  | quote (hc : c = '"') (h : closing .quoted [] rest = none) : Stops c rest .unterminatedString
  | apostrophe (hc : c = '\'') (h : apostrophed rest = none) : Stops c rest .unterminatedString
  | character : Stops c rest (.unexpectedCharacter c)

/-- Either a lexeme is read that is spelled there, or one of three things has stopped the lexer. -/
theorem lexeme_stops (c : Char) (rest : List Char) :
    Concludes (lexeme c rest) (fun l => Spells c rest l.token l.length) (Stops c rest) where
  ensures := lexeme_spells c rest
  fails e he := by
    unfold lexeme at he
    split at he
    · rename_i hc
      split at he
      · rename_i h
        cases he
        exact .quote hc h
      · cases he
    split at he
    · rename_i hc
      split at he
      · rename_i h
        cases he
        exact .apostrophe hc h
      · cases he
    split at he
    · cases he
    dsimp only at he
    split at he
    · cases he
    split at he
    · cases he
    · cases he
      exact .character

/-- A string within braces ends before they do. -/
theorem Stops.unexpected {c : Char} {rest : List Char} {cause : ParseCause}
    (h : Stops c rest cause) {outer : List Scope} (hcovers : Covers .braces outer (c :: rest)) :
    cause = .unexpectedCharacter c := by
  cases h with
  | quote hc h =>
    subst hc
    obtain ⟨m, hm, -⟩ := (hcovers.enter (k := 1) rfl).inner_first []
    cases h.symm.trans hm
  | apostrophe hc h =>
    subst hc
    obtain ⟨m, hm, -⟩ := (hcovers.enter (k := 1) rfl).inner_first []
    obtain ⟨content, hcontent⟩ := apostrophed_of_closing hm
    cases h.symm.trans hcontent
  | character => rfl

/-- Blanks in front of a text do not matter to the search. -/
theorem covers_of_blanks {outer : List Scope} {blanks s : List Char}
    (hblanks : ∀ b ∈ blanks, Text.isBlank b) (h : Covers .braces outer (blanks ++ s)) :
    Covers .braces outer s := by
  have hinside : ∀ b ∈ blanks, Inside b := fun b hb => inside_of_isBlank (hblanks b hb)
  exact h.of_append fun tail => closing_braces_append hinside outer _

/-- Behind a lexeme the search is in braces again. -/
theorem Spells.covers {c : Char} {rest : List Char} {t : Token} {n : Nat} (h : Spells c rest t n)
    {depth : Nat} (hcovers : Covers .braces (List.replicate depth .braces) (c :: rest)) :
    ∃ depth, Covers .braces (List.replicate depth .braces) ((c :: rest).drop n) := by
  by_cases hopen : t = .symbol .openBrace
  · subst hopen
    obtain ⟨rfl, rfl⟩ := h.openBrace
    exact ⟨depth + 1, hcovers.enter rfl⟩
  by_cases hclose : t = .symbol .closeBrace
  · subst hclose
    obtain ⟨rfl, rfl⟩ := h.closeBrace
    obtain ⟨next, outer, heq, hrest⟩ := hcovers.leave rfl
    cases depth with
    | zero => cases heq
    | succ depth =>
      obtain ⟨rfl, rfl⟩ := List.cons.inj heq
      exact ⟨depth, hrest⟩
  rw [← List.take_append_drop n (c :: rest)] at hcovers
  refine ⟨depth, hcovers.of_append fun tail => ?_⟩
  rw [← List.append_assoc, List.take_append_drop, h.skips hopen hclose, List.length_take,
    Nat.min_eq_left h.length_le]

/-- The lexer goes through a text in braces up to a character without a meaning. -/
theorem tokensFrom_unexpected (position depth : Nat) {s : List Char}
    (h : Covers .braces (List.replicate depth .braces) s) {e : ParseError}
    (he : tokensFrom position s = .error e) : ∃ c, e.cause = .unexpectedCharacter c := by
  revert depth e
  -- The number of open braces varies along the tokens, so it is part of the motive.
  refine tokensFrom_induct
    (motive := fun _ s r => ∀ depth, Covers .braces (List.replicate depth .braces) s →
      ∀ {e : ParseError}, r = .error e → ∃ c, e.cause = .unexpectedCharacter c)
    (fun position blanks _ depth h e he => ?_)
    (fun position blanks c rest cause hblanks hcause depth h e he => ?_)
    (fun position blanks c rest l behind hblanks hl ih depth h e he => ?_) position s
  · cases he
  · cases he
    have hstops := (lexeme_stops c rest).fails cause hcause
    exact ⟨c, hstops.unexpected (covers_of_blanks hblanks h)⟩
  · obtain ⟨depth, hdrop⟩ := (lexeme_spells c rest l hl).covers (covers_of_blanks hblanks h)
    cases behind with
    | error e' =>
      cases he
      exact ih depth hdrop rfl
    | ok tokens => cases he

/-- A text that a search in braces goes through is cut into tokens, unless a character in it has no
meaning. -/
theorem tokenize_unexpected {s : List Char} (h : Covers .braces [] s) {e : ParseError}
    (he : tokenize s = .error e) : ∃ c, e.cause = .unexpectedCharacter c := by
  refine tokensFrom_unexpected 0 0 h ?_
  rw [tokensFrom_zero, he]
  rfl

/-- The content of quoted text ends in front of the quote that is written behind it. -/
theorem Restores.covers {position start : Nat} {tokens : List Spanned} {s content : List Char}
    (h : Restores position tokens s) (hmem : ⟨.quoted content, start⟩ ∈ tokens) :
    Covers .quoted [] content := by
  induction h with
  | eof => cases List.mem_singleton.mp hmem
  | token _ _ hwritten _ ih =>
    rcases List.mem_cons.mp hmem with heq | hmem
    · cases heq
      cases hwritten with
      | quoted h => exact ⟨['"'], h⟩
    · exact ih hmem

/-- The content of quoted text is gone through by the search for its end. -/
theorem covers_of_tokenize {s content : List Char} {start : Nat}
    {tokens : { tokens : List Spanned // Spanned.totalWeight tokens ≤ s.length }}
    (h : tokenize s = .ok tokens) (hmem : ⟨.quoted content, start⟩ ∈ tokens.val) :
    Covers .quoted [] content :=
  (restores_of_tokenize h).covers hmem

/-- Quoted text weighs more than its content has characters. -/
theorem length_lt_totalWeight {tokens : List Spanned} {content : List Char} {start : Nat}
    (h : ⟨.quoted content, start⟩ ∈ tokens) : content.length < Spanned.totalWeight tokens := by
  induction tokens with
  | nil => cases h
  | cons t rest ih =>
    rw [Spanned.totalWeight_cons]
    rcases List.mem_cons.mp h with rfl | h
    · rw [weight]
      omega
    · exact Nat.lt_of_lt_of_le (ih h) (Nat.le_add_left _ _)

end Token

/-! ## Escapes -/

namespace Template

/-- Characters without a meaning in quoted text. -/
theorem Covers.skip {outer : List Scope} {skipped s : List Char}
    (hskipped : ∀ c ∈ skipped, c ∉ ['"', '\\', '$', '%'])
    (h : Covers .quoted outer (skipped ++ s)) : Covers .quoted outer s := by
  induction skipped with
  | nil => exact h
  | cons c skipped ih =>
    obtain ⟨hc, hskipped⟩ := List.forall_mem_cons.mp hskipped
    have hmove : move? .quoted (c :: (skipped ++ s)) = some (.pass, 1) := by
      rw [move?] <;> simp_all
    exact ih hskipped (h.pass hmove)

/-- Hexadecimal digits have no meaning in quoted text. -/
theorem HexNumber.not_mem {digits : List Char} {n : Nat} (h : HexNumber digits n) :
    ∀ c ∈ digits, c ∉ ['"', '\\', '$', '%'] := by
  obtain ⟨values, hdigits, -⟩ := h
  induction hdigits with
  | nil => simp
  | cons hdigit _ ih =>
    refine List.forall_mem_cons.mpr ⟨?_, ih⟩
    simp only [List.mem_cons, List.not_mem_nil, or_false, not_or]
    -- None of the four characters has a value as a digit.
    exact ⟨hdigit.ne rfl, hdigit.ne rfl, hdigit.ne rfl, hdigit.ne rfl⟩

/-- What can be wrong behind a backslash. -/
inductive WrongEscape (s : List Char) : ParseCause → Prop
  | missing (hs : s = []) : WrongEscape s .unterminatedEscape
  | incomplete (letter : Char) : WrongEscape s (.incompleteEscape letter)
  | codePoint (letter : Char) (digits : String) : WrongEscape s (.invalidCodePoint letter digits)
  | letter (c : Char) : WrongEscape s (.invalidEscape c)

/-- There is no other reason for which an escape is rejected. -/
theorem wrongEscape_of_unescape {s : List Char} {cause : ParseCause}
    (h : Template.unescape s = .error cause) : WrongEscape s cause := by
  have codePoint {letter : Char} {width : Nat} {rest : List Char}
      (h : Template.codePoint letter width rest = .error cause) : WrongEscape s cause := by
    unfold Template.codePoint at h
    split at h
    · cases h
      exact .incomplete letter
    split at h
    · cases h
      exact .codePoint letter _
    · cases h
  unfold Template.unescape at h
  split at h
  case h_1 =>
    cases h
    exact .missing rfl
  case h_7 | h_8 => exact codePoint h
  case h_9 =>
    cases h
    exact .letter _
  all_goals cases h

/-- An escape is passed in full: no character in it has a meaning but the first two. -/
theorem Covers.unescape {outer : List Scope} {rest : List Char} {decoded : Char} {n : Nat}
    (h : Covers .quoted outer ('\\' :: rest)) (hn : Template.unescape rest = .ok (decoded, n)) :
    Covers .quoted outer (rest.drop n) := by
  obtain ⟨spelled, s, rfl, rfl, hescape⟩ := escape_of_unescape hn
  rw [List.drop_left]
  cases hescape with
  | letter => exact h.pass (k := 2) rfl
  | @codePoint l _ digits _ hdigits =>
    have hbehind : Covers .quoted outer (digits ++ s) := h.pass (k := 2) rfl
    exact hbehind.skip hdigits.not_mem
  | @signed l _ digits _ _ hdigits =>
    have hbehind : Covers .quoted outer ('+' :: digits ++ s) := h.pass (k := 2) rfl
    exact hbehind.skip (List.forall_mem_cons.mpr ⟨by decide, hdigits.not_mem⟩)

end Template

/-! ## The reader -/

/-- The causes for which the text would have to go on. -/
def ParseCause.unterminated : List ParseCause :=
  [.unterminatedString, .unterminatedInterpolation, .unterminatedEscape]

namespace Expr

/-- The error is another one than that something does not end. -/
def Terminated (e : ParseError) : Prop :=
  e.cause ∉ ParseCause.unterminated

/-- An escape is only cut off if there is nothing behind the backslash. -/
theorem unescape_terminated {c : Char} {rest : List Char} {cause : ParseCause}
    (h : Template.unescape (c :: rest) = .error cause) : cause ∉ ParseCause.unterminated := by
  cases Template.wrongEscape_of_unescape h with
  | missing hs => cases hs
  | _ => simp [ParseCause.unterminated]

/-- What the parser itself reports is about tokens, which have all been read to their end. -/
theorem WrongAt.terminated {t : Token} {cause : ParseCause} (h : WrongAt t cause) :
    cause ∉ ParseCause.unterminated := by
  cases h <;> simp [ParseCause.unterminated]

mutual
/-- Reading quoted text that the search goes through never misses an end. The two readers call each
other, as do the two theorems, and each call is on a shorter text. -/
theorem parseTemplate_terminated (position : Nat) (literal : String) (s : List Char)
    (h : Covers .quoted [] s) :
    Concludes (parseTemplate true position literal s) (fun _ => True) Terminated := by
  generalize hs : s = t at h
  unfold parseTemplate
  split
  · exact .ok trivial
  · exact parseTemplate_terminated _ _ _ (h.pass (k := 3) rfl)
  · exact parseTemplate_terminated _ _ _ (h.pass (k := 3) rfl)
  · rename_i rest
    -- The interpolation ends where the search has left its braces.
    have hinside : Covers .braces [.quoted] rest := h.enter (k := 2) rfl
    obtain ⟨m, hm, hbehind⟩ := hinside.inner_first []
    split
    · rename_i hnone
      cases hnone.symm.trans hm
    · rename_i n hn
      cases hn.symm.trans hm
      dsimp only
      have hn := Template.closing_lt_length hn
      refine .bind ((parseText_terminated _ (.of_closing hm)).mapError fun e he => he) ?_
      intro e _
      refine .bind (parseTemplate_terminated _ _ _ hbehind) fun parts _ => ?_
      exact .ok trivial
  · exact .error (by simp [Terminated, ParseCause.unterminated])
  · rename_i c rest hdollars hpercents hdollar hpercent
    split
    · rename_i hescape
      obtain ⟨-, rfl⟩ := hescape
      split
      · rename_i cause hcause
        cases rest with
        | nil =>
          -- A backslash at the end would hide the quote that ends the text.
          obtain ⟨k, hmove, -⟩ | ⟨inner, k, hmove, -⟩ | ⟨next, outer, hmove, -⟩ := h.step (by simp)
          all_goals cases hmove
        | cons c rest => exact .error (unescape_terminated hcause)
      · rename_i decoded n hn
        exact parseTemplate_terminated _ _ _ (h.unescape hn)
    · rename_i hplain
      have hquote : c ≠ '"' := by
        rintro rfl
        obtain ⟨next, outer, heq, -⟩ := h.leave rfl
        cases heq
      have hmove : move? .quoted (c :: rest) = some (.pass, 1) := by
        rw [move?] <;> simp_all
      exact parseTemplate_terminated _ _ _ (h.pass hmove)
termination_by s.length
decreasing_by
  all_goals
    subst_vars
    simp only [List.length_cons, List.length_take, List.length_drop]
    omega

/-- Reading the content of an interpolation never misses an end: quoted text in it is read as a
template, and the search has gone through that as well. -/
theorem parseText_terminated (s : List Char) (h : Covers .braces [] s) :
    Concludes (parseText s) (fun _ => True) Terminated := by
  unfold parseText
  have htokens : Concludes (Token.tokenize s)
      (fun tokens => ∀ content start, ⟨.quoted content, start⟩ ∈ tokens.val →
        Covers .quoted [] content) Terminated := by
    refine ⟨fun tokens htokens content start => Token.covers_of_tokenize htokens, fun e he => ?_⟩
    obtain ⟨c, hc⟩ := Token.tokenize_unexpected h he
    simp [Terminated, hc, ParseCause.unterminated]
  refine .bind htokens fun ⟨tokens, hw⟩ hcovers => ?_
  have hreads : Concludes (parseConditional tokens) (fun _ => True) Terminated := by
    refine (parseConditional_concludes tokens).mono (fun _ _ => trivial) fun e he => ?_
    -- Either a token is wrong, or the quoted text of one is not a template.
    cases he with
    | here _ hcause => exact hcause.terminated
    | @inside content start e hmem he =>
      have hlt := Token.length_lt_totalWeight hmem
      exact (parseTemplate_terminated 0 "" content (hcovers content start hmem)).fails e he
  refine .bind hreads fun p _ => ?_
  split
  · exact .ok trivial
  · exact .error (WrongAt.expected _).terminated
termination_by s.length
decreasing_by omega
end

end Expr

/-! ## Quoted text within quoted text -/

namespace Template

/-- Quoted text in an interpolation of the given quoted text, or in one of its own interpolations,
at any depth. -/
inductive Nested (content : List Char) : List Char → Prop
  | self : Nested content content
  | inside {outer rest inner : List Char} {n start : Nat}
      {tokens : { tokens : List Spanned // Spanned.totalWeight tokens ≤ (rest.take n).length }}
      (h : Nested content outer) (hrest : '$' :: '\x7b' :: rest <:+ outer)
      (hn : closing .braces [] rest = some n) (htokens : Token.tokenize (rest.take n) = .ok tokens)
      (hinner : ⟨.quoted inner, start⟩ ∈ tokens.val) : Nested content inner

/-- What holds of the content of quoted text holds at any depth, since all of it comes out of the
lexer. -/
theorem Nested.covers {content inner : List Char} (h : Nested content inner)
    (hcontent : Covers .quoted [] content) : Covers .quoted [] inner := by
  cases h with
  | self => exact hcontent
  | inside _ _ _ htokens hinner => exact Token.covers_of_tokenize htokens hinner

/-- The content of an interpolation is cut into tokens unless there is a character in it without a
meaning. Quoted text is a template unless there is something else wrong with it than that a string,
an interpolation or an escape does not end, and so is all quoted text within it. -/
theorem terminated_of_closing :
    (∀ s n, closing .braces [] s = some n →
      ∀ e, Token.tokenize (s.take n) = .error e → ∃ c, e.cause = .unexpectedCharacter c) ∧
    ∀ s tokens, Token.tokenize s = .ok tokens →
      ∀ content start, ⟨.quoted content, start⟩ ∈ tokens.val →
        ∀ inner, Nested content inner → ∀ e, Template.parse (String.ofList inner) true = .error e →
          e.cause ∉
            [.unterminatedString, .unterminatedInterpolation, .unterminatedEscape] := by
  refine ⟨fun s n hn e he => Token.tokenize_unexpected (.of_closing hn) he, ?_⟩
  intro s tokens htokens content start hmem inner hinner e he
  have hcovers := hinner.covers (Token.covers_of_tokenize htokens hmem)
  rw [Template.parse, String.toList_ofList] at he
  exact (Expr.parseTemplate_terminated 0 "" inner hcovers).fails e he

/-- Quoted text around an interpolation of quoted text, which holds an unknown escape. -/
def escapeInside : List Char :=
  ['"', '$', '\x7b', '"', '\\', 'q', '"', '\x7d', '"']

/-- The text of an interpolation up to its end is rejected for a character that is no token, and
quoted text in quoted text for its escape. -/
theorem terminated_escapeInside :
    (∃ e, closing .braces [] ['"', '\x7d', '"', '@', '\x7d'] = some 4 ∧
      Token.tokenize ['"', '\x7d', '"', '@'] = .error e ∧ ∃ c, e.cause = .unexpectedCharacter c) ∧
    ∃ tokens content, Token.tokenize escapeInside = .ok tokens ∧
      ⟨.quoted content, 0⟩ ∈ tokens.val ∧ Nested content ['\\', 'q'] ∧
      ∃ e, Template.parse (String.ofList ['\\', 'q']) true = .error e ∧ e.cause ∉
        [.unterminatedString, .unterminatedInterpolation, .unterminatedEscape] := by
  obtain ⟨hinterpolation, hquoted⟩ := terminated_of_closing
  have hclosing : closing .braces [] ['"', '\x7d', '"', '@', '\x7d'] = some 4 := by cbv
  have htokens : Token.tokenize escapeInside =
      .ok ⟨[⟨.quoted ['$', '\x7b', '"', '\\', 'q', '"', '\x7d'], 0⟩, ⟨.eof, 9⟩], by decide⟩ := by
    cbv
  have hinner : Token.tokenize ['"', '\\', 'q', '"'] =
      .ok ⟨[⟨.quoted ['\\', 'q'], 0⟩, ⟨.eof, 4⟩], by decide⟩ := by
    cbv
  have hnested : Nested ['$', '\x7b', '"', '\\', 'q', '"', '\x7d'] ['\\', 'q'] := by
    have hbraces : closing .braces [] ['"', '\\', 'q', '"', '\x7d'] = some 4 := by cbv
    exact .inside .self List.suffix_rfl hbraces hinner List.mem_cons_self
  have hparse : Template.parse (String.ofList ['\\', 'q']) true =
      .error ⟨.invalidEscape 'q', 0⟩ := by
    cbv
  refine ⟨⟨⟨.unexpectedCharacter '@', 3⟩, hclosing, by cbv, ?_⟩, ?_⟩
  · exact hinterpolation _ 4 hclosing _ (by cbv)
  · exact ⟨_, _, htokens, List.mem_cons_self, hnested, _, hparse,
      hquoted _ _ htokens _ 0 List.mem_cons_self _ hnested _ hparse⟩

end Template

end Deployment
