import Deployment.Proofs.Syntax.Closing
import Deployment.Proofs.Syntax.Lexemes
import Mathlib

/-! # Texts written out again

Nothing of a text gets lost when it is cut into tokens. `Token.WrittenAs` says how a token may be
written, without reference to the way in which it is read: numbers and names as themselves, quoted
text as its content between quotes, and text between apostrophes with backslashes in front of some
characters. `Restores` puts what is written together again: blanks before each token and at the end,
and every token at the byte offset where it starts. Each text that has tokens is such a sequence
(`Token.tokenize_restores`). So each token stands in the text as the slice at its own position
(`Token.Restores.writtenAt`), and of two tokens one ends before the other (`Token.Restores.apart`).
-/

namespace Deployment

/-- The length in bytes is that of the encoded text. -/
theorem Text.utf8Length_eq_size (s : List Char) : utf8Length s = s.utf8Encode.size := by
  induction s with
  | nil => simp
  | cons c rest ih =>
    rw [utf8Length_cons, ih, List.utf8Encode_cons, ByteArray.size_append, List.utf8Encode_singleton]
    simp

/-- The length in bytes is that of the string, so positions are offsets into it. -/
theorem Text.utf8Length_toList (s : String) : utf8Length s.toList = s.utf8ByteSize := by
  rw [utf8Length_eq_size, String.utf8Encode_toList, String.size_toByteArray]

/-! ## Slices -/

namespace Text

/-- The part stands in the text behind the given number of bytes. -/
def SliceAt (s : List Char) (offset : Nat) (part : List Char) : Prop :=
  ∃ before after, s = before ++ (part ++ after) ∧ utf8Length before = offset

namespace SliceAt

variable {s s' part part' : List Char} {base offset : Nat}

theorem refl (s : List Char) : SliceAt s 0 s :=
  ⟨[], [], by simp, rfl⟩

/-- A slice of a slice is one of the text, and the offsets add up. -/
theorem trans (h : SliceAt s base s') (h' : SliceAt s' offset part) :
    SliceAt s (base + offset) part := by
  obtain ⟨before, after, rfl, rfl⟩ := h
  obtain ⟨before', after', rfl, rfl⟩ := h'
  exact ⟨before ++ before', after' ++ after, by simp, utf8Length_append _ _⟩

/-- A slice ends within the text. -/
theorem le (h : SliceAt s offset part) : offset + utf8Length part ≤ utf8Length s := by
  obtain ⟨before, after, rfl, rfl⟩ := h
  rw [utf8Length_append, utf8Length_append]
  omega

/-- Where a slice starts, the text can be cut. -/
theorem start (h : SliceAt s offset part) : SliceAt s offset [] := by
  obtain ⟨before, after, rfl, rfl⟩ := h
  exact ⟨before, part ++ after, rfl, rfl⟩

/-- The end of a text is a place where it can be cut. -/
theorem end_nil (s : List Char) : SliceAt s (utf8Length s) [] :=
  ⟨s, [], by simp, rfl⟩

end SliceAt

/-- A text is cut in one way behind a given number of bytes. -/
theorem append_inj_of_utf8Length {a a' b b' : List Char} (h : a ++ b = a' ++ b')
    (hlength : utf8Length a = utf8Length a') : a = a' ∧ b = b' := by
  induction a generalizing a' with
  | nil =>
    -- Every character takes a byte, so neither part can end while the other goes on.
    cases a' with
    | nil => exact ⟨rfl, h⟩
    | cons c a' =>
      have hpos := c.utf8Size_pos
      rw [utf8Length_nil, utf8Length_cons] at hlength
      omega
  | cons c a ih =>
    cases a' with
    | nil =>
      have hpos := c.utf8Size_pos
      rw [utf8Length_nil, utf8Length_cons] at hlength
      omega
    | cons c' a' =>
      obtain ⟨rfl, htail⟩ := List.cons.inj h
      obtain ⟨rfl, rfl⟩ := ih htail (Nat.add_left_cancel hlength)
      exact ⟨rfl, rfl⟩

/-- Slices of one length at one offset are the same. -/
theorem SliceAt.unique {s part part' : List Char} {offset : Nat} (h : SliceAt s offset part)
    (h' : SliceAt s offset part') (hlength : utf8Length part = utf8Length part') :
    part = part' := by
  obtain ⟨before, after, rfl, hbefore⟩ := h
  obtain ⟨before', after', hs, hbefore'⟩ := h'
  obtain ⟨-, hrest⟩ := append_inj_of_utf8Length hs (hbefore.trans hbefore'.symm)
  exact (append_inj_of_utf8Length hrest hlength).1

end Text

namespace Token

/-! ## How tokens are written -/

/-- The exponent of a number, if it has one: a letter, an optional sign and digits. -/
inductive IsScale : List Char → Prop
  | nil : IsScale []
  | exponent {letter : Char} {sign digits : List Char} (hletter : letter ∈ ['e', 'E'])
      (hsign : sign ∈ [[], ['+'], ['-']]) (h : IsDigits digits) :
      IsScale (letter :: (sign ++ digits))

/-- A number: digits, a fraction if there is one, and an exponent if there is one. -/
inductive IsNumeral : List Char → Prop
  | intro {whole fraction scale : List Char} (hwhole : IsDigits whole)
      (hfraction : IsFraction fraction) (hscale : IsScale scale) :
      IsNumeral (whole ++ fraction ++ scale)

/-- The characters between apostrophes, and the text that they stand for. -/
inductive Escapes : List Char → List Char → Prop
  | nil : Escapes [] []
  | plain {c : Char} {raw content : List Char} (hc : c ∉ ['\'', '\\']) (h : Escapes raw content) :
      Escapes (c :: raw) (c :: content)
  | apostrophe {raw content : List Char} (h : Escapes raw content) :
      Escapes ('\\' :: '\'' :: raw) ('\'' :: content)
  | backslash {raw content : List Char} (h : Escapes raw content) :
      Escapes ('\\' :: '\\' :: raw) ('\\' :: content)
  | newline {raw content : List Char} (h : Escapes raw content) :
      Escapes ('\\' :: 'n' :: raw) ('\n' :: content)
  | tab {raw content : List Char} (h : Escapes raw content) :
      Escapes ('\\' :: 't' :: raw) ('\t' :: content)
  /-- A backslash without a meaning is part of the text. -/
  | other {c : Char} {raw content : List Char} (hc : c ∉ ['\'', '\\', 'n', 't'])
      (h : Escapes raw content) : Escapes ('\\' :: c :: raw) ('\\' :: c :: content)

/-- How a token may be written. -/
inductive WrittenAs : Token → List Char → Prop
  | number {s : String} (h : IsNumeral s.toList) : WrittenAs (.number s) s.toList
  | name {s : String} (h : Text.IsName s) : WrittenAs (.name s) s.toList
  | symbol (s : Symbol) : WrittenAs (.symbol s) s.spelling.toList
  /-- The first quote that closes the text is the one behind its content. -/
  | quoted {content : List Char}
      (h : Template.closing .quoted [] (content ++ ['"']) = some content.length) :
      WrittenAs (.quoted content) ('"' :: (content ++ ['"']))
  | text {raw content : List Char} (h : Escapes raw content) :
      WrittenAs (.text (String.ofList content)) ('\'' :: (raw ++ ['\'']))

/-! ## Lexemes are written tokens -/

theorem isDigits_take {s : List Char} (h : 0 < runLength Char.isDigit s) :
    IsDigits (s.take (runLength Char.isDigit s)) := by
  rw [take_runLength]
  rw [runLength, List.length_pos_iff] at h
  exact ⟨h, List.all_eq_true.mp List.all_takeWhile⟩

theorem isFraction_take (s : List Char) : IsFraction (s.take (fractionLength s)) := by
  unfold fractionLength
  split
  · dsimp only
    split
    · exact .nil
    · rw [List.take_succ_cons]
      exact .digits (isDigits_take (by omega))
  · exact .nil

theorem take_signLength (s : List Char) : s.take (signLength s) ∈ [[], ['+'], ['-']] := by
  unfold signLength
  split
  · rename_i h
    cases s with
    | nil => simp
    | cons c rest => simpa using h
  · simp

theorem isScale_take (s : List Char) : IsScale (s.take (exponentLength s)) := by
  cases s with
  | nil => exact .nil
  | cons letter rest =>
    rw [exponentLength]
    split
    · rename_i h
      obtain ⟨hletter, hdigits⟩ := h
      rw [Nat.add_assoc, Nat.add_comm 1, List.take_succ_cons, List.take_add]
      exact .exponent (by simpa using hletter) (take_signLength rest) (isDigits_take hdigits)
    · exact .nil

/-- What the lexer takes for a number, one character at least, is written as one. -/
theorem isNumeral_take {c : Char} (hc : c.isDigit) (rest : List Char) :
    IsNumeral ((c :: rest).take (max 1 (numberLength (c :: rest)))) := by
  have hpos : 0 < runLength Char.isDigit (c :: rest) := by
    rw [runLength, List.takeWhile_cons_of_pos hc]
    exact Nat.succ_pos _
  have hle : runLength Char.isDigit (c :: rest) ≤ numberLength (c :: rest) := by
    rw [numberLength]
    omega
  rw [Nat.max_eq_right (by omega), numberLength, List.take_add, List.take_add]
  exact .intro (isDigits_take hpos) (isFraction_take _) (isScale_take _)

/-- Text between apostrophes is read up to the next apostrophe without a backslash. -/
theorem escapes_take {s content : List Char} {n : Nat} (h : apostrophed s = some (content, n)) :
    Escapes (s.take n) content ∧ s.take (n + 1) = s.take n ++ ['\''] := by
  -- By induction along the search for the closing apostrophe, which keeps a backslash together with
  -- the character behind it.
  fun_induction apostrophed s generalizing content n with
  | case1 => cases h
  | case2 =>
    cases h
    exact ⟨.nil, rfl⟩
  | case3 => cases h
  | case4 c rest decoded =>
    rename_i ih
    obtain ⟨⟨content', m⟩, hm, heq⟩ := Option.map_eq_some_iff.mp h
    obtain ⟨rfl, rfl⟩ := Prod.mk.inj heq
    obtain ⟨hraw, htake⟩ := ih hm
    refine ⟨?_, congrArg (fun raw => '\\' :: c :: raw) htake⟩
    rw [List.take_succ_cons, List.take_succ_cons]
    dsimp only [decoded]
    split
    · exact .apostrophe hraw
    · exact .backslash hraw
    · exact .newline hraw
    · exact .tab hraw
    · exact .other (by simp_all) hraw
  | case5 c rest hapostrophe hend hescape ih =>
    obtain ⟨⟨content', m⟩, hm, heq⟩ := Option.map_eq_some_iff.mp h
    obtain ⟨rfl, rfl⟩ := Prod.mk.inj heq
    obtain ⟨hraw, htake⟩ := ih hm
    have hordinary : c ∉ ['\'', '\\'] := by
      simpa using ⟨hapostrophe, Template.ne_backslash hend hescape⟩
    exact ⟨.plain hordinary hraw, congrArg (c :: ·) htake⟩

/-- What the lexer takes for a symbol is its spelling. -/
theorem symbol?_take {s : List Char} {sym : Symbol} {n : Nat} (h : symbol? s = some (sym, n)) :
    s.take n = sym.spelling.toList := by
  revert h
  fun_cases symbol? s <;> intro h <;> cases h <;> rfl

/-- Up to the quote that closes it, quoted text is closed by this quote. -/
theorem quoted_take {s : List Char} {n : Nat} (h : Template.closing .quoted [] s = some n) :
    s.take (n + 1) = s.take n ++ ['"'] ∧
      Template.closing .quoted [] (s.take n ++ ['"']) = some (s.take n).length := by
  have hcloses := Template.closes_iff.mpr h
  have htake : s.take (n + 1) = s.take n ++ ['"'] := by
    rw [List.take_add_one, hcloses.getElem?_eq]
    rfl
  refine ⟨htake, ?_⟩
  rw [← htake, (hcloses.take (Nat.lt_succ_self n)).closing, List.length_take,
    Nat.min_eq_left (Nat.le_of_lt (Template.closing_lt_length h))]

/-- What the lexer takes for a token is one of the ways to write it. -/
theorem Spells.writtenAs {c : Char} {rest : List Char} {t : Token} {n : Nat}
    (h : Spells c rest t n) : t.WrittenAs ((c :: rest).take n) := by
  have hproper := h.proper
  -- One case for each way to spell a token, with the closing quote or apostrophe added where there
  -- is one.
  cases h with
  | quoted hc hn =>
    obtain ⟨htake, hcontent⟩ := quoted_take hn
    rw [hc, List.take_succ_cons, htake]
    exact .quoted hcontent
  | text hc hn =>
    obtain ⟨hraw, htake⟩ := escapes_take hn
    rw [hc, List.take_succ_cons, htake]
    exact .text hraw
  | symbol h =>
    rw [symbol?_take h]
    exact .symbol _
  | number hc hn =>
    have hnumeral := isNumeral_take hc rest
    rw [← hn, ← String.toList_ofList (l := (c :: rest).take n)] at hnumeral
    simpa using WrittenAs.number hnumeral
  | name hc hn =>
    simpa using WrittenAs.name hproper

/-! ## All tokens -/

/-- The tokens written out, with blanks before them and at the end. Each token starts at the byte
offset that comes with it, and the whole text starts at the given offset. -/
inductive Restores : Nat → List Spanned → List Char → Prop
  | eof {position : Nat} {blanks : List Char} (hblanks : ∀ c ∈ blanks, Text.isBlank c) :
      Restores position [⟨.eof, position + Text.utf8Length blanks⟩] blanks
  | token {position start : Nat} {t : Token} {tokens : List Spanned}
      {blanks written rest : List Char} (hblanks : ∀ c ∈ blanks, Text.isBlank c)
      (hstart : start = position + Text.utf8Length blanks) (hwritten : t.WrittenAs written)
      (hrest : Restores (start + Text.utf8Length written) tokens rest) :
      Restores position (⟨t, start⟩ :: tokens) (blanks ++ (written ++ rest))

/-- The lexer loses nothing: its tokens, put where it says, and blanks make up the text. -/
theorem tokensFrom_restores (position : Nat) (s : List Char) :
    Ensures (tokensFrom position s) fun spanned => Restores position spanned s := by
  refine tokensFrom_induct
    (motive := fun position s r => Ensures r fun spanned => Restores position spanned s)
    (fun position blanks hblanks => .ok (.eof hblanks))
    (fun position blanks c rest cause _ _ => .error _)
    (fun position blanks c rest l behind hblanks hl ih => ?_) position s
  refine ih.map fun spanned hrest => ?_
  have htoken := Restores.token hblanks rfl (lexeme_spells c rest l hl).writtenAs hrest
  rwa [List.take_append_drop] at htoken

/-- The tokens of a whole text restore it from its first byte on. -/
theorem restores_of_tokenize {s : List Char}
    {tokens : { tokens : List Spanned // Spanned.totalWeight tokens ≤ s.length }}
    (h : tokenize s = .ok tokens) : Restores 0 tokens.val s :=
  tokensFrom_restores 0 s _ (tokensFrom_of_tokenize h)

/-- No token is written as nothing. -/
theorem WrittenAs.ne_nil {t : Token} {written : List Char} (h : t.WrittenAs written) :
    written ≠ [] := by
  cases h with
  | number h =>
    generalize String.toList _ = written at h
    obtain ⟨hwhole, -, -⟩ := h
    simp [hwhole.1]
  | name h =>
    obtain ⟨c, rest, hs, -⟩ := h.cases
    simp [hs]
  | symbol s => cases s <;> simp [Symbol.spelling]
  | quoted h | text h => simp

/-- Every token takes at least one byte. -/
theorem WrittenAs.utf8Length_pos {t : Token} {written : List Char} (h : t.WrittenAs written) :
    0 < Text.utf8Length written := by
  obtain ⟨c, rest, rfl⟩ := List.exists_cons_of_ne_nil h.ne_nil
  rw [Text.utf8Length_cons]
  exact Nat.add_pos_left c.utf8Size_pos _

/-- No token starts before the place from which the text is restored. -/
theorem Restores.le {position : Nat} {tokens : List Spanned} {s : List Char}
    (h : Restores position tokens s) : ∀ t ∈ tokens, position ≤ t.position := by
  induction h with
  | eof => simp
  | token _ hstart _ _ ih =>
    refine List.forall_mem_cons.mpr ⟨by simp [hstart], fun t ht => ?_⟩
    have hle := ih t ht
    omega

/-- The one token is written in front of the other, and ends before it. -/
def EndsBefore (t u : Spanned) : Prop :=
  ∃ written, t.token.WrittenAs written ∧ t.position + Text.utf8Length written ≤ u.position

/-- What ends before another token also starts before it. -/
theorem EndsBefore.lt {t u : Spanned} (h : EndsBefore t u) : t.position < u.position := by
  obtain ⟨written, hwritten, hle⟩ := h
  exact Nat.lt_of_lt_of_le (Nat.lt_add_of_pos_right hwritten.utf8Length_pos) hle

/-- Quoted text takes two bytes more than its content. -/
theorem EndsBefore.quoted {content : List Char} {start : Nat} {u : Spanned}
    (h : EndsBefore ⟨.quoted content, start⟩ u) :
    start + Text.utf8Length content + 2 ≤ u.position := by
  obtain ⟨written, hwritten, hle⟩ := h
  cases hwritten with
  | quoted _ =>
    have hquote : '"'.utf8Size = 1 := rfl
    simp only [Text.utf8Length_cons, Text.utf8Length_append, Text.utf8Length_nil, hquote] at hle
    omega

/-- In the order of the list, every token ends before those behind it. -/
theorem Restores.endsBefore {position : Nat} {tokens : List Spanned} {s : List Char}
    (h : Restores position tokens s) : tokens.Pairwise EndsBefore := by
  induction h with
  | eof => exact List.pairwise_singleton _ _
  | token _ _ hwritten hrest ih =>
    exact List.pairwise_cons.mpr ⟨fun t ht => ⟨_, hwritten, hrest.le t ht⟩, ih⟩

/-- Each token takes room, so the next one starts later. -/
theorem Restores.increasing {position : Nat} {tokens : List Spanned} {s : List Char}
    (h : Restores position tokens s) : tokens.Pairwise (·.position < ·.position) :=
  h.endsBefore.imp EndsBefore.lt

/-- Of two tokens one ends before the other. -/
theorem Restores.apart {position : Nat} {tokens : List Spanned} {s : List Char}
    (h : Restores position tokens s) {t u : Spanned} (ht : t ∈ tokens) (hu : u ∈ tokens) :
    t = u ∨ EndsBefore t u ∨ EndsBefore u t := by
  by_cases heq : t = u
  · exact .inl heq
  · have hsymm : Std.Symm fun t u => EndsBefore t u ∨ EndsBefore u t := ⟨fun _ _ => Or.symm⟩
    have hpairs : tokens.Pairwise fun t u => EndsBefore t u ∨ EndsBefore u t :=
      h.endsBefore.imp Or.inl
    exact .inr (hpairs.forall ht hu heq)

/-- The token is spelled at a byte offset of the text. -/
def WrittenAt (s : List Char) (offset : Nat) (t : Token) : Prop :=
  ∃ written, Text.SliceAt s offset written ∧ t.WrittenAs written

/-- A token is the end of the text, or it is spelled where its position says. -/
theorem Restores.writtenAt {position : Nat} {tokens : List Spanned} {s : List Char}
    (h : Restores position tokens s) {t : Spanned} (ht : t ∈ tokens) :
    ∃ offset, t.position = position + offset ∧
      (t.token = .eof ∧ offset = Text.utf8Length s ∨ WrittenAt s offset t.token) := by
  -- By induction on the tokens. The offset of a later one counts from the end of the first.
  induction h with
  | eof =>
    obtain rfl := List.mem_singleton.mp ht
    exact ⟨_, rfl, .inl ⟨rfl, rfl⟩⟩
  | @token position start t' tokens blanks written rest _ hstart hwritten _ ih =>
    subst hstart
    rcases List.mem_cons.mp ht with rfl | ht
    · exact ⟨_, rfl, .inr ⟨written, ⟨blanks, rest, rfl, rfl⟩, hwritten⟩⟩
    obtain ⟨offset, hoffset, h⟩ := ih ht
    refine ⟨Text.utf8Length (blanks ++ written) + offset, ?_, ?_⟩
    · rw [hoffset, Text.utf8Length_append]
      omega
    have hrest : Text.SliceAt (blanks ++ (written ++ rest)) (Text.utf8Length (blanks ++ written))
        rest := ⟨blanks ++ written, [], by simp, rfl⟩
    obtain ⟨heof, rfl⟩ | ⟨written', hslice, hwritten'⟩ := h
    · exact .inl ⟨heof, by simp [Nat.add_assoc]⟩
    · exact .inr ⟨written', hrest.trans hslice, hwritten'⟩

/-- Every token of a text is written at its position, and the last one stands at the end. -/
theorem writtenAt_of_tokenize {s : List Char} {t : Token} {p : Nat}
    {tokens : { tokens : List Spanned // Spanned.totalWeight tokens ≤ s.length }}
    (h : tokenize s = .ok tokens) (hmem : ⟨t, p⟩ ∈ tokens.val) :
    t = .eof ∧ p = Text.utf8Length s ∨ WrittenAt s p t := by
  obtain ⟨offset, hoffset, h⟩ := (restores_of_tokenize h).writtenAt hmem
  rw [Nat.zero_add] at hoffset
  subst hoffset
  exact h

/-- The end of the text is the last token and no other, and it stands behind all characters. -/
theorem Restores.eof_last {position : Nat} {tokens : List Spanned} {s : List Char}
    (h : Restores position tokens s) :
    ∃ front, tokens = front ++ [⟨.eof, position + Text.utf8Length s⟩] ∧
      ∀ t ∈ front, t.token ≠ .eof := by
  induction h with
  | eof => exact ⟨[], rfl, by simp⟩
  | @token position start t tokens blanks written rest _ hstart hwritten _ ih =>
    obtain ⟨front, rfl, hfront⟩ := ih
    refine ⟨⟨t, start⟩ :: front, ?_, List.forall_mem_cons.mpr ⟨?_, hfront⟩⟩
    · rw [hstart, Text.utf8Length_append, Text.utf8Length_append, Nat.add_assoc, Nat.add_assoc,
        List.cons_append]
    · rintro rfl
      cases hwritten

/-- A text that is cut into tokens consists of these tokens, written out at their positions, and of
blanks between them. The positions increase, and the last token alone is the end of the text, behind
its last byte. -/
theorem tokenize_restores (s : String)
    {tokens : { tokens : List Spanned // Spanned.totalWeight tokens ≤ s.toList.length }}
    (h : tokenize s.toList = .ok tokens) :
    Restores 0 tokens.val s.toList ∧ tokens.val.Pairwise (·.position < ·.position) ∧
      ∃ front, tokens.val = front ++ [⟨.eof, s.utf8ByteSize⟩] ∧ ∀ t ∈ front, t.token ≠ .eof := by
  have hrestores := tokensFrom_restores 0 s.toList _ (tokensFrom_of_tokenize h)
  obtain ⟨front, heq, hfront⟩ := hrestores.eof_last
  rw [Nat.zero_add, Text.utf8Length_toList] at heq
  exact ⟨hrestores, hrestores.increasing, front, heq, hfront⟩

/-- A name of two bytes, a number that does not take the letter behind it, and strings of both
kinds. -/
def mixed : String :=
  " µ>=1.5e.\"\x7d\" '\\''"

set_option maxRecDepth 4000 in
/-- Positions count bytes, and the content of a string stands without its escapes. -/
theorem mixed_restores : ∃ tokens, tokenize mixed.toList = .ok tokens ∧
    tokens.val = [⟨.name "µ", 1⟩, ⟨.symbol .greaterEqual, 3⟩, ⟨.number "1.5", 5⟩, ⟨.name "e", 8⟩,
      ⟨.symbol .dot, 9⟩, ⟨.quoted ['\x7d'], 10⟩, ⟨.text "'", 14⟩, ⟨.eof, 18⟩] ∧
    Restores 0 tokens.val mixed.toList := by
  have hlist : mixed.toList = [' ', 'µ', '>', '=', '1', '.', '5', 'e', '.', '"', '\x7d', '"', ' ',
    '\'', '\\', '\'', '\''] := rfl
  have hfrom : tokensFrom 0 mixed.toList = .ok [⟨.name "µ", 1⟩, ⟨.symbol .greaterEqual, 3⟩,
      ⟨.number "1.5", 5⟩, ⟨.name "e", 8⟩, ⟨.symbol .dot, 9⟩, ⟨.quoted ['\x7d'], 10⟩,
      ⟨.text "'", 14⟩, ⟨.eof, 18⟩] := by
    rw [hlist]
    cbv
  rw [tokensFrom_zero] at hfrom
  cases htokens : tokenize mixed.toList with
  | error e =>
    rw [htokens] at hfrom
    cases hfrom
  | ok tokens =>
    rw [htokens] at hfrom
    exact ⟨tokens, rfl, Except.ok.inj hfrom, (tokenize_restores mixed htokens).1⟩

end Token

end Deployment
