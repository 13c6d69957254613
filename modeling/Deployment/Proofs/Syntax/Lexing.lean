import Deployment.Proofs.Syntax.Names
import Deployment.Proofs.Syntax.Tokens
import Deployment.Token.Lexer

/-! # Cutting texts into tokens

`Lexes s ts` says that a text is cut into tokens, wherever it stands: the positions of the tokens
are left out. Blanks in front are skipped, and a lexeme in front is one token. The lexemes that end
where the text stops to fit, names and numbers, end where they should if a `Boundary` follows. What
holds of all that the lexer returns is proved along its steps (`tokensFrom_induct`).
-/

namespace Deployment

/-! ## One token after the other -/

namespace Token

/-- The tokens of a text, without the bound on their weight. -/
def tokensFrom (position : Nat) (s : List Char) : Except ParseError (List Spanned) :=
  (tokenizeFrom position s).map Subtype.val

/-- The text is cut into the tokens, at whatever position it starts. -/
def Lexes (s : List Char) (ts : List Token) : Prop :=
  ∀ position, ∃ spanned, spanned.map Spanned.token = ts ∧ tokensFrom position s = .ok spanned

/-- One step of the lexer: blanks, and a lexeme behind them. -/
theorem tokensFrom_eq (position : Nat) (s : List Char) :
    tokensFrom position s =
      match s.dropWhile Text.isBlank with
      | [] => .ok [⟨.eof, position + Text.utf8Length (s.takeWhile Text.isBlank)⟩]
      | c :: rest =>
        match lexeme c rest with
        | .error cause =>
          .error ⟨cause, position + Text.utf8Length (s.takeWhile Text.isBlank)⟩
        | .ok l =>
          (tokensFrom (position + Text.utf8Length (s.takeWhile Text.isBlank) +
              Text.utf8Length ((c :: rest).take l.length)) ((c :: rest).drop l.length)).map
            (⟨l.token, position + Text.utf8Length (s.takeWhile Text.isBlank)⟩ :: ·) := by
  rw [tokensFrom, tokenizeFrom]
  split
  · rename_i hs
    rw [hs]
    rfl
  · rename_i c rest hs
    simp only [hs]
    cases lexeme c rest with
    | error cause => rfl
    | ok l =>
      dsimp only
      rw [tokensFrom]
      split <;> rename_i heq <;> rw [heq] <;> rfl

/-- A whole text is cut from position zero on. -/
theorem tokensFrom_zero (s : List Char) : tokensFrom 0 s = (tokenize s).map Subtype.val :=
  rfl

theorem tokensFrom_of_tokenize {s : List Char}
    {tokens : { tokens : List Spanned // Spanned.totalWeight tokens ≤ s.length }}
    (h : tokenize s = .ok tokens) : tokensFrom 0 s = .ok tokens.val := by
  rw [tokensFrom_zero, h]
  rfl

/-- The lexer step by step: there are blanks, and behind them the text ends, a character starts no
lexeme, or a lexeme is in front of all the rest. -/
theorem tokensFrom_induct {motive : Nat → List Char → Except ParseError (List Spanned) → Prop}
    (eof : ∀ position blanks, (∀ b ∈ blanks, Text.isBlank b) →
      motive position blanks (.ok [⟨.eof, position + Text.utf8Length blanks⟩]))
    (error : ∀ position blanks c rest cause, (∀ b ∈ blanks, Text.isBlank b) →
      lexeme c rest = .error cause →
      motive position (blanks ++ c :: rest) (.error ⟨cause, position + Text.utf8Length blanks⟩))
    (token : ∀ position blanks c rest (l : Lexeme (c :: rest)) behind,
      (∀ b ∈ blanks, Text.isBlank b) → lexeme c rest = .ok l →
      motive (position + Text.utf8Length blanks + Text.utf8Length ((c :: rest).take l.length))
        ((c :: rest).drop l.length) behind →
      motive position (blanks ++ c :: rest)
        (behind.map (⟨l.token, position + Text.utf8Length blanks⟩ :: ·)))
    (position : Nat) (s : List Char) : motive position s (tokensFrom position s) := by
  -- By induction on the length, since every lexeme takes at least one character.
  induction hlength : s.length using Nat.strongRecOn generalizing position s with
  | _ length ih =>
    have hblanks : ∀ b ∈ s.takeWhile Text.isBlank, Text.isBlank b :=
      List.all_eq_true.mp List.all_takeWhile
    have hs := List.takeWhile_append_dropWhile (p := Text.isBlank) (l := s)
    rw [tokensFrom_eq]
    generalize s.takeWhile Text.isBlank = blanks at hblanks hs ⊢
    split
    · rename_i hend
      rw [hend, List.append_nil] at hs
      subst hs
      exact eof position blanks hblanks
    · rename_i c rest hfirst
      rw [hfirst] at hs
      subst hs
      split
      · exact error position blanks c rest _ hblanks ‹_›
      · rename_i l hl
        have hlt : ((c :: rest).drop l.length).length < length := by
          have hpos := l.pos
          rw [← hlength, List.length_append, List.length_drop, List.length_cons]
          omega
        exact token position blanks c rest l _ hblanks hl (ih _ hlt _ _ rfl)

namespace Lexes

variable {s : List Char} {ts : List Token}

/-- The empty text has only its end. -/
theorem nil : Lexes [] [.eof] := by
  intro position
  exact ⟨[⟨.eof, position⟩], rfl, by rw [tokensFrom_eq]; rfl⟩

/-- A blank in front is skipped. -/
theorem blank {c : Char} (hc : Text.isBlank c) (h : Lexes s ts) : Lexes (c :: s) ts := by
  intro position
  obtain ⟨spanned, hspanned, htokens⟩ := h (position + c.utf8Size)
  refine ⟨spanned, hspanned, ?_⟩
  rw [← htokens, tokensFrom_eq, tokensFrom_eq (position + c.utf8Size)]
  simp only [List.dropWhile_cons, List.takeWhile_cons, hc, if_true, Text.utf8Length_cons,
    Nat.add_assoc]

/-- A lexeme in front is one token. -/
theorem lexeme {c : Char} {rest : List Char} (hc : Text.isBlank c = false)
    {l : Lexeme (c :: rest)} (hl : Token.lexeme c rest = .ok l)
    (h : Lexes ((c :: rest).drop l.length) ts) : Lexes (c :: rest) (l.token :: ts) := by
  intro position
  obtain ⟨spanned, rfl, htokens⟩ := h (position + Text.utf8Length ((c :: rest).take l.length))
  refine ⟨⟨l.token, position⟩ :: spanned, rfl, ?_⟩
  rw [tokensFrom_eq]
  simp only [List.dropWhile_cons, List.takeWhile_cons, hc, Bool.false_eq_true, if_false, hl,
    Text.utf8Length_nil, Nat.add_zero, htokens]
  rfl

end Lexes

/-! ## Lexemes -/

/-- A run of characters ends where the next one does not belong to it. -/
theorem runLength_append {p : Char → Bool} {s tail : List Char} (hs : ∀ c ∈ s, p c)
    (htail : ∀ c ∈ tail.head?, p c = false) : runLength p (s ++ tail) = s.length := by
  rw [runLength, List.takeWhile_append_of_pos hs]
  cases tail with
  | nil => simp
  | cons c rest => simp [htail c rfl]

/-- A symbol is read if nothing longer fits. -/
theorem Lexes.symbol {s rest : List Char} {sym : Symbol} {ts : List Token}
    (h : symbol? (s ++ rest) = some (sym, s.length)) (hs : ∀ c ∈ s, Text.isBlank c = false)
    (hrest : Lexes rest ts) : Lexes (s ++ rest) (.symbol sym :: ts) := by
  cases s with
  | nil => exact absurd (symbol?_length h).1 (by simp)
  | cons c s =>
    have hquote : c ≠ '"' := by
      rintro rfl
      simp [symbol?] at h
    have hapostrophe : c ≠ '\'' := by
      rintro rfl
      simp [symbol?] at h
    -- Quotes come before symbols in the lexer, so they are excluded first.
    have hlexeme : ∃ l, Token.lexeme c (s ++ rest) = .ok l ∧ l.token = .symbol sym ∧
        l.length = s.length + 1 := by
      unfold Token.lexeme
      rw [if_neg hquote, if_neg hapostrophe]
      split
      · rename_i heq
        rw [← List.cons_append, h] at heq
        cases heq
        exact ⟨_, rfl, rfl, rfl⟩
      · rename_i heq
        rw [← List.cons_append, h] at heq
        cases heq
    obtain ⟨l, hl, htoken, hlength⟩ := hlexeme
    rw [List.cons_append, ← htoken]
    refine Lexes.lexeme (hs c (by simp)) hl ?_
    have hdrop : (c :: (s ++ rest)).drop l.length = rest := by simp [hlength]
    rw [hdrop]
    exact hrest

/-- The characters that symbols start with. -/
def symbolStarts : List Char :=
  ['.', '=', '!', '<', '>', '&', '|', '+', '-', '*', '/', '%', ',', ':', '?', '(', ')', '[', ']',
    '\x7b', '\x7d']

/-- Other characters start no symbol. -/
theorem symbol?_eq_none {c : Char} (hc : c ∉ symbolStarts) (rest : List Char) :
    symbol? (c :: rest) = none := by
  unfold symbol?
  split <;> first | rfl | (rename_i heq; cases heq; exact absurd (by decide) hc)

/-- A name starts with no quote and no symbol. -/
theorem not_mem_of_startsName {c : Char} (h : Text.startsName c) :
    c ∉ ['"', '\''] ++ symbolStarts := by
  have hall : (['"', '\''] ++ symbolStarts).all (!Text.startsName ·) := by decide
  intro hmem
  simpa [h] using List.all_eq_true.mp hall c hmem

/-- A number starts with no quote and no symbol. -/
theorem not_mem_of_isDigit {c : Char} (h : c.isDigit) : c ∉ ['"', '\''] ++ symbolStarts := by
  have hall : (['"', '\''] ++ symbolStarts).all (!Char.isDigit ·) := by decide
  intro hmem
  simpa [h] using List.all_eq_true.mp hall c hmem

/-- A name is one token up to where it ends. -/
theorem lexeme_name {c : Char} {rest tail : List Char} (hc : Text.startsName c)
    (hrest : ∀ d ∈ rest, Text.continuesName d)
    (htail : ∀ d ∈ tail.head?, Text.continuesName d = false) :
    ∃ l, lexeme c (rest ++ tail) = .ok l ∧ l.token = .name (String.ofList (c :: rest)) ∧
      l.length = rest.length + 1 := by
  have hmem := not_mem_of_startsName hc
  have hnone : symbol? (c :: (rest ++ tail)) = none :=
    symbol?_eq_none (fun h => hmem (List.mem_append_right _ h)) _
  have hrun := runLength_append hrest htail
  unfold lexeme
  rw [if_neg (by rintro rfl; simp at hmem), if_neg (by rintro rfl; simp at hmem)]
  split
  · rename_i heq
    rw [hnone] at heq
    cases heq
  · rw [if_neg (by simp [Text.isDigit_eq_false_of_startsName hc]), if_pos hc]
    refine ⟨_, rfl, ?_, ?_⟩
    · simp [hrun, Nat.add_comm 1]
    · simp [hrun, Nat.add_comm 1]

/-! ## Numbers -/

/-- What may follow a name or a number: nothing that would be read as part of it. -/
def Boundary : List Char → Prop
  | [] => True
  | c :: rest => Text.continuesName c = false ∧
      (c = '.' → ∀ d ∈ rest.head?, d.isDigit = false)

/-- What continues no name and is no point stands behind anything. -/
theorem Boundary.of_ne_dot {c : Char} (h : Text.continuesName c = false) (hdot : c ≠ '.')
    (rest : List Char) : Boundary (c :: rest) :=
  ⟨h, fun heq => absurd heq hdot⟩

/-- What may follow a name. A number may not be followed by all of it: the point would be taken for
its own. -/
def NameEnds (tail : List Char) : Prop :=
  ∀ c ∈ tail.head?, Text.continuesName c = false

/-- What may follow a number may follow a name. -/
theorem Boundary.head {tail : List Char} (h : Boundary tail) : NameEnds tail := by
  cases tail with
  | nil => simp [NameEnds]
  | cons c rest => simpa [NameEnds] using h.1

/-- No digit follows at a boundary. -/
theorem Boundary.isDigit {tail : List Char} (h : Boundary tail) :
    ∀ c ∈ tail.head?, c.isDigit = false := by
  refine fun c hc => Bool.eq_false_iff.mpr fun hdigit => ?_
  have hname := h.head c hc
  rw [Text.continuesName_of_isDigit hdigit] at hname
  cases hname

/-- No fraction starts at a boundary. -/
theorem Boundary.fractionLength {tail : List Char} (h : Boundary tail) :
    Token.fractionLength tail = 0 := by
  unfold Token.fractionLength
  split
  · rename_i rest
    have hrun := runLength_append (p := Char.isDigit) (s := []) (by simp) (h.2 rfl)
    rw [List.nil_append] at hrun
    simp [hrun]
  · rfl

/-- No exponent starts at a boundary. -/
theorem Boundary.exponentLength {tail : List Char} (h : Boundary tail) :
    Token.exponentLength tail = 0 := by
  cases tail with
  | nil => rfl
  | cons c rest =>
    have hc : ¬(c = 'e' ∨ c = 'E') := by
      rintro (rfl | rfl) <;> exact absurd h.1 (by decide)
    simp [Token.exponentLength, hc]

/-- Decimal digits, at least one. -/
def IsDigits (s : List Char) : Prop :=
  s ≠ [] ∧ ∀ c ∈ s, c.isDigit

/-- Digits start with a digit, whatever follows them. -/
theorem IsDigits.head {s : List Char} (h : IsDigits s) (tail : List Char) :
    ∃ c rest, s ++ tail = c :: rest ∧ c.isDigit := by
  obtain ⟨hne, hall⟩ := h
  cases s with
  | nil => exact absurd rfl hne
  | cons c rest => exact ⟨c, rest ++ tail, rfl, hall c (by simp)⟩

/-- The fraction of a number, if it has one. -/
inductive IsFraction : List Char → Prop
  | nil : IsFraction []
  | digits {s : List Char} (h : IsDigits s) : IsFraction ('.' :: s)

/-- The exponent of a number, if it has one. -/
inductive IsExponent : List Char → Prop
  | nil : IsExponent []
  | positive {s : List Char} (h : IsDigits s) : IsExponent ('e' :: s)
  | negative {s : List Char} (h : IsDigits s) : IsExponent ('e' :: '-' :: s)

/-- A number without a sign. -/
inductive IsNumber : List Char → Prop
  | intro {whole fraction exponent : List Char} (hwhole : IsDigits whole)
      (hfraction : IsFraction fraction) (hexponent : IsExponent exponent) :
      IsNumber (whole ++ (fraction ++ exponent))

/-- An exponent is taken as a whole. -/
theorem IsExponent.exponentLength {exponent tail : List Char} (h : IsExponent exponent)
    (htail : Boundary tail) : Token.exponentLength (exponent ++ tail) = exponent.length := by
  cases h with
  | nil => exact htail.exponentLength
  | @positive s hs =>
    obtain ⟨c, rest, heq, hc⟩ := hs.head tail
    have hsign : signLength (s ++ tail) = 0 := by
      rw [heq]
      have : c ≠ '+' ∧ c ≠ '-' := by constructor <;> rintro rfl <;> simp at hc
      simp [signLength, this]
    have hrun := runLength_append hs.2 htail.isDigit
    have hpos := List.length_pos_iff.mpr hs.1
    simp [Token.exponentLength, hsign, hrun, hpos, Nat.add_comm 1]
  | @negative s hs =>
    have hrun := runLength_append hs.2 htail.isDigit
    have hpos := List.length_pos_iff.mpr hs.1
    simp only [List.cons_append, Token.exponentLength, signLength, List.head?_cons, or_true,
      if_true, List.drop_one, List.tail_cons, hrun, true_or, hpos, and_self, List.length_cons]
    omega

/-- Neither a fraction nor an exponent starts with a digit, nor does what follows them. -/
theorem IsFraction.head {fraction exponent tail : List Char} (hfraction : IsFraction fraction)
    (hexponent : IsExponent exponent) (htail : Boundary tail) :
    ∀ c ∈ (fraction ++ (exponent ++ tail)).head?, c.isDigit = false := by
  intro c hc
  cases hfraction with
  | digits => cases hc; rfl
  | nil =>
    cases hexponent with
    | nil => exact htail.isDigit c hc
    | positive | negative => cases hc; rfl

/-- A fraction is taken as a whole. -/
theorem IsFraction.fractionLength {fraction exponent tail : List Char}
    (hfraction : IsFraction fraction) (hexponent : IsExponent exponent) (htail : Boundary tail) :
    Token.fractionLength (fraction ++ (exponent ++ tail)) = fraction.length := by
  cases hfraction with
  | digits hs =>
    have hrun := runLength_append hs.2 (IsFraction.nil.head hexponent htail)
    rw [List.nil_append] at hrun
    have hpos := List.length_pos_iff.mpr hs.1
    simp [Token.fractionLength, hrun, Nat.pos_iff_ne_zero.mp hpos]
  | nil =>
    cases hexponent with
    | nil => exact htail.fractionLength
    | positive | negative => rfl

/-- A number is taken as a whole if a boundary follows. -/
theorem IsNumber.numberLength {s tail : List Char} (h : IsNumber s) (htail : Boundary tail) :
    Token.numberLength (s ++ tail) = s.length := by
  obtain @⟨whole, fraction, exponent, hwhole, hfraction, hexponent⟩ := h
  have hassoc : whole ++ (fraction ++ exponent) ++ tail =
      whole ++ (fraction ++ (exponent ++ tail)) := by simp
  have hrun := runLength_append hwhole.2 (hfraction.head hexponent htail)
  have hdrop : (whole ++ (fraction ++ (exponent ++ tail))).drop
      (whole.length + fraction.length) = exponent ++ tail := by
    rw [← List.drop_drop, List.drop_left, List.drop_left]
  rw [Token.numberLength, hassoc, hrun, List.drop_left, hfraction.fractionLength hexponent htail,
    hdrop, hexponent.exponentLength htail]
  simp [Nat.add_assoc]

/-- Beside the point a number holds only characters that names may hold, too. -/
theorem IsNumber.continuesName {s : List Char} (h : IsNumber s) {c : Char} (hc : c ∈ s) :
    Text.continuesName c ∨ c = '.' := by
  have digits {t : List Char} (ht : IsDigits t) (hmem : c ∈ t) : Text.continuesName c :=
    Text.continuesName_of_isDigit (ht.2 c hmem)
  obtain @⟨whole, fraction, exponent, hwhole, hfraction, hexponent⟩ := h
  rcases List.mem_append.mp hc with hc | hc
  · exact .inl (digits hwhole hc)
  rcases List.mem_append.mp hc with hc | hc
  · cases hfraction with
    | nil => cases hc
    | digits hs =>
      rcases List.mem_cons.mp hc with rfl | hc
      · exact .inr rfl
      · exact .inl (digits hs hc)
  · cases hexponent with
    | nil => cases hc
    | positive hs =>
      rcases List.mem_cons.mp hc with rfl | hc
      · exact .inl (by decide)
      · exact .inl (digits hs hc)
    | negative hs =>
      rcases List.mem_cons.mp hc with rfl | hc
      · exact .inl (by decide)
      rcases List.mem_cons.mp hc with rfl | hc
      · exact .inl (by decide)
      · exact .inl (digits hs hc)

/-- A number ends where the longest number at the start of the text ends. -/
theorem lexeme_of_numberLength {c : Char} {rest tail : List Char} (hc : c.isDigit)
    (hlength : numberLength (c :: (rest ++ tail)) = rest.length + 1) :
    ∃ l, lexeme c (rest ++ tail) = .ok l ∧ l.token = .number (String.ofList (c :: rest)) ∧
      l.length = rest.length + 1 := by
  have hmem := not_mem_of_isDigit hc
  have hnone : symbol? (c :: (rest ++ tail)) = none :=
    symbol?_eq_none (fun h => hmem (List.mem_append_right _ h)) _
  have hmax : max 1 (numberLength (c :: (rest ++ tail))) = rest.length + 1 := by
    rw [hlength]
    simp
  unfold lexeme
  rw [if_neg (by rintro rfl; simp at hmem), if_neg (by rintro rfl; simp at hmem)]
  split
  · rename_i heq
    rw [hnone] at heq
    cases heq
  · rw [if_pos hc]
    refine ⟨_, rfl, ?_, ?_⟩
    · simp [hmax]
    · simpa using hmax

/-- A number is one token if a boundary follows. -/
theorem lexeme_number {s tail : List Char} (h : IsNumber s) (htail : Boundary tail) :
    ∃ c rest, s = c :: rest ∧ Text.isBlank c = false ∧
      ∃ l, lexeme c (rest ++ tail) = .ok l ∧ l.token = .number (String.ofList s) ∧
        l.length = s.length := by
  have hlength := h.numberLength htail
  obtain @⟨whole, fraction, exponent, hwhole, hfraction, hexponent⟩ := h
  obtain ⟨c, rest, heq, hc⟩ := hwhole.head (fraction ++ exponent)
  rw [heq] at hlength ⊢
  exact ⟨c, rest, rfl,
    Text.isBlank_eq_false_of_continuesName (Text.continuesName_of_isDigit hc),
    lexeme_of_numberLength hc hlength⟩

end Token

end Deployment
