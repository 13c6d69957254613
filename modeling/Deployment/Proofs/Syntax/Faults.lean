import Deployment.Proofs.Syntax.Derivation

/-! # Where reading tokens fails

Reading takes tokens from the front, and never the end of the text. Where it fails, it does so for
the tokens that are left, at the position of the first one of them, or within quoted text, at a
position that is shifted behind its opening quote. `Fault` says both, for errors of any function
that reads tokens (`parseConditional_concludes` and its siblings).
-/

namespace Deployment.Expr

/-! ## Tokens that are left -/

/-- What is left of tokens when some were taken, but not the end. -/
def Leaves (tokens rest : List Spanned) : Prop :=
  ∃ taken, tokens = taken ++ rest ∧ ∀ t ∈ taken, t.token ≠ .eof

theorem Leaves.refl (tokens : List Spanned) : Leaves tokens tokens :=
  ⟨[], rfl, by simp⟩

/-- What is taken in two steps is taken in one. -/
theorem Leaves.trans {tokens rest left : List Spanned} (h : Leaves tokens rest)
    (hrest : Leaves rest left) : Leaves tokens left := by
  obtain ⟨taken, rfl, htaken⟩ := h
  obtain ⟨taken', rfl, htaken'⟩ := hrest
  exact ⟨taken ++ taken', (List.append_assoc _ _ _).symm,
    List.forall_mem_append.mpr ⟨htaken, htaken'⟩⟩

/-- One more token may be taken in front, unless it is the end. -/
theorem Leaves.cons {t : Token} {position : Nat} {rest left : List Spanned} (ht : t ≠ .eof)
    (h : Leaves rest left) : Leaves (⟨t, position⟩ :: rest) left :=
  .trans ⟨[⟨t, position⟩], rfl, List.forall_mem_singleton.mpr ht⟩ h

theorem Leaves.one {t : Token} {position : Nat} {rest : List Spanned} (ht : t ≠ .eof) :
    Leaves (⟨t, position⟩ :: rest) rest :=
  .cons ht (.refl rest)

/-- What is left stands among the tokens, so a fault in it is one in them. -/
theorem Leaves.mem {tokens rest : List Spanned} (h : Leaves tokens rest) {t : Spanned}
    (ht : t ∈ rest) : t ∈ tokens := by
  obtain ⟨taken, rfl, -⟩ := h
  exact List.mem_append_right _ ht

/-! ## Faults -/

/-- What can be wrong in front of a token. -/
inductive WrongAt (t : Token) : ParseCause → Prop
  | expected (what : String) : WrongAt t (.expected what t.display)
  | invalidNumber (spelling : String) : WrongAt t (.invalidNumber spelling)
  | splat : WrongAt t .splat
  | argumentExpansion : WrongAt t .argumentExpansion
  | forExpression : WrongAt t .forExpression

/-- An error of reading tokens. -/
inductive Fault (tokens : List Spanned) : ParseError → Prop
  | here {rest : List Spanned} {cause : ParseCause} (hrest : Leaves tokens rest)
      (hcause : WrongAt (peek rest) cause) : Fault tokens ⟨cause, position rest⟩
  | inside {content : List Char} {start : Nat} {e : ParseError}
      (hmem : ⟨.quoted content, start⟩ ∈ tokens) (he : parseTemplate true 0 "" content = .error e) :
      Fault tokens (e.shift (start + 1))

/-- A fault in the tokens that are left is a fault in all of them. -/
theorem Fault.of_leaves {tokens rest : List Spanned} {e : ParseError} (h : Fault rest e)
    (hrest : Leaves tokens rest) : Fault tokens e := by
  cases h with
  | here hleft hcause => exact .here (hrest.trans hleft) hcause
  | inside hmem he => exact .inside (hrest.mem hmem) he

/-- A token that is not what was expected is at fault where it stands. -/
theorem Fault.unexpected {tokens rest : List Spanned} (hrest : Leaves tokens rest)
    (what : String) : Fault tokens (unexpected what rest) :=
  .here hrest (.expected what)

section Tokens

variable {tokens : List Spanned}

/-- Eating a symbol never takes the end. -/
theorem eat?_leaves {s : Symbol} {left : { rest : List Spanned //
    Spanned.totalWeight rest < Spanned.totalWeight tokens }} (h : eat? s tokens = some left) :
    Leaves tokens left.val := by
  unfold eat? at h
  split at h
  · split at h
    · obtain rfl := Option.some.inj h
      exact .one nofun
    · cases h
  · cases h

/-- Reading an operator never takes the end. -/
theorem operatorAt?_leaves {level : Nat} {p : Parsed BinaryOp (Spanned.totalWeight tokens)}
    (h : operatorAt? level tokens = some p) : Leaves tokens p.rest := by
  unfold operatorAt? at h
  split at h
  · split at h
    · split at h
      · obtain rfl := Option.some.inj h
        exact .one nofun
      · cases h
    · cases h
  · cases h

/-- Reading a bare key takes the name alone. -/
theorem bareKey?_leaves {key : Parsed Expr (Spanned.totalWeight tokens)}
    (h : bareKey? tokens = some key) : Leaves tokens key.rest := by
  unfold bareKey? at h
  split at h
  · split at h
    · obtain rfl := Option.some.inj h
      exact .one nofun
    · cases h
  · cases h

/-- Reading attributes takes dots and names only. -/
theorem parsePath_leaves (tokens : List Spanned) : Leaves tokens (parsePath tokens).rest := by
  fun_induction parsePath tokens with
  | case1 position name position' rest path ih => exact .cons (by simp) (.cons (by simp) ih)
  | case2 tokens => exact .refl tokens

/-- The computation leaves some of the tokens, or there is a fault in them. -/
abbrev Parsed.Concludes {α : Type} {bound : Nat} (tokens : List Spanned)
    (r : Except ParseError (Parsed α bound)) : Prop :=
  Deployment.Concludes r (fun p => Leaves tokens p.rest) (Fault tokens)

/-- A computation on the tokens that are left concludes for all of them. -/
theorem Parsed.Concludes.of_leaves {α : Type} {bound : Nat} {rest : List Spanned}
    {r : Except ParseError (Parsed α bound)} (h : Parsed.Concludes rest r)
    (hrest : Leaves tokens rest) : Parsed.Concludes tokens r :=
  h.mono (fun _ => hrest.trans) fun _ he => he.of_leaves hrest

/-- A missing symbol is a fault of the token in its place. -/
theorem expect_concludes (s : Symbol) {rest : List Spanned} (hrest : Leaves tokens rest) :
    Concludes (expect s rest) (fun left => Leaves tokens left.val) (Fault tokens) := by
  unfold expect
  split
  · rename_i heat
    exact .ok (hrest.trans (eat?_leaves heat))
  · exact .error (.unexpected hrest _)

/-- A number that does not fit is a fault of the token behind it, where the reader stands by then.
-/
theorem parseNumber_concludes (spelling : String) {rest : List Spanned}
    (hrest : Leaves tokens rest) :
    Concludes (parseNumber spelling rest) (fun _ => True) (Fault tokens) := by
  unfold parseNumber
  split
  · exact .ok trivial
  · exact .error (.here hrest (.invalidNumber spelling))

end Tokens

/-! ## All functions that read tokens -/

mutual
/-- The functions that read tokens call each other, so this is one mutual induction. It follows the
termination argument of the parser. -/
theorem parseConditional_concludes (tokens : List Spanned) :
    Parsed.Concludes tokens (parseConditional tokens) := by
  unfold parseConditional
  refine .bind (parseBinary_concludes 0 tokens) fun ⟨condition, rest, h⟩ hrest => ?_
  dsimp only at hrest ⊢
  split
  · exact .ok hrest
  · rename_i rest₁ h₁ heat
    have hrest₁ := hrest.trans (eat?_leaves heat)
    refine .bind ((parseConditional_concludes rest₁).of_leaves hrest₁) ?_
    intro ⟨yes, rest₂, h₂⟩ hrest₂
    dsimp only at hrest₂ ⊢
    refine .bind (expect_concludes .colon hrest₂) fun ⟨rest₃, h₃⟩ hrest₃ => ?_
    refine .bind ((parseConditional_concludes rest₃).of_leaves hrest₃) ?_
    intro ⟨no, rest₄, h₄⟩ hrest₄
    exact .ok hrest₄
termination_by (Spanned.totalWeight tokens, 10)
decreasing_by all_goals simp [Prod.lex_def, -IsEmpty.forall_iff] at * <;> omega

theorem parseBinary_concludes (level : Nat) (tokens : List Spanned) :
    Parsed.Concludes tokens (parseBinary level tokens) := by
  unfold parseBinary
  split
  · refine .bind (parseBinary_concludes (level + 1) tokens) fun ⟨left, rest, h⟩ hrest => ?_
    refine .bind ((parseOperators_concludes level left rest).of_leaves hrest) fun p hp => ?_
    exact .ok hp
  · exact parseUnary_concludes tokens
termination_by (Spanned.totalWeight tokens, 3 + (6 - level))
decreasing_by
  all_goals
    simp [Prod.lex_def, -IsEmpty.forall_iff] at *
    omega

theorem parseOperators_concludes (level : Nat) (left : Expr) (tokens : List Spanned) :
    Parsed.Concludes tokens (parseOperators level left tokens) := by
  unfold parseOperators
  split
  · exact .ok (.refl tokens)
  · rename_i op rest h hop
    have hrest := operatorAt?_leaves hop
    refine .bind ((parseBinary_concludes (level + 1) rest).of_leaves hrest) ?_
    intro ⟨right, rest₁, h₁⟩ hrest₁
    refine .bind ((parseOperators_concludes level _ rest₁).of_leaves hrest₁) fun p hp => ?_
    exact .ok hp
termination_by (Spanned.totalWeight tokens, 0)
decreasing_by
  all_goals
    simp [Prod.lex_def, -IsEmpty.forall_iff] at *
    omega

theorem parseUnary_concludes (tokens : List Spanned) :
    Parsed.Concludes tokens (parseUnary tokens) := by
  unfold parseUnary
  split
  · rename_i rest h heat
    refine .bind ((parseUnary_concludes rest).of_leaves (eat?_leaves heat)) fun p hp => ?_
    exact .ok hp
  · rename_i rest h _ heat
    refine .bind ((parseUnary_concludes rest).of_leaves (eat?_leaves heat)) fun p hp => ?_
    exact .ok hp
  · refine .bind (parsePrimary_concludes tokens) fun ⟨object, rest, h⟩ hrest => ?_
    refine .bind ((parseAccesses_concludes object rest).of_leaves hrest) fun p hp => ?_
    exact .ok hp
termination_by (Spanned.totalWeight tokens, 2)
decreasing_by all_goals simp [Prod.lex_def, -IsEmpty.forall_iff] at * <;> omega

theorem parseAccesses_concludes (object : Expr) (tokens : List Spanned) :
    Parsed.Concludes tokens (parseAccesses object tokens) := by
  generalize htokens : tokens = left
  unfold parseAccesses
  -- One case for each kind of access, each with the tokens that it takes.
  split
  · rename_i dot name position rest
    have hrest : Leaves (⟨.symbol .dot, dot⟩ :: ⟨.name name, position⟩ :: rest) rest :=
      .cons nofun (.one nofun)
    refine .bind ((parseAccesses_concludes _ rest).of_leaves hrest) fun p hp => ?_
    exact .ok hp
  · rename_i dot spelling position rest
    have hrest : Leaves (⟨.symbol .dot, dot⟩ :: ⟨.number spelling, position⟩ :: rest) rest :=
      .cons nofun (.one nofun)
    refine .bind (parseNumber_concludes spelling hrest) fun n _ => ?_
    refine .bind ((parseAccesses_concludes _ rest).of_leaves hrest) fun p hp => ?_
    exact .ok hp
  · exact .error (.here (.cons nofun (.one nofun)) .splat)
  · rename_i dot rest _ _ _
    have hrest : Leaves (⟨.symbol .dot, dot⟩ :: rest) rest := .one nofun
    exact .error (.unexpected hrest _)
  · rename_i bracket rest
    have hrest : Leaves (⟨.symbol .openBracket, bracket⟩ :: rest) rest := .one nofun
    split
    · exact .error (.here hrest .splat)
    · refine .bind ((parseConditional_concludes rest).of_leaves hrest) ?_
      intro ⟨key, rest₁, h₁⟩ hrest₁
      refine .bind (expect_concludes .closeBracket hrest₁) fun ⟨rest₂, h₂⟩ hrest₂ => ?_
      refine .bind ((parseAccesses_concludes _ rest₂).of_leaves hrest₂) fun p hp => ?_
      exact .ok hp
  · exact .ok (.refl _)
termination_by (Spanned.totalWeight tokens, 0)
decreasing_by
  all_goals
    subst_vars
    simp [Token.weight, Prod.lex_def, -IsEmpty.forall_iff] at * <;> omega

theorem parsePrimary_concludes (tokens : List Spanned) :
    Parsed.Concludes tokens (parsePrimary tokens) := by
  generalize htokens : tokens = left
  unfold parsePrimary
  split
  · refine .bind (parseNumber_concludes _ (.one nofun)) fun n _ => ?_
    exact .ok (.one nofun)
  · exact .ok (.one nofun)
  · rename_i content start rest
    -- The error of the template within the quotes is the only one that is shifted.
    cases hparts : parseTemplate true 0 "" content with
    | error e => exact .error (.inside List.mem_cons_self hparts)
    | ok parts => exact .ok (.one nofun)
  · exact .ok (.one nofun)
  · exact .ok (.one nofun)
  · exact .ok (.one nofun)
  · rename_i name position rest _ _ _
    split
    · rename_i rest₁ h heat
      have hrest₁ : Leaves (⟨.name name, position⟩ :: rest) rest₁ := .cons nofun (eat?_leaves heat)
      refine .bind ((parseItems_concludes .closeParen rest₁).of_leaves hrest₁) fun p hp => ?_
      exact .ok hp
    · exact .ok (.cons nofun (parsePath_leaves rest))
  · rename_i paren rest
    have hrest : Leaves (⟨.symbol .openParen, paren⟩ :: rest) rest := .one nofun
    refine .bind ((parseConditional_concludes rest).of_leaves hrest) fun ⟨e, rest₁, h₁⟩ hrest₁ => ?_
    refine .bind (expect_concludes .closeParen hrest₁) fun ⟨rest₂, h₂⟩ hrest₂ => ?_
    exact .ok hrest₂
  · rename_i bracket rest
    have hrest : Leaves (⟨.symbol .openBracket, bracket⟩ :: rest) rest := .one nofun
    split
    · exact .error (.here hrest .forExpression)
    · refine .bind ((parseItems_concludes .closeBracket rest).of_leaves hrest) fun p hp => ?_
      exact .ok hp
  · rename_i brace rest
    have hrest : Leaves (⟨.symbol .openBrace, brace⟩ :: rest) rest := .one nofun
    split
    · exact .error (.here hrest .forExpression)
    · refine .bind ((parseEntries_concludes rest).of_leaves hrest) fun p hp => ?_
      exact .ok hp
  · exact .error (.unexpected (.refl _) _)
termination_by (Spanned.totalWeight tokens, 0)
decreasing_by
  all_goals
    subst_vars
    simp [Token.weight, Prod.lex_def, -IsEmpty.forall_iff] at * <;> omega

theorem parseItems_concludes (close : Symbol) (tokens : List Spanned) :
    Parsed.Concludes tokens (parseItems close tokens) := by
  unfold parseItems
  -- The list ends here, or an item comes and behind it a comma or the end.
  split
  · rename_i rest h heat
    exact .ok (eat?_leaves heat)
  · refine .bind (parseConditional_concludes tokens) fun ⟨e, rest, h⟩ hrest => ?_
    dsimp only at hrest ⊢
    split
    · exact .error (.here hrest .argumentExpansion)
    split
    · rename_i rest₁ h₁ heat
      have hrest₁ := hrest.trans (eat?_leaves heat)
      refine .bind ((parseItems_concludes close rest₁).of_leaves hrest₁) ?_
      intro ⟨items, rest₂, h₂⟩ hrest₂
      exact .ok hrest₂
    · refine .bind (expect_concludes close hrest) fun ⟨rest₁, h₁⟩ hrest₁ => ?_
      exact .ok hrest₁
termination_by (Spanned.totalWeight tokens, 11)
decreasing_by all_goals simp [Prod.lex_def, -IsEmpty.forall_iff] at * <;> omega

theorem parseEntries_concludes (tokens : List Spanned) :
    Parsed.Concludes tokens (parseEntries tokens) := by
  unfold parseEntries
  split
  · rename_i rest h heat
    exact .ok (eat?_leaves heat)
  · dsimp only
    -- Both ways to read a key go on alike, and so do both ways to read what is behind it.
    split
    case' h_1 hbare =>
      refine .bind (p := fun key => Leaves tokens key.rest) (.ok (bareKey?_leaves hbare)) ?_
    case' h_2 => refine .bind (parseConditional_concludes tokens) ?_
    all_goals
      rintro ⟨key, rest, h⟩ hrest
      dsimp only at hrest ⊢
      split
      case' h_1 heat =>
        refine .bind (p := fun left => Leaves tokens left.val)
          (.ok (hrest.trans (eat?_leaves heat))) ?_
      case' h_2 => refine .bind (expect_concludes .colon hrest) ?_
      all_goals
        rintro ⟨rest₁, h₁⟩ hrest₁
        dsimp only at hrest₁ ⊢
        refine .bind ((parseConditional_concludes rest₁).of_leaves hrest₁) ?_
        rintro ⟨e, rest₂, h₂⟩ hrest₂
        dsimp only at hrest₂ ⊢
        cases heat : eat? .comma rest₂ with
        | some left =>
          obtain ⟨rest₃, h₃⟩ := left
          have hrest₃ := hrest₂.trans (eat?_leaves heat)
          dsimp only at hrest₃ ⊢
          refine .bind ((parseEntries_concludes rest₃).of_leaves hrest₃) fun p hp => ?_
          exact .ok hp
        | none =>
          dsimp only
          refine .bind ((parseEntries_concludes rest₂).of_leaves hrest₂) fun p hp => ?_
          exact .ok hp
termination_by (Spanned.totalWeight tokens, 11)
decreasing_by all_goals simp [Prod.lex_def, -IsEmpty.forall_iff] at * <;> omega
end

end Deployment.Expr
