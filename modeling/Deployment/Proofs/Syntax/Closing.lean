import Deployment.Template.Scope

/-! # Moves of a search

The search for the end of quoted text or of an interpolation goes through a text in moves: it passes
some characters, enters a scope that they open, or leaves the scope that they close. What a move is
depends on the innermost scope only (`move?`), and `Closes` are the searches that come to an end,
move by move. Facts about searches are proved along their moves.

A search that leaves all scopes leaves the inner ones first (`Closes.inner_first`), it ends at a
character that closes (`Closes.getElem?_eq`), and what stands behind that character does not matter
(`Closes.take`). So a text can be cut out and searched through on its own: the search `Covers` it
if it goes through the text and ends directly behind it.
-/

namespace Deployment.Template

/-- The character that closes a scope. -/
def Scope.closer : Scope → Char
  | .quoted => '"'
  | .braces => '\x7d'
  | .apostrophes => '\''

/-- What characters at the start of a text do to the scope that they are in. -/
inductive Move
  | pass
  | enter (scope : Scope)
  | leave
deriving DecidableEq

/-- The move that a text starts with, and how many characters it takes. -/
def move? : Scope → List Char → Option (Move × Nat)
  | _, [] => none
  | .quoted, ['\\'] => none
  | .apostrophes, ['\\'] => none
  | .quoted, '\\' :: _ :: _ => some (.pass, 2)
  | .quoted, '"' :: _ => some (.leave, 1)
  | .quoted, '$' :: '$' :: '{' :: _ => some (.pass, 3)
  | .quoted, '%' :: '%' :: '{' :: _ => some (.pass, 3)
  | .quoted, '$' :: '{' :: _ => some (.enter .braces, 2)
  | .quoted, '%' :: '{' :: _ => some (.enter .braces, 2)
  | .braces, '"' :: _ => some (.enter .quoted, 1)
  | .braces, '\'' :: _ => some (.enter .apostrophes, 1)
  | .braces, '{' :: _ => some (.enter .braces, 1)
  | .braces, '}' :: _ => some (.leave, 1)
  | .apostrophes, '\\' :: _ :: _ => some (.pass, 2)
  | .apostrophes, '\'' :: _ => some (.leave, 1)
  | _, _ :: _ => some (.pass, 1)

variable {scope scope' : Scope} {inner outer : List Scope} {s : List Char} {move : Move}
  {k m n : Nat}

/-- A move takes at least one character, and none that is not there. -/
theorem move?_le (h : move? scope s = some (move, k)) : 0 < k ∧ k ≤ s.length := by
  revert h
  fun_cases move? scope s <;> intro h <;> cases h <;> simp

/-- An empty text starts with no move. -/
theorem ne_nil_of_move? (h : move? scope s = some (move, k)) : s ≠ [] := by
  rintro rfl
  have hk := move?_le h
  rw [List.length_nil] at hk
  omega

/-- A scope is left by one character, the one that closes it. -/
theorem move?_leave (h : move? scope s = some (.leave, k)) :
    k = 1 ∧ s[0]? = some scope.closer := by
  revert h
  fun_cases move? scope s <;> intro h <;> cases h <;> simp [Scope.closer]

/-- A move depends on its own characters only. -/
theorem move?_take (h : move? scope s = some (move, k)) {j : Nat} (hj : k ≤ j) :
    move? scope (s.take j) = some (move, k) := by
  obtain ⟨j, rfl⟩ := Nat.exists_eq_add_of_le hj
  revert h
  fun_cases move? scope s <;> intro h <;> cases h
  case case16 rest _ _ _ _ _ _ _ _ _ _ _ _ _ _ =>
    -- What starts no marker starts none when the text ends earlier.
    have hrest := List.take_append_drop j rest
    rw [Nat.add_comm, List.take_succ_cons]
    generalize rest.take j = front at hrest ⊢
    generalize rest.drop j = back at hrest
    subst hrest
    rw [move?]
    all_goals
      intros
      first | contradiction | (subst_vars; cases back <;> simp_all)
  all_goals
    rw [Nat.add_comm]
    rfl

/-- The search makes the first move and goes on from there. -/
theorem closing_eq (scope : Scope) (outer : List Scope) (s : List Char) :
    closing scope outer s =
      match move? scope s, outer with
      | none, _ => none
      | some (.pass, k), outer => (closing scope outer (s.drop k)).map (· + k)
      | some (.enter inner, k), outer => (closing inner (scope :: outer) (s.drop k)).map (· + k)
      | some (.leave, _), [] => some 0
      | some (.leave, k), next :: outer => (closing next outer (s.drop k)).map (· + k) := by
  fun_cases closing scope outer s
  -- The characters without a meaning in their scope.
  case case10 | case16 | case21 =>
    rw [move?]
    · rfl
    all_goals first | (intros; contradiction) | (cases outer <;> simp_all)
  all_goals rfl

/-! ## Searches that end -/

/-- The search leaves all scopes, the last one at the given character. -/
inductive Closes : Scope → List Scope → List Char → Nat → Prop
  | last {scope : Scope} {s : List Char} (h : move? scope s = some (.leave, 1)) :
      Closes scope [] s 0
  | leave {scope next : Scope} {outer : List Scope} {s : List Char} {n : Nat}
      (h : move? scope s = some (.leave, 1)) (hrest : Closes next outer (s.drop 1) n) :
      Closes scope (next :: outer) s (n + 1)
  | enter {scope inner : Scope} {outer : List Scope} {s : List Char} {k n : Nat}
      (h : move? scope s = some (.enter inner, k))
      (hrest : Closes inner (scope :: outer) (s.drop k) n) : Closes scope outer s (n + k)
  | pass {scope : Scope} {outer : List Scope} {s : List Char} {k n : Nat}
      (h : move? scope s = some (.pass, k)) (hrest : Closes scope outer (s.drop k) n) :
      Closes scope outer s (n + k)

/-- What leaves all scopes move by move is what the search finds. -/
theorem Closes.closing (h : Closes scope outer s n) : closing scope outer s = some n := by
  induction h with
  | last h => rw [closing_eq, h]
  | leave h _ ih | enter h _ ih | pass h _ ih =>
    rw [closing_eq, h]
    exact congrArg (Option.map _) ih

/-- What the search finds, it finds move by move. This is the induction principle of the search: its
own recursion has a case for each marker, the moves have one for each effect. -/
theorem closes_of_closing (h : Template.closing scope outer s = some n) :
    Closes scope outer s n := by
  induction hlength : s.length using Nat.strongRecOn generalizing scope outer s n with
  | _ length ih =>
    -- A move takes a character at least, so what is behind it is shorter.
    have go {scope' : Scope} {outer' : List Scope} {move : Move} {k : Nat}
        (hmove : move? scope s = some (move, k))
        (h : (Template.closing scope' outer' (s.drop k)).map (· + k) = some n) :
        ∃ m, n = m + k ∧ Closes scope' outer' (s.drop k) m := by
      obtain ⟨m, hm, rfl⟩ := Option.map_eq_some_iff.mp h
      have hk := move?_le hmove
      exact ⟨m, rfl, ih _ (by rw [List.length_drop]; omega) hm rfl⟩
    rw [closing_eq] at h
    split at h
    · cases h
    · rename_i k outer hmove
      obtain ⟨m, rfl, hrest⟩ := go hmove h
      exact .pass hmove hrest
    · rename_i inner k outer hmove
      obtain ⟨m, rfl, hrest⟩ := go hmove h
      exact .enter hmove hrest
    · rename_i k hmove
      obtain ⟨rfl, -⟩ := move?_leave hmove
      obtain rfl := Option.some.inj h
      exact .last hmove
    · rename_i k next outer hmove
      obtain ⟨rfl, -⟩ := move?_leave hmove
      obtain ⟨m, rfl, hrest⟩ := go hmove h
      exact .leave hmove hrest

/-- The search ends where its moves leave the last scope. -/
theorem closes_iff : Closes scope outer s n ↔ closing scope outer s = some n :=
  ⟨Closes.closing, closes_of_closing⟩

/-- A search ends at the character that closes the outermost scope. -/
theorem Closes.getElem?_eq (h : Closes scope outer s n) :
    s[n]? = some ((scope :: outer).getLast (List.cons_ne_nil _ _)).closer := by
  induction h with
  | last h => exact (move?_leave h).2
  | pass h _ ih =>
    rw [List.getElem?_drop] at ih
    rw [Nat.add_comm, ih]
  | leave h _ ih | enter h _ ih =>
    rw [List.getElem?_drop] at ih
    rw [Nat.add_comm, ih]
    rfl

/-- Only the characters up to the one that closes matter. -/
theorem Closes.take (h : Closes scope outer s n) {j : Nat} (hj : n < j) :
    Closes scope outer (s.take j) n := by
  induction h generalizing j with
  | last h => exact .last (move?_take h hj)
  | leave h _ ih =>
    refine .leave (move?_take h (by omega)) ?_
    rw [List.drop_take]
    exact ih (by omega)
  | enter h _ ih =>
    refine .enter (move?_take h (by omega)) ?_
    rw [List.drop_take]
    exact ih (by omega)
  | pass h _ ih =>
    refine .pass (move?_take h (by omega)) ?_
    rw [List.drop_take]
    exact ih (by omega)

/-- The inner scopes are left before those around them. -/
theorem Closes.inner_first (h : Closes scope (inner ++ scope' :: outer) s n) :
    ∃ m k, n = k + (m + 1) ∧ Closes scope inner s m ∧ Closes scope' outer (s.drop (m + 1)) k := by
  generalize hall : inner ++ scope' :: outer = all at h
  -- Along the moves. A scope that is entered joins the inner ones, so these vary.
  induction h generalizing inner with
  | last => cases inner <;> cases hall
  | @leave scope next _ s n h hrest ih =>
    cases inner with
    | nil =>
      obtain ⟨rfl, rfl⟩ := List.cons.inj hall
      exact ⟨0, n, rfl, .last h, hrest⟩
    | cons next' inner =>
      obtain ⟨rfl, htail⟩ := List.cons.inj hall
      obtain ⟨m, k, rfl, hinner, houter⟩ := ih htail
      rw [List.drop_drop, Nat.add_comm 1] at houter
      exact ⟨m + 1, k, rfl, .leave h hinner, houter⟩
  | @enter scope next _ s j n h hrest ih =>
    obtain ⟨m, k, rfl, hinner, houter⟩ :=
      ih (show (scope :: inner) ++ scope' :: outer = _ by rw [← hall]; rfl)
    rw [List.drop_drop, show j + (m + 1) = m + j + 1 by omega] at houter
    exact ⟨m + j, k, by omega, .enter h hinner, houter⟩
  | @pass scope _ s j n h hrest ih =>
    obtain ⟨m, k, rfl, hinner, houter⟩ := ih hall
    rw [List.drop_drop, show j + (m + 1) = m + j + 1 by omega] at houter
    exact ⟨m + j, k, by omega, .pass h hinner, houter⟩

/-! ## Texts that a search goes through -/

/-- The search goes through the text and finds directly behind it the character that closes the last
scope. -/
def Covers (scope : Scope) (outer : List Scope) (s : List Char) : Prop :=
  ∃ tail, closing scope outer (s ++ tail) = some s.length

/-- The text in front of the character where a search ends is gone through by it. -/
theorem Covers.of_closing (h : closing scope outer s = some n) : Covers scope outer (s.take n) := by
  refine ⟨s.drop n, ?_⟩
  rw [List.take_append_drop, List.length_take, h,
    Nat.min_eq_left (Nat.le_of_lt (closing_lt_length h))]

/-- Characters at the start may be left out if the search passes over them. -/
theorem Covers.of_append {passed : List Char} (h : Covers scope outer (passed ++ s))
    (hpassed : ∀ tail, closing scope outer (passed ++ (s ++ tail)) =
      (closing scope outer (s ++ tail)).map (· + passed.length)) : Covers scope outer s := by
  obtain ⟨tail, h⟩ := h
  rw [List.append_assoc, hpassed, List.length_append] at h
  obtain ⟨m, hm, hlength⟩ := Option.map_eq_some_iff.mp h
  refine ⟨tail, ?_⟩
  rw [hm]
  congr 1
  omega

/-- The moves of such a search do not reach behind the text. -/
theorem Covers.step (h : Covers scope outer s) (hs : s ≠ []) :
    (∃ k, move? scope s = some (.pass, k) ∧ Covers scope outer (s.drop k)) ∨
      (∃ inner k, move? scope s = some (.enter inner, k) ∧
        Covers inner (scope :: outer) (s.drop k)) ∨
      ∃ next outer', move? scope s = some (.leave, 1) ∧ outer = next :: outer' ∧
        Covers next outer' (s.drop 1) := by
  obtain ⟨tail, h⟩ := h
  -- Both the move and what is behind it end within the text, as the search does.
  have within {move : Move} {k : Nat} (hmove : move? scope (s ++ tail) = some (move, k))
      (hk : k ≤ s.length) : move? scope s = some (move, k) := by
    simpa using move?_take hmove hk
  have behind {scope : Scope} {outer : List Scope} {k n : Nat} (hn : n + k = s.length)
      (h : Closes scope outer ((s ++ tail).drop k) n) : Covers scope outer (s.drop k) := by
    refine ⟨tail, ?_⟩
    rw [← List.drop_append_of_le_length (by omega), h.closing, List.length_drop]
    congr 1
    omega
  have hcloses := closes_of_closing h
  generalize hlength : s.length = length at hcloses
  cases hcloses with
  | last => exact absurd (List.length_eq_zero_iff.mp hlength) hs
  | pass hmove hrest => exact .inl ⟨_, within hmove (by omega), behind hlength.symm hrest⟩
  | enter hmove hrest =>
    exact .inr (.inl ⟨_, _, within hmove (by omega), behind hlength.symm hrest⟩)
  | leave hmove hrest =>
    exact .inr (.inr ⟨_, _, within hmove (by omega), rfl, behind hlength.symm hrest⟩)

/-- Behind characters that are passed the search is in the same scope. -/
theorem Covers.pass (h : Covers scope outer s) (hmove : move? scope s = some (.pass, k)) :
    Covers scope outer (s.drop k) := by
  obtain ⟨j, hj, hrest⟩ | ⟨inner, j, hj, -⟩ | ⟨next, outer', hj, -⟩ :=
    h.step (ne_nil_of_move? hmove)
  · cases hmove.symm.trans hj
    exact hrest
  all_goals cases hmove.symm.trans hj

/-- Behind characters that open a scope the search is in that scope. -/
theorem Covers.enter {inner : Scope} (h : Covers scope outer s)
    (hmove : move? scope s = some (.enter inner, k)) :
    Covers inner (scope :: outer) (s.drop k) := by
  obtain ⟨j, hj, -⟩ | ⟨inner, j, hj, hrest⟩ | ⟨next, outer', hj, -⟩ :=
    h.step (ne_nil_of_move? hmove)
  case inr.inl =>
    cases hmove.symm.trans hj
    exact hrest
  all_goals cases hmove.symm.trans hj

/-- Behind the character that closes a scope the search is in the scope around it. There is one, as
otherwise the search would end here and not behind the text. -/
theorem Covers.leave (h : Covers scope outer s) (hmove : move? scope s = some (.leave, 1)) :
    ∃ next outer', outer = next :: outer' ∧ Covers next outer' (s.drop 1) := by
  obtain ⟨j, hj, -⟩ | ⟨inner, j, hj, -⟩ | ⟨next, outer', -, hrest⟩ :=
    h.step (ne_nil_of_move? hmove)
  case inr.inr => exact ⟨next, outer', hrest⟩
  all_goals cases hmove.symm.trans hj

/-- A scope that is entered ends before the text does. -/
theorem Covers.inner_first (inner : List Scope)
    (h : Covers scope (inner ++ scope' :: outer) s) :
    ∃ m, closing scope inner s = some m ∧ Covers scope' outer (s.drop (m + 1)) := by
  obtain ⟨tail, h⟩ := h
  obtain ⟨m, n, hlength, hinner, houter⟩ := (closes_of_closing h).inner_first
  have hm := hinner.take (j := s.length) (by omega)
  rw [List.take_left] at hm
  refine ⟨m, hm.closing, tail, ?_⟩
  rw [← List.drop_append_of_le_length (by omega), houter.closing, List.length_drop]
  congr 1
  omega

end Deployment.Template
