import Deployment.Expr.Printer
import Deployment.Proofs.Syntax.Induction

/-! # The characters of written expressions

Facts about the text of an expression as a list of characters: where a text can be cut, how a
reference is spelled, and which character a compound expression is bound to contain or to start
with.
-/

namespace Deployment

/-- Two texts that are cut at the first character of a kind are equal only if their parts are. -/
theorem Text.append_inj_of_stop {p : Char → Prop} {s s' t t' : List Char} (hs : ∀ c ∈ s, ¬p c)
    (hs' : ∀ c ∈ s', ¬p c) (ht : ∀ c ∈ t.head?, p c) (ht' : ∀ c ∈ t'.head?, p c)
    (h : s ++ t = s' ++ t') : s = s' ∧ t = t' := by
  induction s generalizing s' with
  | nil =>
    cases s' with
    | nil => exact ⟨rfl, h⟩
    | cons c rest =>
      have hhead : c ∈ t.head? := by
        rw [← List.nil_append t, h]
        rfl
      exact absurd (ht c hhead) (hs' c List.mem_cons_self)
  | cons c rest ih =>
    cases s' with
    | nil =>
      have hhead : c ∈ t'.head? := by
        rw [← List.nil_append t', ← h]
        rfl
      exact absurd (ht' c hhead) (hs c List.mem_cons_self)
    | cons c' rest' =>
      rw [List.cons_append, List.cons_append, List.cons.injEq] at h
      obtain ⟨rfl, h⟩ := h
      obtain ⟨rfl, rfl⟩ := ih (fun d hd => hs d (List.mem_cons_of_mem _ hd))
        (fun d hd => hs' d (List.mem_cons_of_mem _ hd)) h
      exact ⟨rfl, rfl⟩

/-- A reference is spelled by its root and its attribute names, each behind a dot. -/
theorem Reference.render_toList (r : Reference) :
    r.render.toList = r.root.toList ++ r.path.flatMap fun name => '.' :: name.toList := by
  have h (names : List String) (text : String) :
      (names.foldl (fun text name => text ++ "." ++ name) text).toList =
        text.toList ++ names.flatMap fun name => '.' :: name.toList := by
    induction names generalizing text with
    | nil => simp
    | cons name rest ih => simp [ih]
  exact h r.path r.root

namespace Expr

/-- Parentheses add a character at each end. -/
theorem parensIf_toList (condition : Bool) (text : String) :
    (parensIf condition text).toList =
      if condition then '(' :: text.toList ++ [')'] else text.toList := by
  cases condition <;> simp [parensIf]

end Expr

end Deployment
