import Deployment.Proofs.Syntax.Restoring

/-! # Literal text around interpolations

Quoted text is turned into text without quotes by reading it as a template and writing the template
again. The literal text around the interpolations survives this with one exception: a dollar sign in
front of an interpolation is written as it is, and together with the interpolation it is read as an
escaped marker. In quoted text such a sign is spelled as an escape like `\u0024`.

So a template that was read is read back from its text exactly if it is `Unmarked`, within quotes
and without (`Expr.reread_iff_unmarked`).
-/

namespace Deployment

namespace Template

/-- A sign at the end of text is written as it is. -/
theorem written_concat (inQuotes : Bool) (text : List Char) :
    written inQuotes (text ++ ['$']) = written inQuotes text ++ ['$'] := by
  fun_induction written inQuotes text with
  | case1 rest ih | case2 rest ih => simp [written, ih]
  | case3 c rest h₁ h₂ ih =>
    have hmarker : isSign c → (rest ++ ['$']).head? ≠ some '\x7b' := by
      intro hsign
      have hhead := head_ne_brace hsign h₁ h₂
      cases rest with
      | nil => simp
      | cons d rest => simpa using hhead
    rw [List.cons_append, written_cons hmarker, ih, List.append_assoc]
  | case4 => cases inQuotes <;> rfl

end Template

namespace Expr

open Template

/-! ## Text that was read already -/

/-- The template starts with a text that goes on from the given one. -/
def Extends (literal : String) (parts : Template) : Prop :=
  ∃ text rest, parts = .text text :: rest ∧ literal.toList <+: text.toList

/-- A text that goes on from a longer one goes on from a shorter one. -/
theorem Extends.shorten {literal longer : String} {parts : Template} (h : Extends longer parts)
    (hshorter : literal.toList <+: longer.toList) : Extends literal parts := by
  obtain ⟨text, rest, rfl, htext⟩ := h
  exact ⟨text, rest, rfl, hshorter.trans htext⟩

/-- Plain text that was read is the first part, if there is any. -/
theorem extends_textPart {literal : String} (h : literal ≠ "") (rest : Template) :
    Extends literal (textPart literal ++ rest) := by
  rw [textPart_eq h]
  exact ⟨literal, rest, rfl, List.prefix_rfl⟩

/-- What is read of a template goes on from the plain text before it. -/
def Phrase.Continues : Phrase → Prop
  | .template _ before _ parts => before ≠ "" → Extends before parts
  | _ => True

/-- Plain text is added to, and never taken away. -/
theorem Derives.continues {p : Phrase} (h : Derives p) : p.Continues := by
  induction h with
  | template_nil =>
    intro hne
    simpa using extends_textPart hne []
  | interpolation => exact fun hne => extends_textPart hne _
  | marker _ _ ih => exact fun _ => (ih (by simp)).shorten (by simp)
  | escaped _ _ ih | plain _ _ ih => exact fun _ => (ih (by simp)).shorten (by simp)
  | _ => trivial

/-- A dollar sign in front of an interpolation is read as part of an escaped marker. -/
theorem parseTemplate_marked_ne {inQuotes : Bool} {position : Nat} {s : String} {text : List Char}
    (htext : s.toList = text ++ ['$']) (tail : List Char) (rest : Template) :
    parseTemplate inQuotes position "" (written inQuotes s.toList ++ '$' :: '\x7b' :: tail) ≠
      .ok (.text s :: rest) := by
  intro hparse
  have hfollows : Follows text ('$' :: '$' :: '\x7b' :: tail) := ⟨by simp, by simp, by simp⟩
  obtain ⟨next, hnext⟩ := parseTemplate_written inQuotes position "" hfollows
  rw [htext, written_concat, List.append_assoc, List.singleton_append, hnext, parseTemplate]
    at hparse
  obtain ⟨text', rest', hparts, hshorter⟩ :=
    (parseTemplate_derives _ _ _ _ _ hparse).continues (by simp)
  obtain ⟨rfl, rfl⟩ : s = text' ∧ rest = rest' := by simpa using hparts
  simp [htext] at hshorter

/-! ## Templates that are read back -/

/-- If a template is read back from its text, no text in it ends in a dollar sign in front of an
interpolation. -/
theorem unmarked_of_reread (inQuotes : Bool) {parts : Template} (hapart : parts.Apart)
    (h : ∀ e, .interpolation e ∈ parts →
      Token.Spelled Token.Boundary e.render.toList e.tokens ∧ RereadsAs Eq e)
    (position : Nat) (literal : String)
    (hliteral : literal ≠ "" → ∀ s rest, parts ≠ .text s :: rest)
    (hparse : parseTemplate inQuotes position literal (renderParts inQuotes parts).toList =
      .ok (textPart literal ++ parts)) : parts.Unmarked := by
  -- A text is only added to the parts when what stands behind it is read, so the induction is on
  -- the parts that are left and keeps the text before them.
  induction parts generalizing position literal with
  | nil => trivial
  | cons part rest ih =>
    have hrest := fun hapart => ih hapart fun e he => h e (List.mem_cons_of_mem _ he)
    cases part with
    | interpolation e =>
      obtain ⟨hspelled, hrereads⟩ := h e (by simp)
      obtain ⟨_, hreads, rfl⟩ := hrereads [.eof] .eof
      obtain ⟨next, hnext⟩ := parseTemplate_interpolation inQuotes position literal
        (closing_interpolation hspelled (renderParts inQuotes rest).toList)
        (parseText_of_spelled hspelled hreads)
      rw [renderParts_interpolation, hnext] at hparse
      obtain ⟨parts', hparts', hsame⟩ := Except.map_eq_ok hparse
      obtain rfl := (List.cons.inj (List.append_cancel_left hsame)).2
      exact hrest hapart next "" (fun hne => absurd rfl hne) hparts'
    | text s =>
      obtain ⟨hne, hinterpolates, hapart⟩ := hapart
      obtain rfl : literal = "" := by
        by_contra hliteral'
        exact hliteral hliteral' s rest rfl
      rw [renderParts, String.toList_append, Template.written_toList] at hparse
      match rest, hinterpolates with
      | [], _ => exact ⟨nofun, trivial⟩
      | .interpolation e :: rest, _ =>
        -- With a dollar sign here the text would be read as an escaped marker, which is another
        -- part.
        have hlast : s.toList.getLast? ≠ some '$' := by
          intro hlast
          obtain ⟨text, htext⟩ := List.getLast?_eq_some_iff.mp hlast
          rw [renderParts_interpolation] at hparse
          exact parseTemplate_marked_ne htext _ _ hparse
        have hends : Ends s (.interpolation e :: rest) := hlast
        have hfollows := follows_renderParts inQuotes hends (Follows.nil s.toList)
        rw [List.append_nil] at hfollows
        obtain ⟨next, hnext⟩ := parseTemplate_written inQuotes position "" hfollows
        rw [hnext, String.ofList_toList, String.empty_append] at hparse
        refine ⟨fun _ => hlast, hrest hapart next s (fun _ => nofun) (hparse.trans ?_)⟩
        rw [textPart_eq hne]
        rfl
      | .text t :: rest, hinterpolates =>
        exact absurd hinterpolates (by simp [Interpolates])

/-- A template that was read is read back from its text exactly if no text in it ends in a dollar
sign in front of an interpolation. -/
theorem reread_iff_unmarked {s : String} {parts : Template}
    (h : Template.parse s true = .ok parts)
    (hparts : ∀ e, .interpolation e ∈ parts → e.Everywhere Restorable) (inQuotes : Bool) :
    Template.parse (parts.render inQuotes) inQuotes = .ok parts ↔ parts.Unmarked := by
  obtain ⟨hapart, hbuilt, -⟩ := parseTemplate_built true 0 "" s.toList parts h
  have hread (e : Expr) (he : .interpolation e ∈ parts) :
      Token.Spelled Token.Boundary e.render.toList e.tokens ∧ RereadsAs Eq e :=
    ⟨(cut_of_readable (readable_of_restorable (hbuilt e he) (hparts e he))).spelled,
      (restored (hbuilt e he) (hparts e he)).whole⟩
  constructor
  · intro hparse
    exact unmarked_of_reread inQuotes hapart hread 0 "" (fun hne => absurd rfl hne) hparse
  · intro hunmarked
    obtain ⟨parts', hparse, hparts'⟩ := parseTemplate_renderParts (P := Eq) inQuotes (fun _ => rfl)
      (separated_of_apart hapart hunmarked) (fun e he =>
        ⟨(hread e he).1, (hread e he).2.mono fun _ => congrArg Part.interpolation⟩)
      0 "" (fun hne => absurd rfl hne)
    obtain rfl : parts = parts' := List.forall₂_eq_eq_eq ▸ hparts'
    exact hparse

end Expr

namespace Template

/-- Quoted text that interpolates variables is read as a template. The template is read back from
its text, within quotes and without, exactly if no text in it ends in a dollar sign in front of an
interpolation. -/
theorem parse_render_iff_unmarked {s : String} {parts : Template}
    (h : Template.parse s true = .ok parts)
    (hparts : ∀ e, .interpolation e ∈ parts → ∃ name, e = .reference ⟨"var", [name]⟩)
    (inQuotes : Bool) :
    Template.parse (parts.render inQuotes) inQuotes = .ok parts ↔ parts.Unmarked := by
  refine Expr.reread_iff_unmarked h (fun e he => ?_) inQuotes
  obtain ⟨name, rfl⟩ := hparts e he
  exact .intro trivial (by simp [Expr.children])

/-- Text with escapes and escaped markers around the interpolations. -/
def surrounded : String :=
  "\\u0024 $$\x7b\\\"$\x7bvar.a\x7d%%\x7b$\x7bvar.b\x7d"

/-- The template that it is read as. -/
def surroundedParts : Template :=
  [.text "$ $\x7b\"", .interpolation (.reference ⟨"var", ["a"]⟩), .text "%\x7b",
    .interpolation (.reference ⟨"var", ["b"]⟩)]

/-- The template is read back, within quotes and without. -/
theorem surrounded_parse_render : Template.parse surrounded true = .ok surroundedParts ∧
    Template.parse (surroundedParts.render true) true = .ok surroundedParts ∧
    Template.parse (surroundedParts.render false) false = .ok surroundedParts := by
  have hparse : Template.parse surrounded true = .ok surroundedParts := by
    cbv
  have hparts (e : Expr) (he : .interpolation e ∈ surroundedParts) :
      ∃ name, e = .reference ⟨"var", [name]⟩ := by
    simp only [surroundedParts, List.mem_cons, Part.interpolation.injEq, reduceCtorEq, false_or,
      List.not_mem_nil, or_false] at he
    rcases he with rfl | rfl
    · exact ⟨"a", rfl⟩
    · exact ⟨"b", rfl⟩
  have hunmarked : surroundedParts.Unmarked := by
    simp [surroundedParts, Unmarked]
  exact ⟨hparse, (parse_render_iff_unmarked hparse hparts true).mpr hunmarked,
    (parse_render_iff_unmarked hparse hparts false).mpr hunmarked⟩

/-- A dollar sign and a variable. -/
def priced : Template :=
  [.text "$", .interpolation (.reference ⟨"var", ["a"]⟩)]

/-- A dollar sign that is written as an escape is taken for the escape of the interpolation. -/
theorem priced_not_reread : Template.parse "\\u0024$\x7bvar.a\x7d" true = .ok priced ∧
    Template.parse (priced.render true) true ≠ .ok priced ∧
    Template.parse (priced.render false) false ≠ .ok priced := by
  have hquoted : Template.parse (priced.render true) true = .ok [.text "$\x7bvar.a\x7d"] := by
    cbv
  have hplain : Template.parse (priced.render false) false = .ok [.text "$\x7bvar.a\x7d"] := by
    cbv
  refine ⟨by cbv, ?_, ?_⟩
  · rw [hquoted]
    simp [priced]
  · rw [hplain]
    simp [priced]

end Template

end Deployment
