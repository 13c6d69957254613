import Deployment.Proofs.Context.Rounds
import Deployment.Proofs.Evaluation.Dependence

/-! # Cycles between local values

A cycle is cut out of the stack of names that wait for each other. Each name got there because the
evaluation of the one below it failed for want of it, and such a failure shows a reference: if no
reference of the definition started with the name, a value for it would change nothing
(`Template.evaluateText_congr`), but with a value it is not missing (`Blames`). So along the stack
every name is referred to from below (`RefersTo`), and the name that closes the cycle from the top.

The failure is known by its wording only. No other reason starts with the same words
(`Reason.eq_localCycle_of_message`), and the names between the arrows can be read in only one way if
they hold no dots (`chainText_injective`).
-/

namespace Deployment

/-! ## References behind failures -/

variable {context : Context} {location expr place : String}

namespace Template

/-- A key is unresolved because its text is. -/
theorem evaluateKey_unresolved {text : String}
    (h : evaluateKey context location text = .error (.unresolved expr place)) :
    evaluateText context location text = .error (.unresolved expr place) := by
  rcases Except.bind_eq_error.mp h with h | ⟨v, -, h⟩
  · exact h
  · unfold Value.asKey at h
    split at h <;> cases h

/-- A text that is unresolved for want of a local value refers to it. -/
theorem exists_reference_of_unresolved {text name : String} (hname : Context.PlainName name)
    (h : evaluateText context location text =
      .error (.unresolved (Context.localName name) place)) :
    ∃ r ∈ textReferences text, r.startsWith "local" name := by
  by_contra hnone
  -- Otherwise nothing would change if the name had a value.
  have hsame (r : Reference) (hr : r ∈ textReferences text) :
      context.SameFor ⟨context.vars, context.locals.put name .null⟩ r := by
    intro other
    refine ⟨fun _ => rfl, fun hstarts => (Entries.get?_put_of_ne _ _ ?_).symm⟩
    rintro rfl
    exact hnone ⟨r, hr, hstarts⟩
  rw [evaluateText_congr hsame] at h
  have hmissing := (evaluateText_blames location text).missing name place hname h
  rw [Entries.get?_put_self] at hmissing
  cases hmissing

end Template

namespace Draft

/-- A list fails because one of its items does. -/
theorem evaluateItems_eq_error {items : List Draft} {i : Nat} {failure : Failure}
    (h : evaluateItems context location i items = .error failure) :
    ∃ d ∈ items, ∃ location', evaluate context location' d = .error failure := by
  induction items generalizing i with
  | nil => cases h
  | cons d rest ih =>
    rcases Except.bind_eq_error.mp h with h | ⟨v, -, h⟩
    · exact ⟨d, List.mem_cons_self, _, h⟩
    · rcases Except.bind_eq_error.mp h with h | ⟨vs, -, h⟩
      · obtain ⟨d', hd', location', h⟩ := ih h
        exact ⟨d', List.mem_cons_of_mem _ hd', location', h⟩
      · cases h

/-- A map is unresolved because a key or a value is: a repeated key is another failure. -/
theorem evaluateEntries_unresolved {entries : List (String × Draft)} {seen : Entries Value}
    (h : evaluateEntries context location seen entries = .error (.unresolved expr place)) :
    ∃ key d, (key, d) ∈ entries ∧ ∃ location',
      Template.evaluateText context location' key = .error (.unresolved expr place) ∨
        evaluate context location' d = .error (.unresolved expr place) := by
  induction entries generalizing seen with
  | nil => cases h
  | cons entry rest ih =>
    obtain ⟨key, d⟩ := entry
    rcases Except.bind_eq_error.mp h with h | ⟨k, -, h⟩
    · exact ⟨key, d, List.mem_cons_self, _, .inl (Template.evaluateKey_unresolved h)⟩
    · rcases Except.bind_eq_error.mp h with h | ⟨v, -, h⟩
      · exact ⟨key, d, List.mem_cons_self, _, .inr h⟩
      · split at h
        · cases h
        · obtain ⟨key', d', hmem, hrest⟩ := ih h
          exact ⟨key', d', List.mem_cons_of_mem _ hmem, hrest⟩

/-- A draft is unresolved because one of its texts is. -/
theorem exists_text_of_unresolved {d : Draft}
    (h : d.evaluate context location = .error (.unresolved expr place)) :
    ∃ text location',
      Template.evaluateText context location' text = .error (.unresolved expr place) ∧
        ∀ r ∈ Template.textReferences text, r ∈ d.references := by
  -- By induction on the draft, down to the text or the key that failed.
  induction d generalizing location with
  | null | bool b | number n => cases h
  | text template => exact ⟨template, location, h, fun r hr => by rwa [references]⟩
  | list items ih =>
    rcases Except.bind_eq_error.mp h with h | ⟨vs, -, h⟩
    · obtain ⟨d, hd, location', h⟩ := evaluateItems_eq_error h
      obtain ⟨text, place', htext, hreferences⟩ := ih d hd h
      refine ⟨text, place', htext, fun r hr => ?_⟩
      rw [references]
      exact mem_referencesOfItems.mpr ⟨d, hd, hreferences r hr⟩
    · cases h
  | map entries ih =>
    rcases Except.bind_eq_error.mp h with h | ⟨vs, -, h⟩
    · obtain ⟨key, d, hmem, location', h | h⟩ := evaluateEntries_unresolved h
      · refine ⟨key, location', h, fun r hr => ?_⟩
        rw [references]
        exact mem_referencesOfEntries.mpr ⟨key, d, hmem, .inl hr⟩
      · obtain ⟨text, place', htext, hreferences⟩ := ih key d hmem h
        refine ⟨text, place', htext, fun r hr => ?_⟩
        rw [references]
        exact mem_referencesOfEntries.mpr ⟨key, d, hmem, .inr (hreferences r hr)⟩
    · cases h

end Draft

namespace Context

/-- The definition of a local value contains a reference that starts with another one. -/
def RefersTo (definitions : Entries Draft) (name other : String) : Prop :=
  ∃ d, definitions.get? name = some d ∧ ∃ r ∈ d.references, r.startsWith "local" other

variable {definitions : Entries Draft} {vars locals : Entries Value}
  {current dependency name : String} {stack below pending : List String}

/-- A definition that is unresolved for want of a local value refers to it. -/
theorem RefersTo.of_unresolved {d : Draft} (hd : definitions.get? current = some d)
    (hname : PlainName dependency)
    (h : d.evaluate context location = .error (.unresolved (localName dependency) place)) :
    RefersTo definitions current dependency := by
  obtain ⟨text, location', htext, hreferences⟩ := Draft.exists_text_of_unresolved h
  obtain ⟨r, hr, hstarts⟩ := Template.exists_reference_of_unresolved hname htext
  exact ⟨d, hd, r, hreferences r hr, hstarts⟩

/-! ## Cycles on the stack -/

/-- Different declared local values, of which each refers to the next one and the last one to the
first. -/
structure IsCycle (definitions : Entries Draft) (first : String) (rest : List String) : Prop where
  nodup : (first :: rest).Nodup
  declared : ∀ name ∈ first :: rest, name ∈ definitions.keys
  refers : (first :: rest ++ [first]).IsChain (RefersTo definitions)

/-- The round ends with a cycle if the name that is missing waits itself. -/
theorem round_eq_cycle {chain : List String}
    (h : round definitions context current stack =
      .failed (.invalid expr (.localCycle chain) place)) :
    ∃ dependency ∈ stack, definitions.has dependency ∧
      chain = (cycle stack dependency).map localName ∧
      ∃ d location, definitions.get? current = some d ∧
        d.evaluate context (localName current) =
          .error (.unresolved (localName dependency) location) := by
  unfold round at h
  cases hd : definitions.get? current with
  | none => simp [hd] at h
  | some d =>
    simp only [hd] at h
    split at h
    · cases h
    · rename_i missing location heval
      split at h
      · cases h
      · rename_i dependency hdependency
        obtain ⟨hof, hhas⟩ := Option.filter_eq_some_iff.mp hdependency
        rw [eq_localName_of_localOf? hof] at heval
        split at h
        · rename_i hstack
          simp only [cycleFailure, Round.failed.injEq, Failure.invalid.injEq,
            Reason.localCycle.injEq] at h
          exact ⟨dependency, by simpa using hstack, hhas, h.2.1.symm, d, location, rfl, heval⟩
        · cases h
    · rename_i failure _ heval
      obtain rfl := Round.failed.inj h
      exact absurd heval ((Draft.evaluate_blames _ d).acyclic _ _ _)

/-- The stack down to a name on it is where the cycle is cut out. -/
theorem takeWhile_ne_append_prefix (hname : name ∈ stack) :
    stack.takeWhile (· != name) ++ [name] <+: stack := by
  induction stack with
  | nil => cases hname
  | cons top rest ih =>
    by_cases htop : top = name
    · subst htop
      simp
    · rw [List.takeWhile_cons_of_pos (by simpa using htop), List.cons_append,
        List.prefix_cons_inj]
      exact ih ((List.mem_cons.mp hname).resolve_left (Ne.symm htop))

/-- On a stack of which every name is referred to from below, a name that is referred to from the
top closes a cycle. -/
theorem isCycle_of_mem
    (hchain : (current :: below).IsChain fun above below => RefersTo definitions below above)
    (hnodup : (current :: below).Nodup)
    (hdeclared : ∀ name ∈ current :: below, definitions.has name)
    (hname : name ∈ current :: below) (hrefers : RefersTo definitions current name) :
    IsCycle definitions name ((current :: below).takeWhile (· != name)).reverse := by
  have hpart := takeWhile_ne_append_prefix hname
  generalize (current :: below).takeWhile (· != name) = above at hpart
  have hreverse : name :: above.reverse = (above ++ [name]).reverse := by simp
  constructor
  · rw [hreverse, List.nodup_reverse]
    exact hpart.sublist.nodup hnodup
  · intro other hother
    rw [hreverse, List.mem_reverse] at hother
    exact (Entries.has_iff_mem_keys _ _).mp (hdeclared other (hpart.subset hother))
  · have htop : (above ++ [name]).head? = some current := by
      obtain ⟨rest, hrest⟩ := hpart
      have hhead := congrArg List.head? hrest
      rwa [List.head?_append_of_ne_nil _ (by simp)] at hhead
    -- The stack is read upwards from the name, and the name follows its top.
    have hdown := List.IsChain.prefix hchain hpart
    rw [hreverse]
    refine (List.isChain_reverse.mpr hdown).append (.singleton name) ?_
    intro last hlast other hother
    rw [List.getLast?_reverse, htop] at hlast
    obtain rfl : current = last := by simpa using hlast
    obtain rfl : name = other := by simpa using hother
    exact hrefers

/-- A run that fails with a cycle shows one. -/
theorem Resolves.cycle (hplain : ∀ name ∈ definitions.keys, PlainName name) {rounds : Nat}
    {chain : List String} (hrun : Resolves definitions vars rounds pending stack locals
      (.error (.invalid expr (.localCycle chain) place)))
    (h : Underway definitions vars pending stack locals)
    (hchain : stack.IsChain fun above below => RefersTo definitions below above) :
    ∃ first rest, IsCycle definitions first rest ∧
      chain = (first :: rest ++ [first]).map localName := by
  generalize hresult : Except.error (Failure.invalid expr (.localCycle chain) place) = result
    at hrun
  -- By induction on the run. What is carried along is that every name on the stack is referred to
  -- from below.
  induction hrun with
  | done found => cases hresult
  | next skipped run ih => exact ih (h.next skipped) (.singleton _) hresult
  | stored outcome missing run ih => exact ih (h.stored outcome) hchain.tail hresult
  | waiting outcome declared missing fresh run ih =>
    obtain ⟨-, -, d, location, hd, heval⟩ := round_eq_waiting_iff.mp outcome
    have hname := hplain _ ((Entries.has_iff_mem_keys _ _).mp declared)
    have hrefers := RefersTo.of_unresolved hd hname heval
    exact ih (h.waiting hplain outcome) (.cons_cons hrefers hchain) hresult
  | failed outcome =>
    cases hresult
    obtain ⟨dependency, hmem, hhas, rfl, d, location, hd, heval⟩ := round_eq_cycle outcome
    have hname := hplain _ ((Entries.has_iff_mem_keys _ _).mp hhas)
    have hrefers := RefersTo.of_unresolved hd hname heval
    exact ⟨dependency, _,
      isCycle_of_mem hchain h.consistent.nodup h.stackDeclared hmem hrefers, rfl⟩

end Context

/-! ## The wording -/

/-- A text is shown as it is. -/
theorem toString_text (s : String) : toString s = s :=
  rfl

/-- No cause of a parse error is worded like a cycle, whatever stands behind it. -/
theorem ParseCause.message_start (cause : ParseCause) (text : String) :
    (cause.message ++ text).toList.take 2 ≠ ['c', 'y'] := by
  unfold message
  cases cause <;> simp [toString_text]

/-- No failure of arithmetic is worded like a cycle. -/
theorem ArithmeticError.message_start (e : ArithmeticError) :
    e.message.toList.take 2 ≠ ['c', 'y'] := by
  unfold message
  cases e <;> simp [toString_text]

/-- No failure of a call is worded like a cycle. -/
theorem CallError.message_start (e : CallError) : e.message.toList.take 2 ≠ ['c', 'y'] := by
  have hname (f : Function) (text : String) : (f.name ++ text).toList.take 2 ≠ ['c', 'y'] := by
    unfold Function.name
    cases f <;> simp
  unfold message
  cases e with
  | arity f count | notNumber f kind | noArguments f =>
    simp only [toString_text, String.append_assoc]
    exact hname f _
  | _ => simp [toString_text]

/-- No parse error is worded like a cycle. -/
theorem ParseError.message_start (e : ParseError) : e.message.toList.take 2 ≠ ['c', 'y'] := by
  unfold message
  simp only [toString_text, String.append_assoc]
  exact e.cause.message_start _

/-- The wording of a cycle starts like that of nothing else. -/
theorem Reason.eq_localCycle_of_message {reason : Reason} {text : String}
    (h : reason.message = "cycle between local values: " ++ text) :
    ∃ chain, reason = .localCycle chain ∧ text = " -> ".intercalate chain := by
  have hstart : reason.message.toList.take 2 = ['c', 'y'] := by
    rw [h]
    simp
  unfold message at h hstart
  cases reason with
  | localCycle chain => exact ⟨chain, rfl, (String.append_right_inj _).mp h.symm⟩
  | unreadable e => exact absurd hstart e.message_start
  | arithmetic e => exact absurd hstart e.message_start
  | call e => exact absurd hstart e.message_start
  | _ => simp [toString_text] at hstart

namespace Context

/-- The names around a cycle as its failure shows them. -/
def chainText (names : List String) : String :=
  " -> ".intercalate (names.map localName)

/-- The names behind the first one, as they are shown. -/
def followers (names : List String) : List Char :=
  names.flatMap fun name => " -> local".toList ++ '.' :: name.toList

/-- Behind the first name every other one has an arrow in front of it. -/
theorem chainText_toList (name : String) (rest : List String) :
    (chainText (name :: rest)).toList = (localName name).toList ++ followers rest := by
  induction rest generalizing name with
  | nil => simp [chainText, followers]
  | cons other rest ih =>
    have hcons : chainText (name :: other :: rest) =
        localName name ++ " -> " ++ chainText (other :: rest) := String.intercalate_cons_cons
    rw [hcons, String.toList_append, String.toList_append, ih]
    simp [followers, localName_toList]

/-- What follows a name without dots starts in front of the next dot. -/
theorem append_followers_inj {name name' : String} {rest rest' : List String}
    (hname : PlainName name) (hname' : PlainName name')
    (h : name.toList ++ followers rest = name'.toList ++ followers rest') :
    name = name' ∧ followers rest = followers rest' := by
  have hdot {a b : String} {behind : List Char} (ha : PlainName a)
      (heq : a.toList = b.toList ++ (" -> local".toList ++ '.' :: behind)) : False := by
    refine ha.1 ?_
    rw [heq]
    simp
  have hstop {a : String} (ha : PlainName a) :
      ∀ c ∈ a.toList ++ " -> local".toList, c ≠ '.' := by
    rintro c hc rfl
    rcases List.mem_append.mp hc with hc | hc
    · exact ha.1 hc
    · simp at hc
  -- If only one of the names is the last, the other text has a dot where this one ends.
  cases rest with
  | nil =>
    cases rest' with
    | nil => simpa [followers, String.toList_inj] using h
    | cons other' rest' =>
      simp only [followers, List.flatMap_nil, List.append_nil, List.flatMap_cons,
        List.append_assoc, List.cons_append] at h
      exact (hdot hname h).elim
  | cons other rest =>
    cases rest' with
    | nil =>
      simp only [followers, List.flatMap_nil, List.append_nil, List.flatMap_cons,
        List.append_assoc, List.cons_append] at h
      exact (hdot hname' h.symm).elim
    | cons other' rest' =>
      simp only [followers, List.flatMap_cons, List.append_assoc, List.cons_append] at h ⊢
      rw [← List.append_assoc, ← List.append_assoc] at h
      obtain ⟨hnames, hrest⟩ := Text.append_inj_of_stop (p := (· = '.')) (hstop hname)
        (hstop hname') (by simp) (by simp) h
      exact ⟨String.toList_inj.mp (List.append_cancel_right hnames), by rw [hrest]⟩

/-- The names behind the first one can be read off their text, one after the other. -/
theorem followers_inj {names names' : List String} (hnames : ∀ name ∈ names, PlainName name)
    (hnames' : ∀ name ∈ names', PlainName name) (h : followers names = followers names') :
    names = names' := by
  induction names generalizing names' with
  | nil =>
    cases names' with
    | nil => rfl
    | cons name' rest' => simp [followers] at h
  | cons name rest ih =>
    cases names' with
    | nil => simp [followers] at h
    | cons name' rest' =>
      obtain ⟨hname, hrest⟩ := List.forall_mem_cons.mp hnames
      obtain ⟨hname', hrest'⟩ := List.forall_mem_cons.mp hnames'
      have hbehind : name.toList ++ followers rest = name'.toList ++ followers rest' := by
        simpa [followers] using h
      obtain ⟨rfl, hfollowers⟩ := append_followers_inj hname hname' hbehind
      rw [ih hrest hrest' hfollowers]

/-- The names around a cycle can be read off its failure. -/
theorem chainText_injective {names names' : List String} (hnames : ∀ name ∈ names, PlainName name)
    (hnames' : ∀ name ∈ names', PlainName name) (h : chainText names = chainText names') :
    names = names' := by
  have hlist := congrArg String.toList h
  -- Nothing is shown for no names, and each name shows at least its mark.
  cases names with
  | nil =>
    cases names' with
    | nil => rfl
    | cons name' rest' =>
      rw [chainText_toList, localName_toList] at hlist
      simp [chainText] at hlist
  | cons name rest =>
    cases names' with
    | nil =>
      rw [chainText_toList, localName_toList] at hlist
      simp [chainText] at hlist
    | cons name' rest' =>
      obtain ⟨hname, hrest⟩ := List.forall_mem_cons.mp hnames
      obtain ⟨hname', hrest'⟩ := List.forall_mem_cons.mp hnames'
      rw [chainText_toList, chainText_toList, localName_toList, localName_toList] at hlist
      simp only [List.cons_append, List.cons.injEq, true_and] at hlist
      obtain ⟨rfl, hfollowers⟩ := append_followers_inj hname hname' hlist
      rw [followers_inj hrest hrest' hfollowers]

end Context

/-! ## Documents -/

open Context

/-- A document has no context exactly if its local values fail. -/
theorem Document.resolveContext_eq_error_iff {document : Document} {overrides : Entries Value}
    {failure : Failure} :
    document.resolveContext overrides = .error failure ↔
      resolveLocals document.locals (variablesOf document.vars overrides)
        (2 * document.locals.length) document.locals.keys [] [] = .error failure := by
  rw [resolveContext, Except.bind_eq_error]
  simp

/-- If the local values of a document fail with a cycle, the cycle is there: the names that the
failure shows are different local values of the document, and each of them refers to the next one.
The failure shows no other names. -/
theorem Document.resolveContext_cycle {document : Document} {overrides : Entries Value}
    {expr place text : String} {reason : Reason}
    (hplain : ∀ name ∈ document.locals.keys, PlainName name)
    (h : document.resolveContext overrides = .error (.invalid expr reason place))
    (hmessage : reason.message = "cycle between local values: " ++ text) :
    ∃ first rest, IsCycle document.locals first rest ∧
      text = chainText (first :: rest ++ [first]) ∧
      ∀ names, (∀ name ∈ names, PlainName name) → text = chainText names →
        names = first :: rest ++ [first] := by
  obtain ⟨chain, rfl, rfl⟩ := Reason.eq_localCycle_of_message hmessage
  obtain ⟨rounds, hrounds, result, hrun⟩ := exists_resolves overrides hplain
  have hresult := hrun.resolveLocals_eq hrounds
  rw [resolveContext_eq_error_iff.mp h] at hresult
  rw [← hresult] at hrun
  obtain ⟨first, rest, hcycle, rfl⟩ := hrun.cycle hplain .start .nil
  refine ⟨first, rest, hcycle, rfl, fun names hnames htext => ?_⟩
  refine chainText_injective hnames (fun name hname => hplain name ?_) htext.symm
  rw [List.mem_append, List.mem_singleton] at hname
  rcases hname with hname | rfl
  · exact hcycle.declared name hname
  · exact hcycle.declared name List.mem_cons_self

/-- Two local values that need each other, declared behind one that needs them. -/
def Document.cyclic : Document :=
  { Document.empty with
    locals := [("c", .text "${local.a}"), ("a", .text "${local.b}"), ("b", .text "${local.a}")] }

/-- The first name is never reached again: the cycle starts behind it. -/
theorem Document.cyclic_fails :
    cyclic.resolveContext [] =
      .error (.invalid "local.b" (.localCycle (["a", "b", "a"].map localName)) "locals") := by
  have first : round cyclic.locals ⟨[], []⟩ "c" ["c"] = .waiting "a" := by cbv
  have second : round cyclic.locals ⟨[], []⟩ "a" ["a", "c"] = .waiting "b" := by cbv
  have third : round cyclic.locals ⟨[], []⟩ "b" ["b", "a", "c"] =
      .failed (.invalid "local.b" (.localCycle (["a", "b", "a"].map localName)) "locals") := by cbv
  refine resolveContext_eq_error_iff.mpr ?_
  show resolveLocals cyclic.locals [] 6 ["c", "a", "b"] [] [] = _
  rw [resolveLocals_nil]
  show resolveLocals cyclic.locals [] 6 ["a", "b"] ["c"] [] = _
  rw [resolveLocals_succ, first]
  show resolveLocals cyclic.locals [] 5 ["a", "b"] ["a", "c"] [] = _
  rw [resolveLocals_succ, second]
  show resolveLocals cyclic.locals [] 4 ["a", "b"] ["b", "a", "c"] [] = _
  rw [resolveLocals_succ, third]

/-- The cycle is between the two, and the other local value has no part in it. -/
theorem Document.cyclic_cycle : IsCycle cyclic.locals "a" ["b"] := by
  have hmessage : (Reason.localCycle (["a", "b", "a"].map localName)).message =
      "cycle between local values: " ++ chainText ["a", "b", "a"] := rfl
  obtain ⟨first, rest, hcycle, -, honly⟩ :=
    resolveContext_cycle (by decide) cyclic_fails hmessage
  obtain ⟨rfl, hrest⟩ := List.cons.inj (honly ["a", "b", "a"] (by decide) rfl)
  obtain rfl : ["b"] = rest := List.append_cancel_right hrest
  exact hcycle

end Deployment
