import Deployment.Config.Literal
import Deployment.Config.Reader
import Deployment.Proofs.Config.Lines
import Deployment.Proofs.Ensures
import Deployment.Proofs.Number.Integers

/-! # What plain data denotes

The default of a variable is a term that is plain data. `Term.Denotes` says which terms are, and
what they stand for, with numbers that are not bound to 64 bits until the end: a minus in front of a
number stands for its exact opposite, and only then is the result an integer, if one of 64 bits has
this value, or else a decimal.

The conversion of terms negates integers within their 64 bits, however, where the least one has no
opposite. It has a value exactly for the terms that denote one and hold no such negation
(`Term.NegatesLeast`), and it is the value that they denote. What happens to the others depends on
what comes first: the conversion overflows if it gets to the negation before anything that is no
plain data (`Term.Overflows`), and all else is an error (`Term.toValue_denotes`).

There are terms that overflow: of two signs in front of a number, the first one negates what the
second one is a part of (`negatedLeast_overflows`).
-/

namespace Deployment

/-! ## Opposite numbers -/

/-- A number and its opposite. That of the least integer is no integer of 64 bits. -/
inductive Number.Opposite : Number → Number → Prop
  | integer {i k : Int64} (h : k.toInt = -i.toInt) : Opposite (.integer i) (.integer k)
  | wide {i : Int64} (h : ∀ k : Int64, k.toInt ≠ -i.toInt) :
      Opposite (.integer i) (.decimal (Float.ofInt (-i.toInt)))
  | decimal (x : Float) : Opposite (.decimal x) (.decimal (-x))

/-- Within 64 bits negation is exact except for the least integer. -/
theorem Number.toInt_neg {i : Int64} (h : i ≠ Int64.minValue) : (-i).toInt = -i.toInt := by
  have hle := i.le_toInt
  have hlt := i.toInt_lt
  have hne : i.toInt ≠ Int64.minValue.toInt := fun heq => h (Int64.toInt_inj.mp heq)
  rw [Int64.toInt_minValue] at hne
  rw [Int64.toInt_neg]
  exact Int.bmod_eq_of_le (by omega) (by omega)

/-- The least integer is the only number whose opposite is no integer of 64 bits. -/
theorem Number.opposite_integer {i : Int64} {m : Number} (h : i ≠ Int64.minValue) :
    (Number.integer i).Opposite m ↔ m = .integer (-i) := by
  constructor
  · intro hm
    cases hm with
    | integer hk => exact congrArg integer (Int64.toInt_inj.mp (hk.trans (toInt_neg h).symm))
    | wide hwide => exact absurd (toInt_neg h) (hwide _)
  · rintro rfl
    exact .integer (toInt_neg h)

namespace Config

/-- The opposite of the least integer is no integer of 64 bits, and negating it overflows. -/
theorem oppositeNumber_least : oppositeNumber (.integer Int64.minValue) = .error .overflow := by
  rw [oppositeNumber, if_pos rfl]

/-- Every other integer is negated within its 64 bits. -/
theorem oppositeNumber_integer {i : Int64} (h : i ≠ Int64.minValue) :
    oppositeNumber (.integer i) = .ok (.integer (-i)) := by
  rw [oppositeNumber, if_neg h]

/-- All numbers but the least integer have an opposite, and negation within 64 bits finds it. -/
theorem oppositeNumber_eq_ok {n m : Number} :
    oppositeNumber n = .ok m ↔ n.Opposite m ∧ n ≠ .integer Int64.minValue := by
  cases n with
  | decimal x =>
    constructor
    · intro h
      obtain rfl := Except.ok.inj h
      exact ⟨.decimal x, nofun⟩
    · rintro ⟨⟨⟩, -⟩
      rfl
  | integer i =>
    by_cases hleast : i = Int64.minValue
    · subst hleast
      rw [oppositeNumber_least]
      exact ⟨nofun, fun h => absurd rfl h.2⟩
    · rw [oppositeNumber_integer hleast, Number.opposite_integer hleast]
      constructor
      · intro h
        exact ⟨(Except.ok.inj h).symm, fun heq => hleast (Number.integer.inj heq)⟩
      · rintro ⟨rfl, -⟩
        rfl

/-- Nothing but the least integer keeps a number from being negated. -/
theorem oppositeNumber_eq_error {n : Number} {e : ConversionError}
    (h : oppositeNumber n = .error e) : n = .integer Int64.minValue := by
  cases n with
  | decimal x => cases h
  | integer i =>
    by_contra hleast
    rw [oppositeNumber_integer fun heq => hleast (congrArg Number.integer heq)] at h
    cases h

/-! ## Numerals and keys -/

/-- What a numeral stands for: an integer if 64 bits hold it, else the nearest decimal. -/
inductive Numeral.Denotes : Numeral → Number → Prop
  | integer {n : Int} {i : Int64} (h : i.toInt = n) : Denotes (.integer n) (.integer i)
  | wide {n : Int} (h : ∀ i : Int64, i.toInt ≠ n) : Denotes (.integer n) (.decimal (Float.ofInt n))
  | decimal (x : Float) : Denotes (.decimal x) (.decimal x)

/-- A numeral that 64 bits hold is read as this integer. -/
theorem toNumber_toInt (i : Int64) : (Numeral.integer i.toInt).toNumber = .integer i := by
  rw [Numeral.toNumber, Number.ofInt?_toInt]
  rfl

/-- A numeral is read as the number that it stands for. -/
theorem Numeral.denotes_iff {n : Numeral} {m : Number} : n.Denotes m ↔ n.toNumber = m := by
  have hwide {n : Int} (h : ∀ i : Int64, i.toInt ≠ n) :
      (Numeral.integer n).toNumber = .decimal (Float.ofInt n) := by
    rw [toNumber, Number.ofInt?_eq_none h]
    rfl
  constructor
  · intro h
    cases h with
    | integer h => exact h ▸ toNumber_toInt _
    | wide h => exact hwide h
    | decimal x => rfl
  · rintro rfl
    cases n with
    | decimal x => exact .decimal x
    | integer n =>
      -- The numeral is an integer of 64 bits or too wide for them.
      by_cases h : ∃ i : Int64, i.toInt = n
      · obtain ⟨i, rfl⟩ := h
        exact toNumber_toInt i ▸ .integer rfl
      · exact hwide (not_exists.mp h) ▸ .wide (not_exists.mp h)

/-- One numeral only is read as the least integer. -/
theorem toNumber_eq_least {n : Numeral} :
    n.toNumber = .integer Int64.minValue ↔ n = .integer (-2 ^ 63) := by
  constructor
  · intro h
    cases Numeral.denotes_iff.mpr h with
    | integer h => exact h ▸ rfl
  · rintro rfl
    exact toNumber_toInt Int64.minValue

/-- The opposite of a whole number is the integer of this value if there is one. That of `2 ^ 63` is
the decimal that is equal to it. -/
theorem exists_oppositeNumber {n : Int} {k : Int64} (hk : k.toInt = -n) :
    ∃ m, oppositeNumber (Numeral.integer n).toNumber = .ok m ∧ (m == .integer k) = true := by
  have hlow := k.le_toInt
  have hhigh := k.toInt_lt
  -- Only `2 ^ 63` has an opposite within 64 bits without being within them itself.
  by_cases h : ∃ i : Int64, i.toInt = n
  · obtain ⟨i, rfl⟩ := h
    have hmin : i ≠ Int64.minValue := by
      rintro rfl
      rw [Int64.toInt_minValue] at hk
      omega
    obtain rfl : k = -i := Int64.toInt_inj.mp (hk.trans (Number.toInt_neg hmin).symm)
    rw [toNumber_toInt, oppositeNumber_integer hmin]
    exact ⟨_, rfl, beq_self_eq_true (-i)⟩
  · obtain rfl : n = 2 ^ 63 := by
      have hle : 2 ^ 63 ≤ n := by
        by_contra hlt
        exact h ⟨Int64.ofInt n, Int64.toInt_ofInt_of_le (by omega) (by omega)⟩
      omega
    obtain rfl : k = Int64.minValue := Int64.toInt_inj.mp hk
    exact ⟨_, rfl, by decide +kernel⟩

/-- The key of an object entry, a bare name or quoted text. -/
inductive Term.Names : Term → String → Prop
  | bare (name : String) : Names (.variable name) name
  | quoted (s : String) : Names (.text s) s

/-- A key is read as the name that it is, if it is one. -/
theorem names_iff {key : Term} {name : String} : key.Names name ↔ literalKey key = .ok name := by
  constructor
  · intro h
    cases h <;> rfl
  · intro h
    unfold literalKey at h
    split at h <;> cases h
    · exact .bare _
    · exact .quoted _

/-- A key that names nothing is no plain data, and nothing overflows at it. -/
theorem literalKey_concludes {key : Term} :
    Concludes (literalKey key) key.Names fun e => e ≠ .overflow := by
  constructor
  · intro name hname
    exact names_iff.mpr hname
  · intro e he
    unfold literalKey at he
    split at he <;> cases he
    nofun

/-! ## Terms -/

/-- An entry of an object, with the name and the value that it stands for. -/
structure Member where
  key : Term
  term : Term
  name : String
  value : Value

/-- The entry as it is written. -/
def Member.entry (m : Member) : Term × Term :=
  (m.key, m.term)

/-- The entry as it is in the value of the object. -/
def Member.pair (m : Member) : String × Value :=
  (m.name, m.value)

/-- What a term stands for that is plain data. -/
inductive Term.Denotes : Term → Value → Prop
  | null : Denotes .null .null
  | bool (b : Bool) : Denotes (.bool b) (.bool b)
  | number {n : Numeral} {m : Number} (h : n.Denotes m) : Denotes (.number n) (.number m)
  | text (s : String) : Denotes (.text s) (.text s)
  | array {items : List (Term × Value)} (h : ∀ item ∈ items, Denotes item.1 item.2) :
      Denotes (.array (items.map Prod.fst)) (.list (items.map Prod.snd))
  /-- A repeated name keeps its first place and its last value. -/
  | object {members : List Member} (hnames : ∀ m ∈ members, m.key.Names m.name)
      (h : ∀ m ∈ members, Denotes m.term m.value) :
      Denotes (.object (members.map Member.entry))
        (.map (Entries.ofPairs (members.map Member.pair)))
  | parens {inner : Term} {v : Value} (h : Denotes inner v) : Denotes (.parens inner) v
  | negated {n : Numeral} {m k : Number} (h : n.Denotes m) (hk : m.Opposite k) :
      Denotes (.unary .neg (.number n)) (.number k)

/-- The term holds, where its data is, the least integer with a minus in front of it. -/
inductive Term.NegatesLeast : Term → Prop
  | here : NegatesLeast (.unary .neg (.number (.integer (-2 ^ 63))))
  | array {items : List Term} {t : Term} (ht : t ∈ items) (h : NegatesLeast t) :
      NegatesLeast (.array items)
  | object {entries : List (Term × Term)} {entry : Term × Term} (hentry : entry ∈ entries)
      (h : NegatesLeast entry.2) : NegatesLeast (.object entries)
  | parens {inner : Term} (h : NegatesLeast inner) : NegatesLeast (.parens inner)

/-- The term denotes a value, and none of its integers leaves the 64 bits. -/
def Term.HasValue (t : Term) : Prop :=
  (∃ v, t.Denotes v) ∧ ¬t.NegatesLeast

/-- Read from the left, the first thing to keep the term from having a value is the least integer
with a minus in front of it. -/
inductive Term.Overflows : Term → Prop
  | here : Overflows (.unary .neg (.number (.integer (-2 ^ 63))))
  | array {before after : List Term} {t : Term} (hbefore : ∀ s ∈ before, s.HasValue)
      (h : Overflows t) : Overflows (.array (before ++ t :: after))
  /-- The key of an entry is read before the term. -/
  | object {before after : List (Term × Term)} {key t : Term}
      (hbefore : ∀ entry ∈ before, (∃ name, entry.1.Names name) ∧ entry.2.HasValue)
      (hkey : ∃ name, key.Names name) (h : Overflows t) :
      Overflows (.object (before ++ (key, t) :: after))
  | parens {inner : Term} (h : Overflows inner) : Overflows (.parens inner)

/-! ## The conversion -/

/-- Items with values are converted one by one. -/
theorem itemValues_eq_ok {items : List (Term × Value)}
    (h : ∀ item ∈ items, item.1.toValue = .ok item.2) :
    itemValues (items.map Prod.fst) = .ok (items.map Prod.snd) := by
  induction items with
  | nil => rfl
  | cons item rest ih =>
    obtain ⟨hitem, hrest⟩ := List.forall_mem_cons.mp h
    rw [List.map_cons, itemValues, hitem, ih hrest]
    rfl

/-- Behind a key that names something the term of the entry is converted, and the other entries
then. -/
theorem entryValues_cons {key : Term} {name : String} (hname : key.Names name) (t : Term)
    (rest : List (Term × Term)) :
    entryValues ((key, t) :: rest) = (do
      let v ← t.toValue
      .ok ((name, v) :: (← entryValues rest))) := by
  rw [entryValues, names_iff.mp hname]
  rfl

/-- Entries with names and values are converted one by one. -/
theorem entryValues_eq_ok {members : List Member} (hnames : ∀ m ∈ members, m.key.Names m.name)
    (h : ∀ m ∈ members, m.term.toValue = .ok m.value) :
    entryValues (members.map Member.entry) = .ok (members.map Member.pair) := by
  induction members with
  | nil => rfl
  | cons m rest ih =>
    obtain ⟨hname, hnames⟩ := List.forall_mem_cons.mp hnames
    obtain ⟨hm, hrest⟩ := List.forall_mem_cons.mp h
    rw [List.map_cons, Member.entry, entryValues_cons hname, hm, ih hnames hrest]
    rfl

/-- A term is converted to the value that it denotes if no negation in it overflows. -/
theorem Term.Denotes.toValue {t : Term} {v : Value} (h : t.Denotes v)
    (hleast : ¬t.NegatesLeast) : t.toValue = .ok v := by
  -- By induction on what the term denotes. A negation of the least integer in a part would be one
  -- in the whole.
  induction h with
  | null => rfl
  | bool b => rfl
  | number h => rw [Term.toValue, Numeral.denotes_iff.mp h]
  | text s => rfl
  | array _ ih =>
    have hitems := itemValues_eq_ok fun item hitem =>
      ih item hitem fun h => hleast (.array (List.mem_map_of_mem hitem) h)
    rw [Term.toValue, hitems]
    rfl
  | object hnames _ ih =>
    have hentries := entryValues_eq_ok hnames fun m hm =>
      ih m hm fun h => hleast (.object (List.mem_map_of_mem hm) h)
    rw [Term.toValue, hentries]
    rfl
  | parens _ ih =>
    rw [Term.toValue]
    exact ih fun h => hleast (.parens h)
  | @negated n m k h hk =>
    obtain rfl := Numeral.denotes_iff.mp h
    have hmin : n.toNumber ≠ .integer Int64.minValue :=
      fun heq => hleast (toNumber_eq_least.mp heq ▸ .here)
    rw [Term.toValue, oppositeNumber_eq_ok.mpr ⟨hk, hmin⟩]
    rfl

/-- A term that has a value is converted to it. -/
theorem Term.HasValue.toValue {t : Term} (h : t.HasValue) : ∃ v, t.toValue = .ok v := by
  obtain ⟨⟨v, hv⟩, hleast⟩ := h
  exact ⟨v, hv.toValue hleast⟩

/-- Items that have values do not keep the conversion from the failure behind them, and what is
behind the failure does not count. -/
theorem itemValues_eq_error {before after : List Term} {t : Term} {e : ConversionError}
    (hbefore : ∀ s ∈ before, s.HasValue) (h : t.toValue = .error e) :
    itemValues (before ++ t :: after) = .error e := by
  induction before with
  | nil =>
    rw [List.nil_append, itemValues, h]
    rfl
  | cons s rest ih =>
    obtain ⟨hs, hrest⟩ := List.forall_mem_cons.mp hbefore
    obtain ⟨v, hv⟩ := hs.toValue
    rw [List.cons_append, itemValues, hv, ih hrest]
    rfl

/-- Entries have no value if the term of one has none, its key being readable and the entries in
front of it having values. -/
theorem entryValues_eq_error {before after : List (Term × Term)} {key t : Term}
    {e : ConversionError}
    (hbefore : ∀ entry ∈ before, (∃ name, entry.1.Names name) ∧ entry.2.HasValue)
    (hkey : ∃ name, key.Names name) (h : t.toValue = .error e) :
    entryValues (before ++ (key, t) :: after) = .error e := by
  induction before with
  | nil =>
    obtain ⟨name, hname⟩ := hkey
    rw [List.nil_append, entryValues_cons hname, h]
    rfl
  | cons entry rest ih =>
    obtain ⟨⟨⟨name, hname⟩, hvalue⟩, hrest⟩ := List.forall_mem_cons.mp hbefore
    obtain ⟨v, hv⟩ := hvalue.toValue
    rw [List.cons_append, entryValues_cons hname, hv, ih hrest]
    rfl

/-- A term that overflows is converted to nothing else. -/
theorem Term.Overflows.toValue {t : Term} (h : t.Overflows) : t.toValue = .error .overflow := by
  induction h with
  | here =>
    rw [Term.toValue, toNumber_eq_least.mpr rfl, oppositeNumber_least]
    rfl
  | array hbefore _ ih =>
    rw [Term.toValue, itemValues_eq_error hbefore ih]
    rfl
  | object hbefore hkey _ ih =>
    rw [Term.toValue, entryValues_eq_error hbefore hkey ih]
    rfl
  | parens _ ih =>
    rw [Term.toValue]
    exact ih

mutual
/-- Whatever is converted to a value denotes it and negates nothing that it must not. If the
conversion overflows, so does the term. -/
theorem Term.toValue_concludes (t : Term) :
    Concludes t.toValue (fun v => t.Denotes v ∧ ¬t.NegatesLeast)
      fun e => e = .overflow → t.Overflows := by
  -- Arrays and objects are the cases that recur, each with what stood in front of the failure.
  unfold Term.toValue
  split
  · exact .ok ⟨.null, nofun⟩
  · exact .ok ⟨.bool _, nofun⟩
  · exact .ok ⟨.number (Numeral.denotes_iff.mpr rfl), nofun⟩
  · exact .ok ⟨.text _, nofun⟩
  · refine .bind ((itemValues_concludes _).imp_fails fun e he hoverflow => ?_) ?_
    · obtain ⟨before, t, after, rfl, hbefore, h⟩ := he hoverflow
      exact .array hbefore h
    · rintro _ ⟨items, rfl, rfl, h⟩
      refine .ok ⟨.array fun item hitem => (h item hitem).1, fun hleast => ?_⟩
      cases hleast with
      | array ht hleast =>
        obtain ⟨item, hitem, rfl⟩ := List.mem_map.mp ht
        exact (h item hitem).2 hleast
  · refine .bind ((entryValues_concludes _).imp_fails fun e he hoverflow => ?_) ?_
    · obtain ⟨before, key, t, after, rfl, hbefore, hkey, h⟩ := he hoverflow
      exact .object hbefore hkey h
    · rintro _ ⟨members, rfl, rfl, hnames, h⟩
      refine .ok ⟨.object hnames fun m hm => (h m hm).1, fun hleast => ?_⟩
      cases hleast with
      | object hentry hleast =>
        obtain ⟨m, hm, rfl⟩ := List.mem_map.mp hentry
        exact (h m hm).2 hleast
  · refine (Term.toValue_concludes _).mono (fun v hv => ⟨.parens hv.1, fun hleast => ?_⟩)
      fun e he h => .parens (he h)
    cases hleast with
    | parens h => exact hv.2 h
  · rename_i n
    cases h : oppositeNumber n.toNumber with
    | ok m =>
      obtain ⟨hopposite, hmin⟩ := oppositeNumber_eq_ok.mp h
      refine .ok ⟨.negated (Numeral.denotes_iff.mpr rfl) hopposite, fun hleast => ?_⟩
      cases hleast with
      | here => exact hmin (toNumber_eq_least.mpr rfl)
    | error e =>
      obtain rfl := toNumber_eq_least.mp (oppositeNumber_eq_error h)
      exact .error fun _ => .here
  · exact .error nofun

/-- Items are converted to the values that they denote, or the first one without a value fails. -/
theorem itemValues_concludes (terms : List Term) :
    Concludes (itemValues terms)
      (fun vs => ∃ items : List (Term × Value), items.map Prod.fst = terms ∧
        items.map Prod.snd = vs ∧ ∀ item ∈ items, item.1.Denotes item.2 ∧ ¬item.1.NegatesLeast)
      fun e => e = .overflow → ∃ before t after, terms = before ++ t :: after ∧
        (∀ s ∈ before, s.HasValue) ∧ t.Overflows := by
  match terms with
  | [] => exact .ok ⟨[], rfl, rfl, by simp⟩
  | t :: rest =>
    refine .bind ((Term.toValue_concludes t).imp_fails fun e he h => ?_) fun v hv => ?_
    · exact ⟨[], t, rest, rfl, by simp, he h⟩
    · refine .bind ((itemValues_concludes rest).imp_fails fun e he h => ?_) ?_
      · obtain ⟨before, s, after, rfl, hbefore, hs⟩ := he h
        exact ⟨t :: before, s, after, rfl,
          List.forall_mem_cons.mpr ⟨⟨⟨v, hv.1⟩, hv.2⟩, hbefore⟩, hs⟩
      · rintro _ ⟨items, rfl, rfl, h⟩
        exact .ok ⟨(t, v) :: items, rfl, rfl, List.forall_mem_cons.mpr ⟨hv, h⟩⟩

/-- Entries are converted to the pairs that they stand for, or the first one without a name or a
value fails. -/
theorem entryValues_concludes (entries : List (Term × Term)) :
    Concludes (entryValues entries)
      (fun pairs => ∃ members : List Member, members.map Member.entry = entries ∧
        members.map Member.pair = pairs ∧ (∀ m ∈ members, m.key.Names m.name) ∧
        ∀ m ∈ members, m.term.Denotes m.value ∧ ¬m.term.NegatesLeast)
      fun e => e = .overflow → ∃ before key t after, entries = before ++ (key, t) :: after ∧
        (∀ entry ∈ before, (∃ name, entry.1.Names name) ∧ entry.2.HasValue) ∧
        (∃ name, key.Names name) ∧ t.Overflows := by
  match entries with
  | [] => exact .ok ⟨[], rfl, rfl, by simp, by simp⟩
  | (key, t) :: rest =>
    refine .bind (literalKey_concludes.imp_fails fun e he h => (he h).elim) fun name hname => ?_
    refine .bind ((Term.toValue_concludes t).imp_fails fun e he h => ?_) fun v hv => ?_
    · exact ⟨[], key, t, rest, rfl, by simp, ⟨name, hname⟩, he h⟩
    · refine .bind ((entryValues_concludes rest).imp_fails fun e he h => ?_) ?_
      · obtain ⟨before, key', s, after, rfl, hbefore, hkey, hs⟩ := he h
        exact ⟨(key, t) :: before, key', s, after, rfl,
          List.forall_mem_cons.mpr ⟨⟨⟨name, hname⟩, ⟨v, hv.1⟩, hv.2⟩, hbefore⟩, hkey, hs⟩
      · rintro _ ⟨members, rfl, rfl, hnames, h⟩
        exact .ok ⟨⟨key, t, name, v⟩ :: members, rfl, rfl,
          List.forall_mem_cons.mpr ⟨hname, hnames⟩, List.forall_mem_cons.mpr ⟨hv, h⟩⟩
end

/-- The conversion overflows exactly for the terms that overflow. -/
theorem Term.toValue_overflow_iff (t : Term) : t.toValue = .error .overflow ↔ t.Overflows := by
  constructor
  · intro h
    exact t.toValue_concludes.fails _ h rfl
  · exact Overflows.toValue

/-- A term is converted to a value exactly if it denotes this value and holds no negation of the
least integer, and the conversion overflows exactly if it meets such a negation before anything that
is no plain data. A whole number with a minus in front of it becomes the number of opposite value
whenever this fits 64 bits. -/
theorem Term.toValue_denotes (t : Term) :
    (∀ v, t.toValue = .ok v ↔ t.Denotes v ∧ ¬t.NegatesLeast) ∧
      (t.toValue = .error .overflow ↔ t.Overflows) ∧
      ∀ (n : Int) (k : Int64), k.toInt = -n →
        ∃ m, (unary .neg (.number (.integer n))).toValue = .ok (.number m) ∧
          (m == .integer k) = true := by
  refine ⟨fun v => ⟨t.toValue_concludes.ensures v, fun h => h.1.toValue h.2⟩,
    t.toValue_overflow_iff, fun n k hk => ?_⟩
  obtain ⟨m, hm, hequal⟩ := exists_oppositeNumber hk
  refine ⟨m, ?_, hequal⟩
  rw [toValue, hm]
  rfl

/-- Signs that are parts of numbers, signs in front of them, and both. -/
def signed : Term :=
  .object [(.variable "low", .array [.unary .neg (.number (.integer (-3))),
      .parens (.number (.integer (-2 ^ 63)))]),
    (.text "high", .unary .neg (.number (.integer (-2 ^ 63 + 1))))]

/-- What it stands for. -/
def signedValue : Value :=
  .map [("low", .list [.number (.integer 3), .number (.integer Int64.minValue)]),
    ("high", .number (.integer Int64.maxValue))]

/-- A sign directly in front of digits is a part of the number, so the least integer may stand in
the term. -/
theorem signed_denotes : signed.Denotes signedValue := by
  have hlow : (Term.array [.unary .neg (.number (.integer (-3))),
      .parens (.number (.integer (-2 ^ 63)))]).Denotes
        (.list [.number (.integer 3), .number (.integer Int64.minValue)]) := by
    refine @Term.Denotes.array
      [(_, .number (.integer 3)), (_, .number (.integer Int64.minValue))] ?_
    refine List.forall_mem_cons.mpr ⟨?_, List.forall_mem_singleton.mpr ?_⟩
    · exact .negated (.integer (i := -3) rfl) (.integer rfl)
    · exact .parens (.number (.integer rfl))
  have hhigh : (Term.unary .neg (.number (.integer (-2 ^ 63 + 1)))).Denotes
      (.number (.integer Int64.maxValue)) :=
    .negated (.integer (i := -Int64.maxValue) rfl) (.integer rfl)
  refine @Term.Denotes.object
    [⟨.variable "low", _, "low", _⟩, ⟨.text "high", _, "high", _⟩] ?_ ?_
  · exact List.forall_mem_cons.mpr ⟨.bare _, List.forall_mem_singleton.mpr (.quoted _)⟩
  · exact List.forall_mem_cons.mpr ⟨hlow, List.forall_mem_singleton.mpr hhigh⟩

/-- The values are those of the terms, also at both ends of 64 bits. -/
theorem signed_toValue : (signed.Denotes signedValue ∧ ¬signed.NegatesLeast) ∧
    signed.toValue = .ok signedValue ∧
    (-3 : Int64).toInt = -3 ∧ ∃ m, (Term.unary .neg (.number (.integer 3))).toValue =
      .ok (.number m) ∧ (m == .integer (-3)) = true := by
  have hleast : ¬signed.NegatesLeast := by
    intro h
    cases h with
    | object hentry h =>
      rcases List.mem_pair.mp hentry with rfl | rfl
      · cases h with
        | array ht h =>
          rcases List.mem_pair.mp ht with rfl | rfl
          · cases h
          · cases h with
            | parens h => cases h
      · cases h
  obtain ⟨hdenotes, -, hopposite⟩ := Term.toValue_denotes signed
  have hsigned : signed.Denotes signedValue ∧ ¬signed.NegatesLeast := ⟨signed_denotes, hleast⟩
  exact ⟨hsigned, (hdenotes _).mpr hsigned, rfl, hopposite 3 (-3) rfl⟩

/-! ## Two signs

The sign directly in front of the digits is a part of the number, and one more sign negates it. -/

variable {s : List Char} {n : Numeral}

/-- At the end of the text no access follows. -/
theorem readAccesses_nil : Takes (readAccesses false []) ([], .text "") [] := by
  have hskip : skip false [] = [] := by rw [skip]
  have hlist : Takes (readAccessList false []) ([], .text "") [] := by
    rw [readAccessList]
    split <;> rename_i heq
    · cases hskip.symm.trans heq
    · cases hskip.symm.trans heq
    · rfl
  rw [readAccesses, hskip]
  exact hlist

/-- At the end of the text no operator follows. -/
theorem readOperators_nil : Takes (readOperators false []) ([], .text "", false) [] := by
  have hnone : operator? (skip false []) = none := by
    rw [skip]
    rfl
  rw [readOperators, hnone]
  rfl

/-- There are no blanks in front of a digit. -/
theorem skip_digit (h : startsWithDigit s = true) : skip false s = s := by
  cases s with
  | nil => cases h
  | cons c s =>
    refine skip_of_stops (fun hmem => ?_) _ _
    simp only [List.mem_cons, List.not_mem_nil, or_false] at hmem
    rcases hmem with rfl | rfl | rfl | rfl | rfl | rfl <;> cases h

/-- A sign in front of digits is read with them as one numeral. -/
theorem readOperand_signed (hdigit : startsWithDigit s = true) (h : Takes (number? s) n []) :
    ∃ w, Takes (readOperand false ('-' :: s)) (.number n.negate, w, false) [] := by
  have hskip := skip_digit hdigit
  rw [← hskip] at h
  obtain ⟨_, hnumber⟩ := h.exists_eq
  obtain ⟨_, haccesses⟩ := readAccesses_nil.exists_eq
  refine ⟨.source ('-' :: s) [] ++ .text "", ?_⟩
  rw [readOperand]
  simp only [hnumber, Option.bind_eq_bind, Option.bind_some, haccesses, hskip, hdigit, if_true]
  rfl

/-- The first of two signs is an operator, and the second one belongs to the digits. -/
theorem readOperand_twoSigns (hdigit : startsWithDigit s = true) (h : Takes (number? s) n []) :
    ∃ w, Takes (readOperand false ('-' :: '-' :: s)) (.unary .neg (.number n.negate), w, false)
      [] := by
  have hskip : skip false ('-' :: s) = '-' :: s := skip_of_stops (by decide) _ _
  obtain ⟨w, hinner⟩ := readOperand_signed hdigit h
  rw [← hskip] at hinner
  obtain ⟨_, hinner⟩ := hinner.exists_eq
  have hsign : startsWithDigit (skip false ('-' :: s)) = false := by
    rw [hskip]
    rfl
  refine ⟨.source ('-' :: '-' :: s) (skip false ('-' :: s)) ++ w, ?_⟩
  rw [readOperand]
  simp only [hsign, Bool.false_eq_true, if_false, hinner]
  rfl

/-- Two signs in front of digits are the negation of a negative numeral. -/
theorem parse?_twoSigns (hdigit : startsWithDigit s = true) (h : Takes (number? s) n []) :
    Term.parse? (String.ofList ('-' :: '-' :: s)) = some (.unary .neg (.number n.negate)) := by
  obtain ⟨w, hoperand⟩ := readOperand_twoSigns hdigit h
  obtain ⟨_, hoperand⟩ := hoperand.exists_eq
  obtain ⟨_, hoperators⟩ := readOperators_nil.exists_eq
  have hcondition : char? '?' (skip false []) = none := by
    rw [skip]
    rfl
  have hterm : Takes (readTerm false ('-' :: '-' :: s))
      (.unary .neg (.number n.negate), w ++ .text "") [] := by
    rw [readTerm, hoperand]
    simp only [Option.bind_eq_bind, Option.bind_some, hoperators, hcondition]
    rfl
  rw [← String.toList_ofList (l := '-' :: '-' :: s)] at hterm
  obtain ⟨_, hterm⟩ := hterm.exists_eq
  rw [Term.parse?, hterm]

/-- Two signs in front of the magnitude of the least integer: the term denotes a decimal, and the
conversion overflows. -/
theorem negatedLeast_overflows : ∃ t, Term.parse? "--9223372036854775808" = some t ∧
    t.toValue = .error .overflow ∧ t.Denotes (.number (.decimal (Float.ofInt (2 ^ 63)))) := by
  have hmagnitude : Takes (number? ['9', '2', '2', '3', '3', '7', '2', '0', '3', '6', '8', '5', '4',
      '7', '7', '5', '8', '0', '8']) (.integer (2 ^ 63)) [] := by cbv
  have hnegate : (Numeral.integer (2 ^ 63)).negate = .integer (-2 ^ 63) := by
    rw [Numeral.negate, if_pos (by decide)]
  have hparse := parse?_twoSigns rfl hmagnitude
  rw [hnegate] at hparse
  have hleast : (Numeral.integer (-2 ^ 63)).Denotes (.integer Int64.minValue) := .integer rfl
  refine ⟨_, hparse, Term.Overflows.here.toValue, .negated hleast (.wide fun k hk => ?_)⟩
  have hlt := k.toInt_lt
  rw [hk, Int64.toInt_minValue] at hlt
  omega

end Config

end Deployment
