import Interleave.Json.Value

namespace Interleave.Json

namespace Reader

variable {α β : Type}

/-- From a text, the reader returns a value and leaves this rest. -/
def Returns (reader : Reader α) (text : List Char) (value : α) (rest : List Char) : Prop :=
  reader text = .ok (value, rest)

theorem returns_pure (value : α) (text : List Char) :
    Returns (pure value) text value text :=
  rfl

theorem returns_bind_iff
    {reader : Reader α} {next : α → Reader β} {text rest : List Char} {value : β} :
    Returns (reader >>= next) text value rest ↔
      ∃ found middle, reader.Returns text found middle ∧
        (next found).Returns middle value rest := by
  change (reader text >>= fun read => next read.1 read.2) = _ ↔ _
  unfold Returns
  cases reader text with
  | error problem =>
      constructor
      · intro bound
        cases bound
      · rintro ⟨found, middle, impossible, -⟩
        cases impossible
  | ok read =>
      constructor
      · intro bound
        exact ⟨read.1, read.2, rfl, bound⟩
      · rintro ⟨found, middle, same, bound⟩
        cases same
        exact bound

theorem Returns.bind
    {reader : Reader α} {next : α → Reader β} {text middle rest : List Char} {found : α} {value : β}
    (first : reader.Returns text found middle) (second : (next found).Returns middle value rest) :
    Returns (reader >>= next) text value rest :=
  returns_bind_iff.mpr ⟨found, middle, first, second⟩

theorem returns_get (text : List Char) : Returns get text text text := rfl

theorem returns_drop (char : Char) (rest : List Char) : drop.Returns (char :: rest) () rest := rfl

theorem returns_peek {char : Char} (visible : isBlank char = false) (rest : List Char) :
    peek.Returns (char :: rest) (some char) (char :: rest) :=
  peek_cons visible

theorem returns_word (expected rest : List Char) :
    (word expected).Returns (expected ++ rest) () rest := by
  induction expected with
  | nil => exact returns_pure _ _
  | cons char more induction =>
      refine (returns_get _).bind ?_
      simp only [List.cons_append, List.head?_cons, ne_eq, not_true_eq_false, if_false]
      exact (returns_drop _ _).bind induction

theorem returns_mark
    {expected : Char} (visible : isBlank expected = false) (otherwise : Cause)
    (rest : List Char) : (mark expected otherwise).Returns (expected :: rest) () rest := by
  refine (returns_peek visible rest).bind ?_
  simp only [if_true]
  exact returns_drop _ _

theorem returns_colon (rest : List Char) : colon.Returns (':' :: rest) () rest :=
  returns_mark rfl _ rest

theorem returns_openName (rest : List Char) : openName.Returns ('\"' :: rest) () rest :=
  returns_mark rfl _ rest

theorem returns_finish : finish.Returns [] () [] := rfl

end Reader

namespace Enclosure

variable (enclosure : Enclosure)

theorem isBlank_closing : Reader.isBlank enclosure.closing = false := by
  cases enclosure <;> rfl

theorem closing_ne_comma : enclosure.closing ≠ ',' := by
  cases enclosure <;> decide

end Enclosure

def separator (first : Bool) : List Char := if first then [] else [',']

def delimited : Bool → List (List Char) → List Char
  | _, [] => []
  | first, value :: more => separator first ++ (value ++ delimited false more)

namespace Reader

theorem returns_anotherExpected_closing (enclosure : Enclosure) (first : Bool) (rest : List Char) :
    (anotherExpected enclosure first).Returns (enclosure.closing :: rest) false
      (enclosure.closing :: rest) := by
  have ended : (another enclosure first).Returns (enclosure.closing :: rest) false
      (enclosure.closing :: rest) := by
    refine (returns_peek enclosure.isBlank_closing rest).bind ?_
    simp only [if_true]
    exact returns_pure _ _
  exact ended.bind (returns_pure _ _)

theorem returns_another
    {enclosure : Enclosure} {char : Char} (visible : isBlank char = false)
    (further : char ≠ enclosure.closing) (first : Bool) (rest : List Char) :
    (another enclosure first).Returns (separator first ++ char :: rest) true (char :: rest) := by
  cases first with
  | true =>
      refine (returns_peek visible rest).bind ?_
      simp only [if_neg further, if_true]
      exact returns_pure _ _
  | false =>
      refine (returns_peek (show isBlank ',' = false from rfl) (char :: rest)).bind ?_
      simp only [if_neg enclosure.closing_ne_comma.symm, Bool.false_eq_true, if_false, if_true]
      exact (returns_drop _ _).bind (returns_pure _ _)

theorem returns_anotherExpected
    (enclosure : Enclosure) {char : Char} (visible : isBlank char = false)
    (further : char ≠ enclosure.closing) (first : Bool) (rest : List Char) :
    (anotherExpected enclosure first).Returns (separator first ++ char :: rest) true
      (char :: rest) := by
  refine (returns_another visible further first rest).bind ?_
  simp only [if_true]
  refine (returns_peek visible rest).bind ?_
  simp only [if_neg further]
  exact returns_pure _ _

end Reader

/-- What may stand after a value: the end of the text or of what encloses the value, or a comma. -/
inductive Ends : List Char → Prop
  | text : Ends []
  | list (rest : List Char) : Ends (']' :: rest)
  | object (rest : List Char) : Ends ('\x7d' :: rest)
  | comma (rest : List Char) : Ends (',' :: rest)

theorem ends_closing (enclosure : Enclosure) (rest : List Char) :
    Ends (enclosure.closing :: rest) := by
  cases enclosure with
  | list => exact .list rest
  | object => exact .object rest

theorem ends_delimited (values : List (List Char)) (enclosure : Enclosure) (rest : List Char) :
    Ends (delimited false values ++ enclosure.closing :: rest) := by
  cases values with
  | nil => exact ends_closing enclosure rest
  | cons => exact .comma _

/-- There are fewer values than characters, if each value has one. -/
theorem length_lt_delimited
    {α : Type} {write : α → List Char} {values : List α}
    (shown : ∀ value ∈ values, write value ≠ [])
    (first : Bool) (rest : List Char) :
    values.length < (delimited first (values.map write) ++ rest).length + 1 := by
  induction values generalizing first with
  | nil => exact Nat.succ_pos _
  | cons value more induction =>
      have length : 0 < (write value).length :=
        List.length_pos_iff.mpr (shown value List.mem_cons_self)
      have := induction (fun other member => shown other (List.mem_cons_of_mem _ member)) false
      simp only [List.map_cons, delimited, List.append_assoc, List.length_cons,
        List.length_append] at this ⊢
      omega

namespace Reader

variable {α β : Type}

/-- The reader takes exactly these characters for the value, wherever the value may end. -/
def Takes (reader : Reader α) (written : List Char) (value : α) : Prop :=
  ∀ ⦃rest : List Char⦄, Ends rest → reader.Returns (written ++ rest) value rest

theorem Takes.bind_pure
    {reader : Reader α} {written : List Char} {value : α} (takes : reader.Takes written value)
    (change : α → β) :
    Takes (reader >>= fun found => pure (change found)) written (change value) :=
  fun _ ends => (takes ends).bind (returns_pure _ _)

theorem Takes.map
    {reader : Reader α} {written : List Char} {value : α} (takes : reader.Takes written value)
    (change : α → β) : Takes (change <$> reader) written (change value) := by
  rw [← bind_pure_comp]
  exact takes.bind_pure change

theorem run_of_takes
    {reader : Reader α} {written : List Char} {value : α} (takes : reader.Takes written value) :
    reader.run (String.ofList written) = .ok value := by
  have returned := takes .text
  rw [List.append_nil] at returned
  have finished : Reader.Returns (do
      let value ← reader
      finish
      return value) written value [] :=
    returned.bind (returns_finish.bind (returns_pure _ _))
  rw [run, String.toList_ofList]
  exact congrArg (Except.map Prod.fst) finished

end Reader

end Interleave.Json
