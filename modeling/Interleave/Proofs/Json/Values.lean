import Interleave.Json.Form
import Interleave.Proofs.Json.Reading

namespace Interleave.Json

theorem separated_eq (values : List (List Char)) :
    Form.separated values = delimited true values := by
  induction values with
  | nil => rfl
  | cons value more induction =>
      cases more with
      | nil => simp [Form.separated, delimited, separator]
      | cons next more =>
          change (value ++ (',' :: Form.separated (next :: more))) = _
          rw [induction]
          rfl

namespace Numeral

theorem extend_eq (number : Nat) (digits : List Char) :
    extend number digits = Nat.ofDigitChars 10 digits number := by
  simp only [extend, Nat.ofDigitChars, digitValue, Nat.mul_comm]

theorem extend_writeNatural (value : Nat) : extend 0 (writeNatural value) = value := by
  rw [extend_eq]
  exact Nat.ofDigitChars_toDigits (by decide) (by decide)

theorem isDigit_of_mem_writeNatural {value : Nat} {digit : Char}
    (member : digit ∈ writeNatural value) : digit.isDigit = true :=
  Nat.isDigit_of_mem_toDigits (by decide) (by decide) member

theorem exists_writeNatural (value : Nat) :
    ∃ digit more, writeNatural value = digit :: more ∧ digit.isDigit = true ∧
      (digit = '0' → value = 0) := by
  induction value using Nat.strongRecOn with
  | ind value induction =>
      by_cases small : value < 10
      · refine ⟨Nat.digitChar value, [], Nat.toDigits_of_lt_base small, ?_, ?_⟩
        · simpa [Nat.isDigit_digitChar] using small
        · exact Nat.digitChar_eq_zero.mp
      · obtain ⟨digit, more, written, numeric, leading⟩ := induction (value / 10) (by omega)
        refine ⟨digit, more ++ [Nat.digitChar (value % 10)], ?_, numeric, ?_⟩
        · calc
            writeNatural value = writeNatural (value / 10) ++ [Nat.digitChar (value % 10)] :=
              Nat.toDigits_of_base_le (by decide) (by omega)
            _ = digit :: (more ++ [Nat.digitChar (value % 10)]) := by
              rw [written, List.cons_append]
        · intro zero
          have := leading zero
          omega

end Numeral

namespace Ends

variable {rest : List Char}

theorem startsWithDigit_eq (ends : Ends rest) : Numeral.startsWithDigit rest = false := by
  cases ends <;> rfl

theorem head?_ne (ends : Ends rest) (char : Char) (different : char ∉ [',', ']', '\x7d']) :
    rest.head? ≠ some char := by
  cases ends <;> simp_all [eq_comm]

end Ends

namespace Numeral

variable {rest : List Char}

theorem returns_takeDigits {digits : List Char} (numeric : ∀ digit ∈ digits, digit.isDigit = true)
    (ends : startsWithDigit rest = false) : takeDigits.Returns (digits ++ rest) digits rest := by
  have apart : rest.takeWhile Char.isDigit = [] ∧ rest.dropWhile Char.isDigit = rest := by
    cases rest with
    | nil => exact ⟨rfl, rfl⟩
    | cons char rest =>
        have other : char.isDigit = false := ends
        simp [other]
  change Except.ok (_, _) = _
  rw [List.takeWhile_append_of_pos numeric, List.dropWhile_append_of_pos numeric, apart.1, apart.2,
    List.append_nil]

theorem returns_startDigits (atEnd : Cause) (value : Nat) (ends : startsWithDigit rest = false) :
    (startDigits atEnd).Returns (writeNatural value ++ rest) (writeNatural value) rest := by
  refine (Reader.returns_get _).bind ?_
  obtain ⟨digit, more, written, -, leading⟩ := exists_writeNatural value
  by_cases zero : value = 0
  · subst zero
    change Reader.Returns (if some '0' = some '0' then _ else _) ('0' :: rest) ['0'] rest
    rw [if_pos rfl]
    refine (Reader.returns_drop _ _).bind ((Reader.returns_get _).bind ?_)
    simp only [ends, Bool.false_eq_true, if_false]
    exact Reader.returns_pure _ _
  · have nonzero : digit ≠ '0' := fun same => zero (leading same)
    have taken : takeDigits.Returns (writeNatural value ++ rest) (writeNatural value) rest :=
      returns_takeDigits (fun _ => isDigit_of_mem_writeNatural) ends
    rw [written] at taken ⊢
    simp only [List.cons_append, List.head?_cons, Option.some.injEq, nonzero, if_false]
    exact taken.bind ((Reader.returns_get _).bind (Reader.returns_pure _ _))

theorem returns_read (atEnd : Cause) (value : Nat) (ends : Ends rest) :
    (read atEnd).Returns (writeNatural value ++ rest) ⟨writeNatural value, none, none⟩ rest := by
  refine (returns_startDigits atEnd value ends.startsWithDigit_eq).bind
    ((Reader.returns_get _).bind ?_)
  simp only [ends.head?_ne '.' (by decide), if_false]
  refine (Reader.returns_pure _ _).bind
    ((Reader.returns_get _).bind ((Reader.returns_get _).bind ?_))
  simp only [ends.head?_ne 'e' (by decide), ends.head?_ne 'E' (by decide), or_self, if_false]
  exact (Reader.returns_pure _ _).bind (Reader.returns_pure _ _)

theorem whole?_writeNatural {value : Nat} (inWord : value < wordSize) :
    whole? false ⟨writeNatural value, none, none⟩ = some (.natural value) := by
  simp only [whole?, extend_writeNatural, Bool.false_eq_true, if_false, inWord, if_true]

end Numeral

namespace Reader

variable {α : Type}

theorem takes_number {value : Nat} (inWord : value < wordSize) :
    (number false).Takes (writeNatural value) (.natural value) := by
  intro rest ends
  refine (Numeral.returns_read _ value ends).bind ?_
  rw [Numeral.whole?_writeNatural inWord]
  exact returns_pure _ _

theorem isBlank_of_isDigit {char : Char} (numeric : char.isDigit = true) :
    isBlank char = false := by
  simp only [isBlank, Bool.or_eq_false_iff, decide_eq_false_iff_not]
  refine ⟨⟨⟨?_, ?_⟩, ?_⟩, ?_⟩ <;>
  · rintro rfl
    exact absurd numeric (by decide)

theorem takes_natural {value : Nat} (inWord : value < wordSize) :
    natural.Takes (writeNatural value) value := by
  intro rest ends
  have number := takes_number inWord ends
  have found : found.Returns (writeNatural value ++ rest) (.natural value) rest := by
    obtain ⟨digit, more, written, numeric, -⟩ := Numeral.exists_writeNatural value
    rw [written] at number ⊢
    refine (returns_peek (isBlank_of_isDigit numeric) _).bind ?_
    dsimp only
    -- no other value starts with a digit
    split
    case h_8 =>
        rw [if_pos numeric]
        exact number
    all_goals exact absurd numeric (by decide)
  exact found.bind (returns_pure _ _)

theorem returns_quoted (content : String) (rest : List Char) :
    quoted.Returns (content.toList.flatMap Quoted.writeChar ++ '\"' :: rest) content.toList rest :=
  Quoted.content_write content.toList rest

theorem writeText_append (content : String) (rest : List Char) :
    Form.writeText content ++ rest =
      '\"' :: (content.toList.flatMap Quoted.writeChar ++ '\"' :: rest) := by
  simp [Form.writeText, Quoted.write]

theorem takes_text (content : String) : text.Takes (Form.writeText content) content.toList := by
  intro rest _
  rw [writeText_append]
  have found : found.Returns ('\"' :: (content.toList.flatMap Quoted.writeChar ++ '\"' :: rest))
      (.quoted content.toList) rest := by
    refine (returns_peek rfl _).bind ((returns_drop _ _).bind ?_)
    exact (returns_quoted content rest).bind (returns_pure _ _)
  exact found.bind (returns_pure _ _)

theorem takes_truth (value : Bool) : truth.Takes (Form.writeTruth value) value := by
  intro rest _
  have found : found.Returns (Form.writeTruth value ++ rest) (.truth value) rest := by
    cases value with
    | true => exact (returns_peek rfl _).bind ((returns_word _ rest).bind (returns_pure _ _))
    | false => exact (returns_peek rfl _).bind ((returns_word _ rest).bind (returns_pure _ _))
  exact found.bind (returns_pure _ _)

def Opens (written : List Char) : Prop :=
  ∃ char more, written = char :: more ∧ isBlank char = false ∧ char ≠ 'n' ∧ char ≠ ']'

theorem ne_nil_of_opens {written : List Char} (opens : Opens written) : written ≠ [] := by
  obtain ⟨char, more, rfl, -⟩ := opens
  exact List.cons_ne_nil _ _

theorem opens_writeNatural (value : Nat) : Opens (writeNatural value) := by
  obtain ⟨digit, more, written, numeric, -⟩ := Numeral.exists_writeNatural value
  refine ⟨digit, more, written, isBlank_of_isDigit numeric, ?_, ?_⟩ <;>
  · rintro rfl
    exact absurd numeric (by decide)

section Items

variable {read : Reader α} {write : α → List Char}

theorem takes_optional
    {value : Option α}
    (each : ∀ content ∈ value, Opens (write content) ∧ read.Takes (write content) content) :
    (optional read).Takes (Form.writeOptional write value) value := by
  intro rest ends
  cases value with
  | none =>
      refine (returns_peek (show isBlank 'n' = false from rfl) _).bind ?_
      simp only [if_true]
      exact (returns_word _ rest).bind (returns_pure _ _)
  | some content =>
      obtain ⟨opens, takes⟩ := each content rfl
      have returned := takes ends
      obtain ⟨char, more, written, visible, present, -⟩ := opens
      change Returns _ (write content ++ rest) _ _
      rw [written] at returned ⊢
      refine (returns_peek visible _).bind ?_
      simp only [Option.some.injEq, present, if_false]
      exact returned.bind (returns_pure _ _)

theorem returns_items
    {values : List α}
    (each : ∀ value ∈ values, Opens (write value) ∧ read.Takes (write value) value)
    (first : Bool) {most : Nat} (enough : values.length < most) (rest : List Char) :
    (items read most first).Returns (delimited first (values.map write) ++ ']' :: rest) values
      rest := by
  induction values generalizing first most with
  | nil =>
      obtain ⟨most, rfl⟩ := Nat.exists_eq_add_one_of_ne_zero (Nat.ne_of_gt enough)
      refine (returns_anotherExpected_closing .list first rest).bind ?_
      simp only [Bool.false_eq_true, if_false]
      exact (returns_drop _ _).bind (returns_pure _ _)
  | cons value more induction =>
      obtain ⟨most, rfl⟩ := Nat.exists_eq_add_one_of_ne_zero
        (Nat.ne_of_gt (Nat.zero_lt_of_lt enough))
      have others := induction (fun other member => each other (List.mem_cons_of_mem _ member))
        false (Nat.lt_of_succ_lt_succ enough)
      -- the value ends where the comma before the next one stands, or the end of the list
      obtain ⟨opens, takes⟩ := each value List.mem_cons_self
      have returned := takes (ends_delimited (more.map write) .list rest)
      obtain ⟨char, written, start, visible, -, further⟩ := opens
      simp only [List.map_cons, delimited, List.append_assoc]
      rw [start] at returned ⊢
      refine (returns_anotherExpected .list visible further first _).bind ?_
      simp only [if_true]
      exact returned.bind (others.bind (returns_pure _ _))

theorem takes_list
    {values : List α}
    (each : ∀ value ∈ values, Opens (write value) ∧ read.Takes (write value) value) :
    (list read).Takes (Form.writeList write values) values := by
  intro rest _
  have whole : Form.writeList write values ++ rest =
      '[' :: (delimited true (values.map write) ++ ']' :: rest) := by
    simp [Form.writeList, separated_eq]
  rw [whole]
  refine (returns_peek (show isBlank '[' = false from rfl) _).bind ?_
  refine (returns_drop _ _).bind ((returns_get _).bind ?_)
  exact returns_items each true
    (length_lt_delimited (fun value member => ne_nil_of_opens (each value member).1) true _) rest

end Items

end Reader

end Interleave.Json
