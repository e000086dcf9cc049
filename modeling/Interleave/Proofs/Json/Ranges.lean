import Interleave.Json.Record
import Interleave.Proofs.Json.Reading

namespace Interleave.Json

variable {α β π : Type}

namespace Reader

/-- Every value that the reader returns is of this kind. -/
def Yields (reader : Reader α) (kind : α → Prop) : Prop :=
  ∀ ⦃text : List Char⦄ ⦃value : α⦄ ⦃rest : List Char⦄, reader.Returns text value rest → kind value

variable {reader : Reader α} {next : α → Reader β} {kind : α → Prop} {result : β → Prop}

theorem yields_pure {value : α} (holds : kind value) : Yields (pure value) kind := by
  rintro text found rest returned
  cases returned
  exact holds

theorem yields_blocked (cause : Cause) : (blocked cause).Yields kind := by
  rintro text value rest ⟨⟩

theorem yields_refuse (mismatch : Mismatch) : (refuse mismatch).Yields kind := by
  rintro text value rest ⟨⟩

theorem Yields.bind
    (first : reader.Yields kind) (second : ∀ found, kind found → (next found).Yields result) :
    Yields (reader >>= next) result := by
  intro text value rest returned
  obtain ⟨found, middle, read, went⟩ := returns_bind_iff.mp returned
  exact second found (first read) went

theorem Yields.map
    (yields : reader.Yields kind) {change : α → β}
    (carried : ∀ value, kind value → result (change value)) :
    Yields (change <$> reader) result := by
  rw [← bind_pure_comp]
  exact yields.bind fun found holds => yields_pure (carried found holds)

theorem yields_bind (reader : Reader α) (second : ∀ found, (next found).Yields result) :
    Yields (reader >>= next) result := by
  intro text value rest returned
  obtain ⟨found, middle, -, went⟩ := returns_bind_iff.mp returned
  exact second found went

theorem yields_refuseAll (enclosure : Enclosure) (mismatch : Mismatch) :
    (refuseAll enclosure mismatch).Yields kind := by
  refine yields_bind _ fun next => ?_
  dsimp only
  split
  · exact yields_bind _ fun _ => yields_refuse _
  · exact yields_refuse _

theorem yields_refuseFound (expected : String) : (refuseFound expected).Yields kind :=
  yields_bind _ fun _ => yields_refuse _

end Reader

def Found.InWord : Found → Prop
  | natural value => value < wordSize
  | _ => True

theorem Numeral.inWord_of_whole?
    {negative : Bool} {numeral : Numeral} {found : Found}
    (known : numeral.whole? negative = some found) : found.InWord := by
  unfold whole? at known
  split at known
  · dsimp only at known
    split at known
    · split at known <;> cases known
      trivial
    · split at known <;> cases known
      assumption
  · cases known

namespace Reader

theorem yields_number (negative : Bool) : (number negative).Yields Found.InWord := by
  refine yields_bind _ fun numeral => ?_
  split
  case h_1 known => exact yields_pure (Numeral.inWord_of_whole? known)
  case h_2 => exact yields_pure trivial
  case h_3 => rintro text value rest ⟨⟩

theorem yields_found : found.Yields Found.InWord := by
  refine yields_bind _ fun next => ?_
  cases next with
  | none => exact yields_blocked _
  | some char =>
      dsimp only
      split
      -- the words, a text, a number below zero, and what encloses other values
      case h_1 | h_2 | h_3 => exact yields_bind _ fun _ => yields_pure trivial
      case h_4 => exact yields_bind _ fun _ => yields_bind _ fun _ => yields_pure trivial
      case h_5 => exact yields_bind _ fun _ => yields_number true
      case h_6 | h_7 => exact yields_pure trivial
      case h_8 =>
          split
          · exact yields_number false
          · exact yields_blocked _

theorem yields_natural : natural.Yields fun value => value < wordSize := by
  refine yields_found.bind fun found inWord => ?_
  cases found with
  | natural value => exact yields_pure inWord
  | _ => exact yields_refuse _

theorem yields_optional (yields : reader.Yields kind) :
    (optional reader).Yields fun value => ∀ content ∈ value, kind content := by
  refine yields_bind _ fun next => ?_
  split
  · exact yields_bind _ fun _ => yields_pure (by simp)
  · exact yields.bind fun content holds => yields_pure (by simpa using holds)

theorem yields_items (yields : reader.Yields kind) (most : Nat) (first : Bool) :
    (items reader most first).Yields fun values => ∀ value ∈ values, kind value := by
  induction most generalizing first with
  | zero => exact yields_blocked _
  | succ most induction =>
      refine yields_bind _ fun further => ?_
      split
      · refine yields.bind fun value holds => (induction false).bind fun values others => ?_
        exact yields_pure (List.forall_mem_cons.mpr ⟨holds, others⟩)
      · exact yields_bind _ fun _ => yields_pure (by simp)

theorem yields_list (yields : reader.Yields kind) :
    (list reader).Yields fun values => ∀ value ∈ values, kind value := by
  refine yields_bind _ fun next => ?_
  split
  · exact yields_blocked _
  · exact yields_bind _ fun _ => yields_bind _ fun _ => yields_items yields _ _
  · exact yields_refuseFound _

end Reader

namespace Record

variable {fields : List (Field π)} {kept : π → Prop}

def Keep (fields : List (Field π)) (kept : π → Prop) : Prop :=
  ∀ field ∈ fields, ∀ part, kept part → (field.read part).Yields kept

theorem yields_positional (keep : Keep fields kept) (expected : String) {part : π}
    (start : kept part) (before : Nat) : (positional expected fields before part).Yields kept := by
  induction fields generalizing part before with
  | nil => exact Reader.yields_bind _ fun _ => Reader.yields_pure start
  | cons field rest induction =>
      refine Reader.yields_bind _ fun further => ?_
      split
      · refine (keep field List.mem_cons_self part start).bind fun next holds => ?_
        exact induction (fun other member => keep other (List.mem_cons_of_mem _ member)) holds _
      · exact Reader.yields_refuseAll _ _

theorem yields_named (keep : Keep fields kept) (most : Nat) (first : Bool) {part : π}
    (start : kept part) : (named fields most first part).Yields kept := by
  induction most generalizing first part with
  | zero => exact Reader.yields_blocked _
  | succ most induction =>
      refine Reader.yields_bind _ fun further => ?_
      split
      · refine Reader.yields_bind _ fun _ => Reader.yields_bind _ fun name => ?_
        split
        · exact Reader.yields_bind _ fun _ => Reader.yields_bind _ fun _ => induction false start
        · rename_i field known
          have further : Reader.Yields (do
              Reader.colon
              named fields most false (← field.read part)) kept :=
            Reader.yields_bind _ fun _ =>
              (keep field (List.mem_of_find?_eq_some known) part start).bind fun _ holds =>
                induction false holds
          split
          · exact Reader.yields_bind _ fun _ => further
          · exact further
      · exact Reader.yields_bind _ fun _ => Reader.yields_pure start

theorem yields_record
    {make : π → Option α} {kind : α → Prop} (title : String) (keep : Keep fields kept) {start : π}
    (holds : kept start) (made : ∀ part value, kept part → make part = some value → kind value) :
    (read title fields start make).Yields kind := by
  refine Reader.yields_bind _ fun next => ?_
  -- whatever the text starts with, a part is kept, and the record is made of it
  split
  case' h_1 => refine (show Reader.Yields _ kept from Reader.yields_blocked _).bind ?_
  case' h_2 => refine Reader.yields_bind _ fun _ => (yields_positional keep _ holds 0).bind ?_
  case' h_3 =>
      refine Reader.yields_bind _ fun _ => Reader.yields_bind _ fun _ =>
        (yields_named keep _ true holds).bind ?_
  case' h_4 => refine (show Reader.Yields _ kept from Reader.yields_refuseFound _).bind ?_
  all_goals
    intro part held
    dsimp only
    split
    case h_1 value known => exact Reader.yields_pure (made part value held known)
    case h_2 => exact Reader.yields_refuse _

end Record

end Interleave.Json
