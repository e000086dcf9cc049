import Interleave.Proofs.Json.Values

namespace Interleave.Json

variable {α π : Type}

namespace Record

/-- The members are fields that have not been read before, and lead from one part to another. -/
inductive Fills (fields : List (Field π)) : π → List (String × List Char) → π → Prop
  | done (part : π) : Fills fields part [] part
  | member
      {part next last : π} {name : String} {written : List Char}
      {members : List (String × List Char)} (field : Field π)
      (known : fields.find? (fun field => field.name = name) = some field)
      (unread : field.isRead part = false)
      (takes : (field.read part).Takes written next)
      (others : Fills fields next members last) :
      Fills fields part ((name, written) :: members) last

theorem writeMember_append (name : String) (written rest : List Char) :
    Form.writeMember (name, written) ++ rest =
      '\"' :: (name.toList.flatMap Quoted.writeChar ++ '\"' :: ':' :: (written ++ rest)) := by
  simp [Form.writeMember, Reader.writeText_append]

theorem returns_named
    {fields : List (Field π)} {part last : π} {members : List (String × List Char)}
    (fills : Fills fields part members last) (first : Bool) {most : Nat}
    (enough : members.length < most) (rest : List Char) :
    (named fields most first part).Returns
      (delimited first (members.map Form.writeMember) ++ '\x7d' :: rest) last rest := by
  induction fills generalizing first most with
  | done part =>
      obtain ⟨most, rfl⟩ := Nat.exists_eq_add_one_of_ne_zero (Nat.ne_of_gt enough)
      refine (Reader.returns_anotherExpected_closing .object first rest).bind ?_
      simp only [Bool.false_eq_true, if_false]
      exact (Reader.returns_drop _ _).bind (Reader.returns_pure _ _)
  | @member part next last name written members field known unread takes _ induction =>
      obtain ⟨most, rfl⟩ := Nat.exists_eq_add_one_of_ne_zero
        (Nat.ne_of_gt (Nat.zero_lt_of_lt enough))
      have others := induction false (Nat.lt_of_succ_lt_succ enough)
      have returned := takes (ends_delimited (members.map Form.writeMember) .object rest)
      simp only [List.map_cons, delimited, List.append_assoc]
      rw [writeMember_append]
      refine (Reader.returns_anotherExpected .object rfl (by decide) first _).bind ?_
      simp only [if_true]
      refine (Reader.returns_openName _).bind ((Reader.returns_quoted name _).bind ?_)
      simp only [String.toList_inj, known]
      rw [if_neg (by simp [unread])]
      exact (Reader.returns_colon _).bind (returned.bind others)

theorem takes_record
    {fields : List (Field π)} {start last : π} {members : List (String × List Char)} {value : α}
    {make : π → Option α} (title : String) (fills : Fills fields start members last)
    (made : make last = some value) :
    (read title fields start make).Takes (Form.writeRecord members) value := by
  intro rest _
  have shown : ∀ member ∈ members, Form.writeMember member ≠ [] :=
    fun _ _ => List.cons_ne_nil _ _
  have whole : Form.writeRecord members ++ rest =
      '\x7b' :: (delimited true (members.map Form.writeMember) ++ '\x7d' :: rest) := by
    simp [Form.writeRecord, separated_eq]
  rw [whole]
  refine (Reader.returns_peek (show Reader.isBlank '\x7b' = false from rfl) _).bind ?_
  refine (Reader.returns_drop _ _).bind ((Reader.returns_get _).bind ?_)
  refine (returns_named fills true (length_lt_delimited shown true _) rest).bind ?_
  simp only [made]
  exact Reader.returns_pure _ _

end Record

namespace Variant

theorem takes_variant
    {ofText? : String → Option α} {name : String} {variant : α}
    (known : ofText? name = some variant) : (read ofText?).Takes (Form.writeText name) variant := by
  intro rest _
  rw [Reader.writeText_append]
  refine (Reader.returns_peek (show Reader.isBlank '\"' = false from rfl) _).bind
    ((Reader.returns_drop _ _).bind ((Reader.returns_quoted name rest).bind ?_))
  simp only [String.ofList_toList, known]
  exact Reader.returns_pure _ _

end Variant

end Interleave.Json
