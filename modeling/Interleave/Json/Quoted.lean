import Interleave.Json.Reader

namespace Interleave.Json.Quoted

def hexDigit? (char : Char) : Option Nat :=
  if char.isDigit then some (char.toNat - '0'.toNat)
  else if 'a' ≤ char ∧ char ≤ 'f' then some (char.toNat - 'a'.toNat + 10)
  else if 'A' ≤ char ∧ char ≤ 'F' then some (char.toNat - 'A'.toNat + 10)
  else none

/-- Four hexadecimal digits. A text that does not have four bytes left ends too early, and four
other bytes are refused together. -/
def hexUnit (text : List Char) : Except Problem (Nat × List Char) :=
  if bytes (text.take 4) < 4 then .error ⟨.unendedText, 0⟩
  else
    match text with
    | first :: second :: third :: fourth :: rest =>
        match hexDigit? first, hexDigit? second, hexDigit? third, hexDigit? fourth with
        | some first, some second, some third, some fourth =>
            .ok (((first * 16 + second) * 16 + third) * 16 + fourth, rest)
        | _, _, _, _ => .error ⟨.invalidEscape, bytes text - 4⟩
    | _ => .error ⟨.invalidEscape, bytes text - 4⟩

def isLeading (unit : Nat) : Bool := 0xD800 ≤ unit && unit ≤ 0xDBFF

def isTrailing (unit : Nat) : Bool := 0xDC00 ≤ unit && unit ≤ 0xDFFF

def combined (leading trailing : Nat) : Char :=
  Char.ofNat ((leading - 0xD800) * 0x400 + (trailing - 0xDC00) + 0x10000)

/-- A character by its number: one unit, or an escaped leading unit and an escaped trailing one. -/
def numbered (text : List Char) : Except Problem (Char × List Char) := do
  let (unit, rest) ← hexUnit text
  if isTrailing unit then throw ⟨.loneUnit, bytes rest⟩
  if !isLeading unit then return (Char.ofNat unit, rest)
  match rest with
  | [] | ['\\'] => throw ⟨.unendedText, 0⟩
  | '\\' :: 'u' :: rest =>
      let (trailing, rest) ← hexUnit rest
      if isTrailing trailing then return (combined unit trailing, rest)
      else throw ⟨.loneUnit, bytes rest⟩
  | '\\' :: rest => throw ⟨.brokenUnits, bytes rest - 1⟩
  | rest => throw ⟨.brokenUnits, bytes rest - 1⟩

def lettered? : Char → Option Char
  | '\"' => some '\"'
  | '\\' => some '\\'
  | '/' => some '/'
  | 'b' => some '\x08'
  | 'f' => some '\x0c'
  | 'n' => some '\n'
  | 'r' => some '\r'
  | 't' => some '\t'
  | _ => none

/-- The character that an escape stands for, after its backslash. -/
def escape : List Char → Except Problem (Char × List Char)
  | [] => .error ⟨.unendedText, 0⟩
  | 'u' :: rest => numbered rest
  | letter :: rest =>
      match lettered? letter with
      | some char => .ok (char, rest)
      | none => .error ⟨.invalidEscape, bytes (letter :: rest) - 1⟩

/-- An escape that is passed over. Its units need not make up a character. -/
def skipEscape : List Char → Except Problem (List Char)
  | [] => .error ⟨.unendedText, 0⟩
  | 'u' :: rest => (hexUnit rest).map Prod.snd
  | letter :: rest =>
      if (lettered? letter).isSome then .ok rest
      else .error ⟨.invalidEscape, bytes (letter :: rest) - 1⟩

theorem length_of_hexUnit {text rest : List Char} {unit : Nat}
    (read : hexUnit text = .ok (unit, rest)) : rest.length < text.length := by
  simp only [hexUnit] at read
  split at read
  · simp at read
  · split at read
    · split at read
      · simp only [Except.ok.injEq, Prod.mk.injEq] at read
        rw [← read.2]
        simp only [List.length_cons]
        omega
      · simp at read
    · simp at read

theorem length_of_numbered {text rest : List Char} {char : Char}
    (returned : numbered text = .ok (char, rest)) : rest.length < text.length := by
  simp only [numbered, bind, Except.bind] at returned
  split at returned
  · simp at returned
  · rename_i read first
    have shorter : read.2.length < text.length := length_of_hexUnit first
    split at returned
    · simp [throw, throwThe, MonadExceptOf.throw] at returned
    · split at returned
      · simp only [pure, Except.pure, Except.ok.injEq, Prod.mk.injEq] at returned
        rw [← returned.2]
        exact shorter
      · split at returned
        · simp [throw, throwThe, MonadExceptOf.throw] at returned
        · simp [throw, throwThe, MonadExceptOf.throw] at returned
        · rename_i more paired
          split at returned
          · simp at returned
          · rename_i second trailing
            have shorterStill : second.2.length < more.length := length_of_hexUnit trailing
            rw [paired] at shorter
            simp only [List.length_cons] at shorter
            split at returned
            · simp only [pure, Except.pure, Except.ok.injEq, Prod.mk.injEq] at returned
              rw [← returned.2]
              omega
            · simp [throw, throwThe, MonadExceptOf.throw] at returned
        · simp [throw, throwThe, MonadExceptOf.throw] at returned
        · simp [throw, throwThe, MonadExceptOf.throw] at returned

theorem length_of_escape {text rest : List Char} {char : Char}
    (returned : escape text = .ok (char, rest)) : rest.length < text.length := by
  fun_cases escape text with
  | case1 => simp [escape] at returned
  | case2 after =>
      have := length_of_numbered (by simpa [escape] using returned)
      simp only [List.length_cons]
      omega
  | case3 letter after other found =>
      simp_all [escape]
  | case4 letter after other found =>
      simp_all [escape]

/-- The text up to the closing quote, which is consumed. -/
def content (text : List Char) : Except Problem (List Char × List Char) :=
  match text with
  | [] => .error ⟨.unendedText, 0⟩
  | char :: rest =>
      if char = '\"' then .ok ([], rest)
      else if char = '\\' then
        match _escapes : escape rest with
        | .error problem => .error problem
        | .ok (escaped, after) => do
            let (chars, last) ← content after
            return (escaped :: chars, last)
      else if char.toNat < 32 then .error ⟨.controlCharacter, bytes text - 1⟩
      else do
        let (chars, last) ← content rest
        return (char :: chars, last)
termination_by text.length
decreasing_by
  · have := length_of_escape ‹escape rest = _›
    simp only [List.length_cons]
    omega
  · simp

@[simp] theorem content_quote (rest : List Char) : content ('\"' :: rest) = .ok ([], rest) := by
  rw [content]
  rfl

theorem content_plain {char : Char} {rest : List Char} (noQuote : char ≠ '\"')
    (noSlash : char ≠ '\\') (printable : 32 ≤ char.toNat) :
    content (char :: rest) = (content rest).map fun read => (char :: read.1, read.2) := by
  rw [content]
  simp only [noQuote, noSlash, if_false, show ¬ char.toNat < 32 by omega]
  cases content rest <;> rfl

theorem content_escape {char : Char} {escaped rest : List Char}
    (escaped_eq : escape escaped = .ok (char, rest)) :
    content ('\\' :: escaped) = (content rest).map fun read => (char :: read.1, read.2) := by
  rw [content]
  simp only [Char.reduceEq, if_false, if_true]
  split
  · simp_all
  · rename_i found
    rw [escaped_eq] at found
    simp only [Except.ok.injEq, Prod.mk.injEq] at found
    obtain ⟨rfl, rfl⟩ := found
    cases content rest <;> rfl

theorem length_of_skipEscape {text rest : List Char} (skipped : skipEscape text = .ok rest) :
    rest.length < text.length := by
  fun_cases skipEscape text with
  | case1 => simp [skipEscape] at skipped
  | case2 after =>
      simp only [skipEscape] at skipped
      cases unit : hexUnit after with
      | error problem => simp [unit, Except.map] at skipped
      | ok read =>
          have : read.2.length < after.length := length_of_hexUnit unit
          simp only [unit, Except.map, Except.ok.injEq] at skipped
          simp only [← skipped, List.length_cons]
          omega
  | case3 letter after other found => simp_all [skipEscape]
  | case4 letter after other found => simp_all [skipEscape]

/-- Passes over the text up to the closing quote, and the quote. The place of a control character is
before it. -/
def skip (text : List Char) : Except Problem (List Char) :=
  match text with
  | [] => .error ⟨.unendedText, 0⟩
  | char :: rest =>
      if char = '\"' then .ok rest
      else if char = '\\' then
        match _escapes : skipEscape rest with
        | .error problem => .error problem
        | .ok after => skip after
      else if char.toNat < 32 then .error ⟨.controlCharacter, bytes text⟩
      else skip rest
termination_by text.length
decreasing_by
  · have := length_of_skipEscape ‹skipEscape rest = _›
    simp only [List.length_cons]
    omega
  · simp

def hexDigit (number : Nat) : Char := Nat.digitChar number

/-- How a character is written between quotes. Control characters have a letter or are written by
their number. -/
def writeChar (char : Char) : List Char :=
  match char with
  | '\"' => ['\\', '\"']
  | '\\' => ['\\', '\\']
  | '\x08' => ['\\', 'b']
  | '\x0c' => ['\\', 'f']
  | '\n' => ['\\', 'n']
  | '\r' => ['\\', 'r']
  | '\t' => ['\\', 't']
  | char =>
      if char.toNat < 32 then
        ['\\', 'u', '0', '0', hexDigit (char.toNat / 16), hexDigit (char.toNat % 16)]
      else [char]

def write (text : List Char) : List Char := '\"' :: text.flatMap writeChar ++ ['\"']

theorem hexDigit?_hexDigit : ∀ number < 16, hexDigit? (hexDigit number) = some number := by
  decide

theorem utf8Size_hexDigit : ∀ number < 16, (hexDigit number).utf8Size = 1 := by decide

theorem hexUnit_hexDigit {number : Nat} (small : number < 256) (rest : List Char) :
    hexUnit ('0' :: '0' :: hexDigit (number / 16) :: hexDigit (number % 16) :: rest) =
      .ok (number, rest) := by
  have high : number / 16 < 16 := by omega
  have low : number % 16 < 16 := by omega
  have zero : hexDigit? '0' = some 0 := by decide
  have single : Char.utf8Size '0' = 1 := by decide
  simp [hexUnit, bytes, zero, single, hexDigit?_hexDigit _ high, hexDigit?_hexDigit _ low,
    utf8Size_hexDigit _ high, utf8Size_hexDigit _ low]
  omega

theorem escape_hexDigit {char : Char} (control : char.toNat < 32) (rest : List Char) :
    escape ('u' :: '0' :: '0' :: hexDigit (char.toNat / 16) :: hexDigit (char.toNat % 16) ::
      rest) = .ok (char, rest) := by
  have small : char.toNat < 256 := by omega
  have unit := hexUnit_hexDigit small rest
  have notLeading : isLeading char.toNat = false := by
    simp [isLeading]
    omega
  have notTrailing : isTrailing char.toNat = false := by
    simp [isTrailing]
    omega
  simp [escape, numbered, unit, bind, Except.bind, notLeading, notTrailing, pure, Except.pure]

theorem content_writeChar (char : Char) (rest : List Char) :
    content (writeChar char ++ rest) =
      (content rest).map fun read => (char :: read.1, read.2) := by
  fun_cases writeChar char with
  | case8 _ noQuote noSlash _ _ _ _ _ control =>
      exact content_escape (escape_hexDigit control rest)
  | case9 _ noQuote noSlash _ _ _ _ _ control =>
      exact content_plain noQuote noSlash (Nat.le_of_not_lt control)
  | _ => exact content_escape rfl

theorem content_write (text rest : List Char) :
    content (text.flatMap writeChar ++ '\"' :: rest) = .ok (text, rest) := by
  induction text with
  | nil => simp
  | cons char text induction =>
      rw [List.flatMap_cons, List.append_assoc, content_writeChar, induction]
      rfl

end Interleave.Json.Quoted
