import Interleave.Text.Hidden

namespace Interleave.Text

def bracketed (items : List String) : String :=
  "[" ++ String.intercalate ", " items ++ "]"

def padLeft (width : Nat) (fill : Char) (text : String) : String :=
  String.ofList (text.toList.leftpad width fill)

def padRight (width : Nat) (fill : Char) (text : String) : String :=
  String.ofList (text.toList.rightpad width fill)

def optional (render : α → String) : Option α → String
  | some value => render value
  | none => "none"

def hex (number : Nat) : String := String.ofList (Nat.toDigits 16 number)

/-- How a character reads between quotes. -/
def quotedChar (char : Char) : String :=
  if char = '\"' then "\\\""
  else if char = '\\' then "\\\\"
  else if char = '\n' then "\\n"
  else if char = '\r' then "\\r"
  else if char = '\t' then "\\t"
  else if char.toNat = 0 then "\\0"
  else if isHidden char then "\\u\x7b" ++ hex char.toNat ++ "\x7d"
  else char.toString

def quoted (text : String) : String :=
  "\"" ++ String.join (text.toList.map quotedChar) ++ "\""

end Interleave.Text
