import Fish.Text.Unprintable

/-!
Quoted characters and texts, as error messages show them. The quotation mark in use, the
backslash, the usual controls and every character without a glyph of its own are escaped.
-/

namespace Fish.Text

/-- One character between marks `mark`. -/
def escape (mark c : Char) : List Char :=
  if c = '\x00' then ['\\', '0']
  else if c = '\t' then ['\\', 't']
  else if c = '\r' then ['\\', 'r']
  else if c = '\n' then ['\\', 'n']
  else if c = '\\' ∨ c = mark then ['\\', c]
  else if isUnprintable c then
    ['\\', 'u', '\x7b'] ++ Nat.toDigits 16 c.toNat ++ ['\x7d']
  else [c]

def quotedList (mark : Char) (cs : List Char) : String :=
  String.ofList (mark :: cs.flatMap (escape mark) ++ [mark])

def quotedChar (c : Char) : String := quotedList '\'' [c]

def quotedString (s : String) : String := quotedList '"' s.toList

end Fish.Text
