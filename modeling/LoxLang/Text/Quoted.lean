import LoxLang.Text.Visible

set_option autoImplicit false

namespace LoxLang

namespace Quoted

def byNumber (c : Char) : List Char :=
  "\\u\x7b".toList ++ Nat.toDigits 16 c.toNat ++ ['\x7d']

/-- A character between quotes: the quote and the backslash are escaped, and what does not stand for
itself has a letter or is given by its number. -/
def character (c : Char) : List Char :=
  if c = '\x00' then ['\\', '0']
  else if c = '\t' then ['\\', 't']
  else if c = '\r' then ['\\', 'r']
  else if c = '\n' then ['\\', 'n']
  else if c = '\\' then ['\\', '\\']
  else if c = '"' then ['\\', '"']
  else if isVisible c then [c]
  else byNumber c

end Quoted

def quoted (name : String) : String :=
  "\"" ++ String.ofList (name.toList.flatMap Quoted.character) ++ "\""

end LoxLang
