/-!
# Writing a string literal

A string is written between quotes.  A quote, a backslash and the controls below `20` are escaped,
by a letter where there is one and else by code point; everything else is written as it is.
-/

namespace JsonReport.Quoted

def hexDigit (n : Nat) : Char := Nat.digitChar (n % 16)

def character (c : Char) : List Char :=
  if c = '"' then ['\\', '"']
  else if c = '\\' then ['\\', '\\']
  else if c = '\x08' then ['\\', 'b']
  else if c = '\x0c' then ['\\', 'f']
  else if c = '\n' then ['\\', 'n']
  else if c = '\r' then ['\\', 'r']
  else if c = '\t' then ['\\', 't']
  else if c.toNat < 0x20 then ['\\', 'u', '0', '0', hexDigit (c.toNat / 16), hexDigit c.toNat]
  else [c]

def quote (text : List Char) : List Char :=
  '"' :: (text.flatMap character ++ ['"'])

end JsonReport.Quoted
