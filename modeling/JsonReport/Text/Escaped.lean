import JsonReport.Text.Unprintable
import JsonReport.Text.Extending

/-!
# Quoting payload text in a message

A string that a message quotes stands on one line and shows what it holds: quotes, backslashes and
the common controls get a short escape, and every other character that has no printed form, or that
would join the character before it, is shown by its code point.
-/

namespace JsonReport.Escaped

/-- A code point between braces. -/
def codePoint (c : Char) : List Char :=
  '\\' :: 'u' :: '\x7b' :: (Nat.toDigits 16 c.toNat ++ ['\x7d'])

def character (c : Char) : List Char :=
  if c = '\x00' then ['\\', '0']
  else if c = '\t' then ['\\', 't']
  else if c = '\r' then ['\\', 'r']
  else if c = '\n' then ['\\', 'n']
  else if c = '"' then ['\\', '"']
  else if c = '\\' then ['\\', '\\']
  else if extending.has c.toNat || unprintable.has c.toNat then codePoint c
  else [c]

def quote (text : List Char) : List Char :=
  '"' :: (text.flatMap character ++ ['"'])

end JsonReport.Escaped
