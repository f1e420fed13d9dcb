import LeaderLease.Text.Shown

/-!
# Quoted texts

A text between double quotes in which quote, backslash, the usual controls and every character that
is not shown are escaped; the last by the hexadecimal digits of its code in braces.
-/

set_option autoImplicit false

namespace LeaderLease.Text

def quoteChar (c : Char) : List Char :=
  if c = '"' then ['\\', '"']
  else if c = '\\' then ['\\', '\\']
  else if c = '\x00' then ['\\', '0']
  else if c = '\t' then ['\\', 't']
  else if c = '\n' then ['\\', 'n']
  else if c = '\r' then ['\\', 'r']
  else if isShown c then [c]
  else ['\\', 'u', '{'] ++ Nat.toDigits 16 c.toNat ++ ['}']

def quoted (s : String) : String := String.ofList ('"' :: s.toList.flatMap quoteChar ++ ['"'])

end LeaderLease.Text
