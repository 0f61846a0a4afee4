import Teller.Text.Invisible

/-! Text shown between double quotes: what cannot be shown, and what would end the quotes, is escaped. -/
namespace Teller.Quoted

def hex (n : Nat) : List Char := Nat.toDigits 16 n

def escape (c : Char) : List Char :=
  if c = '"' then ['\\', '"']
  else if c = '\\' then ['\\', '\\']
  else if c = '\n' then ['\\', 'n']
  else if c = '\r' then ['\\', 'r']
  else if c = '\t' then ['\\', 't']
  else if c = '\x00' then ['\\', '0']
  else if Invisible.isInvisible c then '\\' :: 'u' :: '{' :: (hex c.toNat ++ ['}'])
  else [c]

def quote (s : String) : String := String.ofList ('"' :: (s.toList.flatMap escape ++ ['"']))

end Teller.Quoted
