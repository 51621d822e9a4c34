import ExpressionArt.Text.Printable

/-!
# Quoted text

How a message shows a string: between single quotes, or between double quotes when the
string has a single quote and no double one. Backslashes, the chosen quote and whatever
is not printable are escaped, so the shown form is one printable line.
-/

namespace ExpressionArt

/-- The quote that `cs` is shown between. -/
def chooseQuote (cs : List Char) : Char :=
  if cs.contains '\'' && !cs.contains '"' then '"' else '\''

/-- The last `width` hexadecimal digits of `n`, in lower case. -/
def hexDigits : Nat → Nat → List Char
  | 0, _ => []
  | width + 1, n => hexDigits width (n / 16) ++ [Nat.digitChar (n % 16)]

def escapeChar (quote c : Char) : List Char :=
  if c = quote ∨ c = '\\' then ['\\', c]
  else if c = '\n' then ['\\', 'n']
  else if c = '\r' then ['\\', 'r']
  else if c = '\t' then ['\\', 't']
  else if isPrintable c then [c]
  else if c.toNat < 0x100 then '\\' :: 'x' :: hexDigits 2 c.toNat
  else if c.toNat < 0x10000 then '\\' :: 'u' :: hexDigits 4 c.toNat
  else '\\' :: 'U' :: hexDigits 8 c.toNat

/-- The shown form of a string. -/
def quoted (text : String) : String :=
  let quote := chooseQuote text.toList
  String.ofList (quote :: text.toList.flatMap (escapeChar quote) ++ [quote])

/-- The shown form of a list, its members shown already. -/
def bracketed (members : List String) : String := "[" ++ ", ".intercalate members ++ "]"

/-- The shown form of a list of strings. -/
def quotedList (texts : List String) : String := bracketed (texts.map quoted)

end ExpressionArt
