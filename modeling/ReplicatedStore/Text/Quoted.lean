import ReplicatedStore.Text.Unprintable
/-!
# Quoted text

A quoted text stands between double quotes. Backslashes, double quotes and the common controls have
short escapes; other characters without a glyph are spelled by their code point.
-/

namespace ReplicatedStore.Text

def codePoint (c : Char) : String :=
  "\\u\x7b" ++ String.ofList (Nat.toDigits 16 c.toNat) ++ "\x7d"

def quotedChar (c : Char) : String :=
  if c = '"' then "\\\""
  else if c = '\\' then "\\\\"
  else if c = '\n' then "\\n"
  else if c = '\t' then "\\t"
  else if c = '\r' then "\\r"
  else if c.toNat = 0 then "\\0"
  else if isUnprintable c then codePoint c
  else c.toString

def quoted (text : String) : String :=
  "\"" ++ text.foldl (fun acc c => acc ++ quotedChar c) "" ++ "\""

end ReplicatedStore.Text
