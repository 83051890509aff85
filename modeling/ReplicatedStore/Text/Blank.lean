/-!
# Blanks and separators

The white space of text settings, and cutting a text at a separator. Texts are handled as lists of
characters.
-/

namespace ReplicatedStore.Text

def isBlank (c : Char) : Bool :=
  let n := c.toNat
  (9 ≤ n && n ≤ 13) || n = 0x20 || n = 0x85 || n = 0xA0 || n = 0x1680 || (0x2000 ≤ n && n ≤ 0x200A) ||
    n = 0x2028 || n = 0x2029 || n = 0x202F || n = 0x205F || n = 0x3000

example : ∀ n < 128, (Char.ofNat n).isWhitespace → isBlank (Char.ofNat n) := by decide +kernel

def trimmed (cs : List Char) : List Char :=
  ((cs.dropWhile isBlank).reverse.dropWhile isBlank).reverse

def split (separator : Char) : List Char → List (List Char)
  | [] => [[]]
  | c :: cs =>
    if c = separator then [] :: split separator cs
    else
      match split separator cs with
      | [] => [[c]]
      | piece :: pieces => (c :: piece) :: pieces

def splitFirst? (separator : Char) : List Char → Option (List Char × List Char)
  | [] => none
  | c :: cs =>
    if c = separator then some ([], cs)
    else (splitFirst? separator cs).map fun (before, after) => (c :: before, after)

def splitLast? (separator : Char) (cs : List Char) : Option (List Char × List Char) :=
  (splitFirst? separator cs.reverse).map fun (after, before) => (before.reverse, after.reverse)

def after? (beginning text : List Char) : Option (List Char) :=
  if beginning.isPrefixOf text then some (text.drop beginning.length) else none

end ReplicatedStore.Text
