import ReplicatedStore.Text.Blank
import ReplicatedStore.Text.Number
/-!
# Socket addresses

The addresses of version 4 and 6 with a port, their text, and reading them. Besides the strict form
that is printed, a host and a port separated by a colon are read. What a host stands for is asked of a
resolver, which is a parameter; the traditional numeric forms of hosts are read without names.
-/

namespace ReplicatedStore

inductive SocketAddress where
  | v4 (ip : UInt32) (port : UInt16)
  | v6 (groups : Vector UInt16 8) (scope : UInt32) (port : UInt16)
deriving DecidableEq, Repr

namespace SocketAddress

/-! ### Printing -/

def printV4 (ip : UInt32) : String :=
  let byte (shift : UInt32) := toString ((ip >>> shift) &&& 0xFF).toNat
  byte 24 ++ "." ++ byte 16 ++ "." ++ byte 8 ++ "." ++ byte 0

def printGroups (groups : List UInt16) : String :=
  ":".intercalate (groups.map fun group => String.ofList (Nat.toDigits 16 group.toNat))

def zeroRun (groups : List UInt16) : Nat := (groups.takeWhile (· == 0)).length

/-- The position and the length of the first longest run of zeros from position `at` on. -/
def longestZeroRun (position : Nat) : List UInt16 → Nat × Nat
  | [] => (position, 0)
  | group :: groups =>
    let here := zeroRun (group :: groups)
    let (start, length) := longestZeroRun (position + 1) groups
    if length ≤ here then (position, here) else (start, length)

/-- An address of version 6: the first longest run of at least two zero groups is left out, and a
mapped address of version 4 shows its bytes. -/
def printV6 (groups : List UInt16) : String :=
  match groups with
  | [0, 0, 0, 0, 0, 0xFFFF, high, low] => "::ffff:" ++ printV4 (high.toUInt32 <<< 16 ||| low.toUInt32)
  | _ =>
    let (start, length) := longestZeroRun 0 groups
    if 1 < length then
      printGroups (groups.take start) ++ "::" ++ printGroups (groups.drop (start + length))
    else printGroups groups

def print : SocketAddress → String
  | v4 ip port => printV4 ip ++ ":" ++ toString port.toNat
  | v6 groups scope port =>
    let zone := if scope = 0 then "" else "%" ++ toString scope.toNat
    "[" ++ printV6 groups.toList ++ zone ++ "]:" ++ toString port.toNat

/-! ### Reading the printed form -/

def readChar (c : Char) : List Char → Option (List Char)
  | d :: rest => if c = d then some rest else none
  | [] => none

def readNumber (base bound maxDigits : Nat) (leadingZeros : Bool) (cs : List Char) :
    Option (Nat × List Char) := do
  let digits := cs.takeWhile fun c => (Text.digit? base c).isSome
  guard (digits.length ≤ maxDigits)
  guard (leadingZeros || digits.length ≤ 1 || digits.head? != some '0')
  let n ← Text.ofDigits? base digits
  guard (n < bound)
  return (n, cs.drop digits.length)

/-- Reads a number of at most `length` digits where the length of the text is no limit. -/
def readLongNumber (bound : Nat) (cs : List Char) : Option (Nat × List Char) :=
  readNumber 10 bound cs.length true cs

/-- Reads an address of version 4: four bytes in decimal without leading zeros. -/
def readV4 (cs : List Char) : Option (UInt32 × List Char) := do
  let byte := readNumber 10 256 3 false
  let (a, cs) ← byte cs
  let (b, cs) ← byte (← readChar '.' cs)
  let (c, cs) ← byte (← readChar '.' cs)
  let (d, cs) ← byte (← readChar '.' cs)
  return (UInt32.ofNat (((a * 256 + b) * 256 + c) * 256 + d), cs)

def readSeparated {α : Type} (first : Bool) (read : List Char → Option (α × List Char))
    (cs : List Char) : Option (α × List Char) := do
  let cs ← if first then some cs else readChar ':' cs
  read cs

/-- Reads at most `limit` groups, the last two of which may be an address of version 4. Also says
whether they were. -/
def readGroups (first : Bool) : Nat → List Char → List UInt16 × Bool × List Char
  | 0, cs => ([], false, cs)
  | limit + 1, cs =>
    match if 1 ≤ limit then readSeparated first readV4 cs else none with
    | some (ip, rest) => ([(ip >>> 16).toUInt16, ip.toUInt16], true, rest)
    | none =>
      match readSeparated first (readNumber 16 65536 4 true) cs with
      | none => ([], false, cs)
      | some (group, rest) =>
        let (groups, embedded, rest) := readGroups false limit rest
        (UInt16.ofNat group :: groups, embedded, rest)

def fillGroups (front back : List UInt16) : Option (Vector UInt16 8) :=
  let all := front ++ List.replicate (8 - front.length - back.length) 0 ++ back
  if h : all.toArray.size = 8 then some ⟨all.toArray, h⟩ else none

def readV6 (cs : List Char) : Option (Vector UInt16 8 × List Char) :=
  let (front, embedded, rest) := readGroups true 8 cs
  if front.length = 8 then (fillGroups front []).map fun groups => (groups, rest)
  else if embedded then none
  else do
    let rest ← readChar ':' (← readChar ':' rest)
    let (back, _, rest) := readGroups true (7 - front.length) rest
    let groups ← fillGroups front back
    return (groups, rest)

def readScope (cs : List Char) : Option (Nat × List Char) :=
  (readChar '%' cs).bind (readLongNumber 4294967296)

def readPort (cs : List Char) : Option UInt16 := do
  let (port, rest) ← readLongNumber 65536 (← readChar ':' cs)
  guard rest.isEmpty
  return UInt16.ofNat port

def readSocketV4 (cs : List Char) : Option SocketAddress := do
  let (ip, rest) ← readV4 cs
  return v4 ip (← readPort rest)

def readSocketV6 (cs : List Char) : Option SocketAddress := do
  let (groups, rest) ← readV6 (← readChar '[' cs)
  let (scope, rest) := (readScope rest).getD (0, rest)
  return v6 groups (UInt32.ofNat scope) (← readPort (← readChar ']' rest))

def readStrict (cs : List Char) : Option SocketAddress := (readSocketV4 cs).or (readSocketV6 cs)

/-! ### Reading host and port -/

/-- A number in C notation: hexadecimal after `0x`, octal after another zero, else decimal. -/
def readCNumber : List Char → Option Nat
  | '0' :: 'x' :: digits => Text.ofDigits? 16 digits
  | '0' :: 'X' :: digits => Text.ofDigits? 16 digits
  | '0' :: digits => Text.ofDigits? 8 ('0' :: digits)
  | digits => Text.ofDigits? 10 digits

/-- The address whose leading bytes are given, where a last number fills the bytes that remain. -/
def fillBytes (ip : Nat) (remaining : Nat) : List Nat → Option Nat
  | [] => none
  | [last] => if last < 256 ^ remaining then some (ip * 256 ^ remaining + last) else none
  | byte :: rest =>
    if byte < 256 ∧ 1 < remaining then fillBytes (ip * 256 + byte) (remaining - 1) rest else none

def readHostV4 (cs : List Char) : Option UInt32 := do
  let parts ← (Text.split '.' cs).mapM readCNumber
  return UInt32.ofNat (← fillBytes 0 4 parts)

def readHostV6 (cs : List Char) : Option (Vector UInt16 8 × UInt32) := do
  let (groups, rest) ← readV6 cs
  if rest.isEmpty then return (groups, 0)
  let (scope, rest) ← readScope rest
  guard rest.isEmpty
  return (groups, UInt32.ofNat scope)

inductive HostAddress where
  | v4 (ip : UInt32)
  | v6 (groups : Vector UInt16 8) (scope : UInt32)
deriving DecidableEq, Repr

namespace HostAddress

def isV4 : HostAddress → Bool
  | v4 _ => true
  | v6 _ _ => false

def withPort (port : UInt16) : HostAddress → SocketAddress
  | v4 ip => .v4 ip port
  | v6 groups scope => .v6 groups scope port

/-- The first address of version 4, or the first one if there is none. -/
def preferred? (addresses : List HostAddress) : Option HostAddress :=
  (addresses.find? isV4).or addresses.head?

end HostAddress

/-- What is found for a host: its addresses in the order of preference, or why there is none. -/
abbrev Resolver := String → Except String (List HostAddress)

def Resolver.numeric (names : Resolver) : Resolver := fun host =>
  match readHostV4 host.toList, readHostV6 host.toList with
  | some ip, _ => .ok [.v4 ip]
  | none, some (groups, scope) => .ok [.v6 groups scope]
  | none, none => names host

inductive Fault where
  | noPort
  /-- What follows the last colon is no port. -/
  | badPort
  | lookupFailed (reason : String)
  /-- The host has no address. -/
  | unresolved
deriving DecidableEq, Repr

def Fault.message : Fault → String
  | noPort => "invalid socket address"
  | badPort => "invalid port value"
  | lookupFailed reason => reason
  | unresolved => "Address did not resolve"

def ofHost (resolver : Resolver) (host : List Char) (port : UInt16) : Except Fault SocketAddress :=
  match resolver (String.ofList host) with
  | .error reason => .error (.lookupFailed reason)
  | .ok addresses =>
    match HostAddress.preferred? addresses with
    | none => .error .unresolved
    | some address => .ok (address.withPort port)

/-- The address with the given text: the printed form, or a host and a port. -/
def read (resolver : Resolver) (cs : List Char) : Except Fault SocketAddress :=
  match readStrict cs with
  | some address => .ok address
  | none =>
    match Text.splitLast? ':' cs with
    | none => .error .noPort
    | some (host, port) =>
      match Text.unsigned? 65536 port with
      | none => .error .badPort
      | some port => ofHost resolver host (UInt16.ofNat port)

end SocketAddress

end ReplicatedStore
