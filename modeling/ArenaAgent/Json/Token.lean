/-!
The tokens of a JSON text. `Json.lex` cuts a whole text into tokens or refuses it; a string
keeps whether it is text at all, since an escape can stand for half of a surrogate pair that
has no other half.
-/
namespace ArenaAgent.Json

structure Numeral where
  negative : Bool
  whole : List Nat
  /-- The digits after the point. -/
  fraction : List Nat
  exponent : Option Int
  deriving DecidableEq

inductive Token where
  | openObject
  | closeObject
  | openArray
  | closeArray
  | colon
  | comma
  | null
  | bool (b : Bool)
  | number (n : Numeral)
  /-- A string, if its escapes make up whole characters. -/
  | string (text : Option String)
  deriving DecidableEq

/-- A part of a string: a character as it stands, or a 16-bit unit given by an escape. -/
inductive Piece where
  | char (c : Char)
  | unit (n : Nat)

def hexDigit (c : Char) : Option Nat :=
  if '0' ≤ c ∧ c ≤ '9' then some (c.toNat - '0'.toNat)
  else if 'a' ≤ c ∧ c ≤ 'f' then some (c.toNat - 'a'.toNat + 10)
  else if 'A' ≤ c ∧ c ≤ 'F' then some (c.toNat - 'A'.toNat + 10)
  else none

/-- The unit that four hexadecimal digits give. -/
def hexUnit (a b c d : Char) : Option Nat := do
  return (((← hexDigit a) * 16 + (← hexDigit b)) * 16 + (← hexDigit c)) * 16 + (← hexDigit d)

/-- The character that a backslash and a letter stand for. -/
def escaped : Char → Option Char
  | '"' => some '"'
  | '\\' => some '\\'
  | '/' => some '/'
  | 'b' => some '\x08'
  | 'f' => some '\x0c'
  | 'n' => some '\n'
  | 'r' => some '\r'
  | 't' => some '\t'
  | _ => none

/-- The rest of a string after its opening quote; control characters have to be escaped. The pieces
read so far are kept in reverse. -/
def stringBody (read : List Piece) : List Char → Option (List Piece × List Char)
  | [] => none
  | '"' :: cs => some (read.reverse, cs)
  | '\\' :: 'u' :: a :: b :: c :: d :: cs =>
    match hexUnit a b c d with
    | some n => stringBody (.unit n :: read) cs
    | none => none
  | '\\' :: e :: cs =>
    match escaped e with
    | some c => stringBody (.char c :: read) cs
    | none => none
  | c :: cs => if c < ' ' then none else stringBody (.char c :: read) cs

def isHighSurrogate (n : Nat) : Bool := 0xD800 ≤ n ∧ n < 0xDC00

def isLowSurrogate (n : Nat) : Bool := 0xDC00 ≤ n ∧ n < 0xE000

/-- Joins surrogate pairs; a half without the other one is no character. -/
def join (done : List Char) : List Piece → Option (List Char)
  | [] => some done.reverse
  | .char c :: ps => join (c :: done) ps
  | .unit n :: ps =>
    if isHighSurrogate n then
      match ps with
      | .unit m :: ps =>
        if isLowSurrogate m then
          join (Char.ofNat (0x10000 + (n - 0xD800) * 0x400 + (m - 0xDC00)) :: done) ps
        else none
      | _ => none
    else if isLowSurrogate n then none
    else join (Char.ofNat n :: done) ps

def textOf (pieces : List Piece) : Option String :=
  (join [] pieces).map String.ofList

def digits (cs : List Char) : List Nat × List Char :=
  ((cs.takeWhile Char.isDigit).map fun c => c.toNat - '0'.toNat, cs.dropWhile Char.isDigit)

def valueOf (ds : List Nat) : Nat :=
  ds.foldl (fun n d => 10 * n + d) 0

/-- An exponent, if one follows. -/
def exponentPart (cs : List Char) : Option (Option Int × List Char) :=
  let magnitude (negative : Bool) (cs : List Char) : Option (Option Int × List Char) :=
    match digits cs with
    | ([], _) => none
    | (ds, rest) => some (some (if negative then -valueOf ds else valueOf ds), rest)
  match cs with
  | e :: cs =>
    if e = 'e' ∨ e = 'E' then
      match cs with
      | '+' :: cs => magnitude false cs
      | '-' :: cs => magnitude true cs
      | cs => magnitude false cs
    else some (none, e :: cs)
  | [] => some (none, [])

/-- The digits after a point, if one follows. -/
def fractionPart : List Char → Option (List Nat × List Char)
  | '.' :: cs =>
    match digits cs with
    | ([], _) => none
    | r => some r
  | cs => some ([], cs)

/-- A number without its sign; a zero in front stands alone. -/
def numeral (negative : Bool) (cs : List Char) : Option (Numeral × List Char) := do
  let (whole, cs) := digits cs
  match whole with
  | [] | 0 :: _ :: _ => none
  | whole =>
    let (fraction, cs) ← fractionPart cs
    let (exponent, cs) ← exponentPart cs
    return (⟨negative, whole, fraction, exponent⟩, cs)

def isBlank (c : Char) : Bool :=
  c = ' ' ∨ c = '\t' ∨ c = '\n' ∨ c = '\r'

/-- The token at the front of a text that does not start with a blank. -/
def token : List Char → Option (Token × List Char)
  | '{' :: cs => some (.openObject, cs)
  | '}' :: cs => some (.closeObject, cs)
  | '[' :: cs => some (.openArray, cs)
  | ']' :: cs => some (.closeArray, cs)
  | ':' :: cs => some (.colon, cs)
  | ',' :: cs => some (.comma, cs)
  | 'n' :: 'u' :: 'l' :: 'l' :: cs => some (.null, cs)
  | 't' :: 'r' :: 'u' :: 'e' :: cs => some (.bool true, cs)
  | 'f' :: 'a' :: 'l' :: 's' :: 'e' :: cs => some (.bool false, cs)
  | '"' :: cs => (stringBody [] cs).map fun (pieces, cs) => (.string (textOf pieces), cs)
  | '-' :: cs => (numeral true cs).map fun (n, cs) => (.number n, cs)
  | cs => (numeral false cs).map fun (n, cs) => (.number n, cs)

/-- Every round takes at least one character, so the length of the text is fuel enough. The tokens
read so far are kept in reverse. -/
def lexFrom : Nat → List Token → List Char → Option (List Token)
  | _, read, [] => some read.reverse
  | 0, _, _ => none
  | fuel + 1, read, c :: cs =>
    if isBlank c then lexFrom fuel read cs
    else
      match token (c :: cs) with
      | some (t, rest) => lexFrom fuel (t :: read) rest
      | none => none

def lex (cs : List Char) : Option (List Token) :=
  lexFrom cs.length [] cs

end ArenaAgent.Json
