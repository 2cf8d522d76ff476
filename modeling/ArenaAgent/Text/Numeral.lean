/-!
Numbers and switches as they are given in an environment: without blanks, and whole.
-/
namespace ArenaAgent.Numeral

def digits (cs : List Char) : List Char × List Char :=
  (cs.takeWhile Char.isDigit, cs.dropWhile Char.isDigit)

def valueOf (ds : List Char) : Nat :=
  ds.foldl (fun n c => 10 * n + (c.toNat - '0'.toNat)) 0

/-- A 64-bit integer: ASCII digits after an optional plus sign. -/
def word? (s : String) : Option UInt64 :=
  let ds := match s.toList with
    | '+' :: cs => cs
    | cs => cs
  if ds ≠ [] ∧ ds.all Char.isDigit ∧ valueOf ds < UInt64.size then some (UInt64.ofNat (valueOf ds))
  else none

/-- The double nearest to `digits * 10 ^ exponent`; infinite if that is too large. -/
def scaled (digits : Nat) (exponent : Int) : Float :=
  if 0 ≤ exponent then Float.ofScientific digits false exponent.toNat
  else Float.ofScientific digits true (-exponent).toNat

/-- An exponent that makes up the rest of a number. -/
def exponent? : List Char → Option Int
  | [] => some 0
  | e :: cs =>
    if e = 'e' ∨ e = 'E' then
      let (negative, ds) := match cs with
        | '-' :: cs => (true, cs)
        | '+' :: cs => (false, cs)
        | cs => (false, cs)
      if ds ≠ [] ∧ ds.all Char.isDigit then some (if negative then -valueOf ds else valueOf ds)
      else none
    else none

/-- Digits with an optional point and exponent; at least one digit stands before or
after the point. -/
def decimal? (cs : List Char) : Option Float := do
  let (whole, cs) := digits cs
  let (fraction, cs) := match cs with
    | '.' :: cs => digits cs
    | cs => ([], cs)
  if whole = [] ∧ fraction = [] then none
  else return scaled (valueOf (whole ++ fraction)) ((← exponent? cs) - fraction.length)

/-- A double without its sign. -/
def magnitude? (cs : List Char) : Option Float :=
  match String.ofList (cs.map Char.toLower) with
  | "inf" | "infinity" => some (1.0 / 0.0)
  | "nan" => some (0.0 / 0.0)
  | _ => decimal? cs

/-- A double: the nearest one to a decimal number, infinity or no number, after an optional sign. -/
def double? (s : String) : Option Float :=
  match s.toList with
  | '-' :: cs => (magnitude? cs).map fun x => -x
  | '+' :: cs => magnitude? cs
  | cs => magnitude? cs

/-- A switch, in letters of any case. The words are ASCII, and no other letter becomes one of
theirs in lower case. -/
def switch? (s : String) : Option Bool :=
  match String.ofList (s.toList.map Char.toLower) with
  | "true" | "1" | "yes" | "on" => some true
  | "false" | "0" | "no" | "off" => some false
  | _ => none

end ArenaAgent.Numeral
