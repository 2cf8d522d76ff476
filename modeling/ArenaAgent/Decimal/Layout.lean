import ArenaAgent.Decimal.Shortest

/-!
The written forms of a double. A `NumberStyle` fixes how many digits are kept, which exponents are
written positionally, and the small marks; there are three of them: for sentences, for JSON texts
and for ten-digit readings.
-/
namespace ArenaAgent

open Float.Model (UnpackedFloat)

/-- How many digits are kept. -/
inductive Precision where
  /-- As few as read back as the same double. -/
  | shortest
  | significant (places : Nat)

/-- How a double is written. -/
structure NumberStyle where
  precision : Precision
  tie : Tie
  /-- Whether a number whose leading digit has this exponent is written without an exponent. -/
  positional : Int → Bool
  /-- What follows the digits of a whole number written positionally. -/
  wholeMark : String
  /-- What stands before an exponent that is not negative. -/
  exponentPlus : String
  zero : String
  negativeZero : String

namespace NumberStyle

/-- Sentences: the fewest digits, a tie upwards, never an exponent. -/
def sentence : NumberStyle where
  precision := .shortest
  tie := .up
  positional _ := true
  wholeMark := ""
  exponentPlus := ""
  zero := "0"
  negativeZero := "-0"

/-- JSON: the fewest digits, a fraction always, and a signed exponent outside `1e-5 ≤ x < 1e16`. -/
def json : NumberStyle where
  precision := .shortest
  tie := .toEven
  positional e := -5 ≤ e ∧ e < 16
  wholeMark := ".0"
  exponentPlus := "+"
  zero := "0.0"
  negativeZero := "-0.0"

/-- Readings: ten significant digits and always an exponent; both zeros look alike. -/
def reading : NumberStyle where
  precision := .significant 10
  tie := .toEven
  positional _ := false
  wholeMark := ""
  exponentPlus := ""
  zero := "0"
  negativeZero := "0"

def zeros (n : Nat) : List Char :=
  List.replicate n '0'

/-- Digits with a point after the first `whole` of them. -/
def pointAfter (whole : Int) (digits : List Char) (mark : String) : String :=
  if whole ≤ 0 then "0." ++ String.ofList (zeros (-whole).toNat ++ digits)
  else if digits.length ≤ whole.toNat then
    String.ofList (digits ++ zeros (whole.toNat - digits.length)) ++ mark
  else
    String.ofList (digits.take whole.toNat) ++ "." ++ String.ofList (digits.drop whole.toNat)

/-- The digits and marks of a positive decimal. -/
def layOut (s : NumberStyle) (d : Decimal) : String :=
  let digits := Nat.toDigits 10 d.digits
  let leading := d.exponent + digits.length - 1
  if s.positional leading then pointAfter (leading + 1) digits s.wholeMark
  else
    let exponent := if 0 ≤ leading then s.exponentPlus ++ toString leading else toString leading
    match digits with
    | [] | [_] => String.ofList digits ++ "e" ++ exponent
    | first :: rest => String.ofList (first :: '.' :: rest) ++ "e" ++ exponent

def round (s : NumberStyle) (i : RoundingInterval) : Decimal :=
  match s.precision with
  | .shortest => .shortest s.tie i
  | .significant places => .ofRatio s.tie places i.value i.unit

/-- The text of a double. -/
def render (s : NumberStyle) (x : Float) : String :=
  match x.toModel.unpack with
  | .notANumber => "NaN"
  | .infinity .positive => "inf"
  | .infinity .negative => "-inf"
  | .zero .positive => s.zero
  | .zero .negative => s.negativeZero
  | .finite .positive m e _ => s.layOut (s.round (.ofMantissa m e))
  | .finite .negative m e _ => "-" ++ s.layOut (s.round (.ofMantissa m e))

end NumberStyle

end ArenaAgent
