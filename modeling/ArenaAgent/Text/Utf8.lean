/-!
Text in bytes. Decoding goes on after a fault: each longest run of bytes that starts a character but
does not complete it, and each byte that cannot start one, counts as one fault.
-/
namespace ArenaAgent.Utf8

/-- A byte after the first of a character. -/
def isContinuation (b : UInt8) : Bool :=
  0x80 ≤ b ∧ b ≤ 0xBF

/-- Whether `b` may follow the first byte of a character of three bytes. It must not be written
longer than needed and must not be a surrogate. -/
def followsThree (first b : UInt8) : Bool :=
  if first = 0xE0 then 0xA0 ≤ b ∧ b ≤ 0xBF
  else if first = 0xED then 0x80 ≤ b ∧ b ≤ 0x9F
  else isContinuation b

/-- Whether `b` may follow the first byte of a character of four bytes. -/
def followsFour (first b : UInt8) : Bool :=
  if first = 0xF0 then 0x90 ≤ b ∧ b ≤ 0xBF
  else if first = 0xF4 then 0x80 ≤ b ∧ b ≤ 0x8F
  else isContinuation b

/-- The character whose first byte gives `lead` and whose later bytes are `later`. -/
def compose (lead : Nat) (later : List UInt8) : Char :=
  Char.ofNat (later.foldl (fun n b => n * 64 + b.toNat % 64) lead)

/-- The characters of a row of bytes, and `none` for every fault; those read so
far are in reverse. -/
def decodeFrom (read : List (Option Char)) : List UInt8 → List (Option Char)
  | [] => read.reverse
  | a :: as =>
    if a < 0x80 then decodeFrom (some (Char.ofNat a.toNat) :: read) as
    else if 0xC2 ≤ a ∧ a ≤ 0xDF then
      match as with
      | b :: bs =>
        if isContinuation b then decodeFrom (some (compose (a.toNat % 32) [b]) :: read) bs
        else decodeFrom (none :: read) (b :: bs)
      | [] => decodeFrom (none :: read) []
    else if 0xE0 ≤ a ∧ a ≤ 0xEF then
      match as with
      | b :: c :: cs =>
        if !followsThree a b then decodeFrom (none :: read) (b :: c :: cs)
        else if isContinuation c then decodeFrom (some (compose (a.toNat % 16) [b, c]) :: read) cs
        else decodeFrom (none :: read) (c :: cs)
      | [b] =>
        if followsThree a b then decodeFrom (none :: read) []
        else decodeFrom (none :: read) [b]
      | [] => decodeFrom (none :: read) []
    else if 0xF0 ≤ a ∧ a ≤ 0xF4 then
      match as with
      | b :: c :: d :: ds =>
        if !followsFour a b then decodeFrom (none :: read) (b :: c :: d :: ds)
        else if !isContinuation c then decodeFrom (none :: read) (c :: d :: ds)
        else if isContinuation d then decodeFrom (some (compose (a.toNat % 8) [b, c, d]) :: read) ds
        else decodeFrom (none :: read) (d :: ds)
      | [b, c] =>
        if !followsFour a b then decodeFrom (none :: read) [b, c]
        else if !isContinuation c then decodeFrom (none :: read) [c]
        else decodeFrom (none :: read) []
      | [b] =>
        if followsFour a b then decodeFrom (none :: read) []
        else decodeFrom (none :: read) [b]
      | [] => decodeFrom (none :: read) []
    else decodeFrom (none :: read) as

def decode (bytes : List UInt8) : List (Option Char) :=
  decodeFrom [] bytes

/-- The text of a row of bytes without faults. -/
def text? (bytes : List UInt8) : Option String :=
  ((decode bytes).mapM id).map String.ofList

/-- The text of any row of bytes; a fault shows as the replacement character. -/
def lossyText (bytes : List UInt8) : String :=
  String.ofList ((decode bytes).map (·.getD '\ufffd'))

end ArenaAgent.Utf8
