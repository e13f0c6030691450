import Dissection.Bytes.Hex

namespace Dissection.Toml

/-- The value of a digit in a base of at most sixteen. -/
def digit? (base : Nat) (c : Char) : Option Nat :=
  (Hex.value? c).filter (· < base)

/-- Where in a run of digits one stands. -/
structure DigitRun where
  /-- Nothing has been read. -/
  isStart : Bool
  /-- The first digit was a zero. -/
  leadingZero : Bool
  /-- The last character read was an underscore. -/
  afterUnderscore : Bool

/-- The digits at the front of a text, without underscores, and what stands behind
them. At least one digit is needed, an underscore must be followed by one, and
leading zeros are allowed or not. -/
def digitRun (base : Nat) (leadingZeros : Bool) (run : DigitRun) :
    List Char → Option (List Nat × List Char)
  | [] => if run.isStart || run.afterUnderscore then none else some ([], [])
  | c :: rest =>
      let go (digits : List Nat) (run : DigitRun) :=
        (digitRun base leadingZeros run rest).map fun (others, behind) =>
          (digits ++ others, behind)
      match digit? base c with
      | some value =>
          if c = '0' && run.isStart then go [value] ⟨false, true, run.afterUnderscore⟩
          else if !run.isStart && run.leadingZero && !leadingZeros then none
          else go [value] ⟨false, run.leadingZero, false⟩
      | none =>
          if c = '_' && run.isStart then none
          else if c = '_' && !run.afterUnderscore then go [] { run with afterUnderscore := true }
          else if run.isStart || run.afterUnderscore then none
          else some ([], c :: rest)

def digits? (base : Nat) (leadingZeros : Bool) (text : List Char) :
    Option (List Nat × List Char) :=
  digitRun base leadingZeros ⟨true, false, false⟩ text

def ofDigits (base : Nat) (digits : List Nat) : Nat :=
  digits.foldl (fun high digit => high * base + digit) 0

def splitSign : List Char → Bool × List Char
  | '-' :: rest => (true, rest)
  | text => (false, text)

/-- An integer without sign in a base other than ten. -/
def basedInteger? (base : Nat) (text : List Char) : Option Int :=
  match digits? base true text with
  | some (digits, []) =>
      let number := ofDigits base digits
      if number < 1 <<< 63 then some number else none
  | _ => none

def decimalInteger? (text : List Char) : Option Int :=
  let (negative, magnitude) := splitSign text
  match digits? 10 false magnitude with
  | some (digits, []) =>
      let number := ofDigits 10 digits
      if negative then if number ≤ 1 <<< 63 then some (-(number : Int)) else none
      else if number < 1 <<< 63 then some number else none
  | _ => none

/-- The parts of a float: the digits of its fraction, the sign and the digits of
its exponent. -/
structure Decimal where
  integral : List Nat
  fraction : List Nat
  negativeExponent : Bool
  exponent : List Nat

/-- Whether a decimal is finite when rounded to the nearest float of 64 bits: it is
less than half a unit above the largest. -/
def Decimal.isFinite (decimal : Decimal) : Bool :=
  let digits := decimal.integral ++ decimal.fraction
  let mantissa := ofDigits 10 digits
  let exponent := ofDigits 10 decimal.exponent
  let bound := 1 <<< 1024 - 1 <<< 970
  if mantissa = 0 then true
  else if decimal.negativeExponent then
    exponent + decimal.fraction.length ≥ digits.length ||
      mantissa < bound * Nat.pow 10 (exponent + decimal.fraction.length)
  else if exponent > 400 + decimal.fraction.length then false
  else mantissa * Nat.pow 10 exponent < bound * Nat.pow 10 decimal.fraction.length

/-- The exponent behind the letter that introduces it. A plus sign behind the
letter is a token of its own, so that `behindPlus` may give what follows it. -/
def exponent? (text : List Char) (behindPlus : Option (List Char)) :
    Option (Bool × List Nat) :=
  match text, behindPlus with
  | [], some digits =>
      match digits? 10 true digits with
      | some (exponent, []) => some (false, exponent)
      | _ => none
  | _ :: _, none =>
      let (negative, magnitude) := splitSign text
      match digits? 10 true magnitude with
      | some (exponent, []) => some (negative, exponent)
      | _ => none
  | _, _ => none

/-- Whether a float is well formed and finite. It consists of an integral part with
all that stands behind it up to a point, what stands between the point and a plus
sign, and what stands behind the plus sign. -/
def isFloat (integral : List Char) (fraction behindPlus : Option (List Char)) : Bool :=
  Option.isSome do
    let (whole, rest) ← digits? 10 false (splitSign integral).2
    let (decimals, rest) ←
      match fraction with
      | none => some ([], rest)
      | some text => if rest.isEmpty then digits? 10 true text else none
    let (negative, exponent) ←
      match rest with
      | [] => if behindPlus.isNone then some (false, []) else none
      | 'e' :: rest => exponent? rest behindPlus
      | 'E' :: rest => exponent? rest behindPlus
      | _ => none
    if (Decimal.mk whole decimals negative exponent).isFinite then some () else none

end Dissection.Toml
