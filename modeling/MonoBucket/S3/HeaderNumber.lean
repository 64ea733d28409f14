/-
Numbers read from request headers

`headerAsUnsigned` reads `x-amz-decoded-content-length` with `std::stoull`,
which skips white space, takes a sign, reads as many digits as there are and
ignores the rest. A minus sign is applied to the result, modulo 2^64, so the
text "-5" is read as 2^64 - 5. Text that is not a number, or one past 64 bits,
throws and is read as zero.
-/

import MonoBucket.Storage.Bytes

namespace MonoBucket.S3

/-- The value of a run of decimal digits. -/
def digitsValue (digits : Bytes) : Nat :=
  digits.foldl (fun value digit => value * 10 + (digit.toNat - 0x30)) 0

/-- The sign in front of the digits, and the rest of the text. -/
def splitSign : Bytes → Bool × Bytes
  | 0x2D :: rest => (true, rest)
  | 0x2B :: rest => (false, rest)
  | text => (false, text)

/-- `std::stoull` in base ten, nothing where it throws. -/
def stoull (text : Bytes) : Option UInt64 :=
  let (negative, rest) := splitSign (text.dropWhile isSpace)
  let digits := rest.takeWhile isDigit
  if digits = [] then none
  else if 2 ^ 64 ≤ digitsValue digits then none
  else
    let value := UInt64.ofNat (digitsValue digits)
    some (if negative then 0 - value else value)

/-- The value of a header, zero when it is absent or not a number. -/
def headerAsUnsigned (value : Bytes) : UInt64 :=
  if value = [] then 0 else (stoull value).getD 0

example : headerAsUnsigned (ascii "1024") = 1024 := by decide +kernel

example : headerAsUnsigned (ascii "-5") = 18446744073709551611 := by decide +kernel

end MonoBucket.S3
