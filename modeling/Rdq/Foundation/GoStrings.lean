import Mathlib.Algebra.Group.Nat.Defs
import Rdq.Foundation.Strconv

/-!
# Durations printed

`String` of a `time.Duration`.
-/

namespace Rdq.Foundation

/-- `fmtFrac`: the fraction of `n / 10^precision` without trailing zeros. -/
def fractionDigits (n precision : Nat) : List Char :=
  let digits := formatNat (n % 10 ^ precision)
  let padded := List.replicate (precision - digits.length) '0' ++ digits
  match (padded.reverse.dropWhile (· = '0')).reverse with
  | [] => []
  | ds => '.' :: ds

def decimal (n precision : Nat) : List Char :=
  formatNat (n / 10 ^ precision) ++ fractionDigits n precision

/-- `Duration.String`, of nanoseconds. -/
def durationText (d : Int) : List Char :=
  let n := d.natAbs
  let text :=
    if n = 0 then ['0', 's']
    else if n < 1000 then decimal n 0 ++ ['n', 's']
    else if n < 1000000 then decimal n 3 ++ ['µ', 's']
    else if n < 1000000000 then decimal n 6 ++ ['m', 's']
    else
      let secs := n / 1000000000
      let mins := secs / 60
      (if 0 < mins / 60 then formatNat (mins / 60) ++ ['h'] else []) ++
        (if 0 < mins then formatNat (mins % 60) ++ ['m'] else []) ++
        formatNat (secs % 60) ++ fractionDigits n 9 ++ ['s']
  if d < 0 then '-' :: text else text

example : String.ofList (durationText 5400000000000) = "1h30m0s" ∧
    String.ofList (durationText (-1500000)) = "-1.5ms" := by decide +kernel

end Rdq.Foundation
