/-!
Arithmetic on binary64 numbers, done exactly: an operation computes the exact result and rounds it.
Rounding goes to the nearest number of 53 binary digits whose last digit is worth at least
`2 ^ -1074`; a tie goes to the one with an even last digit. What would be `2 ^ 1024` or more in
magnitude is infinite. Zero has no sign here.
-/

namespace Chip8

/-- A binary64 number. The value of a finite one is a number of 53 binary digits. -/
inductive Binary64
  | finite (value : Rat)
  | infinite (negative : Bool)
  /-- No number at all, which compares with nothing. -/
  | undefined
deriving DecidableEq

namespace Binary64

/-- The power of two with any whole exponent. -/
def twoPow (e : Int) : Rat :=
  if 0 ≤ e then Nat.pow 2 e.toNat else 1 / Nat.pow 2 (-e).toNat

/-- The exponent of the greatest power of two that is at most `|q|`, for `q` other than zero. -/
def log2 (q : Rat) : Int :=
  let e : Int := (Nat.log2 q.num.natAbs : Int) - (Nat.log2 q.den : Int)
  if twoPow e ≤ q.abs then e else e - 1

/-- The integer nearest to `q`; a tie goes to the even one. -/
def nearestEven (q : Rat) : Int :=
  let below := q.floor
  let rest := q - below
  if rest < 1 / 2 then below
  else if 1 / 2 < rest then below + 1
  else if below % 2 = 0 then below
  else below + 1

/-- The exponent of the last binary digit of the number nearest to `q`. -/
def lastDigit (q : Rat) : Int := max (log2 q - 52) (-1074)

/-- The number nearest to `q`, were there no largest one. -/
def round (q : Rat) : Rat :=
  if q = 0 then 0 else nearestEven (q / twoPow (lastDigit q)) * twoPow (lastDigit q)

/-- All finite numbers are smaller in magnitude. -/
def bound : Rat := twoPow 1024

/-- The number nearest to `q`. -/
def ofRat (q : Rat) : Binary64 :=
  let value := round q
  if bound ≤ value.abs then .infinite (value < 0) else .finite value

instance (n : Nat) : OfNat Binary64 n := ⟨.finite n⟩

/-- The number nearest to an integer, unless it is infinite. -/
def ofInt? (n : Int) : Option Binary64 :=
  match ofRat n with
  | .finite value => some (.finite value)
  | _ => none

def lt : Binary64 → Binary64 → Bool
  | .finite a, .finite b => a < b
  | .finite _, .infinite negative => !negative
  | .infinite negative, .finite _ => negative
  | .infinite a, .infinite b => a && !b
  | .undefined, _ => false
  | _, .undefined => false

def le (a b : Binary64) : Bool := a.lt b || (a == b && a != .undefined)

def add : Binary64 → Binary64 → Binary64
  | .finite a, .finite b => ofRat (a + b)
  | .finite _, .infinite negative => .infinite negative
  | .infinite negative, .finite _ => .infinite negative
  | .infinite a, .infinite b => if a = b then .infinite a else .undefined
  | .undefined, _ => .undefined
  | _, .undefined => .undefined

def isNegative : Binary64 → Bool
  | .finite value => value < 0
  | .infinite negative => negative
  | .undefined => false

def mul : Binary64 → Binary64 → Binary64
  | .finite a, .finite b => ofRat (a * b)
  | .undefined, _ => .undefined
  | _, .undefined => .undefined
  | a, b => if a = 0 ∨ b = 0 then .undefined else .infinite (a.isNegative != b.isNegative)

/-- The rounded quotient of a finite number. There is none by zero. -/
def div : Binary64 → Binary64 → Binary64
  | .finite a, .finite b => if b = 0 then .undefined else ofRat (a / b)
  | .finite _, .infinite _ => 0
  | _, _ => .undefined

/-- The integer between zero and `q` that is nearest to `q`. -/
def truncate (q : Rat) : Int := if 0 ≤ q then q.floor else -(-q).floor

def integerPart? : Binary64 → Option Int
  | .finite value => some (truncate value)
  | _ => none

end Binary64

end Chip8
