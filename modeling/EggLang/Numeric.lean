/-
  EggLang.Numeric — integers of any size and doubles, mixed freely, and their texts.

  An integer of any size can be computed with, but its decimal text is refused past `digitLimit`
  digits, the sign not counted (`isOverlong_iff`). Reading keeps the same limit on the digits
  written, leading zeros included.

  The finite doubles that are not negative are numbered by their patterns 0, 1, 2, … in increasing
  order: the exponent field stands above the 52 bits of the fraction field. All of them are whole
  multiples of one unit, 2^-1074, and `unitsOf` gives the multiple: the first 2^53 patterns are one
  unit apart, and the step doubles every 2^52 patterns from there on.

  `nearestPattern num den` rounds `num / den` units to the nearest pattern, a half to the even one.
  The quotient is brought to at most 53 bits and rounded there; the pattern is that result moved up
  by 2^52 for every bit taken off, also when the rounding carries. Patterns from `finitePatterns` on
  are past the largest double.

  A double is finite (a sign and a pattern, so that there are two zeros), infinite, or not a number;
  no result shows the sign or payload of the last, so it has none. Sums, differences, products and
  quotients are the exact results rounded once, with the usual rules for zeros and infinities: an
  exact sum of zero is negative only when both terms are, `∞ - ∞`, `0 · ∞`, `0 / 0` and `∞ / ∞` are
  not numbers, and what rounds past the largest double is infinite. None of these operations fails.

  The text of a double is the shortest decimal that rounds to it, and of those the nearest.
  Seventeen digits always suffice, so the search tries 1, 2, … 17 digits, on each grid the neighbour
  nearer to the double before the other. The digits are laid out positionally, always with a point,
  while the exponent of the first digit is in the range of the layout, and with an exponent outside
  it.

  Numbers are compared by the places they hold on the number line, counted in units of 2^-1074, so
  an integer and a double are equal only when they are exactly so; what is not a number has no place
  and is neither equal to nor less than anything.

  Between integers, sums, differences and products are exact, and a quotient is exact when there is
  an integer quotient, and is the nearest double otherwise. With a double on either side the integer
  on the other is rounded to a double first. An integer, or a quotient of integers, that rounds past
  the largest double is out of range; nothing else fails.
-/

namespace EggLang.Numeric

/-! ## Integers in decimal -/

def twoPow (n : Nat) : Nat := Nat.pow 2 n

def tenPow (n : Nat) : Nat := Nat.pow 10 n

/-- The most digits that an integer is read from or written in. -/
def digitLimit : Nat := 4300

def naturalText (n : Nat) : String := String.ofList (Nat.toDigits 10 n)

def integerText : Int → String
  | .ofNat n => naturalText n
  | .negSucc n => "-" ++ naturalText (n + 1)

def isOverlong (n : Int) : Bool := tenPow digitLimit ≤ n.natAbs

/-- The number of binary digits; zero has none. -/
def bitLength (n : Nat) : Nat := if n = 0 then 0 else n.log2 + 1

/-- The value of digits given by their own values, most significant first. -/
def valueOfDigits (ds : List Nat) : Nat := ds.foldl (fun acc d => 10 * acc + d) 0

theorem length_toDigits_le {n limit : Nat} (hpos : 0 < limit) :
    (Nat.toDigits 10 n).length ≤ limit ↔ n < tenPow limit :=
  Nat.length_toDigits_le_iff (by decide) hpos

theorem isOverlong_iff {n : Int} : isOverlong n = true ↔ digitLimit < (Nat.toDigits 10 n.natAbs).length := by
  rw [isOverlong, decide_eq_true_iff, ← Nat.not_lt, ← length_toDigits_le (by decide), Nat.not_le]

/-! ## Patterns -/

def unitsPerOne : Nat := twoPow 1074

/-- So many patterns have one exponent. -/
def binade : Nat := twoPow 52

def finitePatterns : Nat := 2047 * binade

def unitsOf (pattern : Nat) : Nat :=
  if pattern < binade then pattern else (binade + pattern % binade) * twoPow (pattern / binade - 1)

def roundHalfEven (num den : Nat) : Nat :=
  let q := num / den
  let r := num % den
  if 2 * r < den then q
  else if den < 2 * r then q + 1
  else if q % 2 = 0 then q
  else q + 1

def nearestPattern (num den : Nat) : Nat :=
  let shift := bitLength (num / den) - 53
  shift * binade + roundHalfEven num (den * twoPow shift)

/-! ## Arithmetic -/

inductive Binary64 where
  | finite (negative : Bool) (pattern : Fin finitePatterns)
  | infinite (negative : Bool)
  | nan
  deriving DecidableEq

namespace Binary64

/-- The double with these 64 bits: sign, eleven bits of exponent, 52 bits of fraction. -/
def ofBits (bits : Nat) : Binary64 :=
  let negative := bits / twoPow 63 % 2 == 1
  let magnitude := bits % twoPow 63
  if h : magnitude < finitePatterns then .finite negative ⟨magnitude, h⟩
  else if magnitude = finitePatterns then .infinite negative
  else .nan

def zero (negative : Bool) : Binary64 := .finite negative ⟨0, by decide⟩

/-- The double nearest to `num / den` units, unless it is past the largest. -/
def nearest? (negative : Bool) (num den : Nat) : Option Binary64 :=
  if h : nearestPattern num den < finitePatterns then some (.finite negative ⟨nearestPattern num den, h⟩) else none

def nearest (negative : Bool) (num den : Nat) : Binary64 := (nearest? negative num den).getD (.infinite negative)

def ofInt? (n : Int) : Option Binary64 := nearest? (decide (n < 0)) (n.natAbs * unitsPerOne) 1

def ofQuotient? (a b : Int) : Option Binary64 :=
  nearest? (decide (a < 0) != decide (b < 0)) (a.natAbs * unitsPerOne) b.natAbs

def signed (negative : Bool) (units : Nat) : Int := if negative then -(units : Int) else units

def isZero : Binary64 → Bool
  | .finite _ p => p.val == 0
  | _ => false

def neg : Binary64 → Binary64
  | .finite s p => .finite (!s) p
  | .infinite s => .infinite (!s)
  | .nan => .nan

def add : Binary64 → Binary64 → Binary64
  | .nan, _ => .nan
  | _, .nan => .nan
  | .infinite s, .infinite t => if s == t then .infinite s else .nan
  | .infinite s, .finite .. => .infinite s
  | .finite .., .infinite t => .infinite t
  | .finite s p, .finite t q =>
    let sum := signed s (unitsOf p) + signed t (unitsOf q)
    if sum = 0 then zero (s && t) else nearest (decide (sum < 0)) sum.natAbs 1

def sub (x y : Binary64) : Binary64 := x.add y.neg

def mul : Binary64 → Binary64 → Binary64
  | .nan, _ => .nan
  | _, .nan => .nan
  | .infinite s, .infinite t => .infinite (s != t)
  | .infinite s, .finite t q => if q.val = 0 then .nan else .infinite (s != t)
  | .finite s p, .infinite t => if p.val = 0 then .nan else .infinite (s != t)
  | .finite s p, .finite t q => nearest (s != t) (unitsOf p * unitsOf q) unitsPerOne

def div : Binary64 → Binary64 → Binary64
  | .nan, _ => .nan
  | _, .nan => .nan
  | .infinite _, .infinite _ => .nan
  | .infinite s, .finite t _ => .infinite (s != t)
  | .finite s _, .infinite t => zero (s != t)
  | .finite s p, .finite t q =>
    if q.val = 0 then if p.val = 0 then .nan else .infinite (s != t)
    else nearest (s != t) (unitsOf p * unitsPerOne) (unitsOf q)

def integer? : Binary64 → Option Int
  | .finite s p =>
    if unitsOf p % unitsPerOne = 0 then some (signed s (unitsOf p / unitsPerOne)) else none
  | _ => none

end Binary64

/-! ## The shortest decimal -/

/-- The number `digits · 10^exponent`. -/
structure ShortDecimal where
  digits : Nat
  exponent : Int
  deriving DecidableEq

/-- The pattern that a decimal rounds to. -/
def ShortDecimal.pattern (d : ShortDecimal) : Nat :=
  if 0 ≤ d.exponent then nearestPattern (d.digits * tenPow d.exponent.toNat * unitsPerOne) 1
  else nearestPattern (d.digits * unitsPerOne) (tenPow (-d.exponent).toNat)

/-- The exponent of the first digit of a positive number of units. No number of units is so small
    that 324 more places leave nothing before the point. -/
def leadingExponent (units : Nat) : Int :=
  ((Nat.toDigits 10 (units * tenPow 324 / unitsPerOne)).length : Int) - 325

/-- The multiple of `10^exponent` that reads back, of the two around the number of units: the nearer
    if it does, else the other if it does. -/
def gridDecimal? (pattern : Nat) (exponent : Int) : Option ShortDecimal :=
  let units := unitsOf pattern
  let (num, den) :=
    if 0 ≤ exponent then (units, unitsPerOne * tenPow exponent.toNat)
    else (units * tenPow (-exponent).toNat, unitsPerOne)
  let near := roundHalfEven num den
  let far := if near = num / den then near + 1 else near - 1
  if ShortDecimal.pattern ⟨near, exponent⟩ = pattern then some ⟨near, exponent⟩
  else if ShortDecimal.pattern ⟨far, exponent⟩ = pattern then some ⟨far, exponent⟩
  else none

def shortestFrom (pattern : Nat) (leading : Int) : (tries count : Nat) → Option ShortDecimal
  | 0, _ => none
  | tries + 1, count =>
    match gridDecimal? pattern (leading + 1 - count) with
    | some d => some d
    | none => shortestFrom pattern leading tries (count + 1)

def shortest (pattern : Nat) : ShortDecimal :=
  (shortestFrom pattern (leadingExponent (unitsOf pattern)) 17 1).getD ⟨0, 0⟩

/-! ## The text of a double -/

structure DoubleLayout where
  /-- The least exponent of the first digit that is written positionally. -/
  positionalFrom : Int
  /-- The least exponent above that which is not. -/
  positionalUpTo : Int
  /-- The least number of digits of a written exponent. -/
  exponentPlaces : Nat

/-- Doubles are written positionally from 0.0001 up to below 10^16, and their exponents, which have
    a sign, in two places at least. -/
def doubleLayout : DoubleLayout := ⟨-4, 16, 2⟩

def dropTrailingZeros (ds : List Char) : List Char := (ds.reverse.dropWhile (· == '0')).reverse

/-- Digits with a point, the first of them standing at `10^exponent`. -/
def positional (ds : List Char) (exponent : Int) : List Char :=
  if exponent < 0 then '0' :: '.' :: List.replicate (-exponent - 1).toNat '0' ++ ds
  else
    let whole := exponent.toNat + 1
    if ds.length ≤ whole then ds ++ List.replicate (whole - ds.length) '0' ++ ['.', '0']
    else ds.take whole ++ '.' :: ds.drop whole

def scientific (places : Nat) (ds : List Char) (exponent : Int) : List Char :=
  let power := Nat.toDigits 10 exponent.natAbs
  -- a point stands only after the first of several digits
  let mantissa := if ds.length ≤ 1 then ds else ds.take 1 ++ '.' :: ds.drop 1
  mantissa ++ 'e' :: (if exponent < 0 then '-' else '+') :: List.replicate (places - power.length) '0' ++ power

def ShortDecimal.write (layout : DoubleLayout) (d : ShortDecimal) : List Char :=
  let all := Nat.toDigits 10 d.digits
  let exponent := d.exponent + all.length - 1
  let ds := dropTrailingZeros all
  if layout.positionalFrom ≤ exponent ∧ exponent < layout.positionalUpTo then positional ds exponent
  else scientific layout.exponentPlaces ds exponent

def Binary64.text : Binary64 → String
  | .nan => "nan"
  | .infinite s => if s then "-inf" else "inf"
  | .finite s p =>
    let body := if p.val = 0 then "0.0" else String.ofList ((shortest p).write doubleLayout)
    if s then "-" ++ body else body

/-! ## Numbers of both kinds -/

inductive Number where
  | int (n : Int)
  | float (x : Binary64)
  deriving DecidableEq

/-- A place on the number line, with its two ends. -/
inductive LinePoint where
  | minusInfinity
  | units (u : Int)
  | plusInfinity
  deriving DecidableEq

def LinePoint.before : LinePoint → LinePoint → Bool
  | .minusInfinity, .minusInfinity => false
  | .minusInfinity, _ => true
  | .units _, .minusInfinity => false
  | .units u, .units v => decide (u < v)
  | .units _, .plusInfinity => true
  | .plusInfinity, _ => false

inductive RangeFault where
  /-- An integer rounds past the largest double. -/
  | integer
  /-- A quotient of integers does. -/
  | quotient
  deriving DecidableEq

def RangeFault.message : RangeFault → String
  | .integer => "int too large to convert to float"
  | .quotient => "integer division result too large for a float"

namespace Number

def point? : Number → Option LinePoint
  | .int n => some (.units (n * unitsPerOne))
  | .float (.finite s p) => some (.units (Binary64.signed s (unitsOf p)))
  | .float (.infinite s) => some (if s then .minusInfinity else .plusInfinity)
  | .float .nan => none

def equal (a b : Number) : Bool :=
  match a.point?, b.point? with
  | some p, some q => p == q
  | _, _ => false

def less (a b : Number) : Bool :=
  match a.point?, b.point? with
  | some p, some q => p.before q
  | _, _ => false

def isZero : Number → Bool
  | .int n => n == 0
  | .float x => x.isZero

/-- The double a number is taken for beside a double. -/
def toBinary64 : Number → Except RangeFault Binary64
  | .int n =>
    match Binary64.ofInt? n with
    | some x => .ok x
    | none => .error .integer
  | .float x => .ok x

/-- An operation with an exact form on integers and one on doubles. -/
def combine (exact : Int → Int → Int) (rounded : Binary64 → Binary64 → Binary64) :
    Number → Number → Except RangeFault Number
  | .int a, .int b => .ok (.int (exact a b))
  | a, b => do
    let x ← a.toBinary64
    let y ← b.toBinary64
    return .float (rounded x y)

def add : Number → Number → Except RangeFault Number := combine (· + ·) Binary64.add

def sub : Number → Number → Except RangeFault Number := combine (· - ·) Binary64.sub

def mul : Number → Number → Except RangeFault Number := combine (· * ·) Binary64.mul

/-- The quotient by a number other than zero. -/
def div : Number → Number → Except RangeFault Number
  | .int a, .int b =>
    if a % b = 0 then .ok (.int (a / b))
    else
      match Binary64.ofQuotient? a b with
      | some x => .ok (.float x)
      | none => .error .quotient
  | a, b => do
    let x ← a.toBinary64
    let y ← b.toBinary64
    return .float (x.div y)

end Number

end EggLang.Numeric
