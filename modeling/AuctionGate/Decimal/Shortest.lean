/-!
# Shortest decimals

A positive binary number `m · 2 ^ e` stands for every real nearer to it than to its neighbours,
and for the two ends of that interval when `m` is even. `shortest` finds the fewest decimal
digits inside the interval: for one digit, two digits and so on it tries the two multiples of the
power of ten around the number itself, and of two hits it takes the nearer.
-/

namespace AuctionGate.Decimal

def pow2 (n : Nat) : Nat := 1 <<< n

def pow10 (n : Nat) : Nat := Nat.pow 10 n

/-- `digits · 10 ^ exponent` -/
structure Scaled where
  digits : Nat
  exponent : Int
  deriving DecidableEq, Repr

/-- `a · 2 ^ i ≤ b · 10 ^ j` -/
def leScaled (a : Nat) (i : Int) (b : Nat) (j : Int) : Bool :=
  a * pow2 i.toNat * pow10 (-j).toNat ≤ b * pow10 j.toNat * pow2 (-i).toNat

/-- `b · 10 ^ j ≤ a · 2 ^ i` -/
def geScaled (a : Nat) (i : Int) (b : Nat) (j : Int) : Bool :=
  b * pow10 j.toNat * pow2 (-i).toNat ≤ a * pow2 i.toNat * pow10 (-j).toNat

/-- The interval of reals that `m · 2 ^ e` stands for, with its ends in units of `2 ^ unit`. -/
structure Interval where
  low : Nat
  high : Nat
  unit : Int
  closed : Bool

/-- Below a power of two the neighbours lie twice as dense. -/
def Interval.of (m : Nat) (e : Int) (atPower : Bool) : Interval :=
  ⟨if atPower then 4 * m - 1 else 4 * m - 2, 4 * m + 2, e - 2, m % 2 = 0⟩

def Interval.mem (r : Interval) (d : Scaled) : Bool :=
  if r.closed then
    leScaled r.low r.unit d.digits d.exponent && geScaled r.high r.unit d.digits d.exponent
  else
    !geScaled r.low r.unit d.digits d.exponent && !leScaled r.high r.unit d.digits d.exponent

/-- The least `j` below `fuel` with `10 ^ j ≤ m · 2 ^ e · 10 ^ (j + j₀)`, counted on from `j₀`. -/
def leadingZeros (m : Nat) (e : Int) : Nat → Nat → Nat
  | 0, j => j
  | fuel + 1, j => if leScaled m e 1 (-(j + 1 : Int)) && !geScaled m e 1 (-(j + 1 : Int))
      then leadingZeros m e fuel (j + 1) else j

/-- The power of ten just above the number. -/
def magnitude (m : Nat) (e : Int) : Int :=
  let whole := m * pow2 e.toNat / pow2 (-e).toNat
  if whole = 0 then -(leadingZeros m e 400 0 : Int)
  else ((Nat.toDigits 10 whole).length : Int)

/-- `m · 2 ^ e` in units of `10 ^ p`, rounded down, with twice the remainder against one unit. -/
def inUnits (m : Nat) (e p : Int) : Nat × Ordering :=
  let num := m * pow2 e.toNat * pow10 (-p).toNat
  let den := pow10 p.toNat * pow2 (-e).toNat
  (num / den, compare (2 * (num % den)) den)

def searchFrom (m : Nat) (e : Int) (r : Interval) (top : Int) : Nat → Nat → Scaled
  | 0, n => ⟨(inUnits m e (top - n)).1, top - n⟩
  | fuel + 1, n =>
    let p := top - n
    let (down, half) := inUnits m e p
    let below : Scaled := ⟨down, p⟩
    let above : Scaled := ⟨down + 1, p⟩
    match down != 0 && r.mem below, r.mem above with
    | true, true =>
      match half with
      | .lt => below
      | .gt => above
      | .eq => if down % 2 = 0 then below else above
    | true, false => below
    | false, true => above
    | false, false => searchFrom m e r top fuel (n + 1)

/-- The shortest decimal that stands for `m · 2 ^ e`, where `m` is not zero. -/
def shortest (m : Nat) (e : Int) (atPower : Bool) : Scaled :=
  searchFrom m e (Interval.of m e atPower) (magnitude m e) 17 1

/-- A finite double is zero or `m · 2 ^ e`. -/
def ofBits (bits : UInt64) : Option (Nat × Int × Bool) :=
  let fraction : Nat := bits.toNat % pow2 52
  let exponent : Nat := bits.toNat / pow2 52 % pow2 11
  if exponent = 0 then
    if fraction = 0 then none else some (fraction, -1074, false)
  else some (pow2 52 + fraction, (exponent : Int) - 1075, fraction = 0 && 1 < exponent)

/-- How a decimal is laid out: positional from `10 ^ -lowest` up to `10 ^ highest`. -/
structure Layout where
  lowest : Int
  highest : Int

/-- Positional with a point and at least one place, exponential outside the range. -/
def Layout.write (l : Layout) (d : Scaled) : String :=
  let ds := Nat.toDigits 10 d.digits
  let n : Int := ds.length
  let point := n + d.exponent
  if 0 ≤ d.exponent ∧ point ≤ l.highest then
    String.ofList (ds ++ List.replicate d.exponent.toNat '0' ++ ['.', '0'])
  else if 0 < point ∧ point ≤ l.highest then
    String.ofList (ds.take point.toNat ++ '.' :: ds.drop point.toNat)
  else if l.lowest < point ∧ point ≤ 0 then
    String.ofList ('0' :: '.' :: List.replicate (-point).toNat '0' ++ ds)
  else
    let tail := ds.drop 1
    let fraction := if tail.isEmpty then [] else '.' :: tail
    String.ofList (ds.take 1 ++ fraction ++ ['e']) ++ toString (point - 1)

end AuctionGate.Decimal
