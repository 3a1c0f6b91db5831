/-! # Doubles as decimals

A finite double is `m * 2 ^ q` with a sign, where `m < 2 ^ 53` and `-1074 ≤ q`. A positive one is the
nearest double of every real in an interval around it. Its shortest decimal has as few digits as any
decimal in the interval, and of those with that many it is the nearest, the even one on a tie. All
comparisons are between natural numbers.
-/
namespace ScriptTyping.Decimal

inductive Parts where
  | nan
  | infinite (negative : Bool)
  | finite (negative : Bool) (m : Nat) (q : Int)

def parts (x : Float) : Parts :=
  let bits : Nat := x.toBits.toNat
  let negative := bits / Nat.pow 2 63 == 1
  let exponent : Nat := bits / Nat.pow 2 52 % Nat.pow 2 11
  let fraction : Nat := bits % Nat.pow 2 52
  if exponent == 2047 then
    if fraction == 0 then .infinite negative else .nan
  else if exponent == 0 then .finite negative fraction (-1074)
  else .finite negative (Nat.pow 2 52 + fraction) (exponent - 1075)

def Parts.integer? : Parts → Option Int
  | .finite negative m q =>
    let size :=
      if 0 ≤ q then some (m * Nat.pow 2 q.toNat)
      else if m % Nat.pow 2 (-q).toNat == 0 then some (m / Nat.pow 2 (-q).toNat)
      else none
    size.map fun n => if negative then -(n : Int) else n
  | _ => none

def digitCount (n : Nat) : Nat := (Nat.toDigits 10 n).length

structure Ratio where
  num : Nat
  den : Nat

/-- The largest `k` with `10 ^ k` at most the quotient. -/
def Ratio.magnitude (r : Ratio) : Int :=
  if r.den ≤ r.num then digitCount (r.num / r.den) - 1
  else -(digitCount ((r.den + r.num - 1) / r.num - 1) : Int)

/-- The reals that round to `m * 2 ^ q`, all ends over one denominator. -/
structure Interval where
  low : Nat
  mid : Nat
  high : Nat
  den : Nat
  closed : Bool

/-- Below a power of two the doubles lie twice as close, except at the smallest exponent. -/
def Interval.of (m : Nat) (q : Int) : Interval :=
  let scale := Nat.pow 2 (q - 2).toNat
  let below := if m == Nat.pow 2 52 && -1074 < q then 1 else 2
  { low := (4 * m - below) * scale
    mid := 4 * m * scale
    high := (4 * m + 2) * scale
    den := Nat.pow 2 (2 - q).toNat
    closed := m % 2 == 0 }

/-- The multiples of `10 ^ e` next to the value on both sides, if the interval holds one of them:
the nearer one, as a multiple of `10 ^ e`, and the even one of two at the same distance. -/
def Interval.onGrid (i : Interval) (e : Int) : Option Nat :=
  let up := Nat.pow 10 (-e).toNat
  let unit := i.den * Nat.pow 10 e.toNat
  let d := i.mid * up / unit
  let fits (a b : Nat) : Bool := a < b || (i.closed && a == b)
  let lower := fits (i.low * up) (d * unit)
  let upper := fits ((d + 1) * unit) (i.high * up)
  let down := i.mid * up - d * unit
  let rise := (d + 1) * unit - i.mid * up
  if lower && upper then
    some (if down < rise || (down == rise && d % 2 == 0) then d else d + 1)
  else if lower then some d
  else if upper then some (d + 1)
  else none

/-- Digits `d` and exponent `e` of the shortest decimal `d * 10 ^ e` of `m * 2 ^ q`. Seventeen
digits are always enough. -/
def shortest (m : Nat) (q : Int) : Nat × Int :=
  let i := Interval.of m q
  let k := Ratio.magnitude ⟨i.mid, i.den⟩
  let attempt (n : Nat) : Option (Nat × Int) :=
    (i.onGrid (k - n)).map fun d => (d, k - n)
  ((List.range 17).findSome? attempt).getD (m, q)

/-- How a double is written: positional from exponent `least` on and below `bound`, otherwise with
an exponent of at least `exponentWidth` digits. -/
structure Format where
  least : Int
  bound : Int
  exponentWidth : Nat
  infinite : String
  nan : String

def Format.plain : Format := ⟨-4, 16, 2, "inf", "nan"⟩

def zeros (n : Nat) : List Char := List.replicate n '0'

/-- The digits `ds` with the point after the first `point` of them. A whole number keeps `.0`. -/
def positional (ds : List Char) (point : Int) : List Char :=
  if point ≤ 0 then '0' :: '.' :: zeros (-point).toNat ++ ds
  else if ds.length ≤ point.toNat then ds ++ zeros (point.toNat - ds.length) ++ ['.', '0']
  else ds.take point.toNat ++ '.' :: ds.drop point.toNat

def exponential (width : Nat) (ds : List Char) (exponent : Int) : List Char :=
  let mantissa := if ds.length ≤ 1 then ds else ds.take 1 ++ '.' :: ds.drop 1
  let digits := Nat.toDigits 10 exponent.natAbs
  mantissa ++ 'e' :: (if exponent < 0 then '-' else '+') :: zeros (width - digits.length) ++ digits

def Format.digits (f : Format) (d : Nat) (e : Int) : List Char :=
  let all := Nat.toDigits 10 d
  let point : Int := all.length + e
  let ds := (all.reverse.dropWhile (· == '0')).reverse
  if f.least ≤ point - 1 ∧ point - 1 < f.bound then positional ds point
  else exponential f.exponentWidth ds (point - 1)

def Format.signed (negative : Bool) (cs : List Char) : String :=
  String.ofList (if negative then '-' :: cs else cs)

def Format.write (f : Format) (x : Float) : String :=
  match parts x with
  | .nan => f.nan
  | .infinite negative => Format.signed negative f.infinite.toList
  | .finite negative 0 _ => Format.signed negative ['0', '.', '0']
  | .finite negative m q =>
    let (d, e) := shortest m q
    Format.signed negative (f.digits d e)

/-- The double nearest to `m * 10 ^ e`. Numbers beyond all doubles are infinite, numbers below all
are zero, and neither is worked out in full. -/
def nearest (m : Nat) (e : Int) : Float :=
  let size := digitCount m + e
  if m == 0 || size < -330 then 0.0
  else if 310 < size then 1.0 / 0.0
  else if 0 ≤ e then Float.ofScientific m false e.toNat
  else Float.ofScientific m true (-e).toNat

end ScriptTyping.Decimal
