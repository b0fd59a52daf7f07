import Shipment.Number.Shortest

/-!
# Written doubles

The digits of a double come from its shortest decimal; a notation says where
the point stands and how an exponent is written.  In every notation a double
has a point or an exponent, so it is never mistaken for an integer.
-/

namespace Shipment

structure FloatNotation where
  /-- Whether a number whose leading digit has this exponent is written without
  an exponent of its own. -/
  positional : Int → Bool
  /-- Whether a nonnegative exponent has a plus sign. -/
  plusSign : Bool

namespace FloatNotation

/-- Exponents from `10 ^ -5` up to `10 ^ 15` are spelled out. -/
def spelledOut (e : Int) : Bool :=
  -5 ≤ e && e ≤ 15

/-- Numbers of the JSON output. -/
def json : FloatNotation := ⟨spelledOut, true⟩

/-- Numbers of YAML text. -/
def yaml : FloatNotation := ⟨spelledOut, false⟩

/-- Numbers quoted in messages about values of the wrong kind. -/
def plain : FloatNotation := ⟨fun _ => true, false⟩

def zeros (n : Nat) : List Char :=
  List.replicate n '0'

/-- The digits with a point placed so that the leading one has exponent `lead`. -/
def place (digits : List Char) (lead : Int) : List Char :=
  if lead < 0 then ['0', '.'] ++ zeros (-lead - 1).toNat ++ digits
  else
    let whole := lead.toNat + 1
    if digits.length ≤ whole then digits ++ zeros (whole - digits.length) ++ ['.', '0']
    else digits.take whole ++ ['.'] ++ digits.drop whole

def scientific (style : FloatNotation) (digits : List Char) (lead : Int) : List Char :=
  let mantissa :=
    match digits with
    | [] => []
    | [d] => [d]
    | d :: more => d :: '.' :: more
  let sign := if lead < 0 then ['-'] else if style.plusSign then ['+'] else []
  mantissa ++ ['e'] ++ sign ++ Nat.toDigits 10 lead.natAbs

/-- The text of a finite double. -/
def render (style : FloatNotation) (x : Binary64) : List Char :=
  let d := x.shortest
  let digits := Nat.toDigits 10 d.digits
  let lead : Int := if x.isZero then 0 else d.exponent + digits.length - 1
  (if x.negative then ['-'] else []) ++
    (if style.positional lead then place digits lead else style.scientific digits lead)

end FloatNotation

end Shipment
