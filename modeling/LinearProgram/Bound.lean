import LinearProgram.Scalar

/-!
# Bounds

A bound says which values a row or a column may take. It comes in five kinds, and each keeps only
the numbers that its kind uses. An infinite side is the same as no side.

* `Bound.Admits`: the values that a bound allows.
* `Bound.consistent`: the test a bound passes before it is stored.
-/

namespace LinearProgram

/-- The five kinds of bounds. -/
inductive Bound.Kind where
  | free
  | lower
  | upper
  | double
  | fixed
  deriving Repr, DecidableEq

/-- The name of a kind of bound. -/
def Bound.Kind.text : Bound.Kind → String
  | .free => "free"
  | .lower => "lower"
  | .upper => "upper"
  | .double => "double"
  | .fixed => "fixed"

/-- **A bound** on the value of a row or a column. -/
inductive Bound (K : Type) where
  /-- No restriction. -/
  | free
  /-- At least `l`. -/
  | lower (l : K)
  /-- At most `u`. -/
  | upper (u : K)
  /-- Between `l` and `u`. -/
  | double (l u : K)
  /-- Equal to `x`. -/
  | fixed (x : K)
  deriving Repr, DecidableEq

namespace Bound

variable {K : Type}

instance : Inhabited (Bound K) := ⟨free⟩

/-- The bound of a kind with the given sides. A side that the kind does not use is dropped, and a
fixed bound takes its value from the lower side. Nothing is checked. -/
def ofParts (kind : Kind) (l u : K) : Bound K :=
  match kind with
  | .free => free
  | .lower => lower l
  | .upper => upper u
  | .double => double l u
  | .fixed => fixed l

/-- The kind of a bound. -/
def kind : Bound K → Kind
  | free => .free
  | lower _ => .lower
  | upper _ => .upper
  | double _ _ => .double
  | fixed _ => .fixed

@[simp]
theorem kind_ofParts (k : Kind) (l u : K) : (ofParts k l u).kind = k := by cases k <;> rfl

variable [ExtendedScalar K]

open ExtendedScalar

/-- The side `s`, unless it equals `absent`, the infinity that stands for no side. -/
def side (absent s : K) : Option K := if s == absent then none else some s

/-- The lower side, if there is one. Negative infinity is no lower side. -/
def lower? : Bound K → Option K
  | free | upper _ => none
  | lower l | double l _ | fixed l => side (-infinity) l

/-- The upper side, if there is one. Positive infinity is no upper side. -/
def upper? : Bound K → Option K
  | free | lower _ => none
  | upper u | double _ u | fixed u => side infinity u

/-- Whether the bound is fit to be stored. Two sides must be in order, a lower side below positive
infinity, an upper side above negative infinity, and a fixed value not infinite. -/
def consistent : Bound K → Bool
  | free => true
  | lower l => l != infinity
  | upper u => u != -infinity
  | double l u => decide (l ≤ u) && l != infinity && u != -infinity
  | fixed x => !isInfinite x

/-- Whether one of the numbers of the bound is not a number. -/
def hasNaN : Bound K → Bool
  | free => false
  | lower x | upper x | fixed x => isNaN x
  | double l u => isNaN l || isNaN u

/-- **The values that a bound allows.** -/
def Admits : Bound K → K → Prop
  | free, _ => True
  | lower l, x => l ≤ x
  | upper u, x => x ≤ u
  | double l u, x => l ≤ x ∧ x ≤ u
  | fixed v, x => (x == v) = true

instance (b : Bound K) (x : K) : Decidable (b.Admits x) := by
  cases b <;> unfold Admits <;> infer_instance

end Bound

end LinearProgram
