/-
  TypedClient.Proofs.Fragment.NumberBounds

  The range of a number.  On each side a schema can have two limits at once, an inclusive one, which
  a flag makes strict, and a strict one of its own; a fragment has one bound for each side, and the
  strict limit takes the place of the inclusive one.  Values are rationals and limits count exactly,
  so that two different limits always have a value between them.

  Both sides are told by one set of definitions, so that each fact is proved once.
-/
import Mathlib.Algebra.Order.Field.Basic
import Mathlib.Algebra.Order.Field.Rat
import Mathlib.Tactic.NormNum
import TypedClient.Fragment.OfSchema
import TypedClient.Spelling.RuntimeSchemas

namespace TypedClient

/-! ## Values of numbers -/

/-- The exact value of a binary64 number. -/
def Decimal.Binary64.toRat (number : Decimal.Binary64) : ℚ :=
  (if number.negative then -1 else 1) * number.significand * 2 ^ number.exponent

/-- The exact value of a number of a document. -/
def Number.toRat : Number → ℚ
  | .int value => value
  | .dec value => value.toRat

/-! ## Limits on a side -/

/-- The side of a limit that is cut off. -/
inductive Side where
  | lower
  | upper
  deriving DecidableEq, Repr

namespace Side

/-- The side across. -/
def other : Side → Side
  | .lower => .upper
  | .upper => .lower

/-- Does a value keep to a limit on this side, without reaching it when the limit is strict? -/
def Keeps : Side → (strict : Bool) → (limit value : ℚ) → Prop
  | .lower, true, limit, value => limit < value
  | .lower, false, limit, value => limit ≤ value
  | .upper, true, limit, value => value < limit
  | .upper, false, limit, value => value ≤ limit

variable {side : Side} {strict : Bool} {limit value : ℚ}

theorem eq_or_eq_other (place side : Side) : place = side ∨ place = side.other := by
  cases place <;> cases side <;> decide

theorem forall_iff {holds : Side → Prop} :
    (∀ side, holds side) ↔ holds .lower ∧ holds .upper := by
  refine ⟨fun h => ⟨h .lower, h .upper⟩, fun h side => ?_⟩
  cases side with
  | lower => exact h.1
  | upper => exact h.2

/-- A value that keeps strictly to a limit keeps to it. -/
theorem Keeps.of_strict (h : side.Keeps true limit value) : side.Keeps strict limit value := by
  cases strict with
  | true => exact h
  | false =>
    cases side with
    | lower => exact le_of_lt (show limit < value from h)
    | upper => exact le_of_lt (show value < limit from h)

/-- A value further within than one that keeps to a limit keeps to it as well. -/
theorem Keeps.further {next : ℚ} (h : side.Keeps strict limit value)
    (hnext : side.Keeps true value next) : side.Keeps strict limit next := by
  cases side with
  | lower =>
    cases strict with
    | true => exact lt_trans (show limit < value from h) hnext
    | false => exact le_trans (show limit ≤ value from h) (le_of_lt hnext)
  | upper =>
    cases strict with
    | true => exact lt_trans hnext (show value < limit from h)
    | false => exact le_trans (le_of_lt hnext) (show value ≤ limit from h)

/-- A value strictly across a limit does not keep to it. -/
theorem Keeps.not_across (h : side.other.Keeps true limit value) :
    ¬ side.Keeps strict limit value := by
  cases side with
  | lower =>
    have hlt : value < limit := h
    cases strict with
    | true => exact not_lt_of_gt hlt
    | false => exact not_le_of_gt hlt
  | upper =>
    have hlt : limit < value := h
    cases strict with
    | true => exact not_lt_of_gt hlt
    | false => exact not_le_of_gt hlt

/-- A limit that is not the tighter one is kept by what keeps strictly to the other one. -/
theorem Keeps.of_not_tighter {looser : ℚ} (h : side.Keeps true limit value)
    (hlooser : ¬ side.Keeps true limit looser) : side.Keeps strict looser value := by
  refine Keeps.of_strict ?_
  cases side with
  | lower => exact lt_of_le_of_lt (not_lt.mp (show ¬ limit < looser from hlooser)) h
  | upper => exact lt_of_lt_of_le h (not_lt.mp (show ¬ looser < limit from hlooser))

/-- Between a limit and two values within it there is another value. -/
theorem exists_short_of {first second : ℚ} (hfirst : side.Keeps true limit first)
    (hsecond : side.Keeps true limit second) :
    ∃ short, side.Keeps true limit short ∧ side.other.Keeps true first short ∧
      side.other.Keeps true second short := by
  cases side with
  | lower =>
    obtain ⟨short, hlimit, hshort⟩ := exists_between (lt_min hfirst hsecond)
    exact ⟨short, hlimit, lt_min_iff.mp hshort⟩
  | upper =>
    obtain ⟨short, hshort, hlimit⟩ := exists_between (max_lt hfirst hsecond)
    exact ⟨short, hlimit, max_lt_iff.mp hshort⟩

end Side

/-! ## Bounds and keywords -/

/-- Does the bound admit the value? -/
def Bound.Admits (bound : Bound) (side : Side) (value : ℚ) : Prop :=
  side.Keeps bound.exclusive bound.value.toRat value

namespace NumberFacets

/-- The bound of a side. -/
def bound? (facets : NumberFacets) : Side → Option Bound
  | .lower => facets.minimum
  | .upper => facets.maximum

/-- Does the value lie within the bounds there are? -/
def InBounds (facets : NumberFacets) (value : ℚ) : Prop :=
  ∀ side, ∀ bound ∈ facets.bound? side, bound.Admits side value

end NumberFacets

namespace Schema

/-- The inclusive keyword of a side. -/
def limit? (schema : Schema) : Side → Option Number
  | .lower => schema.minimum
  | .upper => schema.maximum

/-- The exclusive keyword of a side. -/
def exclusive? (schema : Schema) : Side → Option Exclusive
  | .lower => schema.exclusiveMinimum
  | .upper => schema.exclusiveMaximum

/-- The exclusive keyword of a side, where it is a number. -/
def strictLimit? (schema : Schema) (side : Side) : Option Number :=
  match schema.exclusive? side with
  | some (.bound limit) => some limit
  | _ => none

/-- Does the exclusive keyword of a side, where it is a flag, make the inclusive one strict? -/
def isStrict (schema : Schema) (side : Side) : Bool :=
  match schema.exclusive? side with
  | some (.flag strict) => strict
  | _ => false

/-- The value keeps to the inclusive keyword of a side, if there is one. -/
def KeepsLimit (schema : Schema) (side : Side) (value : ℚ) : Prop :=
  ∀ limit ∈ schema.limit? side, side.Keeps (schema.isStrict side) limit.toRat value

/-- The value keeps strictly to the exclusive keyword of a side, if that is a number. -/
def KeepsStrictLimit (schema : Schema) (side : Side) (value : ℚ) : Prop :=
  ∀ limit ∈ schema.strictLimit? side, side.Keeps true limit.toRat value

/-- The value keeps to every keyword there is. -/
def InRange (schema : Schema) (value : ℚ) : Prop :=
  ∀ side, schema.KeepsLimit side value ∧ schema.KeepsStrictLimit side value

/-- The inclusive keyword of a side is tighter than the number of the exclusive one beside it. -/
def Overruled (schema : Schema) (side : Side) : Prop :=
  ∃ limit ∈ schema.limit? side, ∃ strictLimit ∈ schema.strictLimit? side,
    side.Keeps true strictLimit.toRat limit.toRat

section

variable {schema : Schema} {side : Side} {integer : Bool} {value : ℚ}

/-! ## The bound of a side -/

theorem bound?_numberFacets :
    (schema.numberFacets integer).bound? side =
      bound? (schema.limit? side) (schema.exclusive? side) := by
  cases side with
  | lower => rfl
  | upper => rfl

theorem bound?_of_strictLimit {strictLimit : Number}
    (h : schema.strictLimit? side = some strictLimit) :
    (schema.numberFacets integer).bound? side = some ⟨strictLimit, true⟩ := by
  rw [bound?_numberFacets]
  unfold strictLimit? at h
  split at h
  · next limit hexclusive =>
    obtain rfl := Option.some.inj h
    rw [hexclusive]
    rfl
  · cases h

theorem bound?_of_no_strictLimit (h : schema.strictLimit? side = none) :
    (schema.numberFacets integer).bound? side =
      (schema.limit? side).map (⟨·, schema.isStrict side⟩) := by
  rw [bound?_numberFacets]
  unfold strictLimit? at h
  unfold isStrict
  cases hexclusive : schema.exclusive? side with
  | none => rfl
  | some exclusive =>
    cases exclusive with
    | flag strict => rfl
    | bound limit =>
      rw [hexclusive] at h
      cases h

/-- The bound of a side is the strict limit, or else the inclusive one. -/
theorem admits_bound?_iff :
    (∀ bound ∈ (schema.numberFacets integer).bound? side, bound.Admits side value) ↔
      schema.KeepsStrictLimit side value ∧
        (schema.strictLimit? side = none → schema.KeepsLimit side value) := by
  unfold KeepsStrictLimit KeepsLimit
  cases h : schema.strictLimit? side with
  | some strictLimit =>
    rw [bound?_of_strictLimit h]
    simp [Bound.Admits]
  | none =>
    rw [bound?_of_no_strictLimit h]
    simp [Bound.Admits]

theorem inBounds_iff :
    (schema.numberFacets integer).InBounds value ↔
      ∀ side, schema.KeepsStrictLimit side value ∧
        (schema.strictLimit? side = none → schema.KeepsLimit side value) :=
  forall_congr' fun _ => admits_bound?_iff

/-! ## Bounds and range -/

/-- No value that keeps to every keyword is out of bounds. -/
theorem InRange.inBounds (h : schema.InRange value) :
    (schema.numberFacets integer).InBounds value :=
  inBounds_iff.mpr fun side => ⟨(h side).2, fun _ => (h side).1⟩

/-- Where no inclusive keyword is the tighter one, the bounds let nothing else in. -/
theorem inRange_of_inBounds (hnone : ∀ side, ¬ schema.Overruled side)
    (h : (schema.numberFacets integer).InBounds value) : schema.InRange value := by
  intro side
  obtain ⟨hstrict, hlimit⟩ := inBounds_iff.mp h side
  refine ⟨?_, hstrict⟩
  cases hown : schema.strictLimit? side with
  | none => exact hlimit hown
  | some strictLimit =>
    intro limit hmem
    have hlooser : ¬ side.Keeps true strictLimit.toRat limit.toRat :=
      fun htighter => hnone side ⟨limit, hmem, strictLimit, hown, htighter⟩
    exact (hstrict strictLimit hown).of_not_tighter hlooser

/-- Where an inclusive keyword is the tighter one, the bounds let in a value that it keeps out, if
    they let in any value. -/
theorem Overruled.exists_outside (hover : schema.Overruled side)
    (h : (schema.numberFacets integer).InBounds value) :
    ∃ outside, (schema.numberFacets integer).InBounds outside ∧ ¬ schema.InRange outside := by
  obtain ⟨limit, hmem, strictLimit, hown, htighter⟩ := hover
  have hbound : (schema.numberFacets integer).bound? side = some ⟨strictLimit, true⟩ :=
    bound?_of_strictLimit hown
  have hkeeps : side.Keeps true strictLimit.toRat value := h side _ hbound
  obtain ⟨outside, hstrict, hlimit, hvalue⟩ := Side.exists_short_of htighter hkeeps
  refine ⟨outside, fun place bound hplace => ?_, fun hrange => ?_⟩
  · rcases Side.eq_or_eq_other place side with rfl | rfl
    · rw [hbound] at hplace
      obtain rfl := Option.some.inj hplace
      exact hstrict
    -- On the side across, the value is further within than the one there is.
    · exact (h _ bound hplace).further hvalue
  · exact hlimit.not_across ((hrange side).1 limit hmem)

end

/-- The bounds of a number admit the values that keep to the strict limit of each side, or else to
    its inclusive limit.  Every value that keeps to all keywords is among them; there are no others
    just when no inclusive limit is tighter than the strict one beside it, unless nothing is within
    bounds at all. -/
theorem bounds_exact_iff_not_overruled (schema : Schema) (integer : Bool) :
    (∀ value, (schema.numberFacets integer).InBounds value ↔
      ∀ side, schema.KeepsStrictLimit side value ∧
        (schema.strictLimit? side = none → schema.KeepsLimit side value)) ∧
    (∀ value, schema.InRange value → (schema.numberFacets integer).InBounds value) ∧
    ((∀ value, (schema.numberFacets integer).InBounds value ↔ schema.InRange value) ↔
      (∀ side, ¬ schema.Overruled side) ∨
        ∀ value, ¬ (schema.numberFacets integer).InBounds value) := by
  refine ⟨fun value => inBounds_iff, fun value => InRange.inBounds,
    fun hexact => ?_, fun h value => ⟨fun hbounds => ?_, InRange.inBounds⟩⟩
  -- One value in bounds is enough to find one that an overruled limit keeps out.
  · refine or_iff_not_imp_right.mpr fun hsome side hover => ?_
    obtain ⟨value, hvalue⟩ := not_forall_not.mp hsome
    obtain ⟨outside, hbounds, hrange⟩ := hover.exists_outside hvalue
    exact hrange ((hexact outside).mp hbounds)
  · rcases h with hnone | hempty
    · exact inRange_of_inBounds hnone hbounds
    · exact absurd hbounds (hempty value)

/-- A number from 5 up that is above 3 as well. -/
def fromFiveUp : Schema where
  type := some (.single "number")
  minimum := some (.int 5)
  exclusiveMinimum := some (.bound (.int 3))

/-- The limit of 3 alone is checked, so that 4 is let in. -/
theorem fromFiveUp_admits_four :
    (fromFiveUp.numberFacets false).InBounds 4 ∧ ¬ fromFiveUp.InRange 4 ∧
    (Fragment.ofNode .empty .null 8 (.object fromFiveUp) none .nested).map
      (·.map (Fragment.spell RuntimeSchemas.spelling)) =
        some (some "S.Number.pipe(S.greaterThan(3))") := by
  refine ⟨?_, fun hrange => ?_, by decide +kernel⟩
  · refine Side.forall_iff.mpr ⟨fun bound hbound => ?_, nofun⟩
    obtain rfl := Option.some.inj hbound
    show (3 : ℚ) < 4
    norm_num
  · have hlimit : ((5 : Int) : ℚ) ≤ 4 := (hrange .lower).1 (.int 5) rfl
    norm_num at hlimit

end Schema

end TypedClient
