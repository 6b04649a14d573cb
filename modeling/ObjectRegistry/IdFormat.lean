import ObjectRegistry.Digest
import ObjectRegistry.Error
import ObjectRegistry.Text.Numeral

/-!
# Id formats

A value of a sequence becomes the id of a resource in one of three ways: as its decimal numeral,
as the numeral behind a label and an underscore, or as the first digits of its digest.
-/

namespace ObjectRegistry

/-- How a value is written as an id. -/
inductive IdFormat where
  /-- The decimal numeral: `4`. -/
  | plain
  /-- A label, an underscore and the numeral: `img_4`. -/
  | labelled (label : String)
  /-- The first digits of the digest of the value. -/
  | digest (length : Nat)
  deriving DecidableEq

namespace IdFormat

/-- The id of a value. -/
def render (format : IdFormat) (value : Int64) : String :=
  match format with
  | .plain => Text.Numeral.ofInt64 value
  | .labelled label => label ++ "_" ++ Text.Numeral.ofInt64 value
  | .digest length => Digest.valueDigest value length

/-- The name of a format. -/
def describe : IdFormat → String
  | .plain => "plain"
  | .labelled label => "prefixed(" ++ label ++ ")"
  | .digest length => "digest(" ++ toString length ++ ")"

/-- A label must not be empty, and a digest has 1 to 64 digits. -/
def validate : IdFormat → Except Error Unit
  | .plain => .ok ()
  | .labelled label => if label.isEmpty then .error (.argument .emptyIdPrefix) else .ok ()
  | .digest length =>
    if 1 ≤ length ∧ length ≤ 64 then .ok () else .error (.argument .digestLengthOutOfRange)

end IdFormat

end ObjectRegistry
