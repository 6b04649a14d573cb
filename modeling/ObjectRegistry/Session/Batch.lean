import ObjectRegistry.Session.Step

/-!
# Calls of a batch

A batch is a list of calls made one after the other, and its answers are told as one. A series of
resources is created up to the first that fails. Callers at once are all served, whoever fails; of
those that offer resources under one id, all but one find it taken, which is no failure of theirs.
-/

namespace ObjectRegistry.Session

/-! ## Answers -/

/-- The values of the answers that are no failures. -/
def granted (answers : List (Except Error α)) : List α :=
  answers.filterMap Except.toOption

/-- The first failure among some answers. -/
def firstFailure (answers : List (Except Error α)) : Option Error :=
  answers.findSome? fun
    | .ok _ => none
    | .error e => some e

/-- Some answers as one, which is the first failure if there is one. -/
def together (answers : List (Except Error α)) (answer : List α → Answer)
    (failure : Error → List α → Failure) : Except Failure Answer :=
  match firstFailure answers with
  | none => .ok (answer (granted answers))
  | some e => .error (failure e (granted answers))

/-- Whether an id was refused because it is taken. -/
def isTaken : Except Error α → Bool
  | .error (.duplicateId _) => true
  | _ => false

/-! ## Offers -/

/-- A number with zeros in front up to a number of digits. -/
def padded (n digits : Nat) : String :=
  let numeral := toString n
  String.ofList (List.replicate (digits - numeral.length) '0') ++ numeral

/-- The member of a series with a number. -/
def member (series : Series) (k : Nat) : Resource where
  id := series.idPrefix ++ padded (series.first + k) series.pad
  bucket := series.bucket
  createTime := series.time + Int64.ofNat k * series.timeStep
  hash := series.hash
  size := Int64.ofNat k

/-- The members of a series. -/
def members (series : Series) : List Resource :=
  (List.range series.count).map (member series)

/-- What a caller of many offers under an id. -/
def contender (id : String) (k : Nat) : Resource where
  id
  bucket := "b"
  createTime := Int64.ofNat (k + 1)
  hash := "h"
  size := 1

/-- What a number of callers offer under an id. -/
def contenders (id : String) (callers : Nat) : List Resource :=
  (List.range callers).reverse.map (contender id)

end ObjectRegistry.Session
