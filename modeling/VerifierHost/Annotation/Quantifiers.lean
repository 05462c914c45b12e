import VerifierHost.Annotation.Index

/-!
The two kinds of annotation a verifier streams: how often quantifiers were instantiated for each
method, and which triggers were chosen for a quantifier.
-/

namespace VerifierHost

/-- A method and its count. -/
def countText? (row : Text × Int) : Option Text :=
  (Decimal.wholeText? row.2).map fun n => row.1 ++ ": " ++ n

/-- The counts of all methods together. -/
def totalCount (counts : Table Text Int) : Int := counts.foldl (fun total row => total + row.2) 0

/-- Counts by method. A count is a total so far, so a newer one replaces the older. -/
def instantiationKind : AnnotationKind (Table Text Int) (Text × Int) where
  merge current delta := (current.getD []).put delta.1 delta.2
  describe counts := (counts.mapM countText?).map fun parts =>
    "Quantifier instantiations per method: " ++ Text.join ", " parts
  label counts := (Decimal.wholeText? (totalCount counts)).map fun n => "QI: " ++ n

/-- A quantifier and the text of its triggers. -/
structure Triggers where
  quantifier : Text
  triggers : Text
  deriving DecidableEq, Repr

/-- The triggers named last are the ones in use. -/
def triggerKind : AnnotationKind Triggers Triggers where
  merge _ delta := delta
  describe t := some ("Viper quantifier: " ++ t.quantifier ++ "\nViper triggers: " ++ t.triggers)
  label t := some ("triggers: " ++ t.triggers)

end VerifierHost
