import VerifierHost.Wire.Compiler

/-!
The events that a verifier sends inside the text of compiler messages.
-/

namespace VerifierHost.Wire

/-- How often the quantifiers of a method were instantiated, so far in the run. -/
structure Instantiations where
  method : Text
  count : Int

def Instantiations.read : Reader Instantiations := record fun fs =>
  Instantiations.mk <$> required fs "method" string <*> required fs "instantiations" int

def Instantiations.toJson (i : Instantiations) : Json :=
  .object [("method", .string i.method), ("instantiations", .int i.count)]

/-- The older form of the same event names the quantifier. -/
structure LegacyInstantiations where
  quantifier : Text
  count : Int

def LegacyInstantiations.read : Reader LegacyInstantiations := record fun fs =>
  LegacyInstantiations.mk <$> required fs "q_name" string <*> required fs "instantiations" int

def LegacyInstantiations.toJson (i : LegacyInstantiations) : Json :=
  .object [("q_name", .string i.quantifier), ("instantiations", .int i.count)]

/-- The triggers chosen for a quantifier, in whatever form the verifier gives them. -/
structure ChosenTriggers where
  quantifier : Text
  triggers : Json

def ChosenTriggers.read : Reader ChosenTriggers := record fun fs =>
  ChosenTriggers.mk <$> required fs "viper_quant" string <*> required fs "triggers" any

def ChosenTriggers.toJson (t : ChosenTriggers) : Json :=
  .object [("viper_quant", .string t.quantifier), ("triggers", t.triggers)]

/-- A method that will be verified and where it is defined. -/
structure Procedure where
  name : Text
  span : Span

def Procedure.read : Reader Procedure := record fun fs =>
  Procedure.mk <$> required fs "name" string <*> required fs "span" Span.read

def Procedure.toJson (p : Procedure) : Json :=
  .object [("name", .string p.name), ("span", p.span.toJson)]

structure CompilerInfo where
  procedures : List Procedure

def CompilerInfo.read : Reader CompilerInfo := record fun fs =>
  CompilerInfo.mk <$> withDefault fs "procedure_defs" [] (list Procedure.read)

def CompilerInfo.toJson (i : CompilerInfo) : Json :=
  .object [("procedure_defs", .array (i.procedures.map Procedure.toJson))]

/-- The outcome for one method. -/
structure MethodResult where
  method : Text
  success : Bool
  timeMs : Option Int
  cached : Bool

def MethodResult.read : Reader MethodResult := record fun fs =>
  MethodResult.mk <$> required fs "item_name" string
    <*> required fs "success" bool
    <*> withDefault fs "time_ms" none (nullable int)
    <*> withDefault fs "cached" false bool

def MethodResult.toJson (r : MethodResult) : Json :=
  .object [("item_name", .string r.method), ("success", .bool r.success),
    ("time_ms", Json.optional .int r.timeMs), ("cached", .bool r.cached)]

end VerifierHost.Wire
