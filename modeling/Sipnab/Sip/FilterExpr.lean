import Sipnab.Sip.NamedFilters

/-!
# Compiled filters

A filter is refused if it is empty, refers to a filter that is not defined, nests too deep, cannot
be parsed to its end or has too many nodes. A compiled one is evaluated on a dialog, and a window
of time can be joined to it.
-/

namespace Sipnab.Dsl

open Text

variable {eng : Engines}

structure FilterExpr (eng : Engines) where
  root : Expr eng
  needsDiagnosis : Bool
  /-- The text the filter was compiled from, trimmed. -/
  source : List Char

inductive FilterError
  | empty
  | unknownReference (name : List Char)
  | tooDeep
  | syntaxError (err : NomErr)
  | outOfFuel
  /-- What is left behind a complete expression, from its first character that is no blank. -/
  | trailing (rest : List Char)
  | tooLarge (nodes : ℕ)
  deriving DecidableEq

def FilterExpr.parse (input : List Char) : Except FilterError (FilterExpr eng) :=
  let trimmed := trim input
  if trimmed.isEmpty then .error .empty
  else match firstReference trimmed with
    | some name => .error (.unknownReference name)
    | none =>
      if !checkNestingDepth trimmed then .error .tooDeep
      else match (parseOrExpr trimmed : Parsed eng).outcome with
        | .error (.error err) => .error (.syntaxError err)
        | .error .outOfFuel => .error .outOfFuel
        | .ok (expr, remaining) =>
          if !(trim remaining).isEmpty then .error (.trailing (trimStart remaining))
          else if maxExpressionNodes < expr.countNodes then .error (.tooLarge expr.countNodes)
          else .ok { root := expr
                     needsDiagnosis := expr.referencesDiagnosis
                     source := trimmed }

/-! ## Evaluation -/

structure MediaDiagnosis where
  oneWayAudio : Bool := false
  natMismatch : Bool := false
  noMedia : Bool := false
  codecAsymmetry : Bool := false
  ptimeAsymmetry : Bool := false
  payloadTypeAsymmetry : Bool := false
  durationAsymmetry : Bool := false
  lateMedia : Bool := false
  deriving DecidableEq

/-- What a dialog and its streams answer: its first instant, its diagnosis, and the comparisons of
the fields read from it directly. -/
structure Readings (eng : Engines) (Dialog : Type) where
  createdAt : Dialog → ℤ
  diagnose : Dialog → MediaDiagnosis
  compareRead : Dialog → Field → Operator → Value eng → Bool

def compareInstant (t : ℤ) (op : Operator) : Value eng → Bool
  | .instant v =>
    match op with
    | .eq => t == v
    | .lt => t < v
    | .le => t ≤ v
    | .gt => v < t
    | .ge => v ≤ t
    | _ => false
  | _ => false

def compareBool (b : Bool) (op : Operator) : Value eng → Bool
  | .bool v =>
    match op with
    | .eq => b == v
    | .ne => b != v
    | _ => false
  | _ => false

def inTimeWindow (t : ℤ) (after before : Option ℤ) : Bool :=
  after.all (fun a => a ≤ t) && before.all (fun b => t < b)

variable {Dialog : Type} (readings : Readings eng Dialog)

def evalCompare (diag : MediaDiagnosis) (dialog : Dialog) (field : Field) (op : Operator)
    (value : Value eng) : Bool :=
  match field with
  | .time => compareInstant (readings.createdAt dialog) op value
  | .oneWay => compareBool diag.oneWayAudio op value
  | .natMismatch => compareBool diag.natMismatch op value
  | .noMedia => compareBool diag.noMedia op value
  | .codecAsymmetry => compareBool diag.codecAsymmetry op value
  | .ptimeAsymmetry => compareBool diag.ptimeAsymmetry op value
  | .payloadAsymmetry => compareBool diag.payloadTypeAsymmetry op value
  | .durationAsymmetry => compareBool diag.durationAsymmetry op value
  | .lateMedia => compareBool diag.lateMedia op value
  | field => readings.compareRead dialog field op value

def evalExpr (diag : MediaDiagnosis) (dialog : Dialog) : Expr eng → Bool
  | .and lhs rhs => evalExpr diag dialog lhs && evalExpr diag dialog rhs
  | .or lhs rhs => evalExpr diag dialog lhs || evalExpr diag dialog rhs
  | .not inner => !evalExpr diag dialog inner
  | .compare field op value => evalCompare readings diag dialog field op value
  | .window after before => inTimeWindow (readings.createdAt dialog) after before

/-- The diagnosis is made only for a filter that reads it. -/
def FilterExpr.matchesDialog (f : FilterExpr eng) (dialog : Dialog) : Bool :=
  evalExpr readings (if f.needsDiagnosis then readings.diagnose dialog else {}) dialog f.root

/-! ## Windows of time -/

def afterSource (eng : Engines) (t : ℤ) : List Char :=
  "time >= '".toList ++ eng.toRfc3339 t ++ "'".toList

def beforeSource (eng : Engines) (t : ℤ) : List Char :=
  "time < '".toList ++ eng.toRfc3339 t ++ "'".toList

def windowSource (eng : Engines) (after before : Option ℤ) : List Char :=
  " AND ".toList.intercalate
    ((after.map (afterSource eng)).toList ++ (before.map (beforeSource eng)).toList)

def FilterExpr.withTimeWindow (base : Option (FilterExpr eng)) (after before : Option ℤ) :
    Option (FilterExpr eng) :=
  if after.isNone && before.isNone then base
  else
    match base with
    | none =>
      some { root := .window after before
             needsDiagnosis := false
             source := windowSource eng after before }
    | some base =>
      some { root := .and base.root (.window after before)
             needsDiagnosis := base.needsDiagnosis
             source := "(".toList ++ base.source ++ ") AND ".toList ++
               windowSource eng after before }

end Sipnab.Dsl
