import Mathlib.Algebra.Group.Int.Defs
import PostgresV7.Base

/-!
# Node types with a comparison routine (`nodes.h`, `primnodes.h`, `relation.h`, `parsenodes.h`)

A node is a tag and the structure the tag selects; nodes refer to each other by
pointer. The structures keep the fields some comparison routine reads and the
fields the headers declare without a word about them in the routine; the fields
a routine's comment sets aside (`res_junk`, `type_oid`, path costs and so on)
are left out. `equal_query` and `equal_range_tbl_entry` read fields of an older
`Query` and `RangeTblEntry` than the headers declare: both sets are kept.
-/

namespace PostgresV7.Nodes

abbrev Ptr := Nat

def NIL : Ptr := 0

abbrev Oid := UInt32
abbrev Datum := UInt64

/-- `char*`: `NULL`, or the bytes before the terminating zero. -/
abbrev CString := Option (List UInt8)

/-- Tags of the node types `equal` dispatches on; every other tag is `other`. -/
inductive NodeTag where
  | resdom | fjoin | expr | var | oper | const | param | aggref | subLink | func | arrayRef
  | iter | relabelType | array | relOptInfo | path | indexPath | nestPath | mergePath | hashPath
  | tidPath | pathKeyItem | restrictInfo | joinInfo | stream | indexOptInfo | list | integer
  | float | string | query | attr | targetEntry | rangeTblEntry | sortClause | groupClause
  | caseExpr | caseWhen
  | other (code : Nat)
  deriving DecidableEq, Repr

inductive OpType where
  | opExpr | funcExpr | orExpr | andExpr | notExpr | subplanExpr
  deriving DecidableEq, Repr

inductive SubLinkType where
  | existsSublink | allSublink | anySublink | multiexprSublink | exprSublink
  deriving DecidableEq, Repr

inductive CmdType where
  | unknown | select | update | insert | delete | utility | nothing
  deriving DecidableEq, Repr

inductive ScanDirection where
  | backward | noMovement | forward
  deriving DecidableEq, Repr

/-- `Cost` and `Selectivity`: the bits of a C `double`. -/
structure Double where
  bits : UInt64
  deriving DecidableEq, Repr

namespace Double

/-- The bits without the sign. -/
def magnitude (d : Double) : Nat := d.bits.toNat % 2 ^ 63

/-- A NaN has every exponent bit set and some fraction bit. -/
def isNaN (d : Double) : Bool := decide (0x7FF0000000000000 < d.magnitude)

/-- The value up to the sign of zero. -/
def key (d : Double) : Nat := if d.magnitude = 0 then 0 else d.bits.toNat

/-- C's `!=` on doubles: a NaN differs from everything, the two zeros agree. -/
def ne (a b : Double) : Bool := a.isNaN || b.isNaN || a.key != b.key

end Double

/-! ## Primitive nodes -/

structure Resdom where
  resNo : Int
  resType : Oid
  resTypeMod : Int
  resName : CString
  resSortGroupRef : Nat
  resKey : Nat
  resKeyOp : Oid

/-- A conversion of an `int` to `size_t`. -/
def toSize (n : Int) : Nat := (n % 2 ^ 64).toNat

/-- Both vectors have an entry for every node. -/
structure Fjoin where
  fjInitialized : Bool
  fjNNodes : Int
  fjInnerNode : Ptr
  fjResults : List Datum
  fjAlwaysDone : List Bool
  results_length : toSize fjNNodes ≤ fjResults.length
  alwaysDone_length : toSize fjNNodes ≤ fjAlwaysDone.length

structure Expr where
  opType : OpType
  oper : Ptr
  args : Ptr

structure Var where
  varno : Nat
  varAttno : Int
  varType : Oid
  varTypeMod : Int
  varLevelsUp : Nat
  varnoOld : Nat
  varOattno : Int

structure Oper where
  opNo : Oid
  opResultType : Oid

structure Const where
  constType : Oid
  constLen : Int
  constValue : Datum
  constIsNull : Bool
  constByVal : Bool

def PARAM_NAMED : Int := 11
def PARAM_NUM : Int := 12
def PARAM_NEW : Int := 13
def PARAM_OLD : Int := 14
def PARAM_EXEC : Int := 15
def PARAM_INVALID : Int := 100

structure Param where
  paramKind : Int
  paramId : Int
  paramName : CString
  paramType : Oid
  paramTlist : Ptr

structure Func where
  funcId : Oid
  funcType : Oid
  funcIsIndex : Bool
  funcSize : Int
  funcTlist : Ptr
  funcPlanlist : Ptr

structure Iter where
  iterExpr : Ptr
  iterType : Oid

structure Aggref where
  aggName : CString
  baseType : Oid
  aggType : Oid
  target : Ptr
  useNulls : Bool
  aggStar : Bool
  aggDistinct : Bool

structure SubLink where
  sublinkType : SubLinkType
  useOr : Bool
  lefthand : Ptr
  oper : Ptr
  subselect : Ptr

def MAX_DIM : Nat := 6

structure IntArray where
  indx : Fin MAX_DIM → Int

/-- `indx[0]`, the bound of the first dimension. -/
def IntArray.first (a : IntArray) : Int := a.indx ⟨0, by decide⟩

structure Array where
  arrayElemType : Oid
  arrayNdim : Int
  arrayLow : IntArray
  arrayHigh : IntArray
  arrayLen : Int

structure ArrayRef where
  refAttrLength : Int
  refElemLength : Int
  refElemType : Oid
  refElemByVal : Bool
  refUpperIndExpr : Ptr
  refLowerIndExpr : Ptr
  refExpr : Ptr
  refAssgnExpr : Ptr

structure RelabelType where
  arg : Ptr
  resultType : Oid
  resultTypeMod : Int

/-! ## Planner nodes -/

structure RelOptInfo where
  relids : Ptr

structure IndexOptInfo where
  indexOid : Oid

structure PathKeyItem where
  key : Ptr
  sortOp : Oid

structure Path where
  parent : Ptr
  pathType : NodeTag
  pathKeys : Ptr

structure IndexPath where
  path : Path
  indexId : Ptr
  indexQual : Ptr
  indexScanDir : ScanDirection
  joinRelIds : Ptr

structure TidPath where
  path : Path
  tidEval : Ptr
  unjoinedRelIds : Ptr

structure JoinPath where
  path : Path
  outerJoinPath : Ptr
  innerJoinPath : Ptr
  joinRestrictInfo : Ptr

abbrev NestPath := JoinPath

structure MergePath where
  jpath : JoinPath
  pathMergeClauses : Ptr
  outerSortKeys : Ptr
  innerSortKeys : Ptr

structure HashPath where
  jpath : JoinPath
  pathHashClauses : Ptr

structure RestrictInfo where
  clause : Ptr
  subClauseIndices : Ptr
  mergeJoinOperator : Oid
  leftSortOp : Oid
  rightSortOp : Oid
  hashJoinOperator : Oid

structure JoinInfo where
  unjoinedRelids : Ptr
  jinfoRestrictInfo : Ptr

/-- `clauseType` is an `int*`: its address. -/
structure Stream where
  pathPtr : Ptr
  cinfo : Ptr
  clauseType : Nat
  upstream : Ptr
  downstream : Ptr
  groupUp : Bool
  groupCost : Double
  groupSel : Double

/-! ## Parse tree nodes -/

structure Query where
  commandType : CmdType
  utilityStmt : Ptr
  resultRelation : Int
  into : CString
  isPortal : Bool
  isBinary : Bool
  isTemp : Bool
  unionAll : Bool
  hasAggs : Bool
  hasSublinks : Bool
  rtable : Ptr
  targetList : Ptr
  qual : Ptr
  rowMark : Ptr
  distinctClause : Ptr
  sortClause : Ptr
  groupClause : Ptr
  havingQual : Ptr
  intersectClause : Ptr
  unionClause : Ptr
  limitOffset : Ptr
  limitCount : Ptr
  jointree : Ptr
  rowMarks : Ptr
  setOperations : Ptr
  resultRelations : Ptr

structure Attr where
  relName : CString
  paramNo : Ptr
  attrs : Ptr
  indirection : Ptr

structure TargetEntry where
  resdom : Ptr
  fjoin : Ptr
  expr : Ptr

structure RangeTblEntry where
  relName : CString
  ref : Ptr
  relId : Oid
  inh : Bool
  inFromCl : Bool
  inJoinSet : Bool
  skipAcl : Bool
  subquery : Ptr
  aliasClause : Ptr
  eref : Ptr
  checkForRead : Bool
  checkForWrite : Bool
  checkAsUser : Oid

structure SortClause where
  tleSortGroupRef : Nat
  sortOp : Oid

abbrev GroupClause := SortClause

structure CaseExpr where
  caseType : Oid
  arg : Ptr
  args : Ptr
  defResult : Ptr

structure CaseWhen where
  expr : Ptr
  result : Ptr

/-! ## Values and lists -/

/-- The value union with the tag that says which member it holds. -/
inductive Value where
  | integer (ival : Int)
  | float (str : CString)
  | string (str : CString)

def Value.type : Value → NodeTag
  | .integer _ => .integer
  | .float _ => .float
  | .string _ => .string

/-- A list cell. `elem` is the union of a pointer and an `int`. -/
structure ListCell where
  elem : Nat
  next : Ptr

def ListCell.first (l : ListCell) : Ptr := l.elem

/-- `LFIRSTI`: the low 32 bits of the union. -/
def ListCell.firstI (l : ListCell) : UInt32 := UInt32.ofNat l.elem

/-! ## Tagged nodes -/

/-- What the pointer to a node with this tag is cast to. -/
@[reducible] def Payload : NodeTag → Type
  | .resdom => Resdom
  | .fjoin => Fjoin
  | .expr => Expr
  | .var => Var
  | .oper => Oper
  | .const => Const
  | .param => Param
  | .aggref => Aggref
  | .subLink => SubLink
  | .func => Func
  | .arrayRef => ArrayRef
  | .iter => Iter
  | .relabelType => RelabelType
  | .array => Array
  | .relOptInfo => RelOptInfo
  | .path => Path
  | .indexPath => IndexPath
  | .nestPath => NestPath
  | .mergePath => MergePath
  | .hashPath => HashPath
  | .tidPath => TidPath
  | .pathKeyItem => PathKeyItem
  | .restrictInfo => RestrictInfo
  | .joinInfo => JoinInfo
  | .stream => Stream
  | .indexOptInfo => IndexOptInfo
  | .list => ListCell
  | .integer => Int
  | .float => CString
  | .string => CString
  | .query => Query
  | .attr => Attr
  | .targetEntry => TargetEntry
  | .rangeTblEntry => RangeTblEntry
  | .sortClause => SortClause
  | .groupClause => GroupClause
  | .caseExpr => CaseExpr
  | .caseWhen => CaseWhen
  | .other _ => Unit

structure Node where
  tag : NodeTag
  payload : Payload tag

/-- The nodes in memory by address, and the bytes a by-reference `Datum`
points at. -/
structure Heap where
  node : Ptr → Option Node
  object : Datum → List UInt8

end PostgresV7.Nodes
