import PostgresV7.Nodes.Equalfuncs
import PostgresV7.Lib.TermGraph

/-!
# The fields of a node, in tables

For every tag a table lists the fields its routine compares, another the fields
the node has beside them, and a check says when a routine can compare the node
with a copy of itself at all. A routine returns `true` exactly on nodes that
pass the check and whose compared fields match.
-/

namespace PostgresV7.Nodes

/-- A field of a node. Integer lists and by-reference datums are what reading
them gives. -/
inductive Field where
  | int (i : Int)
  | oid (o : Oid)
  | flag (b : Bool)
  | string (s : CString)
  | opType (t : OpType)
  | sublinkType (t : SubLinkType)
  | cmdType (t : CmdType)
  | direction (d : ScanDirection)
  | tag (t : NodeTag)
  | number (key : Nat)
  | datums (l : List Datum)
  | flags (l : List Bool)
  | bytes (r : Except Fault (List UInt8))
  | ints (r : Except Fault (List UInt32))
  | ptr (p : Ptr)

/-- Two fields agree, child pointers by `R`. -/
def Matches (R : Ptr → Ptr → Prop) : Field → Field → Prop
  | .ptr p, .ptr q => R p q
  | f, g => f = g

namespace Field

/-- A field without the child it points to. -/
def shape : Field → Field
  | .ptr _ => .ptr NIL
  | f => f

def ptr? : Field → Option Ptr
  | .ptr p => some p
  | _ => none

end Field

/-- The child pointers among some fields. -/
def pointers (fs : List Field) : List Ptr := fs.filterMap Field.ptr?

theorem matches_iff_shape {R : Ptr → Ptr → Prop} {f g : Field} :
    Matches R f g ↔ f.shape = g.shape ∧ List.Forall₂ R f.ptr?.toList g.ptr?.toList := by
  cases f <;> cases g <;> simp [Matches, Field.shape, Field.ptr?]

theorem pointers_cons (f : Field) (fs : List Field) :
    pointers (f :: fs) = f.ptr?.toList ++ pointers fs := by
  cases h : f.ptr? <;> simp [pointers, h]

theorem length_toList_of_shape {f g : Field} (h : f.shape = g.shape) :
    f.ptr?.toList.length = g.ptr?.toList.length := by
  cases f <;> cases g <;> first | rfl | cases h

theorem length_pointers_of_shape {fs gs : List Field}
    (h : fs.map Field.shape = gs.map Field.shape) :
    (pointers fs).length = (pointers gs).length := by
  induction fs generalizing gs with
  | nil =>
    cases gs with
    | nil => rfl
    | cons g gs => cases h
  | cons f fs ih =>
    cases gs with
    | nil => cases h
    | cons g gs =>
      simp only [List.map_cons, List.cons.injEq] at h
      rw [pointers_cons, pointers_cons, List.length_append, List.length_append, ih h.2,
        length_toList_of_shape h.1]

/-- Fields match when they have one shape and their children are related in
order. -/
theorem forall₂_matches_iff {R : Ptr → Ptr → Prop} {fs gs : List Field} :
    List.Forall₂ (Matches R) fs gs ↔
      fs.map Field.shape = gs.map Field.shape ∧ List.Forall₂ R (pointers fs) (pointers gs) := by
  induction fs generalizing gs with
  | nil => cases gs <;> simp [pointers]
  | cons f fs ih =>
    cases gs with
    | nil => simp
    | cons g gs =>
      simp only [List.forall₂_cons, List.map_cons, List.cons.injEq, pointers_cons, ih,
        matches_iff_shape]
      refine ⟨fun ⟨⟨hs, hk⟩, hss, hks⟩ => ⟨⟨hs, hss⟩, ?_⟩, fun ⟨⟨hs, hss⟩, hk⟩ => ?_⟩
      · exact (TermGraph.forall₂_append_iff (length_toList_of_shape hs)).2 ⟨hk, hks⟩
      · obtain ⟨hk, hks⟩ := (TermGraph.forall₂_append_iff (length_toList_of_shape hs)).1 hk
        exact ⟨⟨hs, hk⟩, hss, hks⟩

/-! ## The compared fields -/

section Tables

variable (h : Heap) (fuel : Nat)

/-- What reading an integer list gives. -/
def intList (l : Ptr) : Except Fault (List UInt32) :=
  (cells h fuel l).map (List.map ListCell.firstI)

/-- The first bytes of an object, as many as a size read before says. -/
def prefixOf (size : Except Fault Nat) (o : List UInt8) : Except Fault (List UInt8) :=
  size >>= fun n => if n ≤ o.length then .ok (o.take n) else .error .overread

/-- The bytes a by-reference constant stands for. -/
def datumBytes (c : Const) : Except Fault (List UInt8) :=
  prefixOf (datumGetSize h c.constValue c.constByVal (toSize c.constLen)) (h.object c.constValue)

namespace Path

def compared (x : Path) : List Field := [.tag x.pathType, .ptr x.parent, .ptr x.pathKeys]

end Path

namespace JoinPath

def compared (x : JoinPath) : List Field :=
  x.path.compared ++ [.ptr x.outerJoinPath, .ptr x.innerJoinPath, .ptr x.joinRestrictInfo]

end JoinPath

namespace Param

/-- The kinds that are told apart by name. -/
def byName (x : Param) : Prop :=
  x.paramKind = PARAM_NAMED ∨ x.paramKind = PARAM_NEW ∨ x.paramKind = PARAM_OLD

/-- The kinds that are told apart by number. -/
def byNumber (x : Param) : Prop := x.paramKind = PARAM_NUM ∨ x.paramKind = PARAM_EXEC

instance (x : Param) : Decidable x.byName := by unfold byName; infer_instance

instance (x : Param) : Decidable x.byNumber := by unfold byNumber; infer_instance

/-- What tells parameters of one kind apart. -/
def identity (x : Param) : List Field :=
  if x.byName then [.string x.paramName] else if x.byNumber then [.int x.paramId] else []

def compared (x : Param) : List Field :=
  [.int x.paramKind, .oid x.paramType, .ptr x.paramTlist] ++ x.identity

end Param

/-- The value of a constant, unless it is null. -/
def constDatum (x : Const) : List Field :=
  if x.constIsNull then []
  else if x.constByVal then [.datums [x.constValue]] else [.bytes (datumBytes h x)]

/-- The fields the routine for a tag compares, in its order. -/
def compared : (t : NodeTag) → Payload t → List Field
  | .resdom, x => [.int x.resNo, .oid x.resType, .int x.resTypeMod, .string x.resName,
      .int x.resSortGroupRef, .int x.resKey, .oid x.resKeyOp]
  | .fjoin, x => [.flag x.fjInitialized, .int x.fjNNodes, .ptr x.fjInnerNode,
      .datums (x.fjResults.take (toSize x.fjNNodes))]
  | .expr, x => [.opType x.opType, .ptr x.oper, .ptr x.args]
  | .iter, x => [.ptr x.iterExpr]
  | .stream, x => [.int x.clauseType, .flag x.groupUp, .number x.groupCost.key,
      .number x.groupSel.key, .ptr x.pathPtr, .ptr x.cinfo, .ptr x.upstream, .ptr x.downstream]
  | .attr, x => [.string x.relName, .ptr x.attrs]
  | .var, x => [.int x.varno, .int x.varAttno, .oid x.varType, .int x.varTypeMod,
      .int x.varLevelsUp, .int x.varnoOld, .int x.varOattno]
  | .array, x => [.oid x.arrayElemType, .int x.arrayNdim, .int x.arrayLow.first,
      .int x.arrayHigh.first, .int x.arrayLen]
  | .arrayRef, x => [.oid x.refElemType, .int x.refAttrLength, .int x.refElemLength,
      .flag x.refElemByVal, .ptr x.refUpperIndExpr, .ptr x.refLowerIndExpr, .ptr x.refExpr,
      .ptr x.refAssgnExpr]
  | .oper, x => [.oid x.opNo, .oid x.opResultType]
  | .const, x => [.oid x.constType, .int x.constLen, .flag x.constIsNull, .flag x.constByVal] ++
      constDatum h x
  | .param, x => x.compared
  | .aggref, x => [.string x.aggName, .oid x.baseType, .oid x.aggType, .ptr x.target,
      .flag x.useNulls, .flag x.aggStar, .flag x.aggDistinct]
  | .subLink, x => [.sublinkType x.sublinkType, .flag x.useOr, .ptr x.lefthand, .ptr x.oper,
      .ptr x.subselect]
  | .relabelType, x => [.ptr x.arg, .oid x.resultType, .int x.resultTypeMod]
  | .func, x => [.oid x.funcId, .oid x.funcType, .flag x.funcIsIndex, .int x.funcSize,
      .ptr x.funcTlist, .ptr x.funcPlanlist]
  | .restrictInfo, x => [.ptr x.clause, .ptr x.subClauseIndices, .oid x.mergeJoinOperator,
      .oid x.leftSortOp, .oid x.rightSortOp, .oid x.hashJoinOperator]
  | .relOptInfo, x => [.ints (intList h fuel x.relids)]
  | .indexOptInfo, x => [.oid x.indexOid]
  | .pathKeyItem, x => [.oid x.sortOp, .ptr x.key]
  | .path, x => x.compared
  | .indexPath, x => x.path.compared ++ [.ints (intList h fuel x.indexId), .ptr x.indexQual,
      .direction x.indexScanDir, .ints (intList h fuel x.joinRelIds)]
  | .tidPath, x =>
      x.path.compared ++ [.ptr x.tidEval, .ints (intList h fuel x.unjoinedRelIds)]
  | .nestPath, x => x.compared
  | .mergePath, x =>
      x.jpath.compared ++ [.ptr x.pathMergeClauses, .ptr x.outerSortKeys, .ptr x.innerSortKeys]
  | .hashPath, x => x.jpath.compared ++ [.ptr x.pathHashClauses]
  | .joinInfo, x => [.ints (intList h fuel x.unjoinedRelids), .ptr x.jinfoRestrictInfo]
  | .integer, i => [.int i]
  | .float, s => [.string s]
  | .string, s => [.string s]
  | .list, x =>
      match cells h fuel x.next with
      | .ok l => (x :: l).map fun c => .ptr c.first
      | .error _ => []
  | .query, x => [.cmdType x.commandType, .ptr x.utilityStmt, .int x.resultRelation,
      .string x.into, .flag x.isPortal, .flag x.isBinary, .flag x.isTemp, .flag x.unionAll,
      .flag x.hasAggs, .flag x.hasSublinks, .ptr x.rtable, .ptr x.targetList, .ptr x.qual,
      .ptr x.rowMark, .ptr x.distinctClause, .ptr x.sortClause, .ptr x.groupClause,
      .ptr x.havingQual, .ptr x.intersectClause, .ptr x.unionClause, .ptr x.limitOffset,
      .ptr x.limitCount]
  | .rangeTblEntry, x => [.string x.relName, .ptr x.ref, .oid x.relId, .flag x.inh,
      .flag x.inFromCl, .flag x.inJoinSet, .flag x.skipAcl]
  | .sortClause, x => [.int x.tleSortGroupRef, .oid x.sortOp]
  | .groupClause, x => [.int x.tleSortGroupRef, .oid x.sortOp]
  | .targetEntry, x => [.ptr x.resdom, .ptr x.fjoin, .ptr x.expr]
  | .caseExpr, x => [.oid x.caseType, .ptr x.arg, .ptr x.args, .ptr x.defResult]
  | .caseWhen, x => [.ptr x.expr, .ptr x.result]
  | .other _, _ => []

/-- The fields of a node that its routine neither compares nor mentions. -/
def overlooked : (t : NodeTag) → Payload t → List Field
  | .fjoin, x => [.flags (x.fjAlwaysDone.take (toSize x.fjNNodes))]
  | .iter, x => [.oid x.iterType]
  | .attr, x => [.ptr x.paramNo, .ptr x.indirection]
  | .param, x => [.int x.paramId, .string x.paramName]
  | .query, x => [.ptr x.jointree, .ints (intList h fuel x.rowMarks), .ptr x.setOperations,
      .ints (intList h fuel x.resultRelations)]
  | .rangeTblEntry, x => [.ptr x.subquery, .ptr x.aliasClause, .ptr x.eref,
      .flag x.checkForRead, .flag x.checkForWrite, .oid x.checkAsUser]
  | _, _ => []

/-- The integer list at a pointer can be walked. -/
def walks (l : Ptr) : Bool := (cells h fuel l).isOk

/-- A node its routine can compare with a copy: the strings it passes to
`strcmp` are there, lists end, a datum is as long as it says, a parameter's
kind is known, no cost is a NaN, and there is a routine for the tag. -/
def sound : (t : NodeTag) → Payload t → Bool
  | .stream, x => !x.groupCost.isNaN && !x.groupSel.isNaN
  | .attr, x => x.relName.isSome
  | .const, x => x.constIsNull || x.constByVal || (datumBytes h x).isOk
  | .param, x => if x.byName then x.paramName.isSome
      else decide (x.byNumber ∨ x.paramKind = PARAM_INVALID)
  | .aggref, x => x.aggName.isSome
  | .relOptInfo, x => walks h fuel x.relids
  | .indexPath, x => walks h fuel x.indexId && walks h fuel x.joinRelIds
  | .tidPath, x => walks h fuel x.unjoinedRelIds
  | .joinInfo, x => walks h fuel x.unjoinedRelids
  | .float, s => s.isSome
  | .string, s => s.isSome
  | .list, x => walks h fuel x.next
  | .other _, _ => false
  | _, _ => true

end Tables

end PostgresV7.Nodes
