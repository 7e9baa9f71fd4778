import PostgresV7.Nodes.Nodes

/-!
# Comparison of node trees (`equalfuncs.c`, `datum.c`, `list.c`)

The routines compare the nodes two pointers lead to, field by field and in the
order of the source, and call back `equal` for child pointers. The depth bounds
the recursion and the list walks; a comparison that exceeds it has not returned.
-/

namespace PostgresV7.Nodes

/-- Why a comparison does not return. -/
inductive Fault where
  | depth
  | badPointer
  | nullString
  | overread
  | elogError
  deriving DecidableEq, Repr

/-- `strcmp(a, b) == 0`; both arguments are read. -/
def strcmpEq : CString → CString → Except Fault Bool
  | some s, some t => .ok (s == t)
  | _, _ => .error .nullString

/-- `memcmp(a, b, n) == 0` on the first `n` elements of two arrays. -/
def memcmpEq {A : Type} [DecidableEq A] (xs ys : List A) (n : Nat) : Except Fault Bool :=
  if n ≤ xs.length ∧ n ≤ ys.length then .ok (decide (xs.take n = ys.take n)) else .error .overread

/-- Strings that may be `NULL`: equal contents, or both `NULL`. -/
def optStringEq (s t : CString) : Bool := s == t

/-! ## Lists -/

/-- The cells of a list, from the first to the one before `NIL`. -/
def cells (h : Heap) (fuel : Nat) (l : Ptr) : Except Fault (List ListCell) :=
  if l = NIL then .ok []
  else
    match fuel with
    | 0 => .error .depth
    | fuel + 1 =>
      match h.node l with
      | some ⟨.list, c⟩ => (cells h fuel c.next).map (c :: ·)
      | _ => .error .badPointer

/-- `length`. -/
def length (h : Heap) (fuel : Nat) (l : Ptr) : Except Fault Nat :=
  (cells h fuel l).map List.length

/-- `equali`: `b` moves along while `a` is walked. -/
def equali (h : Heap) (fuel : Nat) (a b : Ptr) : Except Fault Bool :=
  if a = NIL then .ok (b == NIL)
  else if b = NIL then .ok false
  else
    match fuel with
    | 0 => .error .depth
    | fuel + 1 =>
      match h.node a, h.node b with
      | some ⟨.list, l⟩, some ⟨.list, k⟩ =>
        if l.firstI ≠ k.firstI then .ok false else equali h fuel l.next k.next
      | _, _ => .error .badPointer

/-! ## Datums -/

/-- `VARSIZE`: the first four bytes without the two flag bits. -/
def varsize : List UInt8 → Except Fault Nat
  | b0 :: b1 :: b2 :: b3 :: _ =>
    .ok ((b0.toNat + b1.toNat * 2 ^ 8 + b2.toNat * 2 ^ 16 + b3.toNat * 2 ^ 24) % 2 ^ 30)
  | _ => .error .overread

/-- `datum_get_size`. -/
def datumGetSize (h : Heap) (value : Datum) (byVal : Bool) (len : Nat) : Except Fault Nat :=
  if byVal then
    if len ≤ 8 then .ok len else .error .elogError
  else if len = 2 ^ 64 - 1 then
    if value = 0 then .error .elogError else varsize (h.object value)
  else
    .ok len

/-- `datum_is_equal`. -/
def datumIsEqual (h : Heap) (value1 value2 : Datum) (byVal : Bool) (len : Nat) :
    Except Fault Bool := do
  if byVal then return value1 == value2
  let size1 ← datumGetSize h value1 byVal len
  let size2 ← datumGetSize h value2 byVal len
  if size1 ≠ size2 then return false
  memcmpEq (h.object value1) (h.object value2) size1

section Routines

variable (h : Heap) (fuel : Nat) (equal : Ptr → Ptr → Except Fault Bool)

/-! ## Primitive nodes -/

def equalResdom (a b : Resdom) : Except Fault Bool := do
  if a.resNo ≠ b.resNo then return false
  if a.resType ≠ b.resType then return false
  if a.resTypeMod ≠ b.resTypeMod then return false
  if ¬optStringEq a.resName b.resName then return false
  if a.resSortGroupRef ≠ b.resSortGroupRef then return false
  if a.resKey ≠ b.resKey then return false
  if a.resKeyOp ≠ b.resKeyOp then return false
  return true

/-- The second `memcmp` is given the array of `a` twice. -/
def equalFjoin (a b : Fjoin) : Except Fault Bool := do
  if a.fjInitialized ≠ b.fjInitialized then return false
  if a.fjNNodes ≠ b.fjNNodes then return false
  if !(← equal a.fjInnerNode b.fjInnerNode) then return false
  if !(← memcmpEq a.fjResults b.fjResults (toSize a.fjNNodes)) then return false
  if !(← memcmpEq a.fjAlwaysDone a.fjAlwaysDone (toSize a.fjNNodes)) then return false
  return true

def equalExpr (a b : Expr) : Except Fault Bool := do
  if a.opType ≠ b.opType then return false
  if !(← equal a.oper b.oper) then return false
  if !(← equal a.args b.args) then return false
  return true

def equalAttr (a b : Attr) : Except Fault Bool := do
  if !(← strcmpEq a.relName b.relName) then return false
  if !(← equal a.attrs b.attrs) then return false
  return true

def equalVar (a b : Var) : Except Fault Bool := do
  if a.varno ≠ b.varno then return false
  if a.varAttno ≠ b.varAttno then return false
  if a.varType ≠ b.varType then return false
  if a.varTypeMod ≠ b.varTypeMod then return false
  if a.varLevelsUp ≠ b.varLevelsUp then return false
  if a.varnoOld ≠ b.varnoOld then return false
  if a.varOattno ≠ b.varOattno then return false
  return true

def equalOper (a b : Oper) : Except Fault Bool := do
  if a.opNo ≠ b.opNo then return false
  if a.opResultType ≠ b.opResultType then return false
  return true

def equalConst (a b : Const) : Except Fault Bool := do
  if a.constType ≠ b.constType then return false
  if a.constLen ≠ b.constLen then return false
  if a.constIsNull ≠ b.constIsNull then return false
  if a.constByVal ≠ b.constByVal then return false
  if a.constIsNull then return true
  datumIsEqual h a.constValue b.constValue a.constByVal (toSize a.constLen)

/-- What remains of `equal_param` after the type and the projection: the name or
the number, by the kind. -/
def equalParamKind (a b : Param) : Except Fault Bool :=
  if a.paramKind = PARAM_NAMED ∨ a.paramKind = PARAM_NEW ∨ a.paramKind = PARAM_OLD then
    strcmpEq a.paramName b.paramName
  else if a.paramKind = PARAM_NUM ∨ a.paramKind = PARAM_EXEC then
    .ok (a.paramId == b.paramId)
  else if a.paramKind = PARAM_INVALID then
    .ok true
  else
    .error .elogError

def equalParam (a b : Param) : Except Fault Bool := do
  if a.paramKind ≠ b.paramKind then return false
  if a.paramType ≠ b.paramType then return false
  if !(← equal a.paramTlist b.paramTlist) then return false
  equalParamKind a b

def equalFunc (a b : Func) : Except Fault Bool := do
  if a.funcId ≠ b.funcId then return false
  if a.funcType ≠ b.funcType then return false
  if a.funcIsIndex ≠ b.funcIsIndex then return false
  if a.funcSize ≠ b.funcSize then return false
  if !(← equal a.funcTlist b.funcTlist) then return false
  if !(← equal a.funcPlanlist b.funcPlanlist) then return false
  return true

def equalAggref (a b : Aggref) : Except Fault Bool := do
  if !(← strcmpEq a.aggName b.aggName) then return false
  if a.baseType ≠ b.baseType then return false
  if a.aggType ≠ b.aggType then return false
  if !(← equal a.target b.target) then return false
  if a.useNulls ≠ b.useNulls then return false
  if a.aggStar ≠ b.aggStar then return false
  if a.aggDistinct ≠ b.aggDistinct then return false
  return true

def equalSublink (a b : SubLink) : Except Fault Bool := do
  if a.sublinkType ≠ b.sublinkType then return false
  if a.useOr ≠ b.useOr then return false
  if !(← equal a.lefthand b.lefthand) then return false
  if !(← equal a.oper b.oper) then return false
  if !(← equal a.subselect b.subselect) then return false
  return true

def equalRelabelType (a b : RelabelType) : Except Fault Bool := do
  if !(← equal a.arg b.arg) then return false
  if a.resultType ≠ b.resultType then return false
  if a.resultTypeMod ≠ b.resultTypeMod then return false
  return true

def equalArray (a b : Array) : Except Fault Bool := do
  if a.arrayElemType ≠ b.arrayElemType then return false
  if a.arrayNdim ≠ b.arrayNdim then return false
  if a.arrayLow.first ≠ b.arrayLow.first then return false
  if a.arrayHigh.first ≠ b.arrayHigh.first then return false
  if a.arrayLen ≠ b.arrayLen then return false
  return true

def equalArrayRef (a b : ArrayRef) : Except Fault Bool := do
  if a.refElemType ≠ b.refElemType then return false
  if a.refAttrLength ≠ b.refAttrLength then return false
  if a.refElemLength ≠ b.refElemLength then return false
  if a.refElemByVal ≠ b.refElemByVal then return false
  if !(← equal a.refUpperIndExpr b.refUpperIndExpr) then return false
  if !(← equal a.refLowerIndExpr b.refLowerIndExpr) then return false
  if !(← equal a.refExpr b.refExpr) then return false
  equal a.refAssgnExpr b.refAssgnExpr

/-! ## Planner nodes -/

def equalRelOptInfo (a b : RelOptInfo) : Except Fault Bool :=
  equali h fuel a.relids b.relids

def equalIndexOptInfo (a b : IndexOptInfo) : Except Fault Bool := do
  if a.indexOid ≠ b.indexOid then return false
  return true

def equalPathKeyItem (a b : PathKeyItem) : Except Fault Bool := do
  if a.sortOp ≠ b.sortOp then return false
  if !(← equal a.key b.key) then return false
  return true

def equalPath (a b : Path) : Except Fault Bool := do
  if a.pathType ≠ b.pathType then return false
  if !(← equal a.parent b.parent) then return false
  if !(← equal a.pathKeys b.pathKeys) then return false
  return true

def equalIndexPath (a b : IndexPath) : Except Fault Bool := do
  if !(← equalPath equal a.path b.path) then return false
  if !(← equali h fuel a.indexId b.indexId) then return false
  if !(← equal a.indexQual b.indexQual) then return false
  if a.indexScanDir ≠ b.indexScanDir then return false
  if !(← equali h fuel a.joinRelIds b.joinRelIds) then return false
  return true

def equalTidPath (a b : TidPath) : Except Fault Bool := do
  if !(← equalPath equal a.path b.path) then return false
  if !(← equal a.tidEval b.tidEval) then return false
  if !(← equali h fuel a.unjoinedRelIds b.unjoinedRelIds) then return false
  return true

def equalJoinPath (a b : JoinPath) : Except Fault Bool := do
  if !(← equalPath equal a.path b.path) then return false
  if !(← equal a.outerJoinPath b.outerJoinPath) then return false
  if !(← equal a.innerJoinPath b.innerJoinPath) then return false
  if !(← equal a.joinRestrictInfo b.joinRestrictInfo) then return false
  return true

def equalNestPath (a b : NestPath) : Except Fault Bool := do
  if !(← equalJoinPath equal a b) then return false
  return true

def equalMergePath (a b : MergePath) : Except Fault Bool := do
  if !(← equalJoinPath equal a.jpath b.jpath) then return false
  if !(← equal a.pathMergeClauses b.pathMergeClauses) then return false
  if !(← equal a.outerSortKeys b.outerSortKeys) then return false
  if !(← equal a.innerSortKeys b.innerSortKeys) then return false
  return true

def equalHashPath (a b : HashPath) : Except Fault Bool := do
  if !(← equalJoinPath equal a.jpath b.jpath) then return false
  if !(← equal a.pathHashClauses b.pathHashClauses) then return false
  return true

def equalRestrictInfo (a b : RestrictInfo) : Except Fault Bool := do
  if !(← equal a.clause b.clause) then return false
  if !(← equal a.subClauseIndices b.subClauseIndices) then return false
  if a.mergeJoinOperator ≠ b.mergeJoinOperator then return false
  if a.leftSortOp ≠ b.leftSortOp then return false
  if a.rightSortOp ≠ b.rightSortOp then return false
  if a.hashJoinOperator ≠ b.hashJoinOperator then return false
  return true

def equalJoinInfo (a b : JoinInfo) : Except Fault Bool := do
  if !(← equali h fuel a.unjoinedRelids b.unjoinedRelids) then return false
  if !(← equal a.jinfoRestrictInfo b.jinfoRestrictInfo) then return false
  return true

def equalIter (a b : Iter) : Except Fault Bool :=
  equal a.iterExpr b.iterExpr

def equalStream (a b : Stream) : Except Fault Bool := do
  if a.clauseType ≠ b.clauseType then return false
  if a.groupUp ≠ b.groupUp then return false
  if a.groupCost.ne b.groupCost then return false
  if a.groupSel.ne b.groupSel then return false
  if !(← equal a.pathPtr b.pathPtr) then return false
  if !(← equal a.cinfo b.cinfo) then return false
  if !(← equal a.upstream b.upstream) then return false
  equal a.downstream b.downstream

/-! ## Parse tree nodes -/

def equalQuery (a b : Query) : Except Fault Bool := do
  if a.commandType ≠ b.commandType then return false
  if !(← equal a.utilityStmt b.utilityStmt) then return false
  if a.resultRelation ≠ b.resultRelation then return false
  if ¬optStringEq a.into b.into then return false
  if a.isPortal ≠ b.isPortal then return false
  if a.isBinary ≠ b.isBinary then return false
  if a.isTemp ≠ b.isTemp then return false
  if a.unionAll ≠ b.unionAll then return false
  if a.hasAggs ≠ b.hasAggs then return false
  if a.hasSublinks ≠ b.hasSublinks then return false
  if !(← equal a.rtable b.rtable) then return false
  if !(← equal a.targetList b.targetList) then return false
  if !(← equal a.qual b.qual) then return false
  if !(← equal a.rowMark b.rowMark) then return false
  if !(← equal a.distinctClause b.distinctClause) then return false
  if !(← equal a.sortClause b.sortClause) then return false
  if !(← equal a.groupClause b.groupClause) then return false
  if !(← equal a.havingQual b.havingQual) then return false
  if !(← equal a.intersectClause b.intersectClause) then return false
  if !(← equal a.unionClause b.unionClause) then return false
  if !(← equal a.limitOffset b.limitOffset) then return false
  if !(← equal a.limitCount b.limitCount) then return false
  return true

def equalRangeTblEntry (a b : RangeTblEntry) : Except Fault Bool := do
  if ¬optStringEq a.relName b.relName then return false
  if !(← equal a.ref b.ref) then return false
  if a.relId ≠ b.relId then return false
  if a.inh ≠ b.inh then return false
  if a.inFromCl ≠ b.inFromCl then return false
  if a.inJoinSet ≠ b.inJoinSet then return false
  if a.skipAcl ≠ b.skipAcl then return false
  return true

def equalSortClause (a b : SortClause) : Except Fault Bool := do
  if a.tleSortGroupRef ≠ b.tleSortGroupRef then return false
  if a.sortOp ≠ b.sortOp then return false
  return true

def equalTargetEntry (a b : TargetEntry) : Except Fault Bool := do
  if !(← equal a.resdom b.resdom) then return false
  if !(← equal a.fjoin b.fjoin) then return false
  if !(← equal a.expr b.expr) then return false
  return true

def equalCaseExpr (a b : CaseExpr) : Except Fault Bool := do
  if a.caseType ≠ b.caseType then return false
  if !(← equal a.arg b.arg) then return false
  if !(← equal a.args b.args) then return false
  if !(← equal a.defResult b.defResult) then return false
  return true

def equalCaseWhen (a b : CaseWhen) : Except Fault Bool := do
  if !(← equal a.expr b.expr) then return false
  if !(← equal a.result b.result) then return false
  return true

def equalValue (a b : Value) : Except Fault Bool :=
  if a.type ≠ b.type then .ok false
  else
    match a, b with
    | .integer i, .integer j => .ok (i == j)
    | .float s, .float t => strcmpEq s t
    | .string s, .string t => strcmpEq s t
    | _, _ => .ok true

/-! ## Dispatch -/

/-- The loop of the `T_List` case over two lists of one length. -/
def equalElements : List ListCell → List ListCell → Except Fault Bool
  | l :: a, k :: b => do
    if !(← equal l.first k.first) then return false
    equalElements a b
  | _, _ => .ok true

/-- The `T_List` case. -/
def equalList (a b : ListCell) : Except Fault Bool := do
  let as ← cells h fuel a.next
  let bs ← cells h fuel b.next
  if as.length + 1 ≠ bs.length + 1 then return false
  equalElements equal (a :: as) (b :: bs)

/-- The switch of `equal` on the common tag of two nodes. The tags without a
routine only raise a notice. -/
def equalNode : (t : NodeTag) → Payload t → Payload t → Except Fault Bool
  | .resdom, a, b => equalResdom a b
  | .fjoin, a, b => equalFjoin equal a b
  | .expr, a, b => equalExpr equal a b
  | .iter, a, b => equalIter equal a b
  | .stream, a, b => equalStream equal a b
  | .attr, a, b => equalAttr equal a b
  | .var, a, b => equalVar a b
  | .array, a, b => equalArray a b
  | .arrayRef, a, b => equalArrayRef equal a b
  | .oper, a, b => equalOper a b
  | .const, a, b => equalConst h a b
  | .param, a, b => equalParam equal a b
  | .aggref, a, b => equalAggref equal a b
  | .subLink, a, b => equalSublink equal a b
  | .relabelType, a, b => equalRelabelType equal a b
  | .func, a, b => equalFunc equal a b
  | .restrictInfo, a, b => equalRestrictInfo equal a b
  | .relOptInfo, a, b => equalRelOptInfo h fuel a b
  | .indexOptInfo, a, b => equalIndexOptInfo a b
  | .pathKeyItem, a, b => equalPathKeyItem equal a b
  | .path, a, b => equalPath equal a b
  | .indexPath, a, b => equalIndexPath h fuel equal a b
  | .tidPath, a, b => equalTidPath h fuel equal a b
  | .nestPath, a, b => equalNestPath equal a b
  | .mergePath, a, b => equalMergePath equal a b
  | .hashPath, a, b => equalHashPath equal a b
  | .joinInfo, a, b => equalJoinInfo h fuel equal a b
  | .integer, a, b => equalValue (.integer a) (.integer b)
  | .float, a, b => equalValue (.float a) (.float b)
  | .string, a, b => equalValue (.string a) (.string b)
  | .list, a, b => equalList h fuel equal a b
  | .query, a, b => equalQuery equal a b
  | .rangeTblEntry, a, b => equalRangeTblEntry equal a b
  | .sortClause, a, b => equalSortClause a b
  | .groupClause, a, b => equalSortClause a b
  | .targetEntry, a, b => equalTargetEntry equal a b
  | .caseExpr, a, b => equalCaseExpr equal a b
  | .caseWhen, a, b => equalCaseWhen equal a b
  | .other _, _, _ => .ok false

end Routines

/-- `equal`. -/
def equal (h : Heap) (fuel : Nat) (a b : Ptr) : Except Fault Bool :=
  if a = b then .ok true
  else if a = NIL ∨ b = NIL then .ok false
  else
    match fuel with
    | 0 => .error .depth
    | fuel + 1 =>
      match h.node a, h.node b with
      | some x, some y =>
        if ht : x.tag = y.tag then
          equalNode h fuel (equal h fuel) x.tag x.payload (ht ▸ y.payload)
        else
          .ok false
      | _, _ => .error .badPointer

end PostgresV7.Nodes
