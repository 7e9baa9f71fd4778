import PostgresV7.Lib.Descent
import PostgresV7.Nodes.Equality
import PostgresV7.Nodes.Append
import Mathlib.Data.Finite.Prod

/-!
# When `equal` returns (`equalfuncs.c`)

Every routine runs through a script of tests and calls of `equal`, in the order of
the source. `equal` returns exactly when its calls never come back to a pair of
nodes they have passed, and no list without an end is walked.
-/

namespace PostgresV7.Nodes

open Descent

/-- Two pointers that `equal` is called with. -/
abbrev Pair := Ptr × Ptr

/-! ## Scripts -/

section Scripts

variable {A : Type} [DecidableEq A]

/-- `if (!b) return false;` -/
def flag (b : Bool) : Step Pair Fault := .test (.ok b)

/-- `if (a->f != b->f) return false;` -/
def same (x y : A) : Step Pair Fault := flag (decide (x = y))

/-- `if (!equal(a->f, b->f)) return false;` -/
def child (p q : Ptr) : Step Pair Fault := .call (p, q)

def pathSteps (a b : Path) : List (Step Pair Fault) :=
  [same a.pathType b.pathType, child a.parent b.parent, child a.pathKeys b.pathKeys]

def joinPathSteps (a b : JoinPath) : List (Step Pair Fault) :=
  pathSteps a.path b.path ++
    [child a.outerJoinPath b.outerJoinPath, child a.innerJoinPath b.innerJoinPath,
      child a.joinRestrictInfo b.joinRestrictInfo]

/-- The `T_List` case: both lists are walked for their lengths first. -/
def listSteps (h : Heap) (n : Nat) (a b : ListCell) : List (Step Pair Fault) :=
  match cells h n a.next, cells h n b.next with
  | .ok as, .ok bs =>
    same (as.length + 1) (bs.length + 1) ::
      ((a :: as).zip (b :: bs)).map fun x => child x.1.first x.2.first
  | .error e, _ => [.test (.error e)]
  | .ok _, .error e => [.test (.error e)]

/-- What the routine for a tag does with two nodes, in the order of the source. -/
def steps (h : Heap) (n : Nat) : (t : NodeTag) → Payload t → Payload t → List (Step Pair Fault)
  | .resdom, a, b => [same a.resNo b.resNo, same a.resType b.resType,
      same a.resTypeMod b.resTypeMod, flag (optStringEq a.resName b.resName),
      same a.resSortGroupRef b.resSortGroupRef, same a.resKey b.resKey, same a.resKeyOp b.resKeyOp]
  | .fjoin, a, b => [same a.fjInitialized b.fjInitialized, same a.fjNNodes b.fjNNodes,
      child a.fjInnerNode b.fjInnerNode,
      .test (memcmpEq a.fjResults b.fjResults (toSize a.fjNNodes)),
      .test (memcmpEq a.fjAlwaysDone a.fjAlwaysDone (toSize a.fjNNodes))]
  | .expr, a, b => [same a.opType b.opType, child a.oper b.oper, child a.args b.args]
  | .iter, a, b => [child a.iterExpr b.iterExpr]
  | .stream, a, b => [same a.clauseType b.clauseType, same a.groupUp b.groupUp,
      flag (!a.groupCost.ne b.groupCost), flag (!a.groupSel.ne b.groupSel),
      child a.pathPtr b.pathPtr, child a.cinfo b.cinfo, child a.upstream b.upstream,
      child a.downstream b.downstream]
  | .attr, a, b => [.test (strcmpEq a.relName b.relName), child a.attrs b.attrs]
  | .var, a, b => [same a.varno b.varno, same a.varAttno b.varAttno, same a.varType b.varType,
      same a.varTypeMod b.varTypeMod, same a.varLevelsUp b.varLevelsUp, same a.varnoOld b.varnoOld,
      same a.varOattno b.varOattno]
  | .array, a, b => [same a.arrayElemType b.arrayElemType, same a.arrayNdim b.arrayNdim,
      same a.arrayLow.first b.arrayLow.first, same a.arrayHigh.first b.arrayHigh.first,
      same a.arrayLen b.arrayLen]
  | .arrayRef, a, b => [same a.refElemType b.refElemType, same a.refAttrLength b.refAttrLength,
      same a.refElemLength b.refElemLength, same a.refElemByVal b.refElemByVal,
      child a.refUpperIndExpr b.refUpperIndExpr, child a.refLowerIndExpr b.refLowerIndExpr,
      child a.refExpr b.refExpr, child a.refAssgnExpr b.refAssgnExpr]
  | .oper, a, b => [same a.opNo b.opNo, same a.opResultType b.opResultType]
  | .const, a, b => [same a.constType b.constType, same a.constLen b.constLen,
      same a.constIsNull b.constIsNull, same a.constByVal b.constByVal,
      .test (if a.constIsNull then .ok true
        else datumIsEqual h a.constValue b.constValue a.constByVal (toSize a.constLen))]
  | .param, a, b => [same a.paramKind b.paramKind, same a.paramType b.paramType,
      child a.paramTlist b.paramTlist, .test (equalParamKind a b)]
  | .aggref, a, b => [.test (strcmpEq a.aggName b.aggName), same a.baseType b.baseType,
      same a.aggType b.aggType, child a.target b.target, same a.useNulls b.useNulls,
      same a.aggStar b.aggStar, same a.aggDistinct b.aggDistinct]
  | .subLink, a, b => [same a.sublinkType b.sublinkType, same a.useOr b.useOr,
      child a.lefthand b.lefthand, child a.oper b.oper, child a.subselect b.subselect]
  | .relabelType, a, b => [child a.arg b.arg, same a.resultType b.resultType,
      same a.resultTypeMod b.resultTypeMod]
  | .func, a, b => [same a.funcId b.funcId, same a.funcType b.funcType,
      same a.funcIsIndex b.funcIsIndex, same a.funcSize b.funcSize, child a.funcTlist b.funcTlist,
      child a.funcPlanlist b.funcPlanlist]
  | .restrictInfo, a, b => [child a.clause b.clause, child a.subClauseIndices b.subClauseIndices,
      same a.mergeJoinOperator b.mergeJoinOperator, same a.leftSortOp b.leftSortOp,
      same a.rightSortOp b.rightSortOp, same a.hashJoinOperator b.hashJoinOperator]
  | .relOptInfo, a, b => [.test (equali h n a.relids b.relids)]
  | .indexOptInfo, a, b => [same a.indexOid b.indexOid]
  | .pathKeyItem, a, b => [same a.sortOp b.sortOp, child a.key b.key]
  | .path, a, b => pathSteps a b
  | .indexPath, a, b => pathSteps a.path b.path ++
      [.test (equali h n a.indexId b.indexId), child a.indexQual b.indexQual,
        same a.indexScanDir b.indexScanDir, .test (equali h n a.joinRelIds b.joinRelIds)]
  | .tidPath, a, b => pathSteps a.path b.path ++
      [child a.tidEval b.tidEval, .test (equali h n a.unjoinedRelIds b.unjoinedRelIds)]
  | .nestPath, a, b => joinPathSteps a b
  | .mergePath, a, b => joinPathSteps a.jpath b.jpath ++
      [child a.pathMergeClauses b.pathMergeClauses, child a.outerSortKeys b.outerSortKeys,
        child a.innerSortKeys b.innerSortKeys]
  | .hashPath, a, b => joinPathSteps a.jpath b.jpath ++ [child a.pathHashClauses b.pathHashClauses]
  | .joinInfo, a, b => [.test (equali h n a.unjoinedRelids b.unjoinedRelids),
      child a.jinfoRestrictInfo b.jinfoRestrictInfo]
  | .integer, a, b => [.test (equalValue (.integer a) (.integer b))]
  | .float, a, b => [.test (equalValue (.float a) (.float b))]
  | .string, a, b => [.test (equalValue (.string a) (.string b))]
  | .list, a, b => listSteps h n a b
  | .query, a, b => [same a.commandType b.commandType, child a.utilityStmt b.utilityStmt,
      same a.resultRelation b.resultRelation, flag (optStringEq a.into b.into),
      same a.isPortal b.isPortal, same a.isBinary b.isBinary, same a.isTemp b.isTemp,
      same a.unionAll b.unionAll, same a.hasAggs b.hasAggs, same a.hasSublinks b.hasSublinks,
      child a.rtable b.rtable, child a.targetList b.targetList, child a.qual b.qual,
      child a.rowMark b.rowMark, child a.distinctClause b.distinctClause,
      child a.sortClause b.sortClause, child a.groupClause b.groupClause,
      child a.havingQual b.havingQual, child a.intersectClause b.intersectClause,
      child a.unionClause b.unionClause, child a.limitOffset b.limitOffset,
      child a.limitCount b.limitCount]
  | .rangeTblEntry, a, b => [flag (optStringEq a.relName b.relName), child a.ref b.ref,
      same a.relId b.relId, same a.inh b.inh, same a.inFromCl b.inFromCl,
      same a.inJoinSet b.inJoinSet, same a.skipAcl b.skipAcl]
  | .sortClause, a, b => [same a.tleSortGroupRef b.tleSortGroupRef, same a.sortOp b.sortOp]
  | .groupClause, a, b => [same a.tleSortGroupRef b.tleSortGroupRef, same a.sortOp b.sortOp]
  | .targetEntry, a, b => [child a.resdom b.resdom, child a.fjoin b.fjoin, child a.expr b.expr]
  | .caseExpr, a, b => [same a.caseType b.caseType, child a.arg b.arg, child a.args b.args,
      child a.defResult b.defResult]
  | .caseWhen, a, b => [child a.expr b.expr, child a.result b.result]
  | .other _, _, _ => [flag false]

end Scripts

/-! ## The routines run their scripts -/

section Routines

variable {A : Type} [DecidableEq A] (h : Heap) (n : Nat) (eq : Ptr → Ptr → Except Fault Bool)

/-- A call of `equal` in a script. -/
abbrev call (x : Pair) : Except Fault Bool := eq x.1 x.2

theorem run_nil : run (call eq) [] = pure true := rfl

theorem run_child (p q : Ptr) (rest : List (Step Pair Fault)) :
    run (call eq) (child p q :: rest) = (do
      if !(← eq p q) then return false
      run (call eq) rest) := rfl

theorem run_test (r : Except Fault Bool) (rest : List (Step Pair Fault)) :
    run (call eq) (.test r :: rest) = (do
      if !(← r) then return false
      run (call eq) rest) := rfl

theorem run_flag (b : Bool) (rest : List (Step Pair Fault)) :
    run (call eq) (flag b :: rest) =
      if ¬b = true then (pure false : Except Fault Bool) else run (call eq) rest := by
  cases b <;> simp [flag, run, bind, Except.bind]

theorem run_flag_not (b : Bool) (rest : List (Step Pair Fault)) :
    run (call eq) (flag (!b) :: rest) =
      if b = true then (pure false : Except Fault Bool) else run (call eq) rest := by
  cases b <;> simp [flag, run, bind, Except.bind]

theorem run_same (x y : A) (rest : List (Step Pair Fault)) :
    run (call eq) (same x y :: rest) =
      if x ≠ y then (pure false : Except Fault Bool) else run (call eq) rest := by
  by_cases hxy : x = y <;> simp [same, run_flag, hxy]

/-- The last step of a routine that returns what it comes to. -/
theorem bind_return (r : Except Fault Bool) :
    (r >>= fun ok => if (!ok) = true then (pure false : Except Fault Bool) else pure true) = r := by
  cases r with
  | error e => rfl
  | ok ok => cases ok <;> rfl

theorem equalElements_eq_run (as bs : List ListCell) :
    equalElements eq as bs =
      run (call eq) ((as.zip bs).map fun x => child x.1.first x.2.first) := by
  induction as generalizing bs with
  | nil => cases bs <;> rfl
  | cons l as ih =>
    cases bs with
    | nil => rfl
    | cons k bs =>
      simp only [equalElements, List.zip_cons_cons, List.map_cons, run_child, ih]

theorem equalList_eq_run (a b : ListCell) :
    equalList h n eq a b = run (call eq) (listSteps h n a b) := by
  rw [equalList, listSteps]
  cases cells h n a.next with
  | error e => rfl
  | ok as =>
    cases cells h n b.next with
    | error e => rfl
    | ok bs =>
      simp only [run_same, ← equalElements_eq_run]
      rfl

/-- The routine for a tag runs its script. -/
theorem equalNode_eq_run (t : NodeTag) (a b : Payload t) :
    equalNode h n eq t a b = run (call eq) (steps h n t a b) := by
  cases t
  case list => exact equalList_eq_run h n eq a b
  case other => rfl
  case const =>
    simp only [equalNode, steps, equalConst, run_same, run_test, run_nil, bind_return]
    rfl
  case stream =>
    simp only [equalNode, steps, equalStream, run_same, run_flag_not, run_child, run_nil, bind_return]
  case nestPath =>
    simp only [equalNode, steps, equalNestPath, equalJoinPath, equalPath, joinPathSteps, pathSteps,
      run_append, run_same, run_child, run_nil, bind_return]
  all_goals
    simp only [equalNode, steps, pathSteps, joinPathSteps, equalResdom, equalFjoin, equalExpr,
      equalAttr, equalVar, equalOper, equalParam, equalFunc, equalAggref, equalSublink,
      equalRelabelType, equalArray, equalArrayRef, equalRelOptInfo, equalIndexOptInfo,
      equalPathKeyItem, equalPath, equalIndexPath, equalTidPath, equalJoinPath, equalMergePath,
      equalHashPath, equalRestrictInfo, equalJoinInfo, equalIter, equalQuery, equalRangeTblEntry,
      equalSortClause, equalTargetEntry, equalCaseExpr, equalCaseWhen, run_append, run_same,
      run_flag, run_child, run_test, run_nil, bind_return]

end Routines

/-! ## Fuel for the walks -/

section Fuel

variable {h : Heap} {n n' : Nat}

theorem cells_mono (hn : n ≤ n') (l : Ptr) :
    cells h n l = .error .depth ∨ cells h n l = cells h n' l := by
  induction n generalizing n' l with
  | zero =>
    by_cases hl : l = NIL
    · right
      rw [hl, cells_nil, cells_nil]
    · left
      rw [cells.eq_def, if_neg hl]
  | succ n ih =>
    obtain ⟨n', rfl⟩ : ∃ k, n' = k + 1 := ⟨n' - 1, by omega⟩
    by_cases hl : l = NIL
    · right
      rw [hl, cells_nil, cells_nil]
    · obtain ⟨c, hc, hcells⟩ | ⟨hnone, hcells⟩ := cells_succ h n hl
      · obtain ⟨c', hc', hcells'⟩ | ⟨hnone, -⟩ := cells_succ h n' hl
        · obtain rfl : c = c' := by simpa using hc.symm.trans hc'
          rw [hcells, hcells']
          rcases ih (Nat.le_of_succ_le_succ hn) c.next with hrest | hrest
          · left
            rw [hrest]
            rfl
          · right
            rw [hrest]
        · exact absurd hc (hnone c)
      · obtain ⟨c', hc', -⟩ | ⟨-, hcells'⟩ := cells_succ h n' hl
        · exact absurd hc' (hnone c')
        · exact .inr (hcells.trans hcells'.symm)

theorem equali_mono (hn : n ≤ n') (a b : Ptr) :
    equali h n a b = .error .depth ∨ equali h n a b = equali h n' a b := by
  induction n generalizing n' a b with
  | zero =>
    rw [equali.eq_def, equali.eq_def h n']
    split
    · exact .inr rfl
    · split
      · exact .inr rfl
      · exact .inl rfl
  | succ n ih =>
    obtain ⟨n', rfl⟩ : ∃ k, n' = k + 1 := ⟨n' - 1, by omega⟩
    rw [equali.eq_def, equali.eq_def h (n' + 1)]
    split
    · exact .inr rfl
    · split
      · exact .inr rfl
      · simp only
        split
        · split
          · exact .inr rfl
          · exact ih (Nat.le_of_succ_le_succ hn) _ _
        · exact .inr rfl

theorem listSteps_approx (hn : n ≤ n') (a b : ListCell) :
    Approx .depth (listSteps h n a b) (listSteps h n' a b) := by
  rw [listSteps, listSteps]
  rcases cells_mono hn a.next with ha | ha
  · rw [ha]
    exact .stuck
  · rw [← ha]
    cases cells h n a.next with
    | error e => exact .refl _ _
    | ok as =>
      rcases cells_mono hn b.next with hb | hb
      · rw [hb]
        exact .stuck
      · rw [← hb]
        exact .refl _ _

/-- With more fuel for the walks a script is the same as far as it got. -/
theorem steps_approx (hn : n ≤ n') (t : NodeTag) (a b : Payload t) :
    Approx .depth (steps h n t a b) (steps h n' t a b) := by
  cases t
  case list => exact listSteps_approx hn a b
  case relOptInfo => exact .test (equali_mono hn _ _) (.refl _ _)
  case joinInfo => exact .test (equali_mono hn _ _) (.refl _ _)
  case indexPath =>
    apply (Approx.refl _ _).append
    exact .test (equali_mono hn _ _) (.step (.step (.test (equali_mono hn _ _) .nil)))
  case tidPath =>
    apply (Approx.refl _ _).append
    exact .step (.test (equali_mono hn _ _) .nil)
  all_goals exact .refl _ _

end Fuel

/-! ## `equal` as a comparison -/

theorem Node.tag_symm {a b : Node} (h : a.tag = b.tag) : b.tag = a.tag := h.symm

/-- What `equal` does with two pointers. -/
def script (h : Heap) (n : Nat) (x : Pair) : List (Step Pair Fault) :=
  if x.1 = x.2 then [flag true]
  else if x.1 = NIL ∨ x.2 = NIL then [flag false]
  else
    match h.node x.1, h.node x.2 with
    | some a, some b =>
      if ht : a.tag = b.tag then steps h n a.tag a.payload (Node.tag_symm ht ▸ b.payload) else [flag false]
    | _, _ => [.test (.error .badPointer)]

/-- `equal` with its scripts. -/
def comparison (h : Heap) : Comparison Pair Fault where
  out := .depth
  script := script h
  eval n x := equal h n x.1 x.2
  eval_zero x := by
    rw [equal.eq_def]
    split
    · right
      intro n
      simp [script, flag, *]
    · split
      · right
        intro n
        simp [script, flag, *]
      · exact .inl rfl
  eval_succ n x := by
    rw [equal.eq_def, script]
    split
    · rfl
    · split
      · rfl
      · cases h.node x.1 with
        | none => rfl
        | some a =>
          cases h.node x.2 with
          | none => rfl
          | some b =>
            simp only
            split
            · exact equalNode_eq_run ..
            · rfl
  script_approx x hn := by
    rw [script, script]
    split
    · exact .refl _ _
    · split
      · exact .refl _ _
      · cases h.node x.1 with
        | none => exact .refl _ _
        | some a =>
          cases h.node x.2 with
          | none => exact .refl _ _
          | some b =>
            simp only
            split
            · exact steps_approx hn ..
            · exact .refl _ _

/-! ## Descents -/

/-- The comparison goes on behind a step: a test that is passed, or two pointers that
have one view. -/
def Agrees (h : Heap) : Step Pair Fault → Prop
  | .test result => result = .ok true
  | .call x => ∃ n, view h n x.1 = view h n x.2

/-- Comparing `x` comes to the step `s`: everything before it agrees. -/
def ComesTo (h : Heap) (n : Nat) (x : Pair) (s : Step Pair Fault) : Prop :=
  ∃ pre post, script h n x = pre ++ s :: post ∧ ∀ s' ∈ pre, Agrees h s'

/-- From the pair `x` the comparison goes down to the pair `y`. -/
def Descends (h : Heap) (x y : Pair) : Prop := ∃ n, ComesTo h n x (.call y)

/-- Comparing `x` walks along a list without an end. -/
def WalksForever (h : Heap) (x : Pair) : Prop := ∀ n, ComesTo h n x (.test (.error .depth))

variable {h : Heap} {n : Nat} {x y : Pair}

theorem agrees_iff_passes {s : Step Pair Fault} : Agrees h s ↔ (comparison h).Passes s := by
  cases s with
  | test result => exact Iff.rfl
  | call x => exact exists_congr fun n => equal_iff_view.symm

theorem comesTo_iff_reaches {s : Step Pair Fault} :
    ComesTo h n x s ↔ (comparison h).Reaches n x s := by
  simp only [ComesTo, Comparison.Reaches, agrees_iff_passes]
  rfl

theorem descends_iff_calls : Descends h x y ↔ (comparison h).Calls x y :=
  exists_congr fun _ => comesTo_iff_reaches

theorem walksForever_iff_endless : WalksForever h x ↔ (comparison h).Endless x :=
  forall_congr' fun _ => comesTo_iff_reaches

/-- Only two nodes have anything to descend to. -/
theorem Descends.nodes (hd : Descends h x y) : h.node x.1 ≠ none ∧ h.node x.2 ≠ none := by
  obtain ⟨n, pre, post, hscript, -⟩ := hd
  have hcall : Step.call y ∈ script h n x := by simp [hscript]
  rw [script] at hcall
  split at hcall
  · simp [flag] at hcall
  · split at hcall
    · simp [flag] at hcall
    · cases ha : h.node x.1 with
      | none => simp [ha] at hcall
      | some a =>
        cases hb : h.node x.2 with
        | none => simp [ha, hb] at hcall
        | some b => simp

theorem descends_finite (m : Memory) : {x | ∃ y, Descends m.heap x y}.Finite := by
  have hbelow : ∀ p, m.heap.node p ≠ none → p ∈ {i | i < m.limit} := by
    intro p hp
    by_contra hle
    exact hp (m.unused p (Nat.le_of_not_lt hle))
  have hfin : {i | i < m.limit}.Finite := Set.finite_lt_nat m.limit
  apply (hfin.prod hfin).subset
  intro x ⟨y, hd⟩
  exact ⟨hbelow x.1 hd.nodes.1, hbelow x.2 hd.nodes.2⟩

/-- `equal` returns exactly when the descents from its arguments never come back to a
pair they have passed, and none of them comes to a list without an end. -/
theorem equal_returns_iff (m : Memory) (a b : Ptr) :
    (∃ fuel, equal m.heap fuel a b ≠ .error .depth) ↔
      ∀ x, Relation.ReflTransGen (Descends m.heap) (a, b) x →
        ¬Relation.TransGen (Descends m.heap) x x ∧ ¬WalksForever m.heap x := by
  have hcalls : Descends m.heap = (comparison m.heap).Calls := by
    funext x y
    exact propext descends_iff_calls
  have hreturns : (∃ fuel, equal m.heap fuel a b ≠ .error .depth) ↔
      (comparison m.heap).Returns (a, b) := Iff.rfl
  have hfin := descends_finite m
  rw [hreturns, Comparison.returns_iff_acc, ← hcalls, acc_iff_no_cycle hfin]
  simp only [walksForever_iff_endless]
  exact forall₂_and.symm

/-! ## Streams -/

/-- One end of a chain of two stream nodes. -/
def streamEnd (upstream downstream : Ptr) : Stream where
  pathPtr := NIL
  cinfo := NIL
  clauseType := 0
  upstream := upstream
  downstream := downstream
  groupUp := false
  groupCost := ⟨0⟩
  groupSel := ⟨0⟩

/-- A doubly linked chain of two stream nodes at 10 and 20, and a copy at 30 and 40. -/
def twoChains : Memory :=
  ((((cellMemory []).write 10 ⟨.stream, streamEnd NIL 20⟩).write 20 ⟨.stream, streamEnd 10 NIL⟩).write
    30 ⟨.stream, streamEnd NIL 40⟩).write 40 ⟨.stream, streamEnd 30 NIL⟩

/-- Comparing the chains goes down to the second nodes and from there back up. -/
theorem equal_streams_forever : ¬∃ fuel, equal twoChains.heap fuel 10 30 ≠ .error .depth := by
  have hboth : ∀ fuel, equal twoChains.heap fuel 10 30 = .error .depth ∧
      equal twoChains.heap fuel 20 40 = .error .depth := by
    intro fuel
    induction fuel with
    | zero => exact ⟨rfl, rfl⟩
    | succ fuel ih =>
      have hdown : equal twoChains.heap (fuel + 1) 10 30 =
          equalStream (equal twoChains.heap fuel) (streamEnd NIL 20) (streamEnd NIL 40) := rfl
      have hup : equal twoChains.heap (fuel + 1) 20 40 =
          equalStream (equal twoChains.heap fuel) (streamEnd 10 NIL) (streamEnd 30 NIL) := rfl
      have hnil : equal twoChains.heap fuel NIL NIL = .ok true := equal_self _ _ _
      have hzero : Double.ne ⟨0⟩ ⟨0⟩ = false := by decide
      constructor
      · rw [hdown]
        simp [equalStream, streamEnd, hzero, hnil, ih.2, bind, Except.bind]
      · rw [hup]
        simp [equalStream, streamEnd, hzero, hnil, ih.1, bind, Except.bind]
  rintro ⟨fuel, hreturns⟩
  exact hreturns (hboth fuel).1

end PostgresV7.Nodes
