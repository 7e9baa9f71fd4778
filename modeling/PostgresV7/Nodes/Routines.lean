import PostgresV7.Nodes.Fields
import Mathlib.Tactic.Tauto

/-!
# What each comparison routine decides

A routine returns `true` exactly when the first node is sound and the compared
fields of the two nodes match, children by the comparison it was given.
-/

namespace PostgresV7.Nodes

/-- `if (c) return false;` before the rest of a routine. -/
theorem ite_returns {c : Prop} [Decidable c] {k : Except Fault Bool} :
    (if c then (pure false : Except Fault Bool) else k) = .ok true ↔ ¬c ∧ k = .ok true := by
  split <;> simp_all [pure, Except.pure]

/-- `if (!call) return false;` before the rest of a routine. -/
theorem call_returns {x k : Except Fault Bool} :
    (x >>= fun r => if (!r) = true then (pure false : Except Fault Bool) else k) = .ok true ↔
      x = .ok true ∧ k = .ok true := by
  cases x with
  | error e => simp [bind, Except.bind]
  | ok r => cases r <;> simp [bind, Except.bind, pure, Except.pure]

/-- The two shapes above as `simp` normalises them. -/
theorem ite_returns_pos {c : Prop} [Decidable c] {k : Except Fault Bool} :
    (if c then k else (pure false : Except Fault Bool)) = .ok true ↔ c ∧ k = .ok true := by
  split <;> simp_all [pure, Except.pure]

theorem call_returns_pos {x k : Except Fault Bool} :
    (x >>= fun r => if r = false then (pure false : Except Fault Bool) else k) = .ok true ↔
      x = .ok true ∧ k = .ok true := by
  cases x with
  | error e => simp [bind, Except.bind]
  | ok r => cases r <;> simp [bind, Except.bind, pure, Except.pure]

theorem pure_returns : ((pure true : Except Fault Bool) = .ok true) = True :=
  eq_true rfl

theorem strcmpEq_returns {s t : CString} :
    strcmpEq s t = .ok true ↔ s.isSome = true ∧ s = t := by
  cases s <;> cases t <;> simp [strcmpEq]

theorem memcmpEq_returns {A : Type} [DecidableEq A] {xs ys : List A} {n : Nat} :
    memcmpEq xs ys n = .ok true ↔ n ≤ xs.length ∧ xs.take n = ys.take n := by
  have hlen : n ≤ xs.length → xs.take n = ys.take n → n ≤ ys.length := by
    intro hx he
    have h := congrArg List.length he
    rw [List.length_take, List.length_take] at h
    omega
  simp only [memcmpEq]
  split
  · rename_i hn
    simp [hn.1]
  · rename_i hn
    simp only [reduceCtorEq, false_iff, not_and]
    exact fun hx he => hn ⟨hx, hlen hx he⟩

namespace Double

theorem key_of_magnitude_ne {d : Double} (h : d.magnitude ≠ 0) : d.key = d.bits.toNat :=
  if_neg h

theorem key_eq_zero_iff {d : Double} : d.key = 0 ↔ d.magnitude = 0 := by
  refine ⟨fun h => ?_, fun h => if_pos h⟩
  by_contra hm
  have hb : d.bits.toNat = 0 := (key_of_magnitude_ne hm).symm.trans h
  exact hm (by rw [magnitude, hb]; rfl)

theorem magnitude_of_key_eq {a b : Double} (h : a.key = b.key) : a.magnitude = b.magnitude := by
  by_cases ha : a.magnitude = 0
  · rw [ha, key_eq_zero_iff.1 (h ▸ key_eq_zero_iff.2 ha)]
  · have hb : b.magnitude ≠ 0 := fun hb => ha (key_eq_zero_iff.1 (h.trans (key_eq_zero_iff.2 hb)))
    rw [key_of_magnitude_ne ha, key_of_magnitude_ne hb] at h
    rw [magnitude, magnitude, h]

theorem isNaN_of_key_eq {a b : Double} (h : a.key = b.key) : a.isNaN = b.isNaN := by
  rw [isNaN, isNaN, magnitude_of_key_eq h]

/-- `!=` is false on two numbers that are not NaN and agree up to the sign of
zero. -/
theorem ne_eq_false {a b : Double} : a.ne b = false ↔ a.isNaN = false ∧ a.key = b.key := by
  simp only [ne, Bool.or_eq_false_iff, bne_eq_false_iff_eq]
  refine ⟨fun h => ⟨h.1.1, h.2⟩, fun h => ⟨⟨h.1, ?_⟩, h.2⟩⟩
  rw [← isNaN_of_key_eq h.2]
  exact h.1

end Double

section Routines

variable {h : Heap} {fuel : Nat}

theorem cells_nil : cells h fuel NIL = .ok [] := by
  rw [cells.eq_def, if_pos rfl]

/-- A walk from an address other than `NIL` finds a cell there or fails. -/
theorem cells_succ (h : Heap) (fuel : Nat) {a : Ptr} (ha : a ≠ NIL) :
    (∃ l, h.node a = some ⟨.list, l⟩ ∧
      cells h (fuel + 1) a = (cells h fuel l.next).map (l :: ·)) ∨
    (∀ l, h.node a ≠ some ⟨.list, l⟩) ∧ cells h (fuel + 1) a = .error .badPointer := by
  rw [cells.eq_def, if_neg ha]
  by_cases hcell : ∃ l : ListCell, h.node a = some ⟨.list, l⟩
  · obtain ⟨l, hl⟩ := hcell
    exact .inl ⟨l, hl, by simp [hl]⟩
  · right
    constructor
    · exact fun l hl => hcell ⟨l, hl⟩
    · split
      · contradiction
      · split
        · rename_i l hl
          exact absurd ⟨l, hl⟩ hcell
        · rfl

/-- The elements of a list that is not empty, if the walk returns. -/
theorem walk_ne_nil {a : Ptr} (ha : a ≠ NIL) : intList h fuel a ≠ .ok [] := by
  cases fuel with
  | zero => simp [intList, cells.eq_def, ha, Except.map]
  | succ fuel =>
    obtain ⟨l, -, hcells⟩ | ⟨-, hcells⟩ := cells_succ h fuel ha
    · cases hrest : cells h fuel l.next <;> simp [intList, hcells, hrest, Except.map]
    · simp [intList, hcells, Except.map]

theorem equali_succ {a b : Ptr} {l k : ListCell} (ha : a ≠ NIL) (hb : b ≠ NIL)
    (hl : h.node a = some ⟨.list, l⟩) (hk : h.node b = some ⟨.list, k⟩) :
    equali h (fuel + 1) a b =
      if l.firstI ≠ k.firstI then .ok false else equali h fuel l.next k.next := by
  rw [equali.eq_def, if_neg ha, if_neg hb]
  simp [hl, hk]

theorem equali_not_cells {a b : Ptr} (ha : a ≠ NIL) (hb : b ≠ NIL)
    (hnone : (∀ l, h.node a ≠ some ⟨.list, l⟩) ∨ ∀ k, h.node b ≠ some ⟨.list, k⟩) :
    equali h (fuel + 1) a b = .error .badPointer := by
  rw [equali.eq_def, if_neg ha, if_neg hb]
  split
  · contradiction
  · split
    · rename_i l k hl hk
      exact absurd hnone (not_or.2 ⟨fun hnone => hnone l hl, fun hnone => hnone k hk⟩)
    · rfl

theorem equali_nil_returns {a b : Ptr} (hnil : a = NIL ∨ b = NIL) :
    equali h fuel a b = .ok true ↔ walks h fuel a = true ∧ intList h fuel a = intList h fuel b := by
  have hwalk : walks h fuel NIL = true := by simp [walks, cells_nil, Except.isOk, Except.toBool]
  have hempty : intList h fuel NIL = .ok [] := by simp [intList, cells_nil, Except.map]
  by_cases ha : a = NIL
  · rw [equali.eq_def, if_pos ha, ha, hwalk, hempty]
    by_cases hb : b = NIL
    · simp [hb, hempty]
    · simp [hb, (walk_ne_nil hb).symm]
  · have hb : b = NIL := hnil.resolve_left ha
    rw [equali.eq_def, if_neg ha, if_pos hb, hb, hempty]
    simp [walk_ne_nil ha]

theorem equali_returns {a b : Ptr} :
    equali h fuel a b = .ok true ↔ walks h fuel a = true ∧ intList h fuel a = intList h fuel b := by
  by_cases hnil : a = NIL ∨ b = NIL
  · exact equali_nil_returns hnil
  have ha : a ≠ NIL := fun ha => hnil (.inl ha)
  have hb : b ≠ NIL := fun hb => hnil (.inr hb)
  induction fuel generalizing a b with
  | zero =>
    rw [equali.eq_def, if_neg ha, if_neg hb]
    simp [walks, cells.eq_def, ha, Except.isOk, Except.toBool]
  | succ fuel ih =>
    obtain ⟨l, hl, hcells⟩ | ⟨hnone, hcells⟩ := cells_succ h fuel ha
    · obtain ⟨k, hk, hcells'⟩ | ⟨hnone, hcells'⟩ := cells_succ h fuel hb
      · have hrest : equali h fuel l.next k.next = .ok true ↔
            walks h fuel l.next = true ∧ intList h fuel l.next = intList h fuel k.next := by
          by_cases hnil : l.next = NIL ∨ k.next = NIL
          · exact equali_nil_returns hnil
          · exact ih hnil (fun hl => hnil (.inl hl)) (fun hk => hnil (.inr hk))
        rw [equali_succ ha hb hl hk]
        simp only [walks, intList] at hrest
        simp only [walks, intList, hcells, hcells']
        by_cases hne : l.firstI = k.firstI
        · rw [if_neg (not_not.2 hne), hrest]
          cases cells h fuel l.next <;> cases cells h fuel k.next <;>
            simp [Except.map, Except.isOk, Except.toBool, hne]
        · rw [if_pos hne]
          cases cells h fuel l.next <;> cases cells h fuel k.next <;>
            simp [Except.map, Except.isOk, Except.toBool, hne]
      · rw [equali_not_cells ha hb (.inr hnone)]
        simp only [walks, intList, hcells, hcells']
        cases cells h fuel l.next <;> simp [Except.map, Except.isOk, Except.toBool]
    · rw [equali_not_cells ha hb (.inl hnone)]
      simp [walks, hcells, Except.isOk, Except.toBool]

/-- The comparison of two objects over the sizes read first, once their number is known. -/
theorem sized_returns {x y : Except Fault Nat} {o o' : List UInt8} :
    (do
      let size1 ← x
      let size2 ← y
      if size1 ≠ size2 then return false
      memcmpEq o o' size1 : Except Fault Bool) = .ok true ↔
      (prefixOf x o).isOk = true ∧ prefixOf x o = prefixOf y o' := by
  cases x with
  | error e => simp [prefixOf, bind, Except.bind, Except.isOk, Except.toBool]
  | ok n =>
    cases y with
    | error e =>
      by_cases hn : n ≤ o.length <;>
        simp [prefixOf, bind, Except.bind, Except.isOk, Except.toBool, hn]
    | ok m =>
      simp only [bind, Except.bind, ite_returns, memcmpEq_returns, prefixOf]
      by_cases hn : n ≤ o.length
      · by_cases hm : m ≤ o'.length
        · have hlen : o.take n = o'.take m → n = m := by
            intro he
            have hl := congrArg List.length he
            rw [List.length_take, List.length_take] at hl
            omega
          simp only [hn, hm, if_true, Except.isOk, Except.toBool, Except.ok.injEq, true_and, ne_eq,
            Decidable.not_not]
          exact ⟨fun h => h.1 ▸ h.2, fun he => ⟨hlen he, hlen he ▸ he⟩⟩
        · have hlen : n = m → o.take n ≠ o'.take n := by
            intro hnm he
            have hl := congrArg List.length he
            rw [List.length_take, List.length_take] at hl
            omega
          simp only [hn, hm, if_true, if_false, Except.isOk, Except.toBool, reduceCtorEq,
            and_false, iff_false, true_and, not_and, ne_eq, Decidable.not_not]
          exact hlen
      · simp [hn, Except.isOk, Except.toBool]

/-- By value the words decide, by reference the bytes read. -/
theorem datumIsEqual_returns {a b : Const} (hl : a.constLen = b.constLen)
    (hv : a.constByVal = b.constByVal) :
    datumIsEqual h a.constValue b.constValue a.constByVal (toSize a.constLen) = .ok true ↔
      if a.constByVal then a.constValue = b.constValue
      else (datumBytes h a).isOk = true ∧ datumBytes h a = datumBytes h b := by
  cases hb : a.constByVal with
  | true => simp [datumIsEqual, pure, Except.pure]
  | false =>
    rw [hb] at hv
    simp only [datumIsEqual, datumBytes, hb, ← hv, ← hl, Bool.false_eq_true, if_false]
    exact sized_returns

end Routines

section Children

variable {h : Heap} {fuel : Nat} {equal : Ptr → Ptr → Except Fault Bool}

/-- What it takes for a routine to return `true`. -/
def Passes (h : Heap) (fuel : Nat) (equal : Ptr → Ptr → Except Fault Bool) (t : NodeTag)
    (a b : Payload t) : Prop :=
  sound h fuel t a = true ∧
    List.Forall₂ (Matches fun p q => equal p q = .ok true) (compared h fuel t a)
      (compared h fuel t b)

theorem equalFjoin_returns {a b : Fjoin} :
    equalFjoin equal a b = .ok true ↔ Passes h fuel equal .fjoin a b := by
  simp only [equalFjoin, ite_returns, call_returns, memcmpEq_returns, pure_returns, Passes, sound,
    compared, List.forall₂_cons, Matches, Field.flag.injEq, Field.int.injEq, Field.datums.injEq,
    ne_eq, Decidable.not_not]
  constructor
  · rintro ⟨hi, hn, hk, ⟨hr, he⟩, -⟩
    exact ⟨trivial, hi, hn, hk, by rw [he, hn], .nil⟩
  · rintro ⟨-, hi, hn, hk, he, -⟩
    exact ⟨hi, hn, hk, ⟨a.results_length, by rw [he, hn]⟩, ⟨a.alwaysDone_length, trivial⟩, trivial⟩

theorem constDatum_returns (h : Heap) (fuel : Nat) {R : Ptr → Ptr → Prop} {a b : Const}
    (hl : a.constLen = b.constLen)
    (hn : a.constIsNull = b.constIsNull) (hv : a.constByVal = b.constByVal) :
    (if a.constIsNull then pure true
      else datumIsEqual h a.constValue b.constValue a.constByVal (toSize a.constLen)) =
        .ok true ↔
      sound h fuel .const a = true ∧
        List.Forall₂ (Matches R) (constDatum h a) (constDatum h b) := by
  cases ha : a.constIsNull with
  | true => simp [sound, constDatum, ha, ← hn, pure, Except.pure]
  | false =>
    simp only [Bool.false_eq_true, if_false, datumIsEqual_returns hl hv, sound, constDatum, ha,
      ← hn, ← hv]
    cases hb : a.constByVal <;> simp [Matches]

theorem equalConst_returns {a b : Const} :
    equalConst h a b = .ok true ↔ Passes h fuel equal .const a b := by
  simp only [equalConst, ite_returns, Passes, compared, List.cons_append, List.nil_append,
    List.forall₂_cons, Matches, Field.oid.injEq, Field.int.injEq, Field.flag.injEq, ne_eq,
    Decidable.not_not]
  constructor
  · rintro ⟨ht, hl, hn, hv, hd⟩
    obtain ⟨hs, hf⟩ := (constDatum_returns h fuel hl hn hv).1 hd
    exact ⟨hs, ht, hl, hn, hv, hf⟩
  · rintro ⟨hs, ht, hl, hn, hv, hd⟩
    exact ⟨ht, hl, hn, hv, (constDatum_returns h fuel hl hn hv).2 ⟨hs, hd⟩⟩

/-- Parameters of one kind: by name, by number, or not at all. -/
theorem equalParamKind_returns (h : Heap) (fuel : Nat) {R : Ptr → Ptr → Prop} {a b : Param}
    (hk : a.paramKind = b.paramKind) :
    equalParamKind a b = .ok true ↔
      sound h fuel .param a = true ∧ List.Forall₂ (Matches R) a.identity b.identity := by
  have hname : b.byName ↔ a.byName := by rw [Param.byName, Param.byName, hk]
  have hnum : b.byNumber ↔ a.byNumber := by rw [Param.byNumber, Param.byNumber, hk]
  change (if a.byName then _ else if a.byNumber then _ else _) = _ ↔ _
  simp only [sound, Param.identity, hname, hnum]
  by_cases hn : a.byName
  · simp [hn, strcmpEq_returns, Matches]
  · by_cases hi : a.byNumber
    · simp [hn, hi, Matches]
    · by_cases hv : a.paramKind = PARAM_INVALID <;> simp [hn, hi, hv]

theorem equalParam_returns {a b : Param} :
    equalParam equal a b = .ok true ↔ Passes h fuel equal .param a b := by
  simp only [equalParam, ite_returns, call_returns, Passes, compared, Param.compared,
    List.cons_append, List.nil_append, List.forall₂_cons, Matches, Field.oid.injEq,
    Field.int.injEq, ne_eq, Decidable.not_not]
  constructor
  · rintro ⟨hk, ht, hl, hi⟩
    obtain ⟨hs, hf⟩ := (equalParamKind_returns h fuel hk).1 hi
    exact ⟨hs, hk, ht, hl, hf⟩
  · rintro ⟨hs, hk, ht, hl, hi⟩
    exact ⟨hk, ht, hl, (equalParamKind_returns h fuel hk).2 ⟨hs, hi⟩⟩

/-- The walk over two lists of one length compares their elements pairwise. -/
theorem equalElements_returns {a b : List ListCell} (hl : a.length = b.length) :
    equalElements equal a b = .ok true ↔
      List.Forall₂ (fun l k => equal l.first k.first = .ok true) a b := by
  induction a generalizing b with
  | nil =>
    have hb : b = [] := List.length_eq_zero_iff.1 hl.symm
    simp [hb, equalElements]
  | cons l a ih =>
    cases b with
    | nil => exact absurd hl (Nat.succ_ne_zero _)
    | cons k b =>
      rw [equalElements, call_returns, ih (Nat.succ.inj hl), List.forall₂_cons]

theorem equalList_returns {a b : ListCell} :
    equalList h fuel equal a b = .ok true ↔ Passes h fuel equal .list a b := by
  simp only [equalList, Passes, sound, walks, compared]
  cases cells h fuel a.next with
  | error e => simp [bind, Except.bind, Except.isOk, Except.toBool]
  | ok as =>
    cases cells h fuel b.next with
    | error e => simp [bind, Except.bind, Except.isOk, Except.toBool]
    | ok bs =>
      simp only [bind, Except.bind, ite_returns, Except.isOk, Except.toBool, true_and,
        List.forall₂_map_left_iff, List.forall₂_map_right_iff, Matches]
      constructor
      · rintro ⟨hl, he⟩
        exact (equalElements_returns (by simpa using hl)).1 he
      · intro hf
        have hl : (a :: as).length = (b :: bs).length := hf.length_eq
        exact ⟨by simpa using hl, (equalElements_returns hl).2 hf⟩

attribute [local simp] equalNode Passes sound compared Matches ite_returns_pos call_returns_pos
  pure_returns strcmpEq_returns equali_returns optStringEq and_assoc
  Int.natCast_inj

theorem equalPath_returns {a b : Path} :
    equalPath equal a b = .ok true ↔ a.pathType = b.pathType ∧
      equal a.parent b.parent = .ok true ∧ equal a.pathKeys b.pathKeys = .ok true := by
  simp [equalPath]

theorem equalJoinPath_returns {a b : JoinPath} :
    equalJoinPath equal a b = .ok true ↔ equalPath equal a.path b.path = .ok true ∧
      equal a.outerJoinPath b.outerJoinPath = .ok true ∧
      equal a.innerJoinPath b.innerJoinPath = .ok true ∧
      equal a.joinRestrictInfo b.joinRestrictInfo = .ok true := by
  simp [equalJoinPath]

attribute [local simp] equalPath_returns equalJoinPath_returns Path.compared JoinPath.compared

/-- The switch returns `true` exactly on a sound node and a node whose compared
fields match it. -/
theorem equalNode_returns {t : NodeTag} {a b : Payload t} :
    equalNode h fuel equal t a b = .ok true ↔ Passes h fuel equal t a b := by
  cases t with
  | resdom => simp [equalResdom]
  | fjoin => exact equalFjoin_returns
  | expr => simp [equalExpr]
  | var => simp [equalVar]
  | oper => simp [equalOper]
  | const => exact equalConst_returns
  | param => exact equalParam_returns
  | aggref => simp [equalAggref]
  | subLink => simp [equalSublink]
  | func => simp [equalFunc]
  | arrayRef => simp [equalArrayRef]
  | iter => simp [equalIter]
  | relabelType => simp [equalRelabelType]
  | array => simp [equalArray]
  | relOptInfo => simp [equalRelOptInfo]
  | path => simp
  | indexPath =>
    simp [equalIndexPath]
    tauto
  | nestPath => simp [equalNestPath]
  | mergePath => simp [equalMergePath]
  | hashPath => simp [equalHashPath]
  | tidPath =>
    simp [equalTidPath]
    tauto
  | pathKeyItem => simp [equalPathKeyItem]
  | restrictInfo => simp [equalRestrictInfo]
  | joinInfo => simp [equalJoinInfo]
  | stream =>
    simp [equalStream, ite_returns, Double.ne_eq_false]
    tauto
  | indexOptInfo => simp [equalIndexOptInfo]
  | list => exact equalList_returns
  | integer => simp [equalValue, Value.type]
  | float => simp [equalValue, Value.type]
  | string => simp [equalValue, Value.type]
  | query => simp [equalQuery]
  | attr => simp [equalAttr]
  | targetEntry => simp [equalTargetEntry]
  | rangeTblEntry => simp [equalRangeTblEntry]
  | sortClause => simp [equalSortClause]
  | groupClause => simp [equalSortClause]
  | caseExpr => simp [equalCaseExpr]
  | caseWhen => simp [equalCaseWhen]
  | other code => simp

end Children

end PostgresV7.Nodes
