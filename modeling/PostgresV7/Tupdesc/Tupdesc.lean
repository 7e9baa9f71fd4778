import Mathlib.Data.List.Forall2
import Mathlib.Data.List.TakeWhile
import Mathlib.Tactic.Common

/-!
# Tuple descriptors (`tupdesc.h`, `tupdesc.c`, `pg_attribute.h`)

A C string is the list of its bytes before the NUL. The arrays of a descriptor are lists, as long
as the counters beside them say.
-/

namespace PostgresV7.Tupdesc

abbrev Oid := UInt32

def NAME_DATA_LEN : Nat := 32

/-- `char*`, not `NULL`. -/
@[ext]
structure CString where
  bytes : List UInt8
  nonzero : 0 ∉ bytes

/-- `NameData`; shorter names are padded with NULs. -/
structure NameData where
  data : List UInt8
  size : data.length = NAME_DATA_LEN
  terminated : 0 ∈ data

/-- `NAME_STR`, as a C string. -/
def NameData.str (name : NameData) : CString where
  bytes := name.data.takeWhile (· != 0)
  nonzero h := by simpa using List.mem_takeWhile_imp h

/-- `FormData_pg_attribute`; the bits of `attdispersion`. -/
structure FormDataPgAttribute where
  attrelid : Oid
  attname : NameData
  atttypid : Oid
  attdispersion : UInt32
  attlen : Int16
  attnum : Int16
  attnelems : Int32
  attcacheoff : Int32
  atttypmod : Int32
  attbyval : Bool
  attstorage : UInt8
  attisset : Bool
  attalign : UInt8
  attnotnull : Bool
  atthasdef : Bool

/-- `AttrDefault`, with strings in `σ`. -/
@[ext]
structure AttrDefault (σ : Type) where
  adnum : Int16
  adbin : σ
  deriving DecidableEq, Repr

@[ext]
structure ConstrCheck (σ : Type) where
  ccname : σ
  ccbin : σ
  deriving DecidableEq, Repr

structure TupleConstr (σ : Type) where
  defval : List (AttrDefault σ)
  check : List (ConstrCheck σ)
  numDefval : UInt16
  numCheck : UInt16
  hasNotNull : Bool
  defval_length : defval.length = numDefval.toNat
  check_length : check.length = numCheck.toNat

structure TupleDescData (σ : Type) where
  natts : Int
  attrs : List FormDataPgAttribute
  constr : Option (TupleConstr σ)
  attrs_length : (attrs.length : Int) = natts

/-- The difference of the first bytes that differ, of which the NUL behind a string may be one. -/
def compareBytes : List UInt8 → List UInt8 → Int
  | [], [] => 0
  | [], b :: _ => -b.toNat
  | a :: _, [] => a.toNat
  | a :: s, b :: t => if a = b then compareBytes s t else a.toNat - b.toNat

def strcmp (s t : CString) : Int := compareBytes s.bytes t.bytes

/-- The loop of `equal_tuple_descs` over the attributes. -/
def equalAttrs : List FormDataPgAttribute → List FormDataPgAttribute → Bool
  | attr1 :: attrs1, attr2 :: attrs2 =>
    -- We do not need to check every single field here.
    if strcmp attr1.attname.str attr2.attname.str ≠ 0 then false
    else if attr1.atttypid ≠ attr2.atttypid then false
    else if attr1.atttypmod ≠ attr2.atttypmod then false
    else if attr1.attstorage ≠ attr2.attstorage then false
    else if attr1.attnotnull ≠ attr2.attnotnull then false
    else equalAttrs attrs1 attrs2
  | _, _ => true

/-- The loop over the defaults. -/
def equalDefvals : List (AttrDefault CString) → List (AttrDefault CString) → Bool
  | defval1 :: defvals1, defval2 :: defvals2 =>
    if defval1.adnum ≠ defval2.adnum then false
    else if strcmp defval1.adbin defval2.adbin ≠ 0 then false
    else equalDefvals defvals1 defvals2
  | _, _ => true

/-- The loop over the checks. -/
def equalChecks : List (ConstrCheck CString) → List (ConstrCheck CString) → Bool
  | check1 :: checks1, check2 :: checks2 =>
    if strcmp check1.ccname check2.ccname ≠ 0 then false
    -- `check2` on both sides, as in the source
    else if strcmp check2.ccbin check2.ccbin ≠ 0 then false
    else equalChecks checks1 checks2
  | _, _ => true

/-- `equal_tuple_descs`. -/
def equalTupleDescs (tupdesc1 tupdesc2 : TupleDescData CString) : Bool :=
  if tupdesc1.natts ≠ tupdesc2.natts then false
  else if ¬ equalAttrs tupdesc1.attrs tupdesc2.attrs then false
  else
    match tupdesc1.constr with
    | some constr1 =>
      match tupdesc2.constr with
      | none => false
      | some constr2 =>
        if constr1.numDefval ≠ constr2.numDefval then false
        else if ¬ equalDefvals constr1.defval constr2.defval then false
        else if constr1.numCheck ≠ constr2.numCheck then false
        else if ¬ equalChecks constr1.check constr2.check then false
        else if constr1.hasNotNull ≠ constr2.hasNotNull then false
        else true
    | none => if tupdesc2.constr.isSome then false else true

/-! ## What is compared -/

theorem compareBytes_eq_zero {s t : List UInt8} (hs : 0 ∉ s) (ht : 0 ∉ t) : compareBytes s t = 0 ↔ s = t := by
  induction s generalizing t with
  | nil =>
    cases t with
    | nil => exact iff_of_true rfl rfl
    | cons b t =>
      have hb : b.toNat ≠ 0 := fun heq => ht (by rw [UInt8.toNat_inj.mp (heq.trans rfl : b.toNat = (0 : UInt8).toNat)]; simp)
      refine iff_of_false (fun h => ?_) (by simp)
      simp only [compareBytes] at h
      omega
  | cons a s ih =>
    have ha : a.toNat ≠ 0 := fun heq => hs (by rw [UInt8.toNat_inj.mp (heq.trans rfl : a.toNat = (0 : UInt8).toNat)]; simp)
    cases t with
    | nil =>
      refine iff_of_false (fun h => ?_) (by simp)
      simp only [compareBytes] at h
      omega
    | cons b t =>
      have ih := ih (fun h => hs (List.mem_cons_of_mem a h)) fun h => ht (List.mem_cons_of_mem b h)
      by_cases hab : a = b
      · subst hab
        rw [compareBytes, if_pos rfl, ih, List.cons_eq_cons]
        exact ⟨fun h => ⟨rfl, h⟩, fun h => h.2⟩
      · rw [compareBytes, if_neg hab, List.cons_eq_cons]
        have hne : a.toNat ≠ b.toNat := fun heq => hab (UInt8.toNat_inj.mp heq)
        exact iff_of_false (by omega) fun h => hab h.1

theorem strcmp_eq_zero (s t : CString) : strcmp s t = 0 ↔ s = t := by
  rw [strcmp, compareBytes_eq_zero s.nonzero t.nonzero, CString.ext_iff]

/-- The fields of an attribute that count. -/
def SameAttr (attr1 attr2 : FormDataPgAttribute) : Prop :=
  attr1.attname.str = attr2.attname.str ∧ attr1.atttypid = attr2.atttypid ∧ attr1.atttypmod = attr2.atttypmod ∧
    attr1.attstorage = attr2.attstorage ∧ attr1.attnotnull = attr2.attnotnull

theorem equalAttrs_iff {attrs1 attrs2 : List FormDataPgAttribute} (hlen : attrs1.length = attrs2.length) :
    equalAttrs attrs1 attrs2 = true ↔ List.Forall₂ SameAttr attrs1 attrs2 := by
  induction attrs1 generalizing attrs2 with
  | nil =>
    obtain rfl := List.length_eq_zero_iff.mp hlen.symm
    exact iff_of_true rfl .nil
  | cons attr1 attrs1 ih =>
    cases attrs2 with
    | nil => cases hlen
    | cons attr2 attrs2 =>
      rw [List.forall₂_cons, ← ih (Nat.succ.inj hlen), equalAttrs, SameAttr, ← strcmp_eq_zero]
      split_ifs <;> simp_all

theorem equalDefvals_iff {defvals1 defvals2 : List (AttrDefault CString)} (hlen : defvals1.length = defvals2.length) :
    equalDefvals defvals1 defvals2 = true ↔ defvals1 = defvals2 := by
  induction defvals1 generalizing defvals2 with
  | nil =>
    obtain rfl := List.length_eq_zero_iff.mp hlen.symm
    exact iff_of_true rfl rfl
  | cons defval1 defvals1 ih =>
    cases defvals2 with
    | nil => cases hlen
    | cons defval2 defvals2 =>
      rw [List.cons_eq_cons, ← ih (Nat.succ.inj hlen), equalDefvals, AttrDefault.ext_iff, ← strcmp_eq_zero]
      split_ifs <;> simp_all

/-- The names are compared, the expressions are not. -/
theorem equalChecks_iff {checks1 checks2 : List (ConstrCheck CString)} (hlen : checks1.length = checks2.length) :
    equalChecks checks1 checks2 = true ↔ checks1.map ConstrCheck.ccname = checks2.map ConstrCheck.ccname := by
  induction checks1 generalizing checks2 with
  | nil =>
    obtain rfl := List.length_eq_zero_iff.mp hlen.symm
    exact iff_of_true rfl rfl
  | cons check1 checks1 ih =>
    cases checks2 with
    | nil => cases hlen
    | cons check2 checks2 =>
      have hself : strcmp check2.ccbin check2.ccbin = 0 := (strcmp_eq_zero _ _).mpr rfl
      rw [List.map_cons, List.map_cons, List.cons_eq_cons, ← ih (Nat.succ.inj hlen), equalChecks, ← strcmp_eq_zero,
        if_neg (not_not.mpr hself)]
      split_ifs <;> simp_all

/-- What the descriptors agree on, with `view` of every check. -/
def AgreeOn {α : Type} (view : ConstrCheck CString → α) (tupdesc1 tupdesc2 : TupleDescData CString) : Prop :=
  tupdesc1.natts = tupdesc2.natts ∧ List.Forall₂ SameAttr tupdesc1.attrs tupdesc2.attrs ∧
    match tupdesc1.constr, tupdesc2.constr with
    | some constr1, some constr2 =>
      constr1.defval = constr2.defval ∧ constr1.check.map view = constr2.check.map view ∧
        constr1.hasNotNull = constr2.hasNotNull
    | none, none => True
    | _, _ => False

/-- The descriptors agree in all that counts. -/
def Agree : TupleDescData CString → TupleDescData CString → Prop := AgreeOn fun check => check

def AgreeExceptCcbin : TupleDescData CString → TupleDescData CString → Prop := AgreeOn ConstrCheck.ccname

/-- Both have checks, and not the same expressions in them. -/
def CcbinsDiffer (tupdesc1 tupdesc2 : TupleDescData CString) : Prop :=
  ∃ constr1 constr2, tupdesc1.constr = some constr1 ∧ tupdesc2.constr = some constr2 ∧
    constr1.check.map ConstrCheck.ccbin ≠ constr2.check.map ConstrCheck.ccbin

variable {tupdesc1 tupdesc2 : TupleDescData CString}

/-- The counters differ where the lengths do. -/
theorem num_eq_iff {α : Type} {l1 l2 : List α} {n1 n2 : UInt16} (h1 : l1.length = n1.toNat) (h2 : l2.length = n2.toNat) :
    n1 = n2 ↔ l1.length = l2.length := by
  rw [h1, h2, UInt16.toNat_inj]

theorem equal_iff_agreeExceptCcbin : equalTupleDescs tupdesc1 tupdesc2 = true ↔ AgreeExceptCcbin tupdesc1 tupdesc2 := by
  unfold equalTupleDescs AgreeExceptCcbin AgreeOn
  by_cases hnatts : tupdesc1.natts = tupdesc2.natts
  · have hlen : tupdesc1.attrs.length = tupdesc2.attrs.length := by
      have h1 := tupdesc1.attrs_length
      have h2 := tupdesc2.attrs_length
      omega
    rw [if_neg (not_not.mpr hnatts), ← equalAttrs_iff hlen]
    cases hattrs : equalAttrs tupdesc1.attrs tupdesc2.attrs with
    | false => simp
    | true =>
      rw [if_neg (by simp)]
      cases hconstr1 : tupdesc1.constr with
      | none => cases tupdesc2.constr <;> simp [hnatts]
      | some constr1 =>
        cases hconstr2 : tupdesc2.constr with
        | none => simp
        | some constr2 =>
          dsimp only
          have hnumDefval := num_eq_iff constr1.defval_length constr2.defval_length
          have hnumCheck := num_eq_iff constr1.check_length constr2.check_length
          by_cases hdefvals : constr1.defval.length = constr2.defval.length
          · by_cases hchecks : constr1.check.length = constr2.check.length
            · rw [if_neg (not_not.mpr (hnumDefval.mpr hdefvals)), if_neg (not_not.mpr (hnumCheck.mpr hchecks)),
                ← equalDefvals_iff hdefvals, ← equalChecks_iff hchecks]
              cases equalDefvals constr1.defval constr2.defval <;>
                cases equalChecks constr1.check constr2.check <;> simp [hnatts]
            · have hnames : constr1.check.map ConstrCheck.ccname ≠ constr2.check.map ConstrCheck.ccname := by
                intro heq
                have hlength := congrArg List.length heq
                rw [List.length_map, List.length_map] at hlength
                exact hchecks hlength
              rw [if_pos fun heq => hchecks (hnumCheck.mp heq)]
              simp [hnames]
          · have hne : constr1.defval ≠ constr2.defval := fun heq => hdefvals (congrArg List.length heq)
            rw [if_pos fun heq => hdefvals (hnumDefval.mp heq)]
            simp [hne]
  · simp [hnatts]

theorem sameAttr_symm {attr1 attr2 : FormDataPgAttribute} (h : SameAttr attr1 attr2) : SameAttr attr2 attr1 :=
  ⟨h.1.symm, h.2.1.symm, h.2.2.1.symm, h.2.2.2.1.symm, h.2.2.2.2.symm⟩

theorem AgreeOn.symm {α : Type} {view : ConstrCheck CString → α} (h : AgreeOn view tupdesc1 tupdesc2) :
    AgreeOn view tupdesc2 tupdesc1 := by
  obtain ⟨hnatts, hattrs, hconstr⟩ := h
  refine ⟨hnatts.symm, (hattrs.imp fun _ _ => sameAttr_symm).flip, ?_⟩
  cases h1 : tupdesc1.constr <;> cases h2 : tupdesc2.constr <;> rw [h1, h2] at hconstr
  · trivial
  · exact hconstr
  · exact hconstr
  · exact ⟨hconstr.1.symm, hconstr.2.1.symm, hconstr.2.2.symm⟩

theorem equal_symm (tupdesc1 tupdesc2 : TupleDescData CString) :
    equalTupleDescs tupdesc1 tupdesc2 = equalTupleDescs tupdesc2 tupdesc1 := by
  rw [Bool.eq_iff_iff, equal_iff_agreeExceptCcbin, equal_iff_agreeExceptCcbin]
  exact ⟨AgreeOn.symm, AgreeOn.symm⟩

/-- Checks with the same names and expressions are the same. -/
theorem checks_eq_iff (checks1 checks2 : List (ConstrCheck CString)) :
    checks1 = checks2 ↔ checks1.map ConstrCheck.ccname = checks2.map ConstrCheck.ccname ∧
      checks1.map ConstrCheck.ccbin = checks2.map ConstrCheck.ccbin := by
  induction checks1 generalizing checks2 with
  | nil => cases checks2 <;> simp
  | cons check1 checks1 ih =>
    cases checks2 with
    | nil => simp
    | cons check2 checks2 =>
      simp only [List.map_cons, List.cons_eq_cons, ih, ConstrCheck.ext_iff]
      exact ⟨fun h => ⟨⟨h.1.1, h.2.1⟩, h.1.2, h.2.2⟩, fun h => ⟨⟨h.1.1, h.2.1⟩, h.1.2, h.2.2⟩⟩

theorem agree_iff : Agree tupdesc1 tupdesc2 ↔
    AgreeExceptCcbin tupdesc1 tupdesc2 ∧ ¬ CcbinsDiffer tupdesc1 tupdesc2 := by
  unfold Agree AgreeExceptCcbin AgreeOn CcbinsDiffer
  cases h1 : tupdesc1.constr <;> cases h2 : tupdesc2.constr
  · simp
  · simp
  · simp
  · rename_i constr1 constr2
    simp only [List.map_id', checks_eq_iff constr1.check, Option.some.injEq]
    constructor
    · rintro ⟨hnatts, hattrs, hdefval, ⟨hnames, hbins⟩, hnull⟩
      refine ⟨⟨hnatts, hattrs, hdefval, hnames, hnull⟩, ?_⟩
      rintro ⟨_, _, rfl, rfl, hdiffer⟩
      exact hdiffer hbins
    · rintro ⟨⟨hnatts, hattrs, hdefval, hnames, hnull⟩, hdiffer⟩
      have hbins := not_not.mp fun hne => hdiffer ⟨constr1, constr2, rfl, rfl, hne⟩
      exact ⟨hnatts, hattrs, hdefval, ⟨hnames, hbins⟩, hnull⟩

/-- `equal_tuple_descs` tells the descriptors apart that are to be told apart, unless only the
expressions of checks differ. -/
theorem equal_tuple_descs_iff (tupdesc1 tupdesc2 : TupleDescData CString) :
    ((equalTupleDescs tupdesc1 tupdesc2 = true ↔ Agree tupdesc1 tupdesc2) ∧
      equalTupleDescs tupdesc1 tupdesc2 = equalTupleDescs tupdesc2 tupdesc1) ↔
    ¬ (AgreeExceptCcbin tupdesc1 tupdesc2 ∧ CcbinsDiffer tupdesc1 tupdesc2) := by
  rw [and_iff_left (equal_symm tupdesc1 tupdesc2), equal_iff_agreeExceptCcbin, agree_iff]
  constructor
  · exact fun h hdiffer => (h.mp hdiffer.1).2 hdiffer.2
  · exact fun h => ⟨fun hagree => ⟨hagree, fun hdiffer => h ⟨hagree, hdiffer⟩⟩, fun hagree => hagree.1⟩

/-- An `int4` column `a`. -/
def columnA : FormDataPgAttribute where
  attrelid := 16384
  attname := ⟨97 :: List.replicate 31 0, by decide, by decide⟩
  atttypid := 23
  attdispersion := 0
  attlen := 4
  attnum := 1
  attnelems := 0
  attcacheoff := -1
  atttypmod := -1
  attbyval := true
  attstorage := 112
  attisset := false
  attalign := 105
  attnotnull := false
  atthasdef := false

/-- A relation with one column and one check `c`. -/
def oneCheck (ccbin : CString) : TupleDescData CString where
  natts := 1
  attrs := [columnA]
  constr := some {
    defval := [], check := [⟨⟨[99], by decide⟩, ccbin⟩], numDefval := 0, numCheck := 1, hasNotNull := false,
    defval_length := rfl, check_length := rfl }
  attrs_length := rfl

/-- Two relations whose checks have the expressions `a` and `b`. -/
theorem equal_tuple_descs_ccbin :
    equalTupleDescs (oneCheck ⟨[97], by decide⟩) (oneCheck ⟨[98], by decide⟩) = true ∧
      ¬ Agree (oneCheck ⟨[97], by decide⟩) (oneCheck ⟨[98], by decide⟩) := by
  refine ⟨by decide, fun h => ?_⟩
  obtain ⟨-, -, -, hchecks, -⟩ := h
  simp at hchecks

end PostgresV7.Tupdesc
