import PostgresV7.Page.Invariant
import PostgresV7.HeapTuple.Tupmacs
import PostgresV7.Tupdesc.Tupdesc

/-!
# Reading `pg_database` by hand (`database.c`, `htup.h`, `pg_database.h`)

`get_raw_database_info` reads page after page into one buffer and looks at the tuples through the line
pointers. What is found is the tuple and what is copied out of it.
-/

namespace PostgresV7.Database

open ByteMem Bufpage
open Heap (varattSize)
open Tupdesc (CString NAME_DATA_LEN)

/-- `pg_database` on disk. -/
structure File where
  size : Nat
  byte : Nat → UInt8

/-- The buffer behind the read of page `k`, in the memory `behind`. -/
def pageBuffer (file : File) (behind : Mem) (k : Nat) : Page :=
  fun a => if a < BLCKSZ then file.byte (k * BLCKSZ + a) else behind a

/-! ## `HeapTupleHeaderData` and `FormData_pg_database` -/

def tOid (p : Page) (tup : Nat) : Nat := load p tup 4

def tXmax (p : Page) (tup : Nat) : Nat := load p (tup + 16) 4

def tHoff (p : Page) (tup : Nat) : Nat := (p (tup + 30)).toNat

/-- `GET_STRUCT`, where `datname` is. -/
def getStruct (p : Page) (tup : Nat) : Nat := tup + tHoff p tup

/-- Where `datpath` is. -/
def datpath (p : Page) (tup : Nat) : Nat := getStruct p tup + 48

def VAR_HDR_SZ : Nat := 4

/-- `strcmp(s, name) == 0` for the string at an address. -/
def strcmpEq (p : Page) : List UInt8 → Nat → Bool
  | [], a => p a == 0
  | c :: s, a => p a == c && strcmpEq p s (a + 1)

/-- The string that `strncpy` copies from an address. -/
def strncpy (p : Page) (a : Nat) : Nat → List UInt8
  | 0 => []
  | n + 1 => if p a = 0 then [] else p a :: strncpy p (a + 1) n

/-- The tuple that is chosen, by its offset in the page, with `*db_id` and `path`. -/
structure Found where
  offset : Nat
  dbId : Nat
  path : List UInt8
  deriving DecidableEq

section

variable (NullTransactionId : Nat) (name : CString)

/-- One round of the inner loop. The length that is given to `strncpy` is a `size_t`. -/
def examine (p : Page) (i : Nat) : Option Found :=
  let itemid := getLinp p i
  if itemid.used = false then none
  else
    let tup := itemid.lpOff
    if tXmax p tup ≠ NullTransactionId then none
    else if strcmpEq p name.bytes (getStruct p tup) then
      let n := ((varattSize p (datpath p tup) : Int) - VAR_HDR_SZ) % 2 ^ 64
      some ⟨tup, tOid p tup, strncpy p (datpath p tup + VAR_HDR_SZ) n.toNat⟩
    else none

/-- The inner loop from `i` on, with `left` rounds left. -/
def scanTuples (p : Page) : Nat → Nat → Option Found
  | 0, _ => none
  | left + 1, i => (examine NullTransactionId name p i).or (scanTuples p left (i + 1))

/-- `for (i = 0; i <= max; i++)`. -/
def scanPage (p : Page) : Option Found :=
  scanTuples NullTransactionId name p (pageGetMaxOffsetNumber p + 1).toNat 0

variable (behind : Mem) (file : File)

/-- The outer loop from page `k` on, with `left` whole pages left. -/
def scanPages : Nat → Nat → Option (Nat × Found)
  | 0, _ => none
  | left + 1, k =>
    match scanPage NullTransactionId name (pageBuffer file behind k) with
    | some found => some (k, found)
    | none => scanPages left (k + 1)

/-- `get_raw_database_info`: the page and the tuple that is chosen. -/
def getRawDatabaseInfo : Option (Nat × Found) :=
  scanPages NullTransactionId name behind file (file.size / BLCKSZ) 0

/-! ## Line pointers and what is behind them -/

/-- What is found through the line pointers of the page. -/
def ownMatch (p : Page) : Option Found :=
  scanTuples NullTransactionId name p (pageGetMaxOffsetNumber p).toNat 0

/-- What is found where the line pointers of the page have ended. -/
def staleMatch (p : Page) : Option Found := examine NullTransactionId name p (pageGetMaxOffsetNumber p).toNat

/-- The first page where something is found behind the line pointers, before anything is found through
the line pointers of a page. -/
def staleMatches : Nat → Nat → Option (Nat × Found)
  | 0, _ => none
  | left + 1, k =>
    if (ownMatch NullTransactionId name (pageBuffer file behind k)).isSome then none
    else
      match staleMatch NullTransactionId name (pageBuffer file behind k) with
      | some found => some (k, found)
      | none => staleMatches left (k + 1)

end

/-- A tuple of `pg_database` in `len` bytes: its attributes are in the tuple. -/
structure DatabaseTuple (p : Page) (tup len : Nat) : Prop where
  header : 31 ≤ len
  fixed : tHoff p tup + 52 ≤ len
  named : ∃ j < NAME_DATA_LEN, p (getStruct p tup + j) = 0
  path_le : VAR_HDR_SZ ≤ varattSize p (datpath p tup)
  path_inside : tHoff p tup + 48 + varattSize p (datpath p tup) ≤ len

/-- A valid page, with tuples of `pg_database`. -/
def ValidPage (p : Page) : Prop :=
  ∃ n, Valid p n ∧ ∀ i < n, (getLinp p i).used = true → DatabaseTuple p (getLinp p i).lpOff (getLinp p i).lpLen

/-- The pages have the same line pointers, and the tuples they point to are the same. -/
structure SamePage (p p' : Page) : Prop where
  lower : pdLower p' = pdLower p
  linps : ∀ i : Nat, i < pageGetMaxOffsetNumber p → getLinp p' i = getLinp p i
  items : ∀ i : Nat, i < pageGetMaxOffsetNumber p → (getLinp p i).used = true →
    itemBytes p' (getLinp p i) = itemBytes p (getLinp p i)

/-- The files have the same pages but for free space and unused tuples. -/
structure SameFile (behind : Mem) (file file' : File) : Prop where
  size : file'.size / BLCKSZ = file.size / BLCKSZ
  pages : ∀ k < file.size / BLCKSZ, SamePage (pageBuffer file behind k) (pageBuffer file' behind k)

variable {NullTransactionId tup len a n i k left : Nat} {name : CString} {p p' : Page} {behind : Mem} {file file' : File}
  {s : List UInt8}

/-! ## A tuple -/

/-- A string without NUL is compared no further than to the NUL. -/
theorem strcmpEq_congr {m j : Nat} (hs : 0 ∉ s) (hsame : ∀ i < m, p' (a + i) = p (a + i)) (hj : j < m)
    (hnul : p (a + j) = 0) : strcmpEq p' s a = strcmpEq p s a := by
  have hfirst : p' a = p a := hsame 0 (Nat.lt_of_le_of_lt (Nat.zero_le j) hj)
  induction s generalizing a m j with
  | nil => rw [strcmpEq, strcmpEq, hfirst]
  | cons c s ih =>
    rw [strcmpEq, strcmpEq, hfirst]
    by_cases hc : p a = c
    · obtain ⟨hne, hs⟩ := not_or.mp (mt List.mem_cons.mpr hs)
      have hpos : j ≠ 0 := by
        rintro rfl
        exact hne (hnul.symm.trans hc)
      have hnext : ∀ i < m - 1, p' (a + 1 + i) = p (a + 1 + i) := fun i hi => by
        rw [Nat.add_assoc]
        exact hsame (1 + i) (by omega)
      have hnul' : p (a + 1 + (j - 1)) = 0 := by
        rw [Nat.add_assoc, Nat.add_sub_cancel' (Nat.one_le_iff_ne_zero.mpr hpos)]
        exact hnul
      rw [ih hs hnext (by omega) hnul' (hnext 0 (by omega))]
    · rw [beq_eq_false_iff_ne.mpr hc, Bool.false_and, Bool.false_and]

theorem strncpy_congr (hsame : ∀ i < n, p' (a + i) = p (a + i)) : strncpy p' a n = strncpy p a n := by
  induction n generalizing a with
  | zero => rfl
  | succ n ih =>
    have hfirst : p' a = p a := hsame 0 (Nat.succ_pos n)
    have hnext : ∀ i < n, p' (a + 1 + i) = p (a + 1 + i) := fun i hi => by
      rw [Nat.add_assoc]
      exact hsame (1 + i) (by omega)
    rw [strncpy, strncpy, hfirst, ih hnext]

theorem slice_inj (h : slice p' a n = slice p a n) : ∀ i < n, p' (a + i) = p (a + i) := fun i hi =>
  List.map_inj_left.mp h i (List.mem_range.mpr hi)

/-- What is looked at in a tuple is in the tuple. -/
theorem examine_congr (hlinp : getLinp p' i = getLinp p i)
    (htuple : (getLinp p i).used = true → DatabaseTuple p (getLinp p i).lpOff (getLinp p i).lpLen)
    (hitem : (getLinp p i).used = true → itemBytes p' (getLinp p i) = itemBytes p (getLinp p i)) :
    examine NullTransactionId name p' i = examine NullTransactionId name p i := by
  unfold examine
  rw [hlinp]
  by_cases hused : (getLinp p i).used = false
  · rw [if_pos hused, if_pos hused]
  rw [if_neg hused, if_neg hused]
  have hused : (getLinp p i).used = true := by simpa using hused
  obtain ⟨header, fixed, ⟨j, hj, hnul⟩, path_le, path_inside⟩ := htuple hused
  have hbytes := slice_inj (hitem hused)
  generalize (getLinp p i).lpOff = tup at *
  generalize (getLinp p i).lpLen = len at *
  have hload : ∀ b m, tup ≤ b → b + m ≤ tup + len → load p' b m = load p b m := fun b m hle hm =>
    load_congr fun i hi => by
      have hbyte := hbytes (b - tup + i) (by omega)
      rwa [show tup + (b - tup + i) = b + i by omega] at hbyte
  have hhoff : tHoff p' tup = tHoff p tup := congrArg UInt8.toNat (hbytes 30 (by omega))
  have hstruct : getStruct p' tup = getStruct p tup := congrArg (tup + ·) hhoff
  have hdatpath : datpath p' tup = datpath p tup := congrArg (· + 48) hstruct
  have hat : getStruct p tup = tup + tHoff p tup := rfl
  have hpath : datpath p tup = tup + (tHoff p tup + 48) := by rw [datpath, hat, Nat.add_assoc]
  have hxmax : tXmax p' tup = tXmax p tup := hload _ _ (by omega) (by omega)
  have hoid : tOid p' tup = tOid p tup := hload _ _ (by omega) (by omega)
  have hname : strcmpEq p' name.bytes (getStruct p tup) = strcmpEq p name.bytes (getStruct p tup) := by
    refine strcmpEq_congr name.nonzero (fun i hi => ?_) hj hnul
    rw [hat, Nat.add_assoc]
    exact hbytes _ (by have hlt : i < 32 := hi; omega)
  have hsize : varattSize p' (datpath p tup) = varattSize p (datpath p tup) := by
    unfold varattSize Heap.varattSizep
    rw [hload _ _ (by omega) (by omega)]
  have hcopy : strncpy p' (datpath p tup + VAR_HDR_SZ) (((varattSize p (datpath p tup) : Int) - VAR_HDR_SZ) % 2 ^ 64).toNat =
      strncpy p (datpath p tup + VAR_HDR_SZ) (((varattSize p (datpath p tup) : Int) - VAR_HDR_SZ) % 2 ^ 64).toNat := by
    refine strncpy_congr fun i hi => ?_
    have hn : (((varattSize p (datpath p tup) : Int) - VAR_HDR_SZ) % 2 ^ 64).toNat ≤ varattSize p (datpath p tup) - VAR_HDR_SZ := by
      rw [← Nat.cast_sub path_le]
      exact Nat.mod_le _ _
    have hbyte := hbytes (tHoff p tup + 48 + (VAR_HDR_SZ + i)) (by omega)
    rwa [show tup + (tHoff p tup + 48 + (VAR_HDR_SZ + i)) = datpath p tup + VAR_HDR_SZ + i by omega] at hbyte
  dsimp only
  rw [hxmax, hoid, hstruct, hdatpath, hname, hsize, hcopy]

/-! ## A page -/

theorem scanTuples_congr (h : ∀ j, i ≤ j → j < i + left →
    examine NullTransactionId name p' j = examine NullTransactionId name p j) :
    scanTuples NullTransactionId name p' left i = scanTuples NullTransactionId name p left i := by
  induction left generalizing i with
  | zero => rfl
  | succ left ih =>
    rw [scanTuples, scanTuples, h i (Nat.le_refl i) (by omega), ih fun j hj hlt => h j (by omega) (by omega)]

/-- The slot behind the line pointers is looked at last. -/
theorem scanTuples_succ (NullTransactionId : Nat) (name : CString) (p : Page) (left i : Nat) :
    scanTuples NullTransactionId name p (left + 1) i =
      (scanTuples NullTransactionId name p left i).or (examine NullTransactionId name p (i + left)) := by
  induction left generalizing i with
  | zero =>
    rw [scanTuples, scanTuples, scanTuples, Option.or_none, Option.none_or]
    rfl
  | succ left ih =>
    rw [scanTuples, ih, scanTuples, Option.or_assoc, Nat.add_assoc, Nat.add_comm 1]

theorem scanPage_eq (NullTransactionId : Nat) (name : CString) (hlower : pdLower p = 8 + 4 * n) :
    scanPage NullTransactionId name p = (ownMatch NullTransactionId name p).or (staleMatch NullTransactionId name p) := by
  have hsucc := scanTuples_succ NullTransactionId name p n 0
  unfold scanPage ownMatch staleMatch
  rw [pageGetMaxOffsetNumber_eq hlower]
  rw [Nat.zero_add] at hsucc
  exact hsucc

/-- Through the line pointers the same is found. -/
theorem ownMatch_congr (hvalid : Valid p n)
    (htuples : ∀ i < n, (getLinp p i).used = true → DatabaseTuple p (getLinp p i).lpOff (getLinp p i).lpLen)
    (hsame : SamePage p p') : ownMatch NullTransactionId name p' = ownMatch NullTransactionId name p := by
  have hmax := pageGetMaxOffsetNumber_eq hvalid.lower
  have hmax' : pageGetMaxOffsetNumber p' = n := pageGetMaxOffsetNumber_eq (hsame.lower.trans hvalid.lower)
  unfold ownMatch
  rw [hmax, hmax', Int.toNat_natCast]
  refine scanTuples_congr fun i _ hi => ?_
  rw [Nat.zero_add] at hi
  have hbelow : (i : Int) < pageGetMaxOffsetNumber p := by
    rw [hmax]
    exact Int.ofNat_lt.mpr hi
  exact examine_congr (hsame.linps i hbelow) (htuples i hi) (hsame.items i hbelow)

/-! ## The file -/

/-- What is chosen is on a page that was still to be read. -/
theorem le_of_scanPages {found : Found} {j : Nat} (h : scanPages NullTransactionId name behind file left k = some (j, found)) :
    k ≤ j := by
  induction left generalizing k with
  | zero => cases h
  | succ left ih =>
    rw [scanPages] at h
    split at h
    · exact Nat.le_of_eq (Prod.mk.inj (Option.some.inj h)).1
    · exact Nat.le_of_succ_le (ih h)

theorem le_of_staleMatches {found : Found} {j : Nat}
    (h : staleMatches NullTransactionId name behind file left k = some (j, found)) : k ≤ j := by
  induction left generalizing k with
  | zero => cases h
  | succ left ih =>
    rw [staleMatches] at h
    split at h
    · cases h
    · split at h
      · exact Nat.le_of_eq (Prod.mk.inj (Option.some.inj h)).1
      · exact Nat.le_of_succ_le (ih h)

/-- From page `k` on the same tuple is chosen if and only if the same is found behind the line pointers. -/
theorem scanPages_iff
    (h : ∀ j, k ≤ j → j < k + left →
      ValidPage (pageBuffer file behind j) ∧ SamePage (pageBuffer file behind j) (pageBuffer file' behind j)) :
    scanPages NullTransactionId name behind file left k = scanPages NullTransactionId name behind file' left k ↔
      staleMatches NullTransactionId name behind file left k = staleMatches NullTransactionId name behind file' left k := by
  induction left generalizing k with
  | zero => exact Iff.rfl
  | succ left ih =>
    obtain ⟨⟨n, hvalid, htuples⟩, hsame⟩ := h k (Nat.le_refl k) (by omega)
    have hnext := ih (k := k + 1) fun j hj hlt => h j (by omega) (by omega)
    have hpage := scanPage_eq NullTransactionId name hvalid.lower
    have hpage' := scanPage_eq NullTransactionId name (hsame.lower.trans hvalid.lower)
    rw [ownMatch_congr hvalid htuples hsame] at hpage'
    rw [scanPages, scanPages, staleMatches, staleMatches, hpage, hpage', ownMatch_congr hvalid htuples hsame]
    -- a page that stops one of the runs only is not reached again in the other
    have hnever {found : Found} {file : File} : scanPages NullTransactionId name behind file left (k + 1) ≠ some (k, found) :=
      fun heq => Nat.not_succ_le_self k (le_of_scanPages heq)
    have hnever' {found : Found} {file : File} :
        staleMatches NullTransactionId name behind file left (k + 1) ≠ some (k, found) :=
      fun heq => Nat.not_succ_le_self k (le_of_staleMatches heq)
    cases ownMatch NullTransactionId name (pageBuffer file behind k) with
    | some found =>
      rw [Option.some_or, Option.some_or, Option.isSome_some, if_pos rfl, if_pos rfl]
      exact iff_of_true rfl rfl
    | none =>
      rw [Option.none_or, Option.none_or, Option.isSome_none, if_neg Bool.false_ne_true, if_neg Bool.false_ne_true]
      cases staleMatch NullTransactionId name (pageBuffer file behind k) with
      | some found =>
        cases staleMatch NullTransactionId name (pageBuffer file' behind k) with
        | some found' => exact Iff.rfl
        | none => exact iff_of_false (Ne.symm hnever) (Ne.symm hnever')
      | none =>
        cases staleMatch NullTransactionId name (pageBuffer file' behind k) with
        | some found' => exact iff_of_false hnever hnever'
        | none => exact hnext

/-- Two files with the same line pointers and the same tuples behind them give the same outcome if and only
if the same is found in both where the line pointers have ended. -/
theorem get_raw_database_info_iff (hvalid : ∀ k < file.size / BLCKSZ, ValidPage (pageBuffer file behind k))
    (hsame : SameFile behind file file') (NullTransactionId : Nat) (name : CString) :
    getRawDatabaseInfo NullTransactionId name behind file = getRawDatabaseInfo NullTransactionId name behind file' ↔
      staleMatches NullTransactionId name behind file (file.size / BLCKSZ) 0 =
        staleMatches NullTransactionId name behind file' (file.size / BLCKSZ) 0 := by
  unfold getRawDatabaseInfo
  rw [hsame.size]
  refine scanPages_iff fun j _ hj => ?_
  rw [Nat.zero_add] at hj
  exact ⟨hvalid j hj, hsame.pages j hj⟩

/-! ## Two files -/

/-- The header of a page. -/
def headerOf (lower upper : Nat) : Page :=
  store (store (store (store (fun _ => 0) 0 2 lower) 2 2 upper) 4 2 BLCKSZ) 6 2 BLCKSZ

/-- A tuple for the database `a`, with an empty path. -/
def putTuple (p : Page) (tup : Nat) : Page := store (store (store p (tup + 30) 1 32) (tup + 32) 1 97) (tup + 80) 4 4

def nameA : CString := ⟨[97], by decide⟩

def oneTuple : Page := putTuple (setLinp (headerOf 12 8096) 0 ⟨8096, LP_USED, 96⟩) 8096

/-- The same tuple, with something behind the line pointer. -/
def oneTuple' : Page := setLinp oneTuple 1 ⟨200, LP_USED, 96⟩

theorem validPage_oneTuple : ValidPage (pageBuffer ⟨BLCKSZ, oneTuple⟩ (fun _ => 0) 0) := by
  have hone : ∀ {i : Nat}, i < 1 → i = 0 := fun h => Nat.lt_one_iff.mp h
  refine ⟨1, ⟨by decide, by decide, by decide, by decide, by decide, by decide, fun i hi _ => ?_, fun i j hi hj hne => ?_⟩,
    fun i hi _ => ?_⟩
  · rw [hone hi]
    decide
  · exact absurd ((hone hi).trans (hone hj).symm) hne
  · rw [hone hi]
    exact ⟨by decide, by decide, ⟨1, by decide, by decide⟩, by decide, by decide⟩

theorem sameFile_oneTuple : SameFile (fun _ => 0) ⟨BLCKSZ, oneTuple⟩ ⟨BLCKSZ, oneTuple'⟩ := by
  have hmax : pageGetMaxOffsetNumber (pageBuffer ⟨BLCKSZ, oneTuple⟩ (fun _ => 0) 0) = 1 := by decide
  refine ⟨rfl, fun k hk => ?_⟩
  obtain rfl : k = 0 := Nat.lt_one_iff.mp hk
  refine ⟨by decide, fun i hi => ?_, fun i hi _ => ?_⟩ <;>
    obtain rfl : i = 0 := by rw [hmax] at hi; omega
  · decide
  · decide

theorem get_raw_database_info_oneTuple :
    getRawDatabaseInfo 0 nameA (fun _ => 0) ⟨BLCKSZ, oneTuple⟩ = getRawDatabaseInfo 0 nameA (fun _ => 0) ⟨BLCKSZ, oneTuple'⟩ :=
  (get_raw_database_info_iff
    (fun k hk => by obtain rfl : k = 0 := Nat.lt_one_iff.mp hk; exact validPage_oneTuple) sameFile_oneTuple 0 nameA).mpr
    (by decide)

/-- An empty page with a line pointer and a tuple left behind in its free space. -/
def leftOver : Page := putTuple (setLinp (headerOf 8 8192) 0 ⟨8096, LP_USED, 96⟩) 8096

/-- What an empty page has left in its free space is taken for a database. -/
theorem get_raw_database_info_leftOver : ¬ ∀ (behind : Mem) (file file' : File),
    (∀ k < file.size / BLCKSZ, ValidPage (pageBuffer file behind k)) →
    (∀ k < file'.size / BLCKSZ, ValidPage (pageBuffer file' behind k)) → SameFile behind file file' →
      ∀ NullTransactionId name,
        getRawDatabaseInfo NullTransactionId name behind file = getRawDatabaseInfo NullTransactionId name behind file' := by
  intro h
  have hvalid : ∀ {p : Page}, Valid (pageBuffer ⟨BLCKSZ, p⟩ (fun _ => 0) 0) 0 →
      ∀ k < BLCKSZ / BLCKSZ, ValidPage (pageBuffer ⟨BLCKSZ, p⟩ (fun _ => 0) k) := by
    intro p hp k hk
    obtain rfl : k = 0 := Nat.lt_one_iff.mp hk
    exact ⟨0, hp, fun i hi => absurd hi (Nat.not_lt_zero i)⟩
  have hempty : Valid (pageBuffer ⟨BLCKSZ, headerOf 8 8192⟩ (fun _ => 0) 0) 0 :=
    ⟨by decide, by decide, by decide, by decide, by decide, by decide, fun i hi => absurd hi (Nat.not_lt_zero i),
      fun i _ hi => absurd hi (Nat.not_lt_zero i)⟩
  have hleft : Valid (pageBuffer ⟨BLCKSZ, leftOver⟩ (fun _ => 0) 0) 0 :=
    ⟨by decide, by decide, by decide, by decide, by decide, by decide, fun i hi => absurd hi (Nat.not_lt_zero i),
      fun i _ hi => absurd hi (Nat.not_lt_zero i)⟩
  have hsame : SameFile (fun _ => 0) ⟨BLCKSZ, headerOf 8 8192⟩ ⟨BLCKSZ, leftOver⟩ := by
    refine ⟨rfl, fun k hk => ?_⟩
    obtain rfl : k = 0 := Nat.lt_one_iff.mp hk
    have hmax := pageGetMaxOffsetNumber_eq hempty.lower
    refine ⟨by decide, fun i hi => ?_, fun i hi => ?_⟩ <;>
      · rw [hmax] at hi
        exact absurd hi (by omega)
  have heq := h _ _ _ (hvalid hempty) (hvalid hleft) hsame 0 nameA
  exact absurd heq (by decide)

end PostgresV7.Database
