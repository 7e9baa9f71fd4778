import PostgresV7.Lib.Pieces

/-!
# Database paths (`database.c`)

`expand_database_path` with strings as lists of characters, the environment as a function. The first guard
is read as `strlen(db_path) >= MAX_PG_PATH`.
-/

namespace PostgresV7.Database

open Pieces

def MAX_PG_PATH : Nat := 1024

def SEP_CHAR : Char := '/'

/-- `illegal_dbpath_chars`. -/
def illegalDbpathChars : List Char :=
  "\x01\x02\x03\x04\x05\x06\x07\x08\x09\x0a\x0b\x0c\x0d\x0e\x0f\x10\x11\x12\x13\x14\x15\x16\x17\x18\x19\x1a\x1b\x1c\x1d\x1e\x1f'`".toList

/-- The string that `snprintf` leaves in a buffer of `size` characters. -/
def snprintf (size : Nat) (text : List Char) : List Char := text.take (size - 1)

/-- `strchr`, as an index. -/
def strchr (s : List Char) (c : Char) : Option Nat := s.findIdx? (· == c)

/-- `strrchr`, as an index. -/
def strrchr (s : List Char) (c : Char) : Option Nat := (s.reverse.findIdx? (· == c)).map fun i => s.length - 1 - i

/-- `%cbase%c`. -/
def base : List Char := [SEP_CHAR] ++ "base".toList ++ [SEP_CHAR]

/-- The check of `buf`, from a position on. -/
def checked : List Char → Bool
  | [] => true
  | c :: cp => !illegalDbpathChars.contains c && !"/../".toList.isPrefixOf (c :: cp) && checked cp

section

variable (allowAbsolute : Bool) (DataDir : List Char) (getenv : List Char → Option (List Char)) (dbPath : List Char)

/-- What is put together in `buf`; `allowAbsolute` is `ALLOW_ABSOLUTE_DBPATHS`. -/
def assemble : Option (List Char) :=
  if dbPath.head? = some SEP_CHAR then
    if allowAbsolute then do
      let len ← strrchr dbPath SEP_CHAR
      return dbPath.take len ++ snprintf (MAX_PG_PATH - len) (base ++ dbPath.drop (len + 1))
    else none
  else
    match strchr dbPath SEP_CHAR with
    | some len => do
      let envvar ← getenv (dbPath.take len)
      return snprintf MAX_PG_PATH (envvar ++ base ++ dbPath.drop (len + 1))
    | none => some (snprintf MAX_PG_PATH (DataDir ++ base ++ dbPath))

/-- `expand_database_path`. -/
def expandDatabasePath : Option (List Char) :=
  if dbPath.length ≥ MAX_PG_PATH then none
  else do
    let buf ← assemble allowAbsolute DataDir getenv dbPath
    if checked buf then some buf else none

/-! ## The full path -/

/-- What a full path is made of, and what of `db_path` is in it. -/
structure Parts where
  pre : List Char
  path : List Char
  given : List Char

/-- The concatenation of the prefix, `base` and the path. -/
def Parts.full (parts : Parts) : List Char := parts.pre ++ base ++ parts.path

def isSep (c : Char) : Bool := c == SEP_CHAR

def components (s : List Char) : List (List Char) := s.splitOnP isSep

def lastComponent (s : List Char) : List Char := s.rtakeWhile fun c => !isSep c

/-- An absolute path is cut at its last delimiter, one that begins with a variable at its first. -/
def parts : Option Parts :=
  if dbPath.head? = some SEP_CHAR then
    if allowAbsolute then some ⟨(dbPath.rdropWhile fun c => !isSep c).dropLast, lastComponent dbPath, dbPath⟩ else none
  else if dbPath.any isSep then
    let path := (dbPath.dropWhile fun c => !isSep c).tail
    (getenv (dbPath.takeWhile fun c => !isSep c)).map fun value => ⟨value, path, path⟩
  else some ⟨DataDir, dbPath, dbPath⟩

/-- What the check of `buf` refuses. -/
def Refused (buf : List Char) : Prop := (∃ c ∈ buf, c ∈ illegalDbpathChars) ∨ "/../".toList <:+: buf

/-- A path that is not refused fits in the buffer, and its last component is not the parent directory. -/
def Fits : Prop :=
  dbPath.length < MAX_PG_PATH →
    ∀ p ∈ parts allowAbsolute DataDir getenv dbPath, ¬ Refused (p.full.take (MAX_PG_PATH - 1)) →
      p.full.length < MAX_PG_PATH ∧ lastComponent dbPath ≠ "..".toList

end

variable {allowAbsolute : Bool} {DataDir : List Char} {getenv : List Char → Option (List Char)}
  {dbPath s t pre path name buf : List Char} {p : Parts}

theorem checked_iff (buf : List Char) : checked buf = true ↔ ¬ Refused buf := by
  unfold Refused
  induction buf with
  | nil => exact iff_of_true rfl (by simp)
  | cons c cp ih =>
    rw [checked, Bool.and_eq_true, Bool.and_eq_true, ih, Bool.not_eq_true', Bool.not_eq_true', List.infix_cons_iff,
      ← List.isPrefixOf_iff_prefix]
    simp only [List.contains_eq_mem, decide_eq_false_iff_not, List.mem_cons, exists_eq_or_imp, not_or,
      Bool.not_eq_true]
    tauto

/-! ## The three ways -/

theorem isSep_iff (c : Char) : isSep c = true ↔ c = SEP_CHAR := beq_iff_eq

/-- A database path is absolute, or begins with a variable, or has no delimiter. -/
inductive Shape (dbPath : List Char) : Prop
  | absolute (pre path : List Char) (heq : dbPath = pre ++ SEP_CHAR :: path) (hhead : dbPath.head? = some SEP_CHAR)
      (hpath : ∀ c ∈ path, isSep c = false)
  | variable (name path : List Char) (heq : dbPath = name ++ SEP_CHAR :: path) (hhead : dbPath.head? ≠ some SEP_CHAR)
      (hname : ∀ c ∈ name, isSep c = false)
  | plain (hhead : dbPath.head? ≠ some SEP_CHAR) (hnone : ∀ c ∈ dbPath, isSep c = false)

theorem shape (dbPath : List Char) : Shape dbPath := by
  by_cases hhead : dbPath.head? = some SEP_CHAR
  · rcases cases_cut_last isSep dbPath with hnone | ⟨pre, c, path, heq, hpath, hc⟩
    · have hsep := hnone SEP_CHAR (List.mem_of_head? hhead)
      exact absurd hsep (by decide)
    · rw [(isSep_iff c).mp hc] at heq
      exact .absolute pre path heq hhead hpath
  · rcases cases_cut isSep dbPath with hnone | ⟨name, c, path, heq, hname, hc⟩
    · exact .plain hhead hnone
    · rw [(isSep_iff c).mp hc] at heq
      exact .variable name path heq hhead hname

theorem lastComponent_append (pre path : List Char) : lastComponent (pre ++ SEP_CHAR :: path) = lastComponent path :=
  rtakeWhile_append_cons pre path (by decide)

theorem lastComponent_of_none (h : ∀ c ∈ path, isSep c = false) : lastComponent path = path :=
  List.rtakeWhile_eq_self_iff.mpr fun c hc => by rw [h c hc]; rfl

theorem not_sep (h : ∀ c ∈ s, isSep c = false) : ∀ c ∈ s, (!isSep c) = true := fun c hc => by rw [h c hc]; rfl

theorem parts_absolute (hhead : (pre ++ SEP_CHAR :: path).head? = some SEP_CHAR) (hpath : ∀ c ∈ path, isSep c = false) :
    parts allowAbsolute DataDir getenv (pre ++ SEP_CHAR :: path) =
      if allowAbsolute then some ⟨pre, path, pre ++ SEP_CHAR :: path⟩ else none := by
  have hdrop : (pre ++ SEP_CHAR :: path).rdropWhile (fun c => !isSep c) = pre ++ [SEP_CHAR] := by
    have hreverse : ∀ c ∈ path.reverse, (!isSep c) = true := fun c hc => not_sep hpath c (List.mem_reverse.mp hc)
    rw [List.rdropWhile, List.reverse_append, List.reverse_cons, List.append_assoc,
      List.dropWhile_append_of_pos hreverse, List.singleton_append, List.dropWhile_cons_of_neg (by decide),
      List.reverse_cons, List.reverse_reverse]
  rw [parts, if_pos hhead, lastComponent_append, lastComponent_of_none hpath, hdrop, List.dropLast_concat]

theorem parts_variable (hhead : (name ++ SEP_CHAR :: path).head? ≠ some SEP_CHAR) (hname : ∀ c ∈ name, isSep c = false) :
    parts allowAbsolute DataDir getenv (name ++ SEP_CHAR :: path) =
      (getenv name).map fun value => ⟨value, path, path⟩ := by
  have hany : (name ++ SEP_CHAR :: path).any isSep = true :=
    List.any_eq_true.mpr ⟨SEP_CHAR, List.mem_append_right _ List.mem_cons_self, by decide⟩
  rw [parts, if_neg hhead, if_pos hany, List.dropWhile_append_of_pos (not_sep hname),
    List.takeWhile_append_of_pos (not_sep hname), List.dropWhile_cons_of_neg (by decide),
    List.takeWhile_cons_of_neg (by decide), List.append_nil, List.tail_cons]

theorem parts_plain (hhead : dbPath.head? ≠ some SEP_CHAR) (hnone : ∀ c ∈ dbPath, isSep c = false) :
    parts allowAbsolute DataDir getenv dbPath = some ⟨DataDir, dbPath, dbPath⟩ := by
  have hany : ¬ dbPath.any isSep = true := by
    rw [List.any_eq_true]
    rintro ⟨c, hc, hsep⟩
    rw [hnone c hc] at hsep
    cases hsep
  rw [parts, if_neg hhead, if_neg hany]

/-- The buffer holds the full path, as far as it goes. -/
theorem assemble_eq (hlen : dbPath.length < MAX_PG_PATH) :
    assemble allowAbsolute DataDir getenv dbPath =
      (parts allowAbsolute DataDir getenv dbPath).map fun p => snprintf MAX_PG_PATH p.full := by
  rcases shape dbPath with ⟨pre, path, rfl, hhead, hpath⟩ | ⟨name, path, rfl, hhead, hname⟩ | ⟨hhead, hnone⟩
  · rw [parts_absolute hhead hpath, assemble, if_pos hhead]
    cases allowAbsolute with
    | false => rfl
    | true =>
      have hlast : strrchr (pre ++ SEP_CHAR :: path) SEP_CHAR = some pre.length := by
        have hreverse : (pre ++ SEP_CHAR :: path).reverse = path.reverse ++ SEP_CHAR :: pre.reverse := by simp
        have hfind : (path.reverse ++ SEP_CHAR :: pre.reverse).findIdx? (· == SEP_CHAR) = some path.reverse.length :=
          findIdx?_cut _ (fun c hc => hpath c (List.mem_reverse.mp hc)) (by decide)
        rw [strrchr, hreverse, hfind]
        simp
      rw [if_pos rfl, if_pos rfl, hlast]
      rw [List.length_append, List.length_cons] at hlen
      have hcut : snprintf MAX_PG_PATH (pre ++ (base ++ path)) = pre ++ snprintf (MAX_PG_PATH - pre.length) (base ++ path) := by
        rw [snprintf, snprintf, List.take_append, List.take_of_length_le (by omega), Nat.sub_right_comm]
      rw [Option.map_some, Parts.full, List.append_assoc, hcut]
      simp
  · have hfirst : strchr (name ++ SEP_CHAR :: path) SEP_CHAR = some name.length := findIdx?_cut _ hname (by decide)
    rw [parts_variable hhead hname, assemble, if_neg hhead, hfirst]
    dsimp only
    rw [List.take_left, Option.map_map]
    cases getenv name with
    | none => rfl
    | some value => simp [Parts.full]
  · have hfirst : strchr dbPath SEP_CHAR = none := List.findIdx?_eq_none_iff.mpr hnone
    rw [parts_plain hhead hnone, assemble, if_neg hhead, hfirst]
    rfl

/-! ## Parent directories -/

/-- A component `..` is between two delimiters, or behind the last one. -/
theorem infix_or_suffix (h : "..".toList ∈ components s) :
    "/../".toList <:+: SEP_CHAR :: s ∨ "/..".toList <:+ SEP_CHAR :: s := by
  obtain ⟨a, d, b, heq, hd, hb⟩ := exists_of_mem_splitOnP (c := SEP_CHAR) h (by decide)
  rw [(isSep_iff d).mp hd] at heq
  rw [heq]
  rcases hb with rfl | ⟨e, b, rfl, he⟩
  · exact .inr ⟨a, rfl⟩
  · rw [(isSep_iff e).mp he]
    exact .inl ⟨a, b, by simp [SEP_CHAR]⟩

theorem lastComponent_of_suffix (h : "/..".toList <:+ SEP_CHAR :: s) : lastComponent s = "..".toList := by
  obtain ⟨a, heq⟩ := h
  cases a with
  | nil =>
    obtain ⟨-, hs⟩ := List.cons.inj heq
    rw [← hs]
    decide
  | cons c a =>
    obtain ⟨-, hs⟩ := List.cons.inj heq
    have happend : lastComponent (a ++ SEP_CHAR :: "..".toList) = "..".toList := by
      rw [lastComponent_append]
      decide
    rw [← hs]
    exact happend

theorem lastComponent_mem (s : List Char) : lastComponent s ∈ components s := rtakeWhile_mem_splitOnP isSep s

/-- Where the full path has no parent directory in the middle, only the last component can be one. -/
theorem parent_mem_iff (hp : p ∈ parts allowAbsolute DataDir getenv dbPath) (hmiddle : ¬ "/../".toList <:+: p.full) :
    "..".toList ∈ components p.given ↔ lastComponent dbPath = "..".toList := by
  have hbase : ∀ pre path, SEP_CHAR :: path <:+ pre ++ base ++ path := fun pre path =>
    ⟨pre ++ "/base".toList, by simp [base, SEP_CHAR]⟩
  have hpath : ∀ {pre path}, ¬ "/../".toList <:+: pre ++ base ++ path →
      ("..".toList ∈ components path ↔ lastComponent path = "..".toList) := by
    intro pre path hmiddle
    refine ⟨fun hmem => ?_, fun hlast => hlast ▸ lastComponent_mem path⟩
    rcases infix_or_suffix hmem with hmid | hsuffix
    · exact absurd (hmid.trans (hbase pre path).isInfix) hmiddle
    · exact lastComponent_of_suffix hsuffix
  rcases shape dbPath with ⟨pre, path, rfl, hhead, hnone⟩ | ⟨name, path, rfl, hhead, hname⟩ | ⟨hhead, hnone⟩
  · rw [parts_absolute hhead hnone] at hp
    cases allowAbsolute with
    | false => cases hp
    | true =>
      obtain rfl := Option.some.inj hp
      have hmem : "..".toList ∈ components (pre ++ SEP_CHAR :: path) ↔
          "..".toList ∈ components pre ∨ "..".toList ∈ components path := by
        unfold components
        rw [List.splitOnP_append_cons pre path (by decide), List.mem_append]
      have hpre : "..".toList ∉ components pre := by
        cases pre with
        | nil => exact fun h => by simp [components] at h
        | cons c pre =>
          obtain rfl : c = SEP_CHAR := Option.some.inj hhead
          intro h
          have hrest : "..".toList ∈ components pre := by
            unfold components at h ⊢
            rw [List.splitOnP_cons_eq_if_modifyHead, if_pos (by decide)] at h
            exact (List.mem_cons.mp h).resolve_left (by decide)
          rcases infix_or_suffix hrest with hmid | ⟨a, ha⟩
          · exact hmiddle (hmid.trans ⟨[], base ++ path, by simp [Parts.full]⟩)
          · refine hmiddle ⟨a, "base/".toList ++ path, ?_⟩
            rw [Parts.full, ← ha]
            simp [base, SEP_CHAR]
      rw [hmem, or_iff_right hpre, hpath hmiddle, lastComponent_append]
  · rw [parts_variable hhead hname] at hp
    obtain ⟨value, -, rfl⟩ := Option.map_eq_some_iff.mp hp
    rw [lastComponent_append]
    exact hpath hmiddle
  · rw [parts_plain hhead hnone] at hp
    obtain rfl := Option.some.inj hp
    exact hpath hmiddle

/-! ## What is returned -/

/-- What is returned is the full path without illegal characters, and no component of the database path
in it is the parent directory, if and only if a path that is not refused fits. -/
theorem expand_database_path_iff (allowAbsolute : Bool) (DataDir : List Char) (getenv : List Char → Option (List Char))
    (dbPath : List Char) :
    (∀ r, expandDatabasePath allowAbsolute DataDir getenv dbPath = some r →
        ∃ p ∈ parts allowAbsolute DataDir getenv dbPath, r = p.full ∧ (∀ c ∈ r, c ∉ illegalDbpathChars) ∧
          "..".toList ∉ components p.given) ↔
      Fits allowAbsolute DataDir getenv dbPath := by
  have hreturn : ∀ r, expandDatabasePath allowAbsolute DataDir getenv dbPath = some r ↔
      dbPath.length < MAX_PG_PATH ∧ ∃ p ∈ parts allowAbsolute DataDir getenv dbPath,
        ¬ Refused (p.full.take (MAX_PG_PATH - 1)) ∧ p.full.take (MAX_PG_PATH - 1) = r := by
    intro r
    unfold expandDatabasePath
    by_cases hlen : dbPath.length < MAX_PG_PATH
    · rw [if_neg (Nat.not_le.mpr hlen), assemble_eq hlen, and_iff_right hlen]
      cases parts allowAbsolute DataDir getenv dbPath with
      | none => simp
      | some p => simp [← checked_iff, snprintf]
    · rw [if_pos (Nat.not_lt.mp hlen)]
      simp [hlen]
  simp only [hreturn]
  constructor
  · rintro h hlen p hp hrefused
    obtain ⟨p', hp', heq, -, hparent⟩ := h _ ⟨hlen, p, hp, hrefused, rfl⟩
    obtain rfl : p = p' := Option.some.inj (hp.symm.trans hp')
    have hfits : p.full.length ≤ MAX_PG_PATH - 1 := by
      rw [← heq]
      exact List.length_take_le _ _
    rw [heq] at hrefused
    rw [parent_mem_iff hp fun hmiddle => hrefused (.inr hmiddle)] at hparent
    exact ⟨Nat.lt_of_le_of_lt hfits (by decide), hparent⟩
  · rintro h r ⟨hlen, p, hp, hrefused, rfl⟩
    obtain ⟨hfits, hlast⟩ := h hlen p hp hrefused
    rw [List.take_of_length_le (Nat.le_sub_one_of_lt hfits)] at hrefused ⊢
    refine ⟨p, hp, rfl, fun c hc hillegal => hrefused (.inl ⟨c, hc, hillegal⟩), ?_⟩
    rwa [parent_mem_iff hp fun hmiddle => hrefused (.inr hmiddle)]

/-- `..` by itself is a database path that leads out of `base`. -/
theorem expand_database_path_parent : ¬ ∀ r,
    expandDatabasePath false "/data".toList (fun _ => none) "..".toList = some r →
      ∃ p ∈ parts false "/data".toList (fun _ => none) "..".toList, r = p.full ∧
        (∀ c ∈ r, c ∉ illegalDbpathChars) ∧ "..".toList ∉ components p.given := by
  intro h
  obtain ⟨p, hp, -, -, hparent⟩ := h "/data/base/..".toList (by decide)
  have hnone : ∀ c ∈ "..".toList, isSep c = false := List.forall_mem_cons.mpr ⟨rfl, List.forall_mem_singleton.mpr rfl⟩
  obtain rfl := Option.some.inj ((parts_plain (by decide) hnone).symm.trans hp)
  exact hparent (by decide)

end PostgresV7.Database
