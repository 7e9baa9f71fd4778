import PostgresV7.Trace.Options
import Mathlib.Data.List.DropRight

/-!
# Option strings as items

What an option string says, item by item, and where `parse_options` does otherwise.
-/

namespace PostgresV7.Trace

open Pieces

/-- The non-empty items between the delimiters. -/
def items (text : List Char) : List (List Char) := pieces isDelim text

def itemName (item : List Char) : List Char := item.takeWhile fun c => !isOp c

/-- `name`, `name+`, `name-` and `name=value`. -/
def itemValue (item : List Char) : Int :=
  match item.dropWhile fun c => !isOp c with
  | [] => 1
  | op :: value => if op = '=' then (readNumber value).1 else if op = '-' then 0 else 1

/-- The option a name stands for. -/
def optionNamed (name : List Char) : Option Nat := if name.length = 0 then none else optionOf name

def itemAssignment (item : List Char) : Option (Nat × Int) :=
  (optionNamed (itemName item)).map fun i => (i, itemValue item)

/-- What the items of a text assign, in order. -/
def itemAssignments (text : List Char) : List (Nat × Int) := (items text).filterMap itemAssignment

/-- What `parse_options` assigns. -/
def textAssignments (text : List Char) : List (Nat × Int) := assignments (parseText text)

def INT_MAX : Int := 0x7fffffff

def INT_MIN : Int := -0x80000000

/-- Behind `=` comes the text `own` of the item, as part of `t`. Its number is an `int`; where it has none,
what comes behind white space is no number, or one that an `int` cuts to zero. -/
def ReadsOwn (own t : List Char) : Prop :=
  if own.all isSpace then toInt (strtol t).1 = 0 else INT_MIN ≤ (readNumber own).1 ∧ (readNumber own).1 ≤ INT_MAX

/-- Between two commas: behind the first item with an operator no other one stands for an option, and if
that item is `name=value` for an option, the number that is read is its own. -/
def PieceOk (piece : List Char) : Prop :=
  match piece.dropWhile fun c => !isOp c with
  | [] => True
  | op :: t =>
    let name := (piece.takeWhile fun c => !isOp c).rtakeWhile fun c => !isDelim c
    let own := t.takeWhile fun c => !isDelim c
    let later := t.dropWhile fun c => !isDelim c
    (∀ item ∈ items later, optionNamed (itemName item) = none) ∧
      (op = '=' → optionNamed name ≠ none → ReadsOwn own t)

instance (own t : List Char) : Decidable (ReadsOwn own t) := by
  unfold ReadsOwn
  infer_instance

instance (piece : List Char) : Decidable (PieceOk piece) := by
  unfold PieceOk
  split <;> infer_instance

variable {name own t text piece later : List Char} {c op : Char} {val : Int}

/-! ## One item -/

theorem assignments_append (events events' : List Event) :
    assignments (events ++ events') = assignments events ++ assignments events' := List.filterMap_append

theorem assignments_assign (name : List Char) (val : Int) (isComment : Bool) :
    assignments (assign name val isComment) = ((optionNamed name).map fun i => (i, val)).toList := by
  unfold assign optionNamed
  split
  · rfl
  · cases optionOf name with
    | some i => rfl
    | none => cases isComment <;> rfl

theorem isOp_of_isPlain (h : isPlain c = true) : isOp c = false := by
  simp only [isPlain, Bool.and_eq_true, Bool.not_eq_true'] at h
  exact h.1

theorem isDelim_of_isPlain (h : isPlain c = true) : isDelim c = false := by
  simp only [isPlain, Bool.and_eq_true, Bool.not_eq_true'] at h
  exact h.2

theorem isDelim_of_isOp (h : isOp c = true) : isDelim c = false := by
  simp only [isOp, Bool.or_eq_true, beq_iff_eq] at h
  rcases h with (rfl | rfl) | rfl <;> decide

theorem isDigit_of_isDelim (h : isDelim c = true) : c.isDigit = false := by
  simp only [isDelim, Bool.or_eq_true, beq_iff_eq] at h
  rcases h with (((rfl | rfl) | rfl) | rfl) | rfl <;> decide

/-- A bare name, if it is not empty, is an item. -/
theorem filterMap_closed (hname : ∀ c ∈ name, isPlain c = true) :
    (closed name).filterMap itemAssignment = ((optionNamed name).map fun i => (i, (1 : Int))).toList := by
  cases name with
  | nil => rfl
  | cons x name =>
    have hops : ∀ c ∈ x :: name, (!isOp c) = true := fun c hc => by rw [isOp_of_isPlain (hname c hc)]; rfl
    have hitem : itemAssignment (x :: name) = (optionNamed (x :: name)).map fun i => (i, (1 : Int)) := by
      unfold itemAssignment itemName itemValue
      rw [List.takeWhile_eq_self_iff.mpr hops, List.dropWhile_eq_nil_iff.mpr hops]
    rw [← hitem]
    show [x :: name].filterMap itemAssignment = _
    rw [List.filterMap_cons, List.filterMap_nil]
    cases itemAssignment (x :: name) <;> rfl

theorem toInt_clamp_iff (v : Int) :
    toInt (max LONG_MIN (min LONG_MAX v)) = v ↔ INT_MIN ≤ v ∧ v ≤ INT_MAX := by
  unfold toInt LONG_MIN LONG_MAX INT_MIN INT_MAX
  rw [Int.bmod_def]
  omega

/-- The value read is the value of the item. -/
theorem value_eq_iff (hown : t = own ++ later) (hlater : ∀ c ∈ later.head?, isDelim c = true) :
    toInt (strtol t).1 = (readNumber own).1 ↔ ReadsOwn own t := by
  unfold ReadsOwn
  by_cases hspace : ∀ c ∈ own, isSpace c = true
  · have hblank : readNumber (own ++ []) = (0, 0) := readNumber_blank hspace (by simp)
    rw [List.append_nil] at hblank
    rw [hblank, if_pos (List.all_eq_true.mpr hspace)]
  · have hread : readNumber t = readNumber own := by
      rw [hown]
      exact readNumber_append hspace fun c hc => isDigit_of_isDelim (hlater c hc)
    rw [if_neg (fun hall => hspace (List.all_eq_true.mp hall)), ← toInt_clamp_iff]
    unfold strtol
    rw [hread]

/-! ## Between two commas -/

theorem plain_of_cases {name : List Char} (h : ∀ c ∈ name, (!isPlain c) = false) : ∀ c ∈ name, isPlain c = true :=
  fun c hc => by simpa using h c hc

theorem textAssignments_plain (h : ∀ c ∈ name, isPlain c = true) :
    textAssignments name = ((optionNamed name).map fun i => (i, (1 : Int))).toList := by
  rw [textAssignments, parseText_plain h, assignments_assign]

theorem textAssignments_cut (h : ∀ c ∈ name, isPlain c = true) (hc : isPlain c = false) (t : List Char) :
    textAssignments (name ++ c :: t) =
      ((optionNamed name).map fun i => (i, valueOf c t)).toList ++ textAssignments (remaining c t) := by
  rw [textAssignments, parseText_cut h hc, assignments_append, assignments_assign]
  rfl

theorem textAssignments_nil : textAssignments [] = [] := textAssignments_plain fun _ hc => absurd hc List.not_mem_nil

theorem itemAssignments_append (text t : List Char) (hc : isDelim c = true) :
    itemAssignments (text ++ c :: t) = itemAssignments text ++ itemAssignments t := by
  unfold itemAssignments items
  rw [pieces_append_cons text t hc, List.filterMap_append]

theorem itemAssignments_plain (h : ∀ c ∈ name, isPlain c = true) :
    itemAssignments name = ((optionNamed name).map fun i => (i, (1 : Int))).toList := by
  unfold itemAssignments items
  rw [pieces_of_none fun c hc => isDelim_of_isPlain (h c hc), filterMap_closed h]

theorem afterComma_nil (ht : ',' ∉ t) : afterComma t = [] := by
  have hdrop : t.dropWhile (· != ',') = [] :=
    List.dropWhile_eq_nil_iff.mpr fun c hc => by simpa using fun heq : c = ',' => ht (heq ▸ hc)
  rw [afterComma, hdrop, List.tail_nil]

/-- A comma ends whatever was begun. -/
theorem parseText_comma (hpiece : ',' ∉ piece) (t : List Char) :
    textAssignments (piece ++ ',' :: t) = textAssignments piece ++ textAssignments t := by
  induction hn : piece.length using Nat.strong_induction_on generalizing piece with
  | _ n ih =>
    rcases cases_cut (fun c => !isPlain c) piece with hplain | ⟨name, c, rest, rfl, hname, hc⟩
    · have hplain := plain_of_cases hplain
      rw [textAssignments_cut hplain (by decide), textAssignments_plain hplain]
      rfl
    · have hname := plain_of_cases hname
      have hc : isPlain c = false := by simpa using hc
      have hrest : ',' ∉ rest := fun hmem => hpiece (List.mem_append_right _ (List.mem_cons_of_mem c hmem))
      have hvalue : valueOf c (rest ++ ',' :: t) = valueOf c rest := by
        unfold valueOf strtol
        rw [readNumber_comma]
      rw [List.append_assoc, List.cons_append, textAssignments_cut hname hc, textAssignments_cut hname hc, hvalue,
        List.append_assoc]
      congr 1
      unfold remaining
      split
      · have hlt : rest.length < n := by
          rw [← hn, List.length_append, List.length_cons]
          omega
        exact ih _ hlt hrest rfl
      · have hplain : ∀ c ∈ rest, (c != ',') = true := fun c hc => by simpa using fun heq : c = ',' => hrest (heq ▸ hc)
        have hafter : afterComma (rest ++ ',' :: t) = t := by
          rw [afterComma, List.dropWhile_append_of_pos hplain, List.dropWhile_cons_of_neg (by simp), List.tail_cons]
        rw [hafter, afterComma_nil hrest, textAssignments_nil, List.nil_append]

/-- A bare name is an item of its own. -/
theorem pieceOk_append (hname : ∀ c ∈ name, isPlain c = true) (hc : isDelim c = true) (t : List Char) :
    PieceOk (name ++ c :: t) ↔ PieceOk t := by
  have hops : ∀ x ∈ name ++ [c], (!isOp x) = true := by
    intro x hx
    rcases List.mem_append.mp hx with hx | hx
    · rw [isOp_of_isPlain (hname x hx)]
      rfl
    · rw [List.mem_singleton.mp hx]
      cases hop : isOp c with
      | true => exact absurd hc (by rw [isDelim_of_isOp hop]; decide)
      | false => rfl
  have hdrop : (name ++ c :: t).dropWhile (fun c => !isOp c) = t.dropWhile fun c => !isOp c := by
    rw [List.append_cons, List.dropWhile_append_of_pos hops]
  have htake : ((name ++ c :: t).takeWhile fun c => !isOp c).rtakeWhile (fun c => !isDelim c) =
      (t.takeWhile fun c => !isOp c).rtakeWhile fun c => !isDelim c := by
    rw [List.append_cons, List.takeWhile_append_of_pos hops, List.append_assoc, List.singleton_append,
      rtakeWhile_append_cons name _ (by rw [hc]; rfl)]
  unfold PieceOk
  rw [hdrop, htake]

/-- An item with an operator. -/
theorem itemAssignment_op (hname : ∀ c ∈ name, isPlain c = true) (hop : isOp op = true) (own : List Char) :
    itemAssignment (name ++ op :: own) = (optionNamed name).map fun i =>
      (i, if op = '=' then (readNumber own).1 else if op = '-' then 0 else 1) := by
  have hops : ∀ c ∈ name, (!isOp c) = true := fun c hc => by rw [isOp_of_isPlain (hname c hc)]; rfl
  have hdrop : (name ++ op :: own).dropWhile (fun c => !isOp c) = op :: own := by
    rw [List.dropWhile_append_of_pos hops, List.dropWhile_cons_of_neg (by simp [hop])]
  have htake : (name ++ op :: own).takeWhile (fun c => !isOp c) = name := by
    rw [List.takeWhile_append_of_pos hops, List.takeWhile_cons_of_neg (by simp [hop]), List.append_nil]
  unfold itemAssignment itemName itemValue
  rw [hdrop, htake]

/-- An item with an operator ends where its own text ends. -/
theorem items_op (hname : ∀ c ∈ name, isPlain c = true) (hop : isOp op = true) (t : List Char) :
    items (name ++ op :: t) =
      (name ++ op :: t.takeWhile fun c => !isDelim c) :: items (t.dropWhile fun c => !isDelim c) := by
  have hclosed : ∀ own : List Char, closed (name ++ op :: own) = [name ++ op :: own] := fun own => by
    cases name <;> rfl
  have hplain : ∀ {own : List Char}, (∀ c ∈ own, isDelim c = false) → ∀ c ∈ name ++ op :: own, isDelim c = false :=
    fun hown => List.forall_mem_append.mpr
      ⟨fun c hc => isDelim_of_isPlain (hname c hc), List.forall_mem_cons.mpr ⟨isDelim_of_isOp hop, hown⟩⟩
  unfold items
  rcases cases_cut isDelim t with ht | ⟨own, c, later, rfl, hown, hc⟩
  · have hall : ∀ c ∈ t, (!isDelim c) = true := fun c hc => by rw [ht c hc]; rfl
    rw [List.takeWhile_eq_self_iff.mpr hall, List.dropWhile_eq_nil_iff.mpr hall, pieces_of_none (hplain ht), hclosed,
      pieces_nil]
  · have hall : ∀ c ∈ own, (!isDelim c) = true := fun c hc => by rw [hown c hc]; rfl
    rw [List.takeWhile_append_of_pos hall, List.dropWhile_append_of_pos hall, List.takeWhile_cons_of_neg (by simp [hc]),
      List.dropWhile_cons_of_neg (by simp [hc]), List.append_nil, pieces_cons later hc]
    have hcut := pieces_cut later (hplain hown) hc
    rw [List.append_assoc, List.cons_append, hclosed] at hcut
    exact hcut

theorem itemAssignments_op (hname : ∀ c ∈ name, isPlain c = true) (hop : isOp op = true) (t : List Char) :
    itemAssignments (name ++ op :: t) =
      ((optionNamed name).map fun i =>
        (i, if op = '=' then (readNumber (t.takeWhile fun c => !isDelim c)).1 else if op = '-' then 0 else 1)).toList ++
        itemAssignments (t.dropWhile fun c => !isDelim c) := by
  unfold itemAssignments
  rw [items_op hname hop, List.filterMap_cons, itemAssignment_op hname hop]
  cases optionNamed name <;> rfl

theorem textAssignments_op (hname : ∀ c ∈ name, isPlain c = true) (hop : isOp op = true) (ht : ',' ∉ t) :
    textAssignments (name ++ op :: t) = ((optionNamed name).map fun i => (i, valueOf op t)).toList := by
  have hplain : isPlain op = false := by rw [isPlain, hop]; rfl
  rw [textAssignments_cut hname hplain, remaining, isDelim_of_isOp hop, if_neg Bool.false_ne_true, afterComma_nil ht,
    textAssignments_nil, List.append_nil]

theorem pieceOk_op (hname : ∀ c ∈ name, isPlain c = true) (hop : isOp op = true) (t : List Char) :
    PieceOk (name ++ op :: t) ↔
      (∀ item ∈ items (t.dropWhile fun c => !isDelim c), optionNamed (itemName item) = none) ∧
        (op = '=' → optionNamed name ≠ none → ReadsOwn (t.takeWhile fun c => !isDelim c) t) := by
  have hops : ∀ c ∈ name, (!isOp c) = true := fun c hc => by rw [isOp_of_isPlain (hname c hc)]; rfl
  have hdelims : ∀ c ∈ name, (!isDelim c) = true := fun c hc => by rw [isDelim_of_isPlain (hname c hc)]; rfl
  have hdrop : (name ++ op :: t).dropWhile (fun c => !isOp c) = op :: t := by
    rw [List.dropWhile_append_of_pos hops, List.dropWhile_cons_of_neg (by simp [hop])]
  have htake : (name ++ op :: t).takeWhile (fun c => !isOp c) = name := by
    rw [List.takeWhile_append_of_pos hops, List.takeWhile_cons_of_neg (by simp [hop]), List.append_nil]
  unfold PieceOk
  rw [hdrop, htake, List.rtakeWhile_eq_self_iff.mpr hdelims]

/-- The items assign nothing if none of them stands for an option. -/
theorem itemAssignments_eq_nil_iff (text : List Char) :
    itemAssignments text = [] ↔ ∀ item ∈ items text, optionNamed (itemName item) = none := by
  unfold itemAssignments itemAssignment
  rw [List.filterMap_eq_nil_iff]
  simp only [Option.map_eq_none_iff]

/-- The value that is read where an operator stands. -/
theorem valueOf_op_iff (op : Char) (t : List Char) :
    valueOf op t = (if op = '=' then (readNumber (t.takeWhile fun c => !isDelim c)).1 else if op = '-' then 0 else 1) ↔
      (op = '=' → ReadsOwn (t.takeWhile fun c => !isDelim c) t) := by
  unfold valueOf
  by_cases heq : op = '='
  · rw [if_pos heq, if_pos heq, value_eq_iff (List.takeWhile_append_dropWhile (p := fun c => !isDelim c)).symm]
    · exact ⟨fun h _ => h, fun h => h heq⟩
    · intro c hc
      have hneg := List.head?_dropWhile_not (fun c => !isDelim c) t
      rw [Option.mem_def.mp hc] at hneg
      simpa using hneg
  · rw [if_neg heq, if_neg heq]
    exact iff_of_true rfl fun h => absurd h heq

/-- The code makes the assignments of the items, or fewer of them, between two commas. -/
theorem piece_assignments (hpiece : ',' ∉ piece) :
    (textAssignments piece).length ≤ (itemAssignments piece).length ∧
      (textAssignments piece = itemAssignments piece ↔ PieceOk piece) := by
  induction hn : piece.length using Nat.strong_induction_on generalizing piece with
  | _ n ih =>
    rcases cases_cut (fun c => !isPlain c) piece with hplain | ⟨name, c, t, rfl, hname, hc⟩
    · have hplain := plain_of_cases hplain
      have hdrop : piece.dropWhile (fun c => !isOp c) = [] :=
        List.dropWhile_eq_nil_iff.mpr fun c hc => by rw [isOp_of_isPlain (hplain c hc)]; rfl
      have hok : PieceOk piece := by
        unfold PieceOk
        rw [hdrop]
        trivial
      rw [textAssignments_plain hplain, itemAssignments_plain hplain]
      exact ⟨Nat.le_refl _, iff_of_true rfl hok⟩
    · have hname := plain_of_cases hname
      have hc : isPlain c = false := by simpa using hc
      have ht : ',' ∉ t := fun hmem => hpiece (List.mem_append_right _ (List.mem_cons_of_mem c hmem))
      have hlt : t.length < n := by
        rw [← hn, List.length_append, List.length_cons]
        omega
      cases hop : isOp c with
      | false =>
        have hdelim : isDelim c = true := by simpa [isPlain, hop] using hc
        have hvalue : valueOf c t = 1 := by
          simp only [isOp, Bool.or_eq_false_iff, beq_eq_false_iff_ne] at hop
          rw [valueOf, if_neg hop.1.1, if_neg hop.2]
        obtain ⟨hle, hiff⟩ := ih _ hlt ht rfl
        rw [textAssignments_cut hname hc, itemAssignments_append name t hdelim, itemAssignments_plain hname, hvalue,
          remaining, if_pos hdelim, List.length_append, List.length_append, List.append_cancel_left_eq, hiff,
          pieceOk_append hname hdelim]
        exact ⟨Nat.add_le_add_left hle _, Iff.rfl⟩
      | true =>
        rw [textAssignments_op hname hop ht, itemAssignments_op hname hop, pieceOk_op hname hop,
          ← itemAssignments_eq_nil_iff]
        cases hnamed : optionNamed name with
        | none =>
          rw [Option.map_none, Option.map_none, Option.toList_none, List.nil_append, eq_comm]
          exact ⟨Nat.zero_le _, fun h => ⟨h, fun _ hne => absurd rfl hne⟩, And.left⟩
        | some i =>
          have hreads : (c = '=' → some i ≠ none → ReadsOwn (t.takeWhile fun c => !isDelim c) t) ↔
              (c = '=' → ReadsOwn (t.takeWhile fun c => !isDelim c) t) :=
            ⟨fun h heq => h heq (Option.some_ne_none i), fun h heq _ => h heq⟩
          rw [hreads, ← valueOf_op_iff, List.length_append, Option.map_some, Option.map_some, Option.toList_some,
            Option.toList_some, List.singleton_append, List.cons_eq_cons, Prod.mk.injEq]
          exact ⟨Nat.le_add_right 1 _, fun h => ⟨h.2.symm, h.1.2⟩, fun h => ⟨⟨rfl, h.2⟩, h.1.symm⟩⟩

/-! ## The whole string -/

/-- What is between the commas of a text. -/
def commaPieces (text : List Char) : List (List Char) := text.splitOnP (· == ',')

theorem commaPieces_of_none (h : ∀ c ∈ text, (c == ',') = false) : commaPieces text = [text] :=
  List.splitOnP_eq_singleton h

theorem commaPieces_cons (h : ∀ c ∈ piece, (c == ',') = false) (t : List Char) :
    commaPieces (piece ++ ',' :: t) = piece :: commaPieces t := by
  unfold commaPieces
  rw [List.splitOnP_append_cons piece t (by simp), List.splitOnP_eq_singleton h]
  rfl

/-- The code makes the assignments of the items exactly where it does so between any two commas. -/
theorem textAssignments_iff (text : List Char) :
    (textAssignments text).length ≤ (itemAssignments text).length ∧
      (textAssignments text = itemAssignments text ↔ ∀ piece ∈ commaPieces text, PieceOk piece) := by
  induction hn : text.length using Nat.strong_induction_on generalizing text with
  | _ n ih =>
    have hcases : (∀ c ∈ text, (c == ',') = false) ∨ ∃ piece c t, text = piece ++ c :: t ∧
      (∀ c ∈ piece, (c == ',') = false) ∧ (c == ',') = true := cases_cut _ text
    have hcomma : ∀ {piece : List Char}, (∀ c ∈ piece, (c == ',') = false) → ',' ∉ piece := fun h hmem => by
      simpa using h _ hmem
    rcases hcases with hnone | ⟨piece, c, t, rfl, hpiece, hc⟩
    · obtain ⟨hle, hiff⟩ := piece_assignments (hcomma hnone)
      rw [commaPieces_of_none hnone, List.forall_mem_singleton]
      exact ⟨hle, hiff⟩
    · obtain rfl := eq_of_beq hc
      have hlt : t.length < n := by
        rw [← hn, List.length_append, List.length_cons]
        omega
      obtain ⟨hle, hiff⟩ := piece_assignments (hcomma hpiece)
      obtain ⟨hle', hiff'⟩ := ih _ hlt t rfl
      rw [parseText_comma (hcomma hpiece), itemAssignments_append piece t (by decide), commaPieces_cons hpiece,
        List.forall_mem_cons, ← hiff, ← hiff', List.length_append, List.length_append]
      refine ⟨Nat.add_le_add hle hle', fun heq => ?_, fun ⟨h, h'⟩ => by rw [h, h']⟩
      -- neither side of the comma can make up for the other
      have hlen := congrArg List.length heq
      rw [List.length_append, List.length_append] at hlen
      exact List.append_inj heq (by omega)

/-- With rounds enough the loop comes to an end, and its assignments are those of the items if and only if
they are between any two commas. -/
theorem parse_options_iff {str : Buffer} (h : Stored str 0 text) (secure : Bool) :
    (∃ enough, ∀ n ≥ enough, (parseOptions n str secure).map assignments = some (itemAssignments text)) ↔
      ∀ piece ∈ commaPieces text, PieceOk piece := by
  have hrun : ∀ n, text.length + 2 < n → (parseOptions n str secure).map assignments = some (textAssignments text) := by
    intro n hn
    rw [parseOptions, parseLoop_stored h hn]
    rfl
  rw [← (textAssignments_iff text).2]
  refine ⟨fun ⟨enough, hall⟩ => ?_, fun heq => ⟨text.length + 3, fun n hn => ?_⟩⟩
  · have hresult := hall (enough + text.length + 3) (by omega)
    rw [hrun _ (by omega)] at hresult
    exact Option.some.inj hresult
  · rw [hrun n hn, heq]

/-- The buffer that holds a text. -/
def bufferOf (text : List Char) : Buffer := fun i => text.getD i NUL

theorem stored_bufferOf (h : NUL ∉ text) : Stored (bufferOf text) 0 text := by
  have hstored : ∀ {buf : Buffer} {s : Nat}, (∀ i, buf (s + i) = text.getD i NUL) → Stored buf s text := by
    induction text with
    | nil => exact fun hbuf => hbuf 0
    | cons c text ih =>
      obtain ⟨hc, hrest⟩ := not_or.mp (mt List.mem_cons.mpr h)
      refine fun hbuf => ⟨hbuf 0, Ne.symm hc, ih hrest fun i => ?_⟩
      rw [Nat.add_assoc, Nat.add_comm 1]
      exact hbuf (i + 1)
  exact hstored fun i => by rw [Nat.zero_add, bufferOf]

theorem parse_options_query :
    ∃ enough, ∀ n ≥ enough, (parseOptions n (bufferOf "query=5,all".toList) true).map assignments = some [(2, 5), (0, 1)] :=
  (parse_options_iff (stored_bufferOf (by decide)) true).mpr (by decide)

/-- `verbose+ query` sets `verbose` alone. -/
theorem parse_options_passes_over : ¬ ∃ enough, ∀ n ≥ enough,
    (parseOptions n (bufferOf "verbose+ query".toList) true).map assignments =
      some (itemAssignments "verbose+ query".toList) := by
  rintro ⟨enough, hall⟩
  have hitems : itemAssignments ("verbose".toList ++ '+' :: " query".toList) = [(1, 1), (2, 1)] := by decide
  have htext : textAssignments ("verbose".toList ++ '+' :: " query".toList) = [(1, 1)] :=
    textAssignments_op (List.all_eq_true.mp rfl) (by decide) (by decide)
  have hresult := hall (enough + 17) (Nat.le_add_right _ _)
  rw [parseOptions, parseLoop_stored (stored_bufferOf (by decide)) (Nat.le_add_left 17 enough)] at hresult
  have heq : textAssignments ("verbose".toList ++ '+' :: " query".toList) =
      itemAssignments ("verbose".toList ++ '+' :: " query".toList) := Option.some.inj hresult
  rw [htext, hitems] at heq
  exact absurd heq (by decide)

end PostgresV7.Trace
