import PostgresV7.Trace.Trace
import PostgresV7.Lib.Pieces

/-!
# `parse_options` on the text of its string

The name of an item ends at the first operator or delimiter. Behind an operator everything up to
the next comma is passed over.
-/

namespace PostgresV7.Trace

open Pieces

def isOp (c : Char) : Bool := c == '=' || c == '+' || c == '-'

def isDelim (c : Char) : Bool := c == ',' || c == ' ' || c == '\t' || c == '\n' || c == '\r'

/-- A character of a name. -/
def isPlain (c : Char) : Bool := !isOp c && !isDelim c

/-- The value of an item, from its operator or delimiter on. -/
def valueOf (c : Char) (t : List Char) : Int :=
  if c = '=' then toInt (strtol t).1 else if c = '-' then 0 else 1

/-- What is behind the next comma. -/
def afterComma (t : List Char) : List Char := (t.dropWhile (· != ',')).tail

/-- What is behind an item. -/
def remaining (c : Char) (t : List Char) : List Char := if isDelim c then t else afterComma t

theorem length_afterComma_le (t : List Char) : (afterComma t).length ≤ t.length := by
  unfold afterComma
  rw [List.length_tail]
  exact Nat.le_trans (Nat.sub_le _ 1) (List.length_dropWhile_le _ _)

theorem length_remaining_le (c : Char) (t : List Char) : (remaining c t).length ≤ t.length := by
  unfold remaining
  split
  · exact Nat.le_refl _
  · exact length_afterComma_le t

theorem length_remaining_lt {text t : List Char} {c : Char} (h : text.dropWhile isPlain = c :: t) :
    (remaining c t).length < text.length := by
  have hle := length_remaining_le c t
  have hdrop := List.length_dropWhile_le isPlain text
  rw [h, List.length_cons] at hdrop
  omega

/-- What `parse_options` makes of a text. -/
def parseText (text : List Char) : List Event :=
  let name := text.takeWhile isPlain
  match h : text.dropWhile isPlain with
  | [] => assign name 1 (name.contains '#')
  | c :: t =>
    have := length_remaining_lt h
    assign name (valueOf c t) (name.contains '#') ++ parseText (remaining c t)
termination_by text.length

variable {name t text : List Char} {c : Char}

theorem parseText_plain (h : ∀ c ∈ name, isPlain c = true) : parseText name = assign name 1 (name.contains '#') := by
  rw [parseText]
  have hdrop : name.dropWhile isPlain = [] := List.dropWhile_eq_nil_iff.mpr h
  have htake : name.takeWhile isPlain = name := List.takeWhile_eq_self_iff.mpr h
  rw [htake]
  split
  · rfl
  · rename_i c t heq
    rw [hdrop] at heq
    cases heq

theorem parseText_cut (h : ∀ c ∈ name, isPlain c = true) (hc : isPlain c = false) (t : List Char) :
    parseText (name ++ c :: t) = assign name (valueOf c t) (name.contains '#') ++ parseText (remaining c t) := by
  have hdrop : (name ++ c :: t).dropWhile isPlain = c :: t := by
    rw [List.dropWhile_append_of_pos h, List.dropWhile_cons_of_neg (by simp [hc])]
  have htake : (name ++ c :: t).takeWhile isPlain = name := by
    rw [List.takeWhile_append_of_pos h, List.takeWhile_cons_of_neg (by simp [hc]), List.append_nil]
  rw [parseText, htake]
  split
  · rename_i heq
    rw [hdrop] at heq
    cases heq
  · rename_i c' t' heq
    rw [hdrop] at heq
    obtain ⟨rfl, rfl⟩ := List.cons.inj heq
    rfl

/-! ## Numbers -/

variable {own r : List Char}

/-- White space, and what no number begins with. -/
theorem readNumber_blank (hown : ∀ c ∈ own, isSpace c = true)
    (hr : ∀ c ∈ r.head?, isSpace c = false ∧ c.isDigit = false ∧ c ≠ '-' ∧ c ≠ '+') : readNumber (own ++ r) = (0, 0) := by
  have hdrop : (own ++ r).dropWhile isSpace = r := by
    rw [List.dropWhile_append_of_pos hown]
    cases r with
    | nil => rfl
    | cons c r => exact List.dropWhile_cons_of_neg (by simp [(hr c rfl).1])
  unfold readNumber
  rw [hdrop]
  cases r with
  | nil => rfl
  | cons c r =>
    obtain ⟨-, hdigit, hminus, hplus⟩ := hr c rfl
    have htake : (c :: r).takeWhile Char.isDigit = [] := List.takeWhile_cons_of_neg (by simp [hdigit])
    have hsign : splitSign (c :: r) = (false, 0, c :: r) := by rw [splitSign, if_neg hminus, if_neg hplus]
    rw [hsign]
    dsimp only
    rw [htake]
    rfl

theorem splitSign_append (x : Char) (v r : List Char) :
    splitSign (x :: v ++ r) = ((splitSign (x :: v)).1, (splitSign (x :: v)).2.1, (splitSign (x :: v)).2.2 ++ r) := by
  simp only [List.cons_append, splitSign]
  split_ifs <;> rfl

theorem length_splitSign (text : List Char) : (splitSign text).2.1 + (splitSign text).2.2.length = text.length := by
  cases text with
  | nil => rfl
  | cons c text =>
    simp only [splitSign]
    split_ifs <;> simp [Nat.add_comm]

theorem takeWhile_isDigit_append (hr : ∀ c ∈ r.head?, c.isDigit = false) (own : List Char) :
    (own ++ r).takeWhile Char.isDigit = own.takeWhile Char.isDigit := by
  induction own with
  | nil =>
    cases r with
    | nil => rfl
    | cons c r => exact List.takeWhile_cons_of_neg (by simp [hr c rfl])
  | cons c own ih => cases hc : c.isDigit <;> simp [hc, ih]

/-- Where the number has begun, what no digit begins does not belong to it. -/
theorem readNumber_append (hown : ¬ ∀ c ∈ own, isSpace c = true) (hr : ∀ c ∈ r.head?, c.isDigit = false) :
    readNumber (own ++ r) = readNumber own := by
  obtain ⟨x, v, hdrop⟩ : ∃ x v, own.dropWhile isSpace = x :: v := by
    cases h : own.dropWhile isSpace with
    | nil => exact absurd (List.dropWhile_eq_nil_iff.mp h) hown
    | cons x v => exact ⟨x, v, rfl⟩
  have htake : (own ++ r).takeWhile isSpace = own.takeWhile isSpace := by
    rw [List.takeWhile_append, if_neg]
    intro hlen
    have hsum := congrArg List.length (List.takeWhile_append_dropWhile (p := isSpace) (l := own))
    rw [List.length_append, hdrop, List.length_cons] at hsum
    omega
  have hdrop' : (own ++ r).dropWhile isSpace = x :: v ++ r := by
    rw [List.dropWhile_append, hdrop]
    rfl
  unfold readNumber
  rw [hdrop, hdrop', htake, splitSign_append]
  dsimp only
  rw [takeWhile_isDigit_append hr]

theorem readNumber_comma (own rest : List Char) : readNumber (own ++ ',' :: rest) = readNumber own := by
  by_cases hown : ∀ c ∈ own, isSpace c = true
  · have hblank : readNumber (own ++ []) = (0, 0) := readNumber_blank hown (by simp)
    rw [List.append_nil] at hblank
    rw [hblank, readNumber_blank hown]
    intro c hc
    obtain rfl := Option.some.inj hc
    decide
  · refine readNumber_append hown fun c hc => ?_
    obtain rfl := Option.some.inj hc
    decide

/-- A number does not go further than the text. -/
theorem readNumber_le (text : List Char) : (readNumber text).2 ≤ text.length := by
  have hsum := congrArg List.length (List.takeWhile_append_dropWhile (p := isSpace) (l := text))
  rw [List.length_append] at hsum
  have hsign := length_splitSign (text.dropWhile isSpace)
  have hdigits := (List.takeWhile_prefix (l := (splitSign (text.dropWhile isSpace)).2.2) Char.isDigit).length_le
  unfold readNumber
  dsimp only
  split
  · exact Nat.zero_le _
  · rw [← hsum, ← hsign, Nat.add_assoc]
    exact Nat.add_le_add_left (Nat.add_le_add_left hdigits _) _

/-- What is behind the next comma is the same from the end of a number on. -/
theorem afterComma_drop_readNumber (t : List Char) : afterComma (t.drop (readNumber t).2) = afterComma t := by
  have hcases : (∀ c ∈ t, (c == ',') = false) ∨ ∃ cur c rest, t = cur ++ c :: rest ∧ (∀ c ∈ cur, (c == ',') = false) ∧
      (c == ',') = true := cases_cut _ t
  rcases hcases with ht | ⟨cur, c, rest, rfl, hcur, hc⟩
  · have hnone : ∀ k, afterComma (t.drop k) = [] := by
      intro k
      have hdrop : (t.drop k).dropWhile (· != ',') = [] :=
        List.dropWhile_eq_nil_iff.mpr fun c hc => by simpa using ht c (List.mem_of_mem_drop hc)
      rw [afterComma, hdrop, List.tail_nil]
    rw [hnone, ← List.drop_zero (l := t), hnone]
  · obtain rfl := eq_of_beq hc
    have hle := readNumber_le cur
    have hafter : ∀ k, afterComma (cur.drop k ++ ',' :: rest) = rest := by
      intro k
      have hplain : ∀ c ∈ cur.drop k, (c != ',') = true := fun c hc => by simpa using hcur c (List.mem_of_mem_drop hc)
      rw [afterComma, List.dropWhile_append_of_pos hplain, List.dropWhile_cons_of_neg (by simp), List.tail_cons]
    rw [readNumber_comma, List.drop_append_of_le_length hle, hafter, ← List.drop_zero (l := cur), hafter]

/-! ## The buffer -/

/-- The C string `text` is stored from `s` on. -/
def Stored (buf : Buffer) : Nat → List Char → Prop
  | s, [] => buf s = NUL
  | s, c :: text => buf s = c ∧ c ≠ NUL ∧ Stored buf (s + 1) text

variable {buf buf' : Buffer} {s n : Nat} {isComment : Bool}

theorem Stored.congr (h : Stored buf s text) (hsame : ∀ i, s ≤ i → buf' i = buf i) : Stored buf' s text := by
  induction text generalizing s with
  | nil => exact (hsame s (Nat.le_refl s)).trans h
  | cons c text ih =>
    obtain ⟨h1, h2, h3⟩ := h
    exact ⟨(hsame s (Nat.le_refl s)).trans h1, h2, ih h3 fun i hi => hsame i (Nat.le_of_succ_le hi)⟩

theorem Stored.drop (h : Stored buf s (name ++ text)) : Stored buf (s + name.length) text := by
  induction name generalizing s with
  | nil => exact h
  | cons c name ih =>
    have hrest := ih h.2.2
    rwa [List.length_cons, Nat.add_comm name.length, ← Nat.add_assoc]

/-- A NUL behind `name` ends the string there. -/
theorem Stored.take (h : Stored buf s (name ++ text)) (hsame : ∀ i, i < s + name.length → buf' i = buf i)
    (hend : buf' (s + name.length) = NUL) : Stored buf' s name := by
  induction name generalizing s with
  | nil => exact hend
  | cons c name ih =>
    obtain ⟨h1, h2, h3⟩ := h
    have hlen : s + (c :: name).length = s + 1 + name.length := by
      rw [List.length_cons]
      omega
    refine ⟨(hsame s (by omega)).trans h1, h2, ih h3 (fun i hi => hsame i (by omega)) (by rwa [← hlen])⟩

theorem Stored.cstr (h : Stored buf s text) (hn : text.length ≤ n) : cstr buf n s = text := by
  induction text generalizing s n with
  | nil =>
    cases n with
    | zero => rfl
    | succ n => exact if_pos h
  | cons c text ih =>
    obtain ⟨h1, h2, h3⟩ := h
    obtain ⟨n, rfl⟩ := Nat.exists_eq_succ_of_ne_zero (Nat.ne_of_gt (Nat.lt_of_lt_of_le (Nat.succ_pos _) hn))
    rw [Trace.cstr, if_neg (by rw [h1]; exact h2), h1, ih h3 (Nat.le_of_succ_le_succ hn)]

/-! ## The loops -/

theorem scan_plain (hc : buf s = c) (hplain : isPlain c = true) (hnul : c ≠ NUL) (n : Nat) :
    scan (n + 1) buf s isComment = scan n buf (s + 1) (isComment || c == '#') := by
  rw [scan]
  simp only [hc, if_neg hnul]
  by_cases hhash : c = '#'
  · rw [if_pos hhash]
    simp [hhash]
  · simp only [isPlain, isOp, isDelim, Bool.and_eq_true, Bool.not_eq_true', Bool.or_eq_false_iff, beq_eq_false_iff_ne] at hplain
    obtain ⟨⟨⟨heq, hplus⟩, hminus⟩, ⟨⟨⟨hcomma, hspace⟩, htab⟩, hnl⟩, hcr⟩ := hplain
    rw [if_neg hhash, if_neg heq, if_neg hminus, if_neg hplus, if_neg (by tauto)]
    have hbeq : (c == '#') = false := beq_false_of_ne hhash
    rw [hbeq, Bool.or_false]

/-- The first loop passes over a name. -/
theorem scan_name (isComment : Bool) (h : Stored buf s (name ++ text)) (hname : ∀ c ∈ name, isPlain c = true) (n : Nat) :
    scan (name.length + n) buf s isComment = scan n buf (s + name.length) (isComment || name.contains '#') := by
  induction name generalizing s isComment with
  | nil => simp
  | cons c name ih =>
    obtain ⟨h1, h2, h3⟩ := h
    obtain ⟨hc, hname⟩ := List.forall_mem_cons.mp hname
    have ih := ih (isComment || c == '#') h3 hname
    rw [List.length_cons, Nat.add_right_comm, scan_plain h1 hc h2, ih, Nat.add_right_comm s, Nat.add_assoc s,
      List.contains_cons, Bool.or_assoc, Bool.beq_comm (a := c)]

/-- Where the first loop stops behind an operator. -/
def skipped (c : Char) (t : List Char) : Nat := if c = '=' then (strtol t).2 else 0

/-- The first loop stops at an operator. -/
theorem scan_op (h : Stored buf s (c :: t)) (hop : isOp c = true) (hn : t.length ≤ n) :
    scan (n + 1) buf s isComment =
      some ⟨Function.update buf s NUL, s + 1 + skipped c t, valueOf c t, isComment⟩ := by
  obtain ⟨h1, h2, h3⟩ := h
  have h3' : Stored (Function.update buf s NUL) (s + 1) t :=
    h3.congr fun i hi => Function.update_of_ne (by omega) _ _
  simp only [isOp, Bool.or_eq_true, beq_iff_eq] at hop
  unfold skipped valueOf
  rw [scan]
  simp only [h1, if_neg h2]
  rcases hop with (rfl | rfl) | rfl
  · simp [h3'.cstr hn]
  · simp
  · simp

/-- The first loop stops at a delimiter, which is made a comma. -/
theorem scan_delim (h : Stored buf s (c :: t)) (hdelim : isDelim c = true) :
    scan (n + 1) buf s isComment = some ⟨Function.update buf s ',', s, 1, isComment⟩ := by
  obtain ⟨h1, h2, -⟩ := h
  simp only [isDelim, Bool.or_eq_true, beq_iff_eq] at hdelim
  rw [scan]
  simp only [h1, if_neg h2]
  rcases hdelim with (((rfl | rfl) | rfl) | rfl) | rfl <;> simp

/-- The second loop ends behind the next comma, which is made a NUL. -/
theorem setval_stored (h : Stored buf s t) (hn : t.length < n) :
    ∃ buf' s', setval n buf s = some (buf', s') ∧ Stored buf' s' (afterComma t) ∧ ∀ i < s, buf' i = buf i := by
  induction t generalizing s n with
  | nil =>
    obtain ⟨n, rfl⟩ := Nat.exists_eq_succ_of_ne_zero (Nat.ne_of_gt hn)
    exact ⟨buf, s, if_pos h, h, fun _ _ => rfl⟩
  | cons c t ih =>
    obtain ⟨n, rfl⟩ := Nat.exists_eq_succ_of_ne_zero (Nat.ne_of_gt (Nat.lt_trans (Nat.succ_pos _) hn))
    obtain ⟨h1, h2, h3⟩ := h
    rw [setval, if_neg (by rw [h1]; exact h2)]
    by_cases hc : c = ','
    · subst hc
      rw [if_pos h1]
      refine ⟨_, _, rfl, ?_, fun i hi => Function.update_of_ne (by omega) _ _⟩
      have hafter : afterComma (',' :: t) = t := by simp [afterComma]
      rw [hafter]
      exact h3.congr fun i hi => Function.update_of_ne (by omega) _ _
    · obtain ⟨buf', s', hrun, hstored, hsame⟩ := ih h3 (Nat.lt_of_succ_lt_succ hn)
      rw [if_neg (by rw [h1]; exact hc)]
      refine ⟨buf', s', hrun, ?_, fun i hi => hsame i (Nat.lt_succ_of_lt hi)⟩
      have hafter : afterComma (c :: t) = afterComma t := by simp [afterComma, hc]
      rwa [hafter]

theorem skipped_le (c : Char) (t : List Char) : skipped c t ≤ t.length := by
  unfold skipped
  split
  · exact readNumber_le t
  · exact Nat.zero_le _

theorem afterComma_drop_skipped (c : Char) (t : List Char) : afterComma (t.drop (skipped c t)) = afterComma t := by
  unfold skipped
  split
  · exact afterComma_drop_readNumber t
  · rw [List.drop_zero]

/-- What one round of the outer loop leaves: the rest of the text, and the name. -/
structure Round (buf : Buffer) (s n : Nat) (name : List Char) (val : Int) (rest : List Char) : Prop where
  runs : ∃ scanned buf' s', scan n buf s false = some scanned ∧ setval n scanned.buf scanned.s = some (buf', s') ∧
    scanned.val = val ∧ scanned.isComment = name.contains '#' ∧ cstr buf' n s = name ∧ Stored buf' s' rest

/-- Both loops, from where the first one stops. -/
theorem round_of_scan {val : Int} {s' : Nat} (h : Stored buf s (name ++ text))
    (hscan : scan n buf s false = some ⟨buf', s', val, name.contains '#'⟩) (ht : Stored buf' s' t) (hlen : t.length < n)
    (hname : name.length ≤ n) (hsame : ∀ i < s + name.length, buf' i = buf i)
    (hnul : ∀ {buf'' : Buffer} {s'' : Nat}, setval n buf' s' = some (buf'', s'') → buf'' (s + name.length) = NUL)
    (hle : s + name.length ≤ s') : Round buf s n name val (afterComma t) := by
  obtain ⟨buf'', s'', hsetval, hstored, hsame'⟩ := setval_stored ht hlen
  refine ⟨⟨_, buf'', s'', hscan, hsetval, rfl, rfl, ?_, hstored⟩⟩
  refine (h.take (fun i hi => ?_) (hnul hsetval)).cstr hname
  rw [hsame' i (Nat.lt_of_lt_of_le hi hle), hsame i hi]

theorem round_cut (h : Stored buf s (name ++ c :: t)) (hname : ∀ c ∈ name, isPlain c = true)
    (hc : isPlain c = false) (hn : name.length + t.length + 1 < n) :
    Round buf s n name (valueOf c t) (remaining c t) := by
  obtain ⟨k, rfl⟩ := Nat.exists_eq_add_of_lt hn
  have hscan := scan_name false h hname (t.length + 1 + k + 1)
  rw [Bool.false_or, show name.length + (t.length + 1 + k + 1) = name.length + t.length + 1 + k + 1 by omega] at hscan
  have hat := h.drop
  unfold remaining
  cases hop : isOp c with
  | true =>
    have hdelim : isDelim c = false := by
      simp only [isOp, Bool.or_eq_true, beq_iff_eq] at hop
      rcases hop with (rfl | rfl) | rfl <;> decide
    rw [scan_op hat hop (by omega)] at hscan
    have hrest : Stored (Function.update buf (s + name.length) NUL) (s + name.length + 1) t :=
      hat.2.2.congr fun i hi => Function.update_of_ne (by omega) _ _
    rw [← List.take_append_drop (skipped c t) t] at hrest
    have hrest := hrest.drop
    rw [List.length_take, Nat.min_eq_left (skipped_le c t)] at hrest
    have hlen : (t.drop (skipped c t)).length < name.length + t.length + 1 + k + 1 := by
      rw [List.length_drop]
      omega
    have hround := round_of_scan h hscan hrest hlen (by omega) (fun i hi => Function.update_of_ne (by omega) _ _)
      (fun {buf'' s''} hsetval => ?_) (by omega)
    · rw [afterComma_drop_skipped] at hround
      rwa [hdelim]
    · obtain ⟨_, _, hsetval', -, hsame⟩ := setval_stored hrest hlen
      rw [hsetval'] at hsetval
      obtain ⟨rfl, rfl⟩ := Prod.mk.inj (Option.some.inj hsetval)
      rw [hsame _ (by omega), Function.update_self]
  | false =>
    have hdelim : isDelim c = true := by simpa [isPlain, hop] using hc
    rw [scan_delim hat hdelim] at hscan
    have hcomma : Stored (Function.update buf (s + name.length) ',') (s + name.length) (',' :: t) :=
      ⟨Function.update_self _ _ _, by decide, hat.2.2.congr fun i hi => Function.update_of_ne (by omega) _ _⟩
    have hval : valueOf c t = 1 := by
      simp only [isOp, Bool.or_eq_false_iff, beq_eq_false_iff_ne] at hop
      rw [valueOf, if_neg hop.1.1, if_neg hop.2]
    have hafter : afterComma (',' :: t) = t := by simp [afterComma]
    have hround := round_of_scan h hscan hcomma (by rw [List.length_cons]; omega) (by omega)
      (fun i hi => Function.update_of_ne (by omega) _ _) (fun {buf'' s''} hsetval => ?_) (Nat.le_refl _)
    · rw [hafter] at hround
      rwa [hdelim, hval]
    · rw [setval, if_neg (by rw [hcomma.1]; decide), if_pos hcomma.1] at hsetval
      obtain ⟨rfl, rfl⟩ := Prod.mk.inj (Option.some.inj hsetval)
      exact Function.update_self _ _ _

theorem round_plain (h : Stored buf s name) (hname : ∀ c ∈ name, isPlain c = true) (hn : name.length + 1 < n) :
    Round buf s n name 1 [] := by
  obtain ⟨k, rfl⟩ := Nat.exists_eq_add_of_lt hn
  rw [← List.append_nil name] at h
  have hscan := scan_name false h hname (1 + k + 1)
  have hend : buf (s + name.length) = NUL := h.drop
  have hstop : scan (1 + k + 1) buf (s + name.length) (name.contains '#') =
      some ⟨buf, s + name.length, 1, name.contains '#'⟩ := if_pos hend
  rw [Bool.false_or, show name.length + (1 + k + 1) = name.length + 1 + k + 1 by omega, hstop] at hscan
  have hnil : Stored buf (s + name.length) [] := hend
  refine round_of_scan h hscan hnil (by simp) (by omega) (fun _ _ => rfl) (fun {buf'' s''} hsetval => ?_) (Nat.le_refl _)
  rw [setval, if_pos hend] at hsetval
  obtain ⟨rfl, rfl⟩ := Prod.mk.inj (Option.some.inj hsetval)
  exact hend

theorem Round.parseLoop {val : Int} {rest : List Char} {events : List Event} (h : Round buf s n name val rest)
    (hs : buf s ≠ NUL) (hrest : ∀ {buf' s'}, Stored buf' s' rest → parseLoop n buf' s' = some events) :
    parseLoop (n + 1) buf s = some (assign name val (name.contains '#') ++ events) := by
  obtain ⟨scanned, buf', s', hscan, hsetval, hval, hcomment, hname, hstored⟩ := h.runs
  rw [Trace.parseLoop, if_neg hs]
  simp only [hscan, hsetval, hrest hstored, hname, hval, hcomment, Option.bind_eq_bind, Option.bind_some]
  rfl

/-- With rounds enough, `parse_options` does what its text says. -/
theorem parseLoop_stored (h : Stored buf s text) (hn : text.length + 2 < n) : parseLoop n buf s = some (parseText text) := by
  induction hk : text.length using Nat.strong_induction_on generalizing text buf s n with
  | _ k ih =>
    obtain ⟨n, rfl⟩ := Nat.exists_eq_succ_of_ne_zero (Nat.ne_of_gt (Nat.lt_trans (Nat.succ_pos _) hn))
    have hnil : ∀ {n buf s}, Stored buf s [] → 0 < n → parseLoop n buf s = some [] := by
      intro n buf s hnul hpos
      obtain ⟨n, rfl⟩ := Nat.exists_eq_succ_of_ne_zero (Nat.ne_of_gt hpos)
      exact if_pos hnul
    by_cases hempty : text = []
    · subst hempty
      rw [hnil h (Nat.succ_pos n), parseText_plain fun _ hc => absurd hc List.not_mem_nil]
      rfl
    have hs : buf s ≠ NUL := by
      cases text with
      | nil => exact absurd rfl hempty
      | cons c text =>
        rw [h.1]
        exact h.2.1
    have hcases : (∀ c ∈ text, (!isPlain c) = false) ∨ ∃ name c t, text = name ++ c :: t ∧
      (∀ c ∈ name, (!isPlain c) = false) ∧ (!isPlain c) = true := cases_cut _ text
    simp only [Bool.not_eq_false', Bool.not_eq_true'] at hcases
    rcases hcases with hplain | ⟨name, c, t, rfl, hname, hc⟩
    · have hround := round_plain h hplain (n := n) (by omega)
      have hrun := hround.parseLoop hs fun hstored => hnil hstored (by omega)
      rw [List.append_nil] at hrun
      rw [hrun, parseText_plain hplain]
    · have hlen : (name ++ c :: t).length = name.length + t.length + 1 := by
        rw [List.length_append, List.length_cons]
        omega
      have hle := length_remaining_le c t
      have hround := round_cut h hname hc (n := n) (by omega)
      have hrun := hround.parseLoop hs fun hstored => ih _ (by omega) hstored (by omega) rfl
      rw [hrun, parseText_cut hname hc]

end PostgresV7.Trace
