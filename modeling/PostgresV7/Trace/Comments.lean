import PostgresV7.Trace.Options

/-!
# Comments in an options file

The text of an options file without its comments, and what is left of it when the line breaks behind the
comments go with them.
-/

namespace PostgresV7.Trace

open Pieces

/-- The text with every comment deleted, from `#` to the end of its line, and the line breaks kept. -/
def stripComments : Bool → List Char → List Char
  | _, [] => []
  | true, x :: text => if x = '\n' then x :: stripComments false text else stripComments true text
  | false, x :: text => if x = '#' then stripComments true text else x :: stripComments false text

/-- The text with every comment deleted and the line break behind it. -/
def eatComments : Bool → List Char → List Char
  | _, [] => []
  | true, x :: text => eatComments (x != '\n') text
  | false, x :: text => if x = '#' then eatComments true text else x :: eatComments false text

def isBlank (c : Char) : Bool := c == ' ' || c == '\t' || c == '\n' || c == '\r'

/-- White space is made a comma, but not behind a comma; `c` is the last character before the text. -/
def collapseText : Bool → Char → List Char → List Char
  | _, _, [] => []
  | true, c, x :: text => collapseText (x != '\n') c text
  | false, c, x :: text =>
    if x = '#' then collapseText true c text
    else if isBlank x then
      if c = ',' then collapseText false c text else ',' :: collapseText false ',' text
    else x :: collapseText false x text

/-- Somewhere an option stands directly before comments, and the line behind them begins directly with an
option. `option` says that an option stands before the text, `broken` that a comment with its line break is
in between. -/
def joined : Bool → Bool → Bool → List Char → Bool
  | _, _, _, [] => false
  | true, option, broken, x :: text =>
    if x = '\n' then joined false option true text else joined true option broken text
  | false, option, broken, x :: text =>
    if x = '#' then joined true option broken text
    else if isDelim x then joined false false false text
    else (option && broken) || joined false true false text

variable {text cur : List Char} {comment : Bool} {c x : Char}

theorem isDelim_iff (x : Char) : isDelim x = true ↔ x = ',' ∨ isBlank x = true := by
  simp only [isDelim, isBlank, Bool.or_eq_true, beq_iff_eq, or_assoc]

/-! ## The line breaks that go -/

/-- The pieces that the text has by its line breaks, when `cur` stands before it. -/
def brokenPieces (cur : List Char) (comment broken : Bool) (text : List Char) : List (List Char) :=
  if broken then closed cur ++ pieces isDelim (stripComments comment text)
  else pieces isDelim (cur ++ stripComments comment text)

theorem brokenPieces_delim (hcur : ∀ c ∈ cur, isDelim c = false) (hx : isDelim x = true) (hne : x ≠ '#') (broken : Bool) :
    brokenPieces cur false broken (x :: text) = closed cur ++ pieces isDelim (stripComments false text) := by
  unfold brokenPieces
  rw [stripComments, if_neg hne]
  cases broken with
  | true => rw [if_pos rfl, pieces_cons _ hx]
  | false => rw [if_neg Bool.false_ne_true, pieces_cut _ hcur hx]

theorem brokenPieces_newline (hcur : ∀ c ∈ cur, isDelim c = false) (broken : Bool) :
    brokenPieces cur true broken ('\n' :: text) = brokenPieces cur false true text := by
  have hnewline : isDelim '\n' = true := by decide
  unfold brokenPieces
  rw [stripComments, if_pos rfl, if_pos rfl]
  cases broken with
  | true => rw [if_pos rfl, pieces_cons _ hnewline]
  | false => rw [if_neg Bool.false_ne_true, pieces_cut _ hcur hnewline]

/-- Without the line breaks behind the comments the pieces are the same if nothing is joined; they are
fewer if something is. -/
theorem eatComments_pieces (hcur : ∀ c ∈ cur, isDelim c = false) (comment broken : Bool) (text : List Char) :
    if joined comment (!cur.isEmpty) broken text then
      (pieces isDelim (cur ++ eatComments comment text)).length < (brokenPieces cur comment broken text).length
    else pieces isDelim (cur ++ eatComments comment text) = brokenPieces cur comment broken text := by
  induction text generalizing cur comment broken with
  | nil =>
    cases comment <;> cases broken <;>
      simp [joined, eatComments, brokenPieces, stripComments, pieces_nil, pieces_of_none hcur]
  | cons x text ih =>
    cases comment with
    | true =>
      by_cases hx : x = '\n'
      · subst hx
        rw [brokenPieces_newline hcur, joined, if_pos rfl, eatComments]
        exact ih hcur false true
      · have hbroken : brokenPieces cur true broken (x :: text) = brokenPieces cur true broken text := by
          unfold brokenPieces
          rw [stripComments, if_neg hx]
        have hcomment : (x != '\n') = true := by simpa using hx
        rw [hbroken, joined, if_neg hx, eatComments, hcomment]
        exact ih hcur true broken
    | false =>
      by_cases hx : x = '#'
      · have hbroken : brokenPieces cur false broken (x :: text) = brokenPieces cur true broken text := by
          unfold brokenPieces
          rw [stripComments, if_pos hx]
        rw [hbroken, joined, if_pos hx, eatComments, if_pos hx]
        exact ih hcur true broken
      · rw [joined, if_neg hx, eatComments, if_neg hx]
        cases hdelim : isDelim x with
        | true =>
          -- a delimiter ends what has been begun, with or without a line break before it
          have hnil := ih (List.forall_mem_nil _) false false
          rw [brokenPieces_delim hcur hdelim hx, pieces_cut _ hcur hdelim, if_pos rfl]
          rw [brokenPieces, if_neg Bool.false_ne_true, List.nil_append, List.nil_append] at hnil
          split at hnil
          · rw [if_pos ‹_›, List.length_append, List.length_append]
            exact Nat.add_lt_add_left hnil _
          · rw [if_neg ‹_›, hnil]
        | false =>
          have hsnoc : ∀ c ∈ cur ++ [x], isDelim c = false :=
            List.forall_mem_append.mpr ⟨hcur, List.forall_mem_singleton.mpr hdelim⟩
          have hlonger := ih hsnoc false false
          have hne : (!(cur ++ [x]).isEmpty) = true := by cases cur <;> rfl
          rw [hne, brokenPieces, if_neg Bool.false_ne_true] at hlonger
          rw [if_neg Bool.false_ne_true, brokenPieces, stripComments, if_neg hx, List.append_cons,
            List.append_cons _ _ (stripComments false text)]
          cases cur with
          | nil => cases broken <;> exact hlonger
          | cons y cur =>
            cases broken with
            | false => exact hlonger
            | true =>
              -- the line break had made two pieces of what is now one
              have hone := ih (List.forall_mem_singleton.mpr hdelim) false false
              have hle : (pieces isDelim ([x] ++ eatComments false text)).length ≤
                  (pieces isDelim ([x] ++ stripComments false text)).length := by
                rw [brokenPieces, if_neg Bool.false_ne_true] at hone
                split at hone
                · exact Nat.le_of_lt hone
                · exact Nat.le_of_eq (congrArg List.length hone)
              have hsame := length_pieces_append hsnoc (List.forall_mem_singleton.mpr hdelim) (by simp) (by simp)
                (eatComments false text)
              have hjoined : (!(y :: cur).isEmpty && true || joined false true false text) = true := rfl
              rw [if_pos hjoined, if_pos rfl, hsame, List.length_append]
              exact Nat.lt_of_le_of_lt hle (Nat.lt_add_of_pos_left Nat.one_pos)

/-! ## The commas -/

/-- White space made commas, and commas left out behind a comma, do not change the pieces. -/
theorem collapseText_pieces (hcur : ∀ c ∈ cur, isDelim c = false) (hc : c = ',' → cur = []) (comment : Bool)
    (text : List Char) :
    pieces isDelim (cur ++ collapseText comment c text) = pieces isDelim (cur ++ eatComments comment text) := by
  induction text generalizing cur comment c with
  | nil => cases comment <;> rfl
  | cons x text ih =>
    cases comment with
    | true => exact ih hcur hc _
    | false =>
      by_cases hx : x = '#'
      · rw [collapseText, eatComments, if_pos hx, if_pos hx]
        exact ih hcur hc true
      have hnil {c : Char} := ih (c := c) (List.forall_mem_nil _) (fun _ => rfl) false
      simp only [List.nil_append] at hnil
      rw [collapseText, eatComments, if_neg hx, if_neg hx]
      cases hblank : isBlank x with
      | true =>
        rw [if_pos rfl, pieces_cut _ hcur ((isDelim_iff x).mpr (.inr hblank)), ← hnil (c := ',')]
        by_cases hcomma : c = ','
        · rw [if_pos hcomma, hc hcomma, hcomma]
          rfl
        · rw [if_neg hcomma, pieces_cut _ hcur (by decide)]
      | false =>
        rw [if_neg Bool.false_ne_true]
        cases hdelim : isDelim x with
        | true => rw [pieces_cut _ hcur hdelim, pieces_cut _ hcur hdelim, hnil]
        | false =>
          rw [List.append_cons, List.append_cons _ _ (eatComments false text)]
          refine ih (List.forall_mem_append.mpr ⟨hcur, List.forall_mem_singleton.mpr hdelim⟩) (fun hcomma => ?_) false
          rw [hcomma] at hdelim
          cases hdelim

/-- The text without a comma at its end. -/
def dropComma (text : List Char) : List Char := if text.getLast? = some ',' then text.dropLast else text

theorem dropComma_pieces (text : List Char) : pieces isDelim (dropComma text) = pieces isDelim text := by
  unfold dropComma
  split
  · rename_i hlast
    obtain ⟨text, rfl⟩ := List.getLast?_eq_some_iff.mp hlast
    rw [List.dropLast_concat, pieces_append_cons text [] (by decide), pieces_nil, List.append_nil]
  · rfl

/-! ## NUL -/

theorem mem_collapseText_iff (comment : Bool) (c : Char) (text : List Char) :
    NUL ∈ collapseText comment c text ↔ NUL ∈ stripComments comment text := by
  have hkept : ∀ {x : Char} {text text' : List Char}, x ≠ NUL → (NUL ∈ text ↔ NUL ∈ text') → (NUL ∈ text ↔ NUL ∈ x :: text') :=
    fun hx h => by rw [h, List.mem_cons, or_iff_right (Ne.symm hx)]
  induction text generalizing comment c with
  | nil => cases comment <;> rfl
  | cons x text ih =>
    cases comment with
    | true =>
      rw [collapseText, stripComments]
      by_cases hx : x = '\n'
      · subst hx
        rw [if_pos rfl]
        exact hkept (by decide) (ih _ c)
      · rw [if_neg hx, bne_iff_ne.mpr hx]
        exact ih true c
    | false =>
      rw [collapseText, stripComments]
      by_cases hx : x = '#'
      · rw [if_pos hx, if_pos hx]
        exact ih true c
      rw [if_neg hx, if_neg hx]
      cases hblank : isBlank x with
      | true =>
        have hne : x ≠ NUL := by
          rintro rfl
          exact absurd hblank (by decide)
        rw [if_pos rfl]
        split
        · exact hkept hne (ih false c)
        · rw [← hkept hne (ih false ',')]
          exact (hkept (by decide) Iff.rfl).symm
      | false =>
        rw [if_neg Bool.false_ne_true, List.mem_cons, List.mem_cons]
        exact or_congr Iff.rfl (ih false x)

theorem mem_dropComma_iff (text : List Char) : NUL ∈ dropComma text ↔ NUL ∈ text := by
  unfold dropComma
  split
  · rename_i hlast
    obtain ⟨text, rfl⟩ := List.getLast?_eq_some_iff.mp hlast
    rw [List.dropLast_concat, List.mem_append, List.mem_singleton, or_iff_left (by decide)]
  · rfl

/-! ## The options -/

/-- The C string in a text. -/
def untilNul (text : List Char) : List Char := text.takeWhile (· != NUL)

theorem untilNul_eq (h : NUL ∉ text) : untilNul text = text :=
  List.takeWhile_eq_self_iff.mpr fun c hc => by simpa using fun heq : c = NUL => h (heq ▸ hc)

theorem not_mem_untilNul (text : List Char) : NUL ∉ untilNul text := fun hmem => by
  simpa using List.mem_takeWhile_imp hmem

/-- The collapsed string holds the options of the text without its comments, unless there is a NUL among
them or two of them have been joined. -/
theorem collapsed_pieces_iff (text : List Char) :
    pieces isDelim (untilNul (dropComma (collapseText false NUL text))) = pieces isDelim (stripComments false text) ↔
      NUL ∉ stripComments false text ∧ joined false false false text = false := by
  have hnul : NUL ∈ dropComma (collapseText false NUL text) ↔ NUL ∈ stripComments false text :=
    (mem_dropComma_iff _).trans (mem_collapseText_iff false NUL text)
  by_cases hmem : NUL ∈ stripComments false text
  · refine iff_of_false (fun heq => ?_) fun h => h.1 hmem
    obtain ⟨piece, hpiece, hin⟩ := exists_mem_pieces hmem (by decide : isDelim NUL = false)
    rw [← heq] at hpiece
    exact not_mem_untilNul _ (mem_of_mem_pieces hpiece hin)
  · have heaten := eatComments_pieces (List.forall_mem_nil _) false false text
    have hcommas := collapseText_pieces (c := NUL) (List.forall_mem_nil _) (fun _ => rfl) false text
    rw [List.nil_append, List.nil_append] at hcommas
    rw [brokenPieces, if_neg Bool.false_ne_true, List.nil_append, List.nil_append, List.isEmpty_nil, Bool.not_true,
      ← hcommas] at heaten
    rw [untilNul_eq (mt hnul.mp hmem), dropComma_pieces, and_iff_right hmem]
    cases hjoined : joined false false false text with
    | true =>
      rw [hjoined, if_pos rfl] at heaten
      exact iff_of_false (fun heq => Nat.ne_of_lt heaten (congrArg List.length heq)) (Ne.symm Bool.false_ne_true)
    | false =>
      rw [hjoined, if_neg Bool.false_ne_true] at heaten
      exact iff_of_true heaten rfl

end PostgresV7.Trace
