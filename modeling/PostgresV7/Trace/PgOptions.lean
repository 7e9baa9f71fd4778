import PostgresV7.Trace.Items
import PostgresV7.Trace.Comments

/-!
# The options file (`trace.c`)

`read_pg_options` reads the file into its buffer and collapses it in place, with one position for reading
and one for writing.
-/

namespace PostgresV7.Trace

def BUF_SIZE : Nat := 4096

/-- The variables of the loop. `writes` says of every store where it goes and how far has been read. -/
structure Collapse where
  buf : Buffer
  s : Nat
  p : Nat
  c : Char
  writes : List (Nat × Nat)

namespace Collapse

/-- `c = *p++ = x`. -/
def put (st : Collapse) (x : Char) : Collapse :=
  { st with buf := Function.update st.buf st.p x, p := st.p + 1, c := x, writes := st.writes ++ [(st.p, st.s)] }

/-- `s++`. -/
def next (st : Collapse) : Collapse := { st with s := st.s + 1 }

/-- Where a comment ends: behind its line break, or where nothing more has been read. -/
def skipLine (buf : Buffer) (n s : Nat) : Nat :=
  if s < n then if buf s = '\n' then s + 1 else skipLine buf n (s + 1) else s
termination_by n - s

/-- One round of the loop. -/
def round (n : Nat) (st : Collapse) : Collapse :=
  let x := st.buf st.s
  if x = '#' then { st with s := skipLine st.buf n st.s }
  else if x = ' ' ∨ x = '\t' ∨ x = '\n' ∨ x = '\r' then
    if st.c ≠ ',' then (st.put ',').next else st.next
  else (st.put x).next

theorem le_skipLine (buf : Buffer) (n s : Nat) : s ≤ skipLine buf n s := by
  fun_induction skipLine buf n s with
  | case1 s => exact Nat.le_succ s
  | case2 s _ _ ih => exact Nat.le_of_succ_le ih
  | case3 s => exact Nat.le_refl s

theorem skipLine_comment {buf : Buffer} {n s : Nat} (hs : s < n) (hx : buf s = '#') :
    skipLine buf n s = skipLine buf n (s + 1) := by
  rw [skipLine, if_pos hs, if_neg (by rw [hx]; decide)]

/-- Every round reads on. -/
theorem lt_round {n : Nat} {st : Collapse} (hs : st.s < n) : st.s < (st.round n).s := by
  unfold round
  dsimp only
  split
  · rw [skipLine_comment hs ‹_›]
    exact le_skipLine st.buf n (st.s + 1)
  · split
    · split <;> exact Nat.lt_succ_self st.s
    · exact Nat.lt_succ_self st.s

/-- The loop over the `n` characters that have been read. -/
def loop (n : Nat) (st : Collapse) : Collapse :=
  if h : st.s < n then
    have := lt_round h
    loop n (st.round n)
  else st
termination_by n - st.s

/-- A comma at the end is taken back, and the string is ended. -/
def finish (st : Collapse) : Collapse :=
  let p := if st.c = ',' then st.p - 1 else st.p
  { st with buf := Function.update st.buf p NUL, p := p, writes := st.writes ++ [(p, st.s)] }

end Collapse

/-- The buffer with the first `n` characters of the file. -/
def load (buffer : Buffer) (file : List Char) (n : Nat) : Buffer :=
  fun i => if i < n then file.getD i NUL else buffer i

/-- The collapsed buffer, if something has been read. -/
def collapse (buffer : Buffer) (file : List Char) : Option Collapse :=
  let n := min file.length (BUF_SIZE - 1)
  if n > 0 then some (Collapse.loop n ⟨load buffer file n, 0, 0, NUL, []⟩).finish else none

/-- The string that `parse_options` is given. -/
def collapsedText : Option Collapse → List Char
  | none => []
  | some st => cstr st.buf BUF_SIZE 0

/-- `read_pg_options` where the file could be opened, with what the buffer held before. -/
def readPgOptions (rounds : Nat) (buffer : Buffer) (file : List Char) : Option (List Event) :=
  match collapse buffer file with
  | none => some []
  | some st => parseOptions rounds st.buf true

/-! ## The buffer as a text -/

/-- `text` is in the buffer from `s` on. -/
def Holds (buf : Buffer) : Nat → List Char → Prop
  | _, [] => True
  | s, c :: text => buf s = c ∧ Holds buf (s + 1) text

variable {buf buf' : Buffer} {s n : Nat} {text done rest file : List Char} {x y : Char} {st : Collapse}

theorem Holds.congr (h : Holds buf s text) (hsame : ∀ i, s ≤ i → i < s + text.length → buf' i = buf i) :
    Holds buf' s text := by
  induction text generalizing s with
  | nil => exact h
  | cons c text ih =>
    rw [List.length_cons] at hsame
    exact ⟨(hsame s (Nat.le_refl s) (by omega)).trans h.1, ih h.2 fun i hi hlt => hsame i (by omega) (by omega)⟩

theorem Holds.append (h : Holds buf s text) (hrest : Holds buf (s + text.length) rest) : Holds buf s (text ++ rest) := by
  induction text generalizing s with
  | nil => exact hrest
  | cons c text ih =>
    rw [List.length_cons, Nat.add_comm text.length, ← Nat.add_assoc] at hrest
    exact ⟨h.1, ih h.2 hrest⟩

theorem Holds.left (h : Holds buf s (text ++ rest)) : Holds buf s text := by
  induction text generalizing s with
  | nil => trivial
  | cons c text ih => exact ⟨h.1, ih h.2⟩

/-- With a NUL behind it, or in it, a text is a C string. -/
theorem Holds.stored (h : Holds buf s text) (hend : buf (s + text.length) = NUL) : Stored buf s (untilNul text) := by
  induction text generalizing s with
  | nil => exact hend
  | cons c text ih =>
    obtain ⟨hc, hrest⟩ := h
    rw [List.length_cons, Nat.add_comm text.length, ← Nat.add_assoc] at hend
    unfold untilNul
    by_cases hnul : c = NUL
    · rw [List.takeWhile_cons_of_neg (by simpa using hnul)]
      exact hc.trans hnul
    · rw [List.takeWhile_cons_of_pos (by simpa using hnul)]
      exact ⟨hc, hnul, ih hrest hend⟩

theorem holds_load (buffer : Buffer) (file : List Char) : Holds (load buffer file file.length) 0 file := by
  have hholds : ∀ {buf : Buffer} {s : Nat} {text : List Char}, (∀ i < text.length, buf (s + i) = text.getD i NUL) →
      Holds buf s text := by
    intro buf s text
    induction text generalizing s with
    | nil => exact fun _ => trivial
    | cons c text ih =>
      refine fun hbuf => ⟨hbuf 0 (Nat.succ_pos _), ih fun i hi => ?_⟩
      rw [Nat.add_assoc, Nat.add_comm 1]
      exact hbuf (i + 1) (Nat.succ_lt_succ hi)
  exact hholds fun i hi => by rw [Nat.zero_add, load, if_pos hi]

/-! ## The loop -/

/-- In the loop `done` has been written and `rest` is unread; no write was ahead of the reads. -/
structure Collapsing (n : Nat) (st : Collapse) (done rest : List Char) : Prop where
  unread : Holds st.buf st.s rest
  written : Holds st.buf 0 done
  length_rest : st.s + rest.length = n
  length_done : st.p = done.length
  behind : st.p ≤ st.s
  last : st.c = done.getLastD NUL
  writes : ∀ w ∈ st.writes, w.1 ≤ w.2 ∧ w.2 ≤ n

theorem Collapsing.next (h : Collapsing n st done (x :: rest)) : Collapsing n st.next done rest where
  unread := h.unread.2
  written := h.written
  length_rest := by
    have hlen := h.length_rest
    rw [List.length_cons] at hlen
    show st.s + 1 + rest.length = n
    omega
  length_done := h.length_done
  behind := Nat.le_succ_of_le h.behind
  last := h.last
  writes := h.writes

theorem Collapsing.put (h : Collapsing n st done (x :: rest)) (y : Char) :
    Collapsing n (st.put y).next (done ++ [y]) rest := by
  have hnext := h.next
  have hle := h.behind
  have hlen := h.length_done
  have hn := h.length_rest
  refine ⟨hnext.unread.congr fun i hi _ => Function.update_of_ne ?_ _ _, ?_, hnext.length_rest, ?_,
    Nat.succ_le_succ hle, ?_, ?_⟩
  · have hi : st.s + 1 ≤ i := hi
    omega
  · refine Holds.append (h.written.congr fun i _ hi => Function.update_of_ne (by omega) _ _) ⟨?_, trivial⟩
    rw [Nat.zero_add, ← hlen]
    exact Function.update_self _ _ _
  · rw [List.length_append, List.length_singleton, ← hlen]
    rfl
  · rw [List.getLastD_concat]
    rfl
  · intro w hw
    rcases List.mem_append.mp hw with hw | hw
    · exact h.writes w hw
    · rw [List.mem_singleton.mp hw]
      exact ⟨hle, by omega⟩

/-- A comment is passed over with its line break. -/
theorem skipLine_holds (h : Holds buf s rest) (hn : s + rest.length = n) :
    ∃ rest', Holds buf (Collapse.skipLine buf n s) rest' ∧ Collapse.skipLine buf n s + rest'.length = n ∧
      ∀ c, collapseText true c rest = collapseText false c rest' := by
  induction rest generalizing s with
  | nil =>
    have hstop : Collapse.skipLine buf n s = s := by rw [Collapse.skipLine, if_neg (by rw [← hn]; simp)]
    rw [hstop]
    exact ⟨[], h, hn, fun _ => rfl⟩
  | cons x rest ih =>
    obtain ⟨hx, hrest⟩ := h
    rw [List.length_cons] at hn
    rw [Collapse.skipLine, if_pos (by omega), hx]
    by_cases hnewline : x = '\n'
    · rw [if_pos hnewline]
      refine ⟨rest, hrest, by omega, fun c => ?_⟩
      rw [collapseText, hnewline]
      rfl
    · obtain ⟨rest', hholds, hlen, hsame⟩ := ih hrest (by omega)
      rw [if_neg hnewline]
      refine ⟨rest', hholds, hlen, fun c => ?_⟩
      rw [collapseText, bne_iff_ne.mpr hnewline]
      exact hsame c

theorem isBlank_iff (x : Char) : isBlank x = true ↔ x = ' ' ∨ x = '\t' ∨ x = '\n' ∨ x = '\r' := by
  simp only [isBlank, Bool.or_eq_true, beq_iff_eq, or_assoc]

/-- What a round reads and writes. -/
theorem Collapsing.round (h : Collapsing n st done (x :: rest)) :
    ∃ done' rest', Collapsing n (st.round n) done' rest' ∧
      done' ++ collapseText false (st.round n).c rest' = done ++ collapseText false st.c (x :: rest) := by
  have hx : st.buf st.s = x := h.unread.1
  have hs : st.s < n := by
    have hlen := h.length_rest
    rw [List.length_cons] at hlen
    omega
  unfold Collapse.round
  dsimp only
  rw [hx, collapseText]
  by_cases hcomment : x = '#'
  · have hnext := h.next
    obtain ⟨rest', hholds, hlen, hsame⟩ := skipLine_holds hnext.unread hnext.length_rest
    have hskip : Collapse.skipLine st.buf n st.s = Collapse.skipLine st.buf n (st.s + 1) :=
      Collapse.skipLine_comment hs (hx.trans hcomment)
    rw [if_pos hcomment, if_pos hcomment, hskip, hsame]
    have hle : st.p ≤ Collapse.skipLine st.buf n (st.s + 1) :=
      Nat.le_trans hnext.behind (Collapse.le_skipLine st.buf n (st.s + 1))
    exact ⟨done, rest', ⟨hholds, h.written, hlen, h.length_done, hle, h.last, h.writes⟩, rfl⟩
  rw [if_neg hcomment, if_neg hcomment]
  by_cases hblank : isBlank x = true
  · rw [if_pos hblank, if_pos ((isBlank_iff x).mp hblank)]
    by_cases hcomma : st.c = ','
    · rw [if_pos hcomma, if_neg (not_not.mpr hcomma)]
      exact ⟨done, rest, h.next, rfl⟩
    · rw [if_neg hcomma, if_pos hcomma]
      exact ⟨_, _, h.put ',', (List.append_cons done ',' _).symm⟩
  · rw [if_neg hblank, if_neg (mt (isBlank_iff x).mpr hblank)]
    exact ⟨_, _, h.put x, (List.append_cons done x _).symm⟩

theorem Collapsing.loop (h : Collapsing n st done rest) :
    Collapsing n (st.loop n) (done ++ collapseText false st.c rest) [] := by
  induction hk : n - st.s using Nat.strong_induction_on generalizing st done rest with
  | _ k ih =>
    rw [Collapse.loop]
    split
    · rename_i hs
      cases rest with
      | nil =>
        have hlen := h.length_rest
        rw [List.length_nil] at hlen
        omega
      | cons x rest =>
        obtain ⟨done', rest', hround, heq⟩ := h.round
        have hlt := Collapse.lt_round hs
        rw [← heq]
        exact ih _ (by omega) hround rfl
    · have hlen := h.length_rest
      cases rest with
      | nil =>
        rw [collapseText, List.append_nil]
        exact h
      | cons x rest =>
        rw [List.length_cons] at hlen
        omega

/-- What is in the buffer in the end. -/
structure Collapsed (st : Collapse) (text : List Char) : Prop where
  holds : Holds st.buf 0 text
  ends : st.buf text.length = NUL
  length_lt : text.length < BUF_SIZE
  writes : ∀ w ∈ st.writes, w.1 ≤ w.2 ∧ w.1 < BUF_SIZE

theorem Collapsing.finish (h : Collapsing n st done []) (hn : n < BUF_SIZE) : Collapsed st.finish (dropComma done) := by
  have hlast : st.c = ',' ↔ done.getLast? = some ',' := by
    rw [h.last, List.getLastD_eq_getLast?]
    cases done.getLast? with
    | none => exact iff_of_false (by decide) (by simp)
    | some c => simp
  have hp : st.finish.p = (dropComma done).length := by
    unfold Collapse.finish dropComma
    dsimp only
    simp only [hlast]
    split
    · rw [List.length_dropLast, h.length_done]
    · exact h.length_done
  have hbuf : st.finish.buf = Function.update st.buf st.finish.p NUL := rfl
  have hle : st.finish.p ≤ st.s := by
    refine Nat.le_trans ?_ h.behind
    unfold Collapse.finish
    dsimp only
    split
    · exact Nat.sub_le _ 1
    · exact Nat.le_refl _
  have hs : st.s = n := h.length_rest
  refine ⟨?_, ?_, ?_, fun w hw => ?_⟩
  · rw [hbuf, hp]
    have hdrop : Holds st.buf 0 (dropComma done) := by
      unfold dropComma
      split
      · have hdone := h.written
        rw [← List.dropLast_append_getLast? _ ‹done.getLast? = some ','›] at hdone
        exact hdone.left
      · exact h.written
    exact hdrop.congr fun i _ hi => Function.update_of_ne (by omega) _ _
  · rw [hbuf, hp]
    exact Function.update_self _ _ _
  · omega
  · rcases List.mem_append.mp hw with hw | hw
    · have hwrite := h.writes w hw
      exact ⟨hwrite.1, by omega⟩
    · rw [List.mem_singleton.mp hw]
      exact ⟨hle, by show st.finish.p < BUF_SIZE; omega⟩

/-- A file that fits in the buffer is collapsed as a text. -/
theorem collapse_eq (buffer : Buffer) (hfile : file.length ≤ BUF_SIZE - 1) :
    (file = [] ∧ collapse buffer file = none) ∨
      ∃ st, collapse buffer file = some st ∧ Collapsed st (dropComma (collapseText false NUL file)) := by
  by_cases hempty : file = []
  · subst hempty
    exact .inl ⟨rfl, rfl⟩
  · refine .inr ⟨(Collapse.loop file.length ⟨load buffer file file.length, 0, 0, NUL, []⟩).finish, ?_, ?_⟩
    · unfold collapse
      dsimp only
      rw [Nat.min_eq_left hfile, if_pos (List.length_pos_iff.mpr hempty)]
    · have hstart : Collapsing file.length ⟨load buffer file file.length, 0, 0, NUL, []⟩ [] file :=
        ⟨holds_load buffer file, trivial, Nat.zero_add _, rfl, Nat.le_refl _, rfl, fun _ hw => absurd hw List.not_mem_nil⟩
      exact hstart.loop.finish (Nat.lt_of_le_of_lt hfile (by decide))

theorem Collapsed.stored (h : Collapsed st text) : Stored st.buf 0 (untilNul text) :=
  h.holds.stored (by rw [Nat.zero_add]; exact h.ends)

theorem length_untilNul_le (text : List Char) : (untilNul text).length ≤ text.length :=
  (List.takeWhile_prefix _).length_le

theorem Collapsed.text_eq (h : Collapsed st text) : collapsedText (some st) = untilNul text :=
  h.stored.cstr (Nat.le_trans (length_untilNul_le text) (Nat.le_of_lt h.length_lt))

theorem collapsedText_eq (buffer : Buffer) (hfile : file.length ≤ BUF_SIZE - 1) :
    collapsedText (collapse buffer file) = untilNul (dropComma (collapseText false NUL file)) := by
  rcases collapse_eq buffer hfile with ⟨rfl, hnone⟩ | ⟨st, hsome, hcollapsed⟩
  · rw [hnone]
    rfl
  · rw [hsome, hcollapsed.text_eq]

/-- With rounds enough, the options of the collapsed string are set. -/
theorem readPgOptions_eq (buffer : Buffer) (hfile : file.length ≤ BUF_SIZE - 1) {rounds : Nat}
    (hrounds : BUF_SIZE + 2 ≤ rounds) :
    readPgOptions rounds buffer file = some (parseText (collapsedText (collapse buffer file))) := by
  unfold readPgOptions
  rcases collapse_eq buffer hfile with ⟨rfl, hnone⟩ | ⟨st, hsome, hcollapsed⟩
  · rw [hnone]
    have hnil : parseText [] = [] := parseText_plain fun _ hc => absurd hc List.not_mem_nil
    rw [collapsedText, hnil]
  · rw [hsome, hcollapsed.text_eq]
    have hlen := length_untilNul_le (dropComma (collapseText false NUL file))
    have hlt := hcollapsed.length_lt
    exact parseLoop_stored hcollapsed.stored (by omega)

/-- The writes stay behind the reads and in the buffer; the options are those of the file without its
comments if and only if there is no NUL among them and no two of them are joined. -/
theorem read_pg_options_iff (buffer : Buffer) (hfile : file.length ≤ BUF_SIZE - 1) :
    ((∀ st ∈ collapse buffer file, ∀ w ∈ st.writes, w.1 ≤ w.2 ∧ w.1 < BUF_SIZE) ∧
        items (collapsedText (collapse buffer file)) = items (stripComments false file)) ↔
      NUL ∉ stripComments false file ∧ joined false false false file = false := by
  have hwrites : ∀ st ∈ collapse buffer file, ∀ w ∈ st.writes, w.1 ≤ w.2 ∧ w.1 < BUF_SIZE := by
    intro st hst
    rcases collapse_eq buffer hfile with ⟨-, hnone⟩ | ⟨st', hsome, hcollapsed⟩
    · rw [hnone] at hst
      cases hst
    · rw [hsome] at hst
      obtain rfl := Option.some.inj hst
      exact hcollapsed.writes
  rw [and_iff_right hwrites, collapsedText_eq buffer hfile]
  exact collapsed_pieces_iff file

theorem read_pg_options_lines :
    items (collapsedText (collapse (fun _ => NUL) "verbose # all\nquery=2,#\n\tplan".toList)) =
      ["verbose".toList, "query=2".toList, "plan".toList] :=
  (((read_pg_options_iff (fun _ => NUL) (by decide)).mpr (by decide)).2).trans (by decide)

/-- An option directly before a comment is joined with the next line. -/
theorem read_pg_options_joins : ¬ ((∀ st ∈ collapse (fun _ => NUL) "verbose#\nquery".toList,
      ∀ w ∈ st.writes, w.1 ≤ w.2 ∧ w.1 < BUF_SIZE) ∧
    items (collapsedText (collapse (fun _ => NUL) "verbose#\nquery".toList)) =
      items (stripComments false "verbose#\nquery".toList)) := by
  rintro ⟨-, heq⟩
  rw [collapsedText_eq _ (by decide)] at heq
  exact absurd heq (by decide)

end PostgresV7.Trace
