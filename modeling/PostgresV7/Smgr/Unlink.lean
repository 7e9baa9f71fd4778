import PostgresV7.Smgr.ArrayRun

/-!
# The segment files of a relation (`md_unlink`)

The segments are numbered without a gap, and `md_unlink` removes one after another until
there is none with the next number. A relation of `2 ^ 31` blocks has more of them than an `int`
can count, and the next block goes to its first segment.
-/

namespace PostgresV7.Md

open Fd Smgr Outcomes Blocks

variable {base : Nat → Prop} {pick : Kernel → Option Nat} {junk : Kernel → Int} {room : Nat}
  {allowed : Fault → Prop} {md md' : MdState Kernel} {k k' s : Kernel} {rnode : RelFileNode} {dataDir : FileName}
  {refs : List Ref} {array : List Block} {op : Op}

/-! ## Segments -/

/-- The segment files are numbered `0` to some `m`, and all but the last one are full. -/
def Segmented (s : Kernel) (dataDir : FileName) (rnode : RelFileNode) : Prop :=
  ∃ m, (∀ i, s.directory (segpath dataDir rnode i) ≠ none ↔ i ≤ m) ∧
    ∀ i < m, (content s (segpath dataDir rnode i)).length = RELSEG_SIZE * BLCKSZ

/-- No segment file is there. -/
def Unlinked (s : Kernel) (dataDir : FileName) (rnode : RelFileNode) : Prop :=
  ∀ i, s.directory (segpath dataDir rnode i) = none

theorem Represents.content_os (h : Represents base room md k rnode refs array) (path : FileName) :
    content md.st.os path = content k path := by
  unfold content
  rw [h.sim.directory, h.sim.data]

theorem Represents.blocks_os (h : Represents base room md k rnode refs array) (i : Nat) :
    blocks md.st.os md.dataDir rnode i = blocks k md.dataDir rnode i := by
  unfold blocks
  rw [h.content_os]

/-- The first file is open. -/
theorem Represents.first (h : Represents base room md k rnode refs array) (hne : refs ≠ []) :
    k.directory (segpath md.dataDir rnode 0) ≠ none := by
  have hpos := List.length_pos_iff.mpr hne
  obtain ⟨vec, -, ⟨f, -, hdir, -⟩, -⟩ := h.chained.segment 0 _ (List.getElem?_eq_getElem hpos)
  simp [hdir]

theorem Represents.length_segment (h : Represents base room md k rnode refs array) {i : Nat}
    (hi : (i + 1) * RELSEG_SIZE ≤ array.length) :
    (content k (segpath md.dataDir rnode i)).length = RELSEG_SIZE * BLCKSZ := by
  rw [h.laid, length_flatMap length_bytes, length_window, Nat.mul_comm]
  rw [Nat.succ_mul] at hi
  rw [Nat.min_eq_left (by omega)]

theorem Represents.segmented (h : Represents base room md k rnode refs array) (hne : refs ≠ []) :
    Segmented md.st.os md.dataDir rnode := by
  have hfull : ∀ i < array.length / RELSEG_SIZE, (i + 1) * RELSEG_SIZE ≤ array.length := fun i hi =>
    Nat.le_trans (Nat.mul_le_mul_right _ hi) (Nat.div_mul_le_self _ _)
  have hexists : ∀ i < array.length / RELSEG_SIZE, k.directory (segpath md.dataDir rnode i) ≠ none := fun i hi =>
    exists_of_full (h.full (hfull i hi))
  have hle : ∀ i, k.directory (segpath md.dataDir rnode i) ≠ none → i ≤ array.length / RELSEG_SIZE := by
    intro i hi
    cases i with
    | zero => exact Nat.zero_le _
    | succ i => exact (Nat.le_div_iff_mul_le (by decide)).mpr (h.behind i hi)
  unfold Segmented
  rw [h.sim.directory]
  by_cases hlast : k.directory (segpath md.dataDir rnode (array.length / RELSEG_SIZE)) = none
  · -- the last segment is full, and the one behind it was not made
    have hpos : 0 < array.length / RELSEG_SIZE := by
      by_contra hzero
      rw [Nat.eq_zero_of_not_pos hzero] at hlast
      exact h.first hne hlast
    refine ⟨array.length / RELSEG_SIZE - 1, fun i => ⟨fun hi => ?_, fun hi => hexists i (by omega)⟩,
      fun i hi => ?_⟩
    · have hne : i ≠ array.length / RELSEG_SIZE := by
        rintro rfl
        exact hi hlast
      have hi := hle i hi
      omega
    · rw [h.content_os]
      exact h.length_segment (hfull i (by omega))
  · refine ⟨array.length / RELSEG_SIZE, fun i => ⟨hle i, fun hi => ?_⟩, fun i hi => ?_⟩
    · rcases Nat.lt_or_eq_of_le hi with hi | rfl
      · exact hexists i hi
      · exact hlast
    · rw [h.content_os]
      exact h.length_segment (hfull i hi)

/-! ## Unlinking -/

/-- A name is gone. -/
def MdState.unlinked (md : MdState Kernel) (path : FileName) : MdState Kernel :=
  { md with st := { md.st with
      os := { md.st.os with directory := Function.update md.st.os.directory path none } } }

theorem unlinked_directory (md : MdState Kernel) (path : FileName) :
    (md.unlinked path).st.os.directory = Function.update md.st.os.directory path none := rfl

theorem unlink_exists {path : FileName} {inode : Nat} (hdir : md.st.os.directory path = some inode) :
    md.call (fun st => st.sys ((Kernel.os pick junk).unlink path)) = .ok (none, md.unlinked path) := by
  unfold MdState.call FdState.sys Kernel.os Kernel.unlink MdState.unlinked
  simp [hdir]

theorem unlink_none {path : FileName} (hdir : md.st.os.directory path = none) :
    md.call (fun st => st.sys ((Kernel.os pick junk).unlink path)) = .ok (some .ENOENT, md) := by
  unfold MdState.call FdState.sys Kernel.os Kernel.unlink
  simp [hdir]

/-- The loop ends behind the last segment, and all the names it came to are gone. -/
theorem unlinkLoop_removes (pick : Kernel → Option Nat) (junk : Kernel → Int) {m fuel segno : Nat}
    (hpos : 0 < segno) (hfuel : m + 1 < segno + fuel) (hle : segno ≤ m + 1)
    (hsegs : ∀ i, segno ≤ i → (md.st.os.directory (segpath dataDir rnode i) ≠ none ↔ i ≤ m))
    (hgone : ∀ i < segno, md.st.os.directory (segpath dataDir rnode i) = none) :
    ∃ md', unlinkLoop (Kernel.os pick junk) (relpath dataDir rnode) fuel md segno = .ok (.SM_SUCCESS, md') ∧
      Unlinked md'.st.os dataDir rnode := by
  induction fuel generalizing md segno with
  | zero => omega
  | succ fuel ih =>
    have hpath : relpath dataDir rnode ++ '.' :: Decimal.decimal segno = segpath dataDir rnode segno :=
      (if_pos hpos).symm
    unfold unlinkLoop
    rw [hpath]
    cases hdir : md.st.os.directory (segpath dataDir rnode segno) with
    | none =>
      rw [unlink_none hdir]
      refine ⟨md, rfl, fun i => ?_⟩
      by_cases hi : i < segno
      · exact hgone i hi
      · have hlast : ¬ segno ≤ m := fun hle => (hsegs segno (Nat.le_refl _)).mpr hle hdir
        by_contra hi'
        have hle := (hsegs i (Nat.not_lt.mp hi)).mp hi'
        omega
    | some inode =>
      rw [unlink_exists hdir]
      have hm : segno ≤ m := (hsegs segno (Nat.le_refl _)).mp (by simp [hdir])
      refine ih (Nat.succ_pos _) (by omega) (by omega) (fun i hi => ?_) fun i hi => ?_
      · have hne : i ≠ segno := by omega
        rw [unlinked_directory, Function.update_of_ne (segpath_ne hne)]
        exact hsegs i (by omega)
      · rw [unlinked_directory]
        by_cases hi' : i = segno
        · rw [hi', Function.update_self]
        · rw [Function.update_of_ne (segpath_ne hi')]
          exact hgone i (by omega)

/-- `md_unlink` removes the segments. -/
theorem Segmented.unlink (pick : Kernel → Option Nat) (junk : Kernel → Int) (h : Segmented md.st.os dataDir rnode)
    (hdataDir : md.dataDir = dataDir)
    (hlast : ∀ i, md.st.os.directory (segpath dataDir rnode i) ≠ none → i ≤ lastSegment) :
    ∃ md', mdUnlink (Kernel.os pick junk) md rnode = .ok (.SM_SUCCESS, md') ∧
      Unlinked md'.st.os dataDir rnode := by
  obtain ⟨m, hexists, -⟩ := h
  have hm := hlast m ((hexists m).mpr (Nat.le_refl m))
  have hfuel : m + 1 < 1 + 2 ^ 31 := by
    have hsegs : lastSegment = 16384 := by decide
    omega
  obtain ⟨inode, hdir⟩ := Option.ne_none_iff_exists'.mp ((hexists 0).mpr (Nat.zero_le m))
  have hdir : md.st.os.directory (relpath dataDir rnode) = some inode := hdir
  have hrest : ∀ i, 1 ≤ i →
      ((md.unlinked (relpath dataDir rnode)).st.os.directory (segpath dataDir rnode i) ≠ none ↔ i ≤ m) := by
    intro i hi
    have hne : segpath dataDir rnode i ≠ relpath dataDir rnode := segpath_ne (j := 0) (Nat.ne_of_gt hi)
    rw [unlinked_directory, Function.update_of_ne hne]
    exact hexists i
  have hgone : ∀ i < 1, (md.unlinked (relpath dataDir rnode)).st.os.directory (segpath dataDir rnode i) =
      none := by
    intro i hi
    obtain rfl := Nat.lt_one_iff.mp hi
    exact Function.update_self _ _ _
  obtain ⟨md', hrun, hunlinked⟩ := unlinkLoop_removes pick junk Nat.one_pos hfuel
    (Nat.succ_le_succ (Nat.zero_le m)) hrest hgone
  refine ⟨md', ?_, hunlinked⟩
  unfold mdUnlink
  rw [hdataDir]
  dsimp only
  rw [unlink_exists hdir, ok_bind]
  exact hrun

end PostgresV7.Md
