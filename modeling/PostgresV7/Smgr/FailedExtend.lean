import PostgresV7.Fd.GivenUp
import PostgresV7.Fd.Position
import PostgresV7.Smgr.Alike
import PostgresV7.Smgr.Asked

/-!
# After a failing `md_extend` (`md.c`)

A later count and later reads say what they said before, but where a segment was given up:
that one cannot be opened any more.
-/

namespace PostgresV7.Md

open Fd Smgr Outcomes Blocks

variable {σ : Type} {os before after : Os σ} {view : σ → Kernel} {base : Nat → Prop} {room : Nat}
  {md md₀ md' : MdState (σ × List Syscall)} {k : Kernel} {rnode : RelFileNode} {refs : List Ref}
  {G : File → Prop} {dataDir : FileName}

theorem Rel.rewatch {τ : Type} {view : τ → Kernel} {Q Q' : τ → (File → Prop) → Prop} {md : MdState τ}
    (h : Rel (Tracked view base Q) room md k rnode refs G) (hwatch : Q' md.st.os G) :
    Rel (Tracked view base Q') room md k rnode refs G :=
  { h with files := Tracks.rewatch h.files hwatch }

theorem Serving.traced (h : Serving os view) : Serving os.traced fun s => view s.1 :=
  ⟨h.honest.traced, h.serves.traced, h.short.traced⟩

/-- When a process starts, the relation is what its files are; the last block may be incomplete. -/
theorem rel_init {τ : Type} (view : τ → Kernel) (s : τ) {last : Nat} (databasePath : FileName)
    (bootstrap enableFsync : Bool) (hsizes : ∀ inode, ((view s).data inode).length ≤ maxOffset)
    (hfresh : Fresh (view s)) (habsolute : (relpath dataDir rnode).head? = some SEP_CHAR)
    (hbounded : ∀ i, blocks (view s) dataDir rnode i ≤ RELSEG_SIZE) (hlt : last < 2 ^ 30)
    (hlast : blocks (view s) dataDir rnode last ≠ RELSEG_SIZE) (hroom : last + 1 < room) :
    Rel (Tracked view (fun d => (view s).table d ≠ none) fun _ _ => True) room
      (mdInit dataDir bootstrap (FdState.init databasePath enableFsync s)) (noDescriptors (view s)) rnode []
      fun _ => False where
  files := ⟨⟨_, (init_own databasePath enableFsync (view s) hsizes).1, fun _ _ _ => rfl⟩, fun _ => False.elim,
    trivial⟩
  fresh := hfresh
  absolute := habsolute
  bounded := hbounded
  room := ⟨last, hlt, hlast, ⟨∅, fun _ hi => absurd rfl hi, by rwa [Finset.card_empty, Nat.zero_add]⟩⟩
  unused _ _ := rfl
  slots _ := ⟨[], [], mdInit_slots dataDir bootstrap _, (by decide : 1 < 100)⟩
  chained := ⟨List.nodup_nil, rfl, fun _ _ hv => nomatch hv⟩
  visited _ := False.elim

/-- When `md_extend` has failed, the same questions get the same answers if and only if it sought no segment
that was closed and could not be opened again. -/
theorem md_extend_failed {bs : List BlockNumber} {results : List Result} {buffer : Block}
    (hos : os.Honest view) (hbefore : Serving before view) (hafter : Serving after view)
    (hroom : room ≤ 2 ^ 30 - 1)
    (h : Rel (Tracked (fun s => view s.1) base fun _ _ => True) room md k rnode refs G) (hcalls : md.st.os.2 = [])
    (hbs : ∀ b ∈ bs, Existing k md.dataDir rnode b)
    (hasked : run before.traced (asks rnode bs) md = .ok (results, md₀))
    (hfailed : mdExtend os.traced md rnode buffer = .ok (.SM_FAIL, md')) (hfits : Fits md'.st.os.2)
    (hreturns : run after.traced (asks rnode bs) md' ≠ .error (.fd .osFailed)) :
    (∃ md₁, run after.traced (asks rnode bs) md' = .ok (results, md₁)) ↔ ¬ SeeksClosed md'.st.os.2 := by
  have hends : Ends (fun _ => True) (run before.traced (asks rnode bs) md) _ :=
    h.asked hbefore.traced watches_true trivial hroom (fun _ _ => trivial) hbs
  obtain ⟨hnone, hanswers⟩ := hends.of_ok hasked
  have hseen : Seen md.st.os G := by
    refine iff_of_false ?_ fun hG => ?_
    · rintro ⟨offset, whence, pos, hmem⟩
      rw [hcalls] at hmem
      cases hmem
    · obtain ⟨file, hfile⟩ := hG
      exact hnone file hfile
  obtain ⟨hfailed, -⟩ := mdExtend_alike fitting_alike _ hfailed hfits
  obtain ⟨k', refs', G', hleft⟩ := Ends.of_ok ((h.rewatch hseen).mdExtend hos.fitting.traced traced_watches
    fitting_short.traced hroom buffer) hfailed rfl
  have hseen' : SeeksClosed md'.st.os.2 ↔ ∃ file, G' file := Tracks.watch hleft.rel.files
  have hbs' : ∀ b ∈ bs, Existing k' md'.dataDir rnode b := hleft.existing hbs
  have hrel' : Rel (Tracked (fun s => view s.1) base fun _ _ => True) room md' k' rnode refs' G' :=
    hleft.rel.rewatch trivial
  rw [hseen', not_exists]
  constructor
  · rintro ⟨md₁, hrun⟩
    have hends : Ends (fun _ => True) (run after.traced (asks rnode bs) md') _ :=
      hrel'.asked hafter.traced watches_true trivial hroom (fun _ _ => trivial) hbs'
    exact (hends.of_ok hrun).1
  · intro hnone'
    have hends : Ends (Eq (.fd .osFailed)) (run after.traced (asks rnode bs) md') _ :=
      hrel'.asked hafter.traced watches_true rfl hroom (fun file hfile => absurd hfile (hnone' file)) hbs'
    cases hresult : run after.traced (asks rnode bs) md' with
    | error e =>
      obtain rfl := hends.of_error hresult
      exact absurd hresult hreturns
    | ok r =>
      obtain ⟨-, hanswers'⟩ := hends.of_ok hresult
      rw [hleft.dataDir] at hanswers'
      exact ⟨r.2, congrArg Except.ok (Prod.ext (hanswers.unique hanswers' hleft.blocks hbs) rfl)⟩

/-! ## Systems that fail -/

theorem plainOs_picks : Kernel.Picks (lowestFree 3 61) 32767 := by
  intro k d h
  obtain ⟨hfree, hle⟩ := lowestFree_picks 3 61 k d h
  exact ⟨hfree, Nat.le_trans hle (by decide)⟩

/-- What `reportingOs` says of a seek: what the kernel does, or that it refuses. -/
theorem reportingOs_lseek {fd offset : Int} {whence : Whence} {s s' : Kernel} {pos : Option Nat}
    (h : reportingOs.lseek fd offset whence s = some (pos, s')) :
    plainOs.lseek fd offset whence s = some (pos, s') ∨
      (plainOs.lseek fd offset whence s = none ∧ pos = none ∧ s' = s) := by
  have h : (plainOs.lseek fd offset whence s).getD (none, s) = (pos, s') := Option.some.inj h
  cases hcall : plainOs.lseek fd offset whence s with
  | none =>
    rw [hcall] at h
    obtain ⟨rfl, rfl⟩ := Prod.mk.inj h
    exact .inr ⟨rfl, rfl, rfl⟩
  | some r =>
    rw [hcall] at h
    exact .inl (congrArg some h)

theorem reportingOs_honest : reportingOs.Honest id :=
  have hplain : plainOs.Honest id := Kernel.os_honest plainOs_picks
  { hplain with
    lseek := by
      intro fd offset whence s pos s' h
      rcases reportingOs_lseek h with hcall | ⟨-, hnone, -⟩
      · exact hplain.lseek _ _ _ _ _ _ hcall
      · cases hnone
    lseekFails := by
      intro fd offset whence s s' h
      rcases reportingOs_lseek h with hcall | ⟨-, -, rfl⟩
      · exact hplain.lseekFails _ _ _ _ _ hcall
      · rfl }

theorem reportingOs_serving : Serving reportingOs id where
  honest := reportingOs_honest
  serves :=
    have hplain : plainOs.Serves id := Kernel.os_serves
    { hplain with
      lseek := by
        intro d offset whence s r s' hseek h
        rcases reportingOs_lseek h with hcall | ⟨hnone, -, -⟩
        · exact hplain.lseek _ _ _ _ _ _ hseek hcall
        · have hdone : plainOs.lseek d offset whence s = some (some r.1, r.2) :=
            Option.bind_eq_some_iff.mpr ⟨r, hseek, rfl⟩
          rw [hnone] at hdone
          cases hdone }
  short := by
    have hshort : (Kernel.os (lowestFree 3 61) fun _ => 0).Short := Kernel.os_short plainOs_picks (Nat.le_refl _)
    exact hshort

/-- A disk that is full: five bytes are written, and they are not cut off again. -/
def fullDisk : Os Kernel :=
  { reportingOs with
    write := fun fd buffer k => reportingOs.write fd (buffer.take 5) k
    ftruncate := fun _ _ k => some (false, k) }

/-- No file can be opened. -/
def noOpens : Os Kernel := { reportingOs with openFile := fun _ _ _ k => some (.error .other, k) }

theorem fullDisk_honest : fullDisk.Honest id :=
  { reportingOs_honest with
    write := by
      intro fd buffer s n s' h
      have hwrite : (Kernel.os (lowestFree 3 61) fun _ => 0).write fd (buffer.take 5) s = some (some n, s') := h
      exact Kernel.os_write_take hwrite
    writeFails := by
      intro fd buffer s s' h
      exact reportingOs_honest.writeFails fd (buffer.take 5) s s' h
    ftruncate := by
      intro fd size s s' h
      cases (Prod.mk.inj (Option.some.inj h)).1
    ftruncateFails := by
      intro fd size s s' h
      exact (Prod.mk.inj (Option.some.inj h)).2.symm }

/-- The file of a relation: a block, and a hundred bytes more. -/
def onePartial : Kernel where
  directory path := if path = segpath "/data".toList ⟨1, 7⟩ 0 then some 0 else none
  data _ := List.replicate (BLCKSZ + 100) 0
  nextInode := 1
  table _ := none

/-- A process starts with this relation. -/
def startedPartial : MdState (Kernel × List Syscall) :=
  mdInit "/data".toList false (FdState.init "/data".toList true (onePartial, []))

theorem blocks_onePartial (i : Nat) : blocks onePartial "/data".toList ⟨1, 7⟩ i = if i = 0 then 1 else 0 := by
  by_cases hi : i = 0
  · have hcontent : content onePartial (segpath "/data".toList ⟨1, 7⟩ 0) = List.replicate (BLCKSZ + 100) 0 := by
      unfold content
      rw [show onePartial.directory (segpath "/data".toList ⟨1, 7⟩ 0) = some 0 from rfl]
      rfl
    rw [if_pos hi, hi]
    unfold blocks
    rw [hcontent, List.length_replicate]
    decide
  · have hcontent : content onePartial (segpath "/data".toList ⟨1, 7⟩ i) = [] := by
      unfold content
      rw [show onePartial.directory (segpath "/data".toList ⟨1, 7⟩ i) = none from
        if_neg fun heq => hi (segpath_inj heq).2]
    rw [if_neg hi]
    unfold blocks
    rw [hcontent]
    rfl

theorem startedPartial_rel : Rel (Tracked (fun s : Kernel × List Syscall => s.1)
    (fun d => onePartial.table d ≠ none)
    fun _ _ => True) 2 startedPartial (noDescriptors onePartial) ⟨1, 7⟩ [] fun _ => False := by
  have hsizes : ∀ inode, (onePartial.data inode).length ≤ maxOffset := by
    intro inode
    show (List.replicate (BLCKSZ + 100) (0 : UInt8)).length ≤ maxOffset
    rw [List.length_replicate]
    decide
  have hfresh : Fresh onePartial := by
    intro path inode h
    obtain ⟨-, heq⟩ := Option.ite_none_right_eq_some.mp h
    rw [← Option.some.inj heq]
    exact Nat.one_pos
  have hbounded : ∀ i, blocks onePartial "/data".toList ⟨1, 7⟩ i ≤ RELSEG_SIZE := by
    intro i
    rw [blocks_onePartial]
    split <;> decide
  have hlast : blocks onePartial "/data".toList ⟨1, 7⟩ 0 ≠ RELSEG_SIZE := by
    rw [blocks_onePartial]
    decide
  exact rel_init Prod.fst (onePartial, []) "/data".toList false true hsizes hfresh (by decide) hbounded
    (by decide) hlast Nat.one_lt_two

/-- Five bytes are written and stay, and the answers are what they were. -/
theorem md_extend_failed_example : ∃ results md₀ md' md₁,
    run reportingOs.traced (asks ⟨1, 7⟩ [0]) startedPartial = .ok (.blocks 1 :: results, md₀) ∧
    mdExtend fullDisk.traced startedPartial ⟨1, 7⟩ zeroBlock = .ok (.SM_FAIL, md') ∧
    run reportingOs.traced (asks ⟨1, 7⟩ [0]) md' = .ok (.blocks 1 :: results, md₁) := by
  have hasked : okAnd (run reportingOs.traced (asks ⟨1, 7⟩ [0]) startedPartial)
      (fun r => r.1.head? = some (.blocks 1)) = true := by decide +kernel
  have hfailed : okAnd (mdExtend fullDisk.traced startedPartial ⟨1, 7⟩ zeroBlock) (fun r => r.1 = .SM_FAIL &&
      decide (Fits r.2.st.os.2 ∧ ¬ SeeksClosed r.2.st.os.2 ∧
        errorOf (run reportingOs.traced (asks ⟨1, 7⟩ [0]) r.2) ≠ some (.fd .osFailed))) = true := by
    decide +kernel
  have hexisting : ∀ b ∈ [(0 : BlockNumber)], Existing (noDescriptors onePartial) startedPartial.dataDir
      ⟨1, 7⟩ b := by
    intro b hb
    rw [List.mem_singleton.mp hb]
    refine ⟨fun j hj => absurd hj (Nat.not_lt_zero j), ?_⟩
    show 0 < blocks onePartial "/data".toList ⟨1, 7⟩ 0
    rw [blocks_onePartial]
    decide
  obtain ⟨⟨answers, md₀⟩, hasked, hanswers⟩ := okAnd_iff.mp hasked
  obtain ⟨results, rfl⟩ := List.head?_eq_some_iff.mp (of_decide_eq_true hanswers)
  obtain ⟨⟨status, md'⟩, hfailed, hrest⟩ := okAnd_iff.mp hfailed
  obtain ⟨hstatus, hrest⟩ := Bool.and_eq_true_iff.mp hrest
  obtain rfl := of_decide_eq_true hstatus
  obtain ⟨hfits, hnot, hreturns⟩ := of_decide_eq_true hrest
  obtain ⟨md₁, hrun⟩ := (md_extend_failed fullDisk_honest reportingOs_serving reportingOs_serving (by decide)
    startedPartial_rel rfl hexisting hasked hfailed hfits fun herror => hreturns
      (errorOf_eq_some.mpr herror)).mpr hnot
  exact ⟨results, md₀, md', md₁, hasked, hfailed, hrun⟩

/-- The file of a relation is evicted, and cannot be opened again when `md_extend` looks for its end. Then it
can be opened, but the relation cannot be counted: the `ASSERT` fails. -/
theorem md_extend_gives_up : ∃ md results md₀ md',
    run reportingOs.traced [.nblocks ⟨1, 7⟩, .releaseLru] startedPartial =
      .ok ([.blocks 1, .released true], md) ∧
    run reportingOs.traced (asks ⟨1, 7⟩ [0]) md = .ok (.blocks 1 :: results, md₀) ∧
    mdExtend noOpens.traced md ⟨1, 7⟩ zeroBlock = .ok (.SM_FAIL, md') ∧
    run reportingOs.traced (asks ⟨1, 7⟩ [0]) md' = .error (.fd .assertion) := by
  have hrun : okAnd (run reportingOs.traced [.nblocks ⟨1, 7⟩, .releaseLru] startedPartial) (fun r =>
      decide (r.1 = [.blocks 1, .released true]) &&
      (okAnd (run reportingOs.traced (asks ⟨1, 7⟩ [0]) r.2) (fun r => r.1.head? = some (.blocks 1)) &&
      okAnd (mdExtend noOpens.traced r.2 ⟨1, 7⟩ zeroBlock) (fun r => decide (r.1 = .SM_FAIL) &&
        decide (errorOf (run reportingOs.traced (asks ⟨1, 7⟩ [0]) r.2) = some (.fd .assertion))))) = true := by
    decide +kernel
  obtain ⟨⟨counted, md⟩, hcounted, hrest⟩ := okAnd_iff.mp hrun
  obtain ⟨hresult, hrest⟩ := Bool.and_eq_true_iff.mp hrest
  obtain rfl := of_decide_eq_true hresult
  obtain ⟨hasked, hfailed⟩ := Bool.and_eq_true_iff.mp hrest
  obtain ⟨⟨answers, md₀⟩, hasked, hanswers⟩ := okAnd_iff.mp hasked
  obtain ⟨results, rfl⟩ := List.head?_eq_some_iff.mp (of_decide_eq_true hanswers)
  obtain ⟨⟨status, md'⟩, hfailed, hrest⟩ := okAnd_iff.mp hfailed
  obtain ⟨hstatus, herror⟩ := Bool.and_eq_true_iff.mp hrest
  obtain rfl := of_decide_eq_true hstatus
  exact ⟨md, results, md₀, md', hcounted, hasked, hfailed, errorOf_eq_some.mp (of_decide_eq_true herror)⟩

end PostgresV7.Md
