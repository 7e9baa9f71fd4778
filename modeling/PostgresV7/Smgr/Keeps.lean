import PostgresV7.Fd.Invariant
import PostgresV7.Smgr.Md

/-!
# Invariants of the slots under `md.c`

The storage manager reaches the slots through `fd.c` only, so what every call of `fd.c`
keeps is kept by all of `md.c`.
-/

namespace PostgresV7.Md

open Fd Smgr Outcomes

variable {σ : Type} {os : Os σ} {md : MdState σ} {file : File} {rnode : RelFileNode}
  {I : Option File → FdState σ → Prop}

/-- Any fault will do. -/
def Any (_ : Fault) : Prop := True

theorem call_ends {α : Type} {x : FdState σ → Except Fd.Fault (α × FdState σ)} {P : α × FdState σ → Prop}
    {allowed : Fd.Fault → Prop} (h : Ends allowed (x md.st) P) :
    Ends Any (md.call x) fun r => ∃ st, P (r.1, st) ∧ r.2 = { md with st := st } := by
  unfold MdState.call
  cases hx : x md.st with
  | error e => trivial
  | ok r =>
    rw [hx] at h
    exact ⟨r.2, h, rfl⟩

theorem callUnit_ends {x : FdState σ → Except Fd.Fault (FdState σ)} {P : FdState σ → Prop}
    {allowed : Fd.Fault → Prop} (h : Ends allowed (x md.st) P) :
    Ends Any (md.callUnit x) fun md' => ∃ st, P st ∧ md' = { md with st := st } := by
  unfold MdState.callUnit
  cases hx : x md.st with
  | error e => trivial
  | ok st =>
    rw [hx] at h
    exact ⟨st, h, rfl⟩

theorem call_keeps {α : Type} {x : FdState σ → Except Fd.Fault (α × FdState σ)}
    {allowed : Fd.Fault → Prop} (h : Ends allowed (x md.st) fun r => I none r.2) :
    Ends Any (md.call x) fun r => I none r.2.st := by
  refine (call_ends h).mono (fun _ h => h) ?_
  rintro ⟨a, _⟩ ⟨st, hst, rfl⟩
  exact hst

theorem callUnit_keeps {x : FdState σ → Except Fd.Fault (FdState σ)} {allowed : Fd.Fault → Prop}
    (h : Ends allowed (x md.st) (I none)) : Ends Any (md.callUnit x) fun md' => I none md'.st := by
  refine (callUnit_ends h).mono (fun _ h => h) ?_
  rintro _ ⟨st, hst, rfl⟩
  exact hst

theorem get_ends {v : Ref} {P : MdfdVec → Prop} (h : ∀ vec, P vec) : Ends Any (md.get v) P := by
  cases hget : md.get v with
  | error e => trivial
  | ok vec => exact h vec

theorem set_ends {v : Ref} {vec : MdfdVec} : Ends Any (md.set v vec) fun md' => md'.st = md.st := by
  unfold MdState.set
  cases v with
  | slot fd => rfl
  | node p =>
    dsimp only
    split
    · rfl
    · trivial

theorem fdvecAlloc_ends : Ends Any (fdvecAlloc md) fun r => r.2.st = md.st := by
  unfold fdvecAlloc
  dsimp only
  split
  · split
    · trivial
    · split
      · split
        · trivial
        · rfl
      · rfl
  · split
    · trivial
    · rfl

theorem fdvecFree_ends {fdvec : Nat} : Ends Any (fdvecFree md fdvec) fun md' => md'.st = md.st := by
  unfold fdvecFree
  split
  · trivial
  · split
    · trivial
    · rfl

section

variable (hI : WriteInvariant I) (hshort : os.Short)

include hI hshort

theorem mdNblocksAux_keeps (h : I none md.st) :
    Ends Any (mdNblocksAux os md file) fun r => I none r.2.st := by
  unfold mdNblocksAux
  refine Ends.bind (call_keeps (hI.fileSeek hshort h)) ?_
  rintro ⟨len, md'⟩ h'
  dsimp only
  split <;> exact h'

theorem openEither_keeps {path : FileName} {flags others : OpenFlags} (h : I none md.st) :
    Ends Any (openEither os md path flags others) fun r => I none r.2.st := by
  unfold openEither
  refine Ends.bind (call_keeps (hI.fileNameOpenFile hshort h)) ?_
  rintro ⟨fd, md'⟩ h'
  dsimp only
  split
  · exact call_keeps (hI.fileNameOpenFile hshort h')
  · exact h'

theorem mdCreate_keeps (h : I none md.st) :
    Ends Any (mdCreate os md rnode) fun r => I none r.2.st := by
  unfold mdCreate
  split
  · trivial
  · refine Ends.bind (openEither_keeps hI hshort h) ?_
    rintro ⟨fd, md'⟩ h'
    cases fd with
    | none => exact h'
    | some fd =>
      refine Ends.bind fdvecAlloc_ends ?_
      rintro ⟨vfd, md''⟩ h''
      show I none md''.st
      rw [h'']
      exact h'

theorem mdOpen_keeps (h : I none md.st) : Ends Any (mdOpen os md rnode) fun r => I none r.2.st := by
  unfold mdOpen
  split
  · trivial
  · refine Ends.bind (openEither_keeps hI hshort h) ?_
    rintro ⟨fd, md'⟩ h'
    cases fd with
    | none => exact h'
    | some fd =>
      refine Ends.bind fdvecAlloc_ends ?_
      rintro ⟨vfd, md''⟩ h''
      have hst : I none md''.st := by
        rw [h'']
        exact h'
      refine Ends.bind (mdNblocksAux_keeps hI hshort hst) ?_
      rintro ⟨nblocks, md₃⟩ h₃
      exact h₃

theorem mdFdGetRelnFd_keeps (h : I none md.st) :
    Ends Any (mdFdGetRelnFd os md rnode) fun r => I none r.2.st := by
  unfold mdFdGetRelnFd
  split
  · refine Ends.bind (mdOpen_keeps hI hshort h) ?_
    rintro ⟨fd, md'⟩ h'
    cases fd with
    | none => trivial
    | some fd => exact h'
  · exact h

theorem mdFdOpenSeg_keeps {segNo : Nat} {creat : Bool} (h : I none md.st) :
    Ends Any (mdFdOpenSeg os md rnode segNo creat) fun r => I none r.2.st := by
  unfold mdFdOpenSeg
  refine Ends.bind (call_keeps (hI.fileNameOpenFile hshort h)) ?_
  rintro ⟨fd, md'⟩ h'
  cases fd with
  | none => exact h'
  | some fd =>
    refine Ends.bind (mdNblocksAux_keeps hI hshort h') ?_
    rintro ⟨nblocks, md''⟩ h''
    exact h''

theorem chainNext_keeps {v : Ref} {segNo : Nat} {creat : Bool} (h : I none md.st) :
    Ends Any (chainNext os md rnode v segNo creat) fun r => I none r.2.st := by
  unfold chainNext
  refine Ends.bind (get_ends fun _ => trivial) ?_
  intro vec _
  cases hchain : vec.chain with
  | some next => exact h
  | none =>
    refine Ends.bind (mdFdOpenSeg_keeps hI hshort h) ?_
    rintro ⟨next, md'⟩ h'
    cases next with
    | none => trivial
    | some next =>
      refine Ends.bind (get_ends fun _ => trivial) ?_
      intro vec' _
      refine Ends.bind set_ends ?_
      intro md'' h''
      show I none md''.st
      rw [h'']
      exact h'

theorem getSegLoop_keeps {segNo i : Nat} {v : Ref} (h : I none md.st) :
    Ends Any (getSegLoop os rnode segNo md i v) fun r => I none r.2.st := by
  induction segNo generalizing md i v with
  | zero => exact h
  | succ segNo ih =>
    refine Ends.bind (chainNext_keeps hI hshort h) ?_
    rintro ⟨v', md'⟩ h'
    exact ih h'

theorem mdFdGetSeg_keeps {blockNum : Int} (h : I none md.st) :
    Ends Any (mdFdGetSeg os md rnode blockNum) fun r => I none r.2.2.st := by
  unfold mdFdGetSeg
  refine Ends.bind (mdFdGetRelnFd_keeps hI hshort h) ?_
  rintro ⟨fd, md'⟩ h'
  refine Ends.bind (getSegLoop_keeps hI hshort h') ?_
  rintro ⟨v, md''⟩ h''
  exact Ends.bind (get_ends fun _ => trivial) fun vec _ => h''

theorem nblocksLoop_keeps {k segNo : Nat} {v : Ref} (h : I none md.st) :
    Ends Any (nblocksLoop os rnode k md segNo v) fun r => I none r.2.st := by
  induction k generalizing md segNo v with
  | zero => trivial
  | succ k ih =>
    unfold nblocksLoop
    refine Ends.bind (get_ends fun _ => trivial) ?_
    intro vec _
    refine Ends.bind (mdNblocksAux_keeps hI hshort h) ?_
    rintro ⟨nblocks, md'⟩ h'
    dsimp only
    generalize toInt nblocks.toNat = n
    split
    · trivial
    · refine Ends.bind (get_ends fun _ => trivial) ?_
      intro vec' _
      refine Ends.bind set_ends ?_
      intro md'' h''
      have hst : I none md''.st := by
        rw [h'']
        exact h'
      split
      · refine Ends.bind (chainNext_keeps hI hshort hst) ?_
        rintro ⟨v', md₃⟩ h₃
        exact ih h₃
      · exact hst

theorem mdNblocks_keeps (h : I none md.st) :
    Ends Any (mdNblocks os md rnode) fun r => I none r.2.st := by
  unfold mdNblocks
  refine Ends.bind (mdFdGetRelnFd_keeps hI hshort h) ?_
  rintro ⟨fd, md'⟩ h'
  exact nblocksLoop_keeps hI hshort h'

theorem mdExtend_keeps {buffer : Block} (h : I none md.st) :
    Ends Any (mdExtend os md rnode buffer) fun r => I none r.2.st := by
  unfold mdExtend
  refine Ends.bind (mdNblocks_keeps hI hshort h) ?_
  rintro ⟨nblocks, md₁⟩ h₁
  refine Ends.bind (mdFdGetSeg_keeps hI hshort h₁) ?_
  rintro ⟨vec, v, md₂⟩ h₂
  refine Ends.bind (call_keeps (hI.fileSeek hshort h₂)) ?_
  rintro ⟨pos, md₃⟩ h₃
  dsimp only
  split
  · exact h₃
  · have hsought : Ends Any (seekWhole os md₃ vec.vfd pos) fun r => I none r.2.st := by
      unfold seekWhole
      split
      · exact call_keeps (hI.fileSeek hshort h₃)
      · exact h₃
    refine Ends.bind hsought ?_
    rintro ⟨sought, md₄⟩ h₄
    dsimp only
    split
    · exact h₄
    · refine Ends.bind (call_keeps (hI.fileWrite hshort h₄)) ?_
      rintro ⟨nbytes, md₅⟩ h₅
      dsimp only
      split
      · split
        · refine Ends.bind (call_keeps (hI.truncate hshort h₅)) ?_
          rintro ⟨_, md₆⟩ h₆
          exact Ends.bind (call_keeps (hI.fileSeek hshort h₆)) fun r h' => h'
        · exact h₅
      · refine Ends.bind (get_ends fun _ => trivial) ?_
        intro vec' _
        refine Ends.bind set_ends ?_
        intro md₆ h₆
        show I none md₆.st
        rw [h₆]
        exact h₅

theorem mdRead_keeps {blockNum : BlockNumber} (h : I none md.st) :
    Ends Any (mdRead os md rnode blockNum) fun r => I none r.2.st := by
  unfold mdRead
  refine Ends.bind (mdFdGetSeg_keeps hI hshort h) ?_
  rintro ⟨vec, v, md₁⟩ h₁
  refine Ends.bind (call_keeps (hI.fileSeek hshort h₁)) ?_
  rintro ⟨pos, md₂⟩ h₂
  dsimp only
  split
  · exact h₂
  · refine Ends.bind (call_keeps (hI.fileRead hshort h₂)) ?_
    rintro ⟨⟨nbytes, bytes⟩, md₃⟩ h₃
    dsimp only
    split
    · split
      · exact h₃
      · split
        · refine Ends.bind (mdNblocks_keeps hI hshort h₃) ?_
          rintro ⟨nblocks, md₄⟩ h₄
          dsimp only
          split <;> exact h₄
        · exact h₃
    · exact h₃

theorem truncateLoop_keeps {nblocks prior : Int} {k : Nat} {v : Option Ref} (h : I none md.st) :
    Ends Any (truncateLoop os nblocks k md prior v) fun r => I none r.2.st := by
  induction k generalizing md prior v with
  | zero =>
    cases v with
    | none => exact h
    | some v => trivial
  | succ k ih =>
    cases v with
    | none => exact h
    | some v =>
      unfold truncateLoop
      refine Ends.bind (get_ends fun _ => trivial) ?_
      intro vec _
      dsimp only
      generalize toInt (prior + RELSEG_SIZE) = after
      split
      · refine Ends.bind (call_keeps (hI.truncate hshort h)) ?_
        rintro ⟨_, md₁⟩ h₁
        refine Ends.bind (callUnit_keeps (hI.fileUnlink h₁)) ?_
        intro md₂ h₂
        cases v with
        | slot fd => trivial
        | node p => exact ih h₂
      · split
        · refine Ends.bind (call_keeps (hI.truncate hshort h)) ?_
          rintro ⟨code, md₁⟩ h₁
          dsimp only
          split
          · exact h₁
          · refine Ends.bind (get_ends fun _ => trivial) ?_
            intro vec' _
            refine Ends.bind set_ends ?_
            intro md₂ h₂
            refine ih ?_
            rw [h₂]
            exact h₁
        · exact ih h

theorem mdTruncate_keeps {nblocks : Int} (h : I none md.st) :
    Ends Any (mdTruncate os md rnode nblocks) fun r => I none r.2.st := by
  unfold mdTruncate
  refine Ends.bind (mdNblocks_keeps hI hshort h) ?_
  rintro ⟨curNblk, md₁⟩ h₁
  dsimp only
  split
  · exact h₁
  · split
    · exact h₁
    · refine Ends.bind (mdFdGetRelnFd_keeps hI hshort h₁) ?_
      rintro ⟨fd, md₂⟩ h₂
      refine Ends.bind (truncateLoop_keeps hI hshort h₂) ?_
      rintro ⟨done, md₃⟩ h₃
      exact h₃

theorem closeLoop_keeps {k : Nat} {v : Option Ref} (h : I none md.st) :
    Ends Any (closeLoop os k md v) fun md' => I none md'.st := by
  induction k generalizing md v with
  | zero =>
    cases v with
    | none => exact h
    | some v => trivial
  | succ k ih =>
    cases v with
    | none => exact h
    | some v =>
      unfold closeLoop
      refine Ends.bind (get_ends fun _ => trivial) ?_
      intro vec _
      have hsync : Ends Any (md.call fun st => fileSync os st vec.vfd) fun r => I none r.2.st :=
        call_keeps ((hI.fileSync hshort h).mono (fun _ h => h) fun _ h => h.1)
      refine Ends.bind hsync ?_
      rintro ⟨_, md₁⟩ h₁
      refine Ends.bind (callUnit_keeps (hI.fileClose h₁)) ?_
      intro md₂ h₂
      refine ih ?_
      cases v <;> exact h₂

theorem mdClose_keeps (h : I none md.st) : Ends Any (mdClose os md rnode) fun r => I none r.2.st := by
  unfold mdClose
  split
  · exact h
  · have hclose : Ends Any (mdCloseFd os md (md.rdFd rnode).toNat) fun md' => I none md'.st := by
      unfold mdCloseFd
      refine Ends.bind (closeLoop_keeps hI hshort h) ?_
      intro md₁ h₁
      refine fdvecFree_ends.mono (fun _ h => h) ?_
      intro md₂ h₂
      rw [h₂]
      exact h₁
    exact Ends.bind hclose fun md' h' => h'

end

end PostgresV7.Md
