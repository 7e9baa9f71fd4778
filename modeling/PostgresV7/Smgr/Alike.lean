import PostgresV7.Fd.Alike
import PostgresV7.Smgr.Md

/-!
# `md_extend` of systems that answer alike (`md.c`)

What goes through `fd.c` goes alike, and nothing else makes a call.
-/

namespace PostgresV7.Md

open Fd Smgr Outcomes

variable {σ α : Type} {P : σ → Prop} {os os' : Os σ} {md : MdState σ} {rnode : RelFileNode} {v : Ref}

theorem call_alike {x y : FdState σ → Except Fd.Fault (α × FdState σ)}
    (h : RunsAlike P (x md.st) (y md.st) md.st.os fun r => r.2.os) :
    RunsAlike P (md.call x) (md.call y) md.st.os fun r => r.2.st.os := by
  intro r hr hP
  unfold MdState.call at hr ⊢
  cases hx : x md.st with
  | error e =>
    rw [hx] at hr
    cases hr
  | ok a =>
    rw [hx] at hr
    obtain rfl := Except.ok.inj hr
    obtain ⟨hy, hP⟩ := h a hx hP
    rw [hy]
    exact ⟨rfl, hP⟩

theorem get_alike : RunsAlike P (md.get v) (md.get v) md.st.os fun _ => md.st.os := RunsAlike.of_eq fun _ _ => rfl

theorem set_alike {vec : MdfdVec} : RunsAlike P (md.set v vec) (md.set v vec) md.st.os fun r => r.st.os := by
  apply RunsAlike.of_eq
  intro md' h
  cases v with
  | slot fd =>
    rw [← Except.ok.inj h]
  | node p =>
    unfold MdState.set at h
    dsimp only at h
    split at h
    · rw [← Except.ok.inj h]
    · cases h

theorem fdvecAlloc_alike : RunsAlike P (fdvecAlloc md) (fdvecAlloc md) md.st.os fun r => r.2.st.os := by
  apply RunsAlike.of_eq
  intro r h
  unfold fdvecAlloc at h
  dsimp only at h
  split at h
  · split at h
    · cases h
    · split at h
      · split at h
        · cases h
        · rw [← Except.ok.inj h]
      · rw [← Except.ok.inj h]
  · split at h
    · cases h
    · rw [← Except.ok.inj h]

section

variable (hos : os.Alike os' P)

include hos

/-! ## Opening -/

theorem mdNblocksAux_alike {file : File} :
    RunsAlike P (mdNblocksAux os md file) (mdNblocksAux os' md file) md.st.os fun r => r.2.st.os := by
  unfold mdNblocksAux
  apply RunsAlike.bind (call_alike (fileSeek_alike hos))
  exact fun r => RunsAlike.ite (fun _ => RunsAlike.ok rfl) fun _ => RunsAlike.ok rfl

theorem openEither_alike {path : FileName} {flags others : OpenFlags} :
    RunsAlike P (openEither os md path flags others) (openEither os' md path flags others) md.st.os
      fun r => r.2.st.os := by
  unfold openEither
  apply RunsAlike.bind (call_alike (fileNameOpenFile_alike hos))
  intro r
  exact RunsAlike.ite (fun _ => call_alike (fileNameOpenFile_alike hos)) fun _ => RunsAlike.ok rfl

theorem mdOpen_alike : RunsAlike P (mdOpen os md rnode) (mdOpen os' md rnode) md.st.os fun r => r.2.st.os := by
  unfold mdOpen
  apply RunsAlike.ite (fun _ => RunsAlike.error)
  intro _
  apply RunsAlike.bind (openEither_alike hos)
  rintro ⟨fd, md₁⟩
  cases fd with
  | none => exact RunsAlike.ok rfl
  | some fd =>
    apply RunsAlike.bind fdvecAlloc_alike
    intro r
    exact RunsAlike.bind (mdNblocksAux_alike hos) fun r => RunsAlike.ok rfl

theorem mdFdGetRelnFd_alike :
    RunsAlike P (mdFdGetRelnFd os md rnode) (mdFdGetRelnFd os' md rnode) md.st.os fun r => r.2.st.os := by
  unfold mdFdGetRelnFd
  apply RunsAlike.ite
  · intro _
    apply RunsAlike.bind (mdOpen_alike hos)
    rintro ⟨fd, md₁⟩
    cases fd with
    | none => exact RunsAlike.error
    | some fd => exact RunsAlike.ok rfl
  · exact fun _ => RunsAlike.ok rfl

theorem mdFdOpenSeg_alike {segNo : Nat} {creat : Bool} :
    RunsAlike P (mdFdOpenSeg os md rnode segNo creat) (mdFdOpenSeg os' md rnode segNo creat) md.st.os
      fun r => r.2.st.os := by
  unfold mdFdOpenSeg
  apply RunsAlike.bind (call_alike (fileNameOpenFile_alike hos))
  rintro ⟨fd, md₁⟩
  cases fd with
  | none => exact RunsAlike.ok rfl
  | some fd => exact RunsAlike.bind (mdNblocksAux_alike hos) fun r => RunsAlike.ok rfl

theorem chainNext_alike {segNo : Nat} {creat : Bool} :
    RunsAlike P (chainNext os md rnode v segNo creat) (chainNext os' md rnode v segNo creat) md.st.os
      fun r => r.2.st.os := by
  unfold chainNext
  apply RunsAlike.bind get_alike
  intro vec
  cases vec.chain with
  | some next => exact RunsAlike.ok rfl
  | none =>
    apply RunsAlike.bind (mdFdOpenSeg_alike hos)
    rintro ⟨next, md₁⟩
    cases next with
    | none => exact RunsAlike.error
    | some next =>
      apply RunsAlike.bind get_alike
      exact fun vec => RunsAlike.bind set_alike fun md₂ => RunsAlike.ok rfl

/-! ## Walking and counting -/

theorem getSegLoop_alike {segNo i : Nat} :
    RunsAlike P (getSegLoop os rnode segNo md i v) (getSegLoop os' rnode segNo md i v) md.st.os
      fun r => r.2.st.os := by
  induction segNo generalizing md i v with
  | zero => exact RunsAlike.ok rfl
  | succ segNo ih => exact RunsAlike.bind (chainNext_alike hos) fun r => ih

theorem mdFdGetSeg_alike {blockNum : Int} :
    RunsAlike P (mdFdGetSeg os md rnode blockNum) (mdFdGetSeg os' md rnode blockNum) md.st.os
      fun r => r.2.2.st.os := by
  unfold mdFdGetSeg
  apply RunsAlike.bind (mdFdGetRelnFd_alike hos)
  intro r
  apply RunsAlike.bind (getSegLoop_alike hos)
  exact fun r => RunsAlike.bind get_alike fun vec => RunsAlike.ok rfl

theorem nblocksLoop_alike {k segNo : Nat} :
    RunsAlike P (nblocksLoop os rnode k md segNo v) (nblocksLoop os' rnode k md segNo v) md.st.os
      fun r => r.2.st.os := by
  induction k generalizing md segNo v with
  | zero => exact RunsAlike.error
  | succ k ih =>
    apply RunsAlike.bind get_alike
    intro vec
    apply RunsAlike.bind (mdNblocksAux_alike hos)
    intro r
    apply RunsAlike.ite (fun _ => RunsAlike.error)
    intro _
    apply RunsAlike.bind get_alike
    intro vec
    apply RunsAlike.bind set_alike
    intro md₁
    apply RunsAlike.ite
    · exact fun _ => RunsAlike.bind (chainNext_alike hos) fun r => ih
    · exact fun _ => RunsAlike.ok rfl

theorem mdNblocks_alike :
    RunsAlike P (mdNblocks os md rnode) (mdNblocks os' md rnode) md.st.os fun r => r.2.st.os := by
  unfold mdNblocks
  exact RunsAlike.bind (mdFdGetRelnFd_alike hos) fun r => nblocksLoop_alike hos

/-! ## Extending -/

theorem seekWhole_alike {file : File} {pos : Int} :
    RunsAlike P (seekWhole os md file pos) (seekWhole os' md file pos) md.st.os fun r => r.2.st.os := by
  unfold seekWhole
  exact RunsAlike.ite (fun _ => call_alike (fileSeek_alike hos)) fun _ => RunsAlike.ok rfl

theorem mdExtend_alike {buffer : Block} :
    RunsAlike P (mdExtend os md rnode buffer) (mdExtend os' md rnode buffer) md.st.os fun r => r.2.st.os := by
  unfold mdExtend
  apply RunsAlike.bind (mdNblocks_alike hos)
  intro r
  apply RunsAlike.bind (mdFdGetSeg_alike hos)
  intro r
  apply RunsAlike.bind (call_alike (fileSeek_alike hos))
  intro r
  apply RunsAlike.ite (fun _ => RunsAlike.ok rfl)
  intro _
  apply RunsAlike.bind (seekWhole_alike hos)
  intro r
  apply RunsAlike.ite (fun _ => RunsAlike.ok rfl)
  intro _
  apply RunsAlike.bind (call_alike (fileWrite_alike hos))
  intro r
  apply RunsAlike.ite
  · intro _
    apply RunsAlike.ite
    · intro _
      apply RunsAlike.bind (call_alike (fileTruncate_alike hos))
      exact fun r => RunsAlike.bind (call_alike (fileSeek_alike hos)) fun r => RunsAlike.ok rfl
    · exact fun _ => RunsAlike.ok rfl
  · intro _
    apply RunsAlike.bind get_alike
    exact fun vec => RunsAlike.bind set_alike fun md₁ => RunsAlike.ok rfl

end

end PostgresV7.Md
