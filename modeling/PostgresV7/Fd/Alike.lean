import PostgresV7.Fd.Narrow

/-!
# Two systems that answer alike (`fd.c`)

As long as the state of one system is one of a kind, the other gives the same answers. Then
a run of one that ends in such a state is a run of the other.
-/

namespace PostgresV7.Fd

open Outcomes

variable {σ α β : Type} {P : σ → Prop} {os os' : Os σ} {st : FdState σ} {file : File}

/-- A call that ends with `P` is answered alike, and there was `P` before. -/
def AnswersAlike (P : σ → Prop) (call call' : σ → Option (α × σ)) : Prop :=
  ∀ s r, call s = some r → P r.2 → call' s = some r ∧ P s

/-- The calls that end with `P` are answered alike. -/
structure Os.Alike (os os' : Os σ) (P : σ → Prop) : Prop where
  openFile : ∀ filename flags mode, AnswersAlike P (os.openFile filename flags mode)
    (os'.openFile filename flags mode)
  close : ∀ fd, AnswersAlike P (os.close fd) (os'.close fd)
  write : ∀ fd buffer, AnswersAlike P (os.write fd buffer) (os'.write fd buffer)
  lseek : ∀ fd offset whence, AnswersAlike P (os.lseek fd offset whence) (os'.lseek fd offset whence)
  fsync : ∀ fd, AnswersAlike P (os.fsync fd) (os'.fsync fd)
  ftruncate : ∀ fd size, AnswersAlike P (os.ftruncate fd size) (os'.ftruncate fd size)
  indeterminate : ∀ s, os'.indeterminate s = os.indeterminate s

/-- A run that ends with `P` is a run of both, and there was `P` before. -/
def RunsAlike {ε : Type} (P : σ → Prop) (x y : Except ε α) (s : σ) (after : α → σ) : Prop :=
  ∀ a, x = .ok a → P (after a) → y = .ok a ∧ P s

section

variable {ε : Type} {x y : Except ε α} {s : σ} {after : α → σ}

theorem RunsAlike.bind {f g : α → Except ε β} {after' : β → σ} (h : RunsAlike P x y s after)
    (hf : ∀ a, RunsAlike P (f a) (g a) (after a) after') : RunsAlike P (x >>= f) (y >>= g) s after' := by
  intro b hb hP
  obtain ⟨a, ha, hb⟩ := bind_eq_ok hb
  obtain ⟨hg, hP⟩ := hf a b hb hP
  obtain ⟨hy, hP⟩ := h a ha hP
  rw [hy]
  exact ⟨hg, hP⟩

theorem RunsAlike.ite {c : Prop} [Decidable c] {x' y' : Except ε α} (h : c → RunsAlike P x y s after)
    (h' : ¬ c → RunsAlike P x' y' s after) :
    RunsAlike P (if c then x else x') (if c then y else y') s after := by
  split
  · rename_i hc
    exact h hc
  · rename_i hc
    exact h' hc

/-- A step that makes no call. -/
theorem RunsAlike.of_eq (h : ∀ a, x = .ok a → after a = s) : RunsAlike P x x s after := by
  intro a ha hP
  rw [h a ha] at hP
  exact ⟨ha, hP⟩

theorem RunsAlike.ok {a : α} (h : after a = s) : RunsAlike P (.ok a : Except ε α) (.ok a) s after := by
  apply RunsAlike.of_eq
  intro b hb
  rw [← Except.ok.inj hb]
  exact h

theorem RunsAlike.error {e : ε} : RunsAlike P (.error e : Except ε α) y s after := fun _ ha _ => nomatch ha

end

theorem sys_alike {call call' : σ → Option (α × σ)} (h : AnswersAlike P call call') :
    RunsAlike P (st.sys call) (st.sys call') st.os fun r => r.2.os := by
  intro r hr hP
  unfold FdState.sys at hr ⊢
  cases hcall : call st.os with
  | none =>
    rw [hcall] at hr
    cases hr
  | some a =>
    rw [hcall] at hr
    obtain rfl := Except.ok.inj hr
    obtain ⟨hcall', hP⟩ := h _ _ hcall hP
    rw [hcall']
    exact ⟨rfl, hP⟩

theorem delete_alike : RunsAlike P (delete st file) (delete st file) st.os FdState.os := by
  apply RunsAlike.of_eq
  intro st' h
  unfold delete at h
  split at h
  · cases h
  · rw [← Except.ok.inj h]

theorem insert_alike : RunsAlike P (insert st file) (insert st file) st.os FdState.os := by
  apply RunsAlike.of_eq
  intro st' h
  unfold insert at h
  split at h
  · cases h
  · rw [← Except.ok.inj h]

section

variable (hos : os.Alike os' P)

include hos

/-! ## Making room -/

theorem pgFsync_alike : RunsAlike P (pgFsync os st file) (pgFsync os' st file) st.os fun r => r.2.os := by
  unfold pgFsync
  apply RunsAlike.ite
  · intro _
    apply RunsAlike.bind (sys_alike (hos.fsync _))
    intro r
    apply RunsAlike.ok
    dsimp only
    split <;> rfl
  · exact fun _ => RunsAlike.ok rfl

theorem syncIfDirty_alike : RunsAlike P (syncIfDirty os st file) (syncIfDirty os' st file) st.os FdState.os := by
  unfold syncIfDirty
  apply RunsAlike.ite
  · intro _
    apply RunsAlike.bind (pgFsync_alike hos)
    exact fun r => RunsAlike.ite (fun _ => RunsAlike.ok rfl) fun _ => RunsAlike.error
  · exact fun _ => RunsAlike.ok rfl

theorem closeDescriptor_alike :
    RunsAlike P (closeDescriptor os st file) (closeDescriptor os' st file) st.os FdState.os := by
  unfold closeDescriptor
  apply RunsAlike.bind (sys_alike (hos.close _))
  exact fun r => RunsAlike.ite (fun _ => RunsAlike.ok rfl) fun _ => RunsAlike.error

theorem lruDelete_alike : RunsAlike P (lruDelete os st file) (lruDelete os' st file) st.os FdState.os := by
  unfold lruDelete
  apply RunsAlike.bind delete_alike
  intro st₁
  apply RunsAlike.bind (sys_alike (hos.lseek _ _ _))
  rintro ⟨pos, st₂⟩
  cases pos with
  | none => exact RunsAlike.error
  | some pos => exact RunsAlike.bind (syncIfDirty_alike hos) fun st₃ => closeDescriptor_alike hos

theorem releaseLruFile_alike :
    RunsAlike P (releaseLruFile os st) (releaseLruFile os' st) st.os fun r => r.2.os := by
  unfold releaseLruFile
  apply RunsAlike.ite
  · intro _
    apply RunsAlike.ite (fun _ => RunsAlike.error)
    intro _
    exact RunsAlike.bind (lruDelete_alike hos) fun st₁ => RunsAlike.ok rfl
  · exact fun _ => RunsAlike.ok rfl

theorem releaseWhileFull_alike {k : Nat} {st : FdState σ} :
    RunsAlike P (releaseWhileFull os k st) (releaseWhileFull os' k st) st.os FdState.os := by
  unfold releaseWhileFull
  apply RunsAlike.ite
  · intro _
    apply RunsAlike.bind (releaseLruFile_alike hos)
    intro r
    refine RunsAlike.ite (fun _ => ?_) fun _ => RunsAlike.ok rfl
    cases k with
    | zero => exact RunsAlike.error
    | succ k => exact releaseWhileFull_alike
  · exact fun _ => RunsAlike.ok rfl

/-! ## Opening -/

theorem basicOpenFile_alike {filename : FileName} {flags : OpenFlags} {mode k : Nat} {st : FdState σ} :
    RunsAlike P (basicOpenFile os filename flags mode k st) (basicOpenFile os' filename flags mode k st) st.os
      fun r => r.2.os := by
  unfold basicOpenFile
  apply RunsAlike.bind (sys_alike (hos.openFile _ _ _))
  rintro ⟨fd, st₁⟩
  cases fd with
  | ok fd => exact RunsAlike.ok rfl
  | error errno =>
    apply RunsAlike.ite
    · intro _
      apply RunsAlike.bind (releaseLruFile_alike hos)
      intro r
      refine RunsAlike.ite (fun _ => ?_) fun _ => RunsAlike.ok rfl
      cases k with
      | zero => exact RunsAlike.error
      | succ k => exact basicOpenFile_alike
    · exact fun _ => RunsAlike.ok rfl

theorem restorePosition_alike :
    RunsAlike P (restorePosition os st file) (restorePosition os' st file) st.os FdState.os := by
  unfold restorePosition
  apply RunsAlike.ite
  · intro _
    apply RunsAlike.bind (sys_alike (hos.lseek _ _ _))
    rintro ⟨pos, st₁⟩
    cases pos with
    | none => exact RunsAlike.error
    | some pos => exact RunsAlike.ite (fun _ => RunsAlike.error) fun _ => RunsAlike.ok rfl
  · exact fun _ => RunsAlike.ok rfl

theorem lruInsert_alike : RunsAlike P (lruInsert os st file) (lruInsert os' st file) st.os fun r => r.2.os := by
  have hentered : ∀ {st : FdState σ}, RunsAlike P (do
      let st ← insert st file
      (.ok (0, st.note (.reopened file)) : Except Fault (Int × FdState σ))) (do
      let st ← insert st file
      .ok (0, st.note (.reopened file))) st.os fun r => r.2.os :=
    RunsAlike.bind insert_alike fun st₁ => RunsAlike.ok rfl
  unfold lruInsert
  apply RunsAlike.ite (fun _ => RunsAlike.error)
  intro _
  apply RunsAlike.ite
  · intro _
    apply RunsAlike.bind (releaseWhileFull_alike hos)
    intro st₁
    apply RunsAlike.bind (basicOpenFile_alike hos)
    rintro ⟨fd, st₂⟩
    apply RunsAlike.ite (fun _ => RunsAlike.ok rfl)
    intro _
    exact RunsAlike.bind (restorePosition_alike hos) fun st₃ => hentered
  · exact fun _ => hentered

theorem fileAccess_alike : RunsAlike P (fileAccess os st file)
    (fileAccess os' st file) st.os fun r => r.2.os := by
  unfold fileAccess
  apply RunsAlike.ite
  · intro _
    apply RunsAlike.bind (lruInsert_alike hos)
    exact fun r => RunsAlike.ite (fun _ => RunsAlike.ok rfl) fun _ => RunsAlike.ok rfl
  · intro _
    apply RunsAlike.ite
    · intro _
      apply RunsAlike.bind delete_alike
      exact fun st₁ => RunsAlike.bind insert_alike fun st₂ => RunsAlike.ok rfl
    · exact fun _ => RunsAlike.ok rfl

theorem fileNameOpenFile_alike {filename : FileName} {flags : OpenFlags} {mode : Nat} :
    RunsAlike P (fileNameOpenFile os st filename flags mode) (fileNameOpenFile os' st filename flags mode) st.os
      fun r => r.2.os := by
  have haux : ∀ {filename}, RunsAlike P (fileNameOpenFileAux os st filename flags mode)
      (fileNameOpenFileAux os' st filename flags mode) st.os fun r => r.2.os := by
    intro filename
    unfold fileNameOpenFileAux
    apply RunsAlike.bind (RunsAlike.of_eq fun _ h => allocateVfd_os.of_ok h)
    rintro ⟨file, st₁⟩
    apply RunsAlike.bind (releaseWhileFull_alike hos)
    intro st₂
    apply RunsAlike.bind (basicOpenFile_alike hos)
    rintro ⟨fd, st₃⟩
    apply RunsAlike.ite (fun _ => RunsAlike.ok rfl)
    intro _
    exact RunsAlike.bind insert_alike fun st₄ => RunsAlike.ok rfl
  unfold fileNameOpenFile
  apply RunsAlike.bind haux
  exact fun r => RunsAlike.ite (fun _ => RunsAlike.ok rfl) fun _ => RunsAlike.error

/-! ## Seeking, writing and truncating -/

theorem seekFile_alike {offset : Int} {whence : Whence} :
    RunsAlike P (seekFile os st file offset whence) (seekFile os' st file offset whence) st.os FdState.os := by
  unfold seekFile
  exact RunsAlike.bind (sys_alike (hos.lseek _ _ _)) fun r => RunsAlike.ok rfl

theorem seekClosed_alike {offset : Int} {whence : Whence} :
    RunsAlike P (seekClosed os st file offset whence)
      (seekClosed os' st file offset whence) st.os FdState.os := by
  cases whence with
  | SEEK_SET => exact RunsAlike.ite (fun _ => RunsAlike.error) fun _ => RunsAlike.ok rfl
  | SEEK_CUR => exact RunsAlike.ok rfl
  | SEEK_END => exact RunsAlike.bind (fileAccess_alike hos) fun r => seekFile_alike hos
  | invalid => exact RunsAlike.error

theorem seekOpen_alike {offset : Int} {whence : Whence} :
    RunsAlike P (seekOpen os st file offset whence) (seekOpen os' st file offset whence) st.os FdState.os := by
  cases whence with
  | SEEK_SET =>
    apply RunsAlike.ite (fun _ => RunsAlike.error)
    exact fun _ => RunsAlike.ite (fun _ => seekFile_alike hos) fun _ => RunsAlike.ok rfl
  | SEEK_CUR => exact RunsAlike.ite (fun _ => seekFile_alike hos) fun _ => RunsAlike.ok rfl
  | SEEK_END => exact seekFile_alike hos
  | invalid => exact RunsAlike.error

theorem fileSeek_alike {offset : Int} {whence : Whence} :
    RunsAlike P (fileSeek os st file offset whence) (fileSeek os' st file offset whence) st.os
      fun r => r.2.os := by
  unfold fileSeek
  apply RunsAlike.ite (fun _ => RunsAlike.error)
  intro _
  apply RunsAlike.ite
  · exact fun _ => RunsAlike.bind (seekClosed_alike hos) fun st₁ => RunsAlike.ok rfl
  · exact fun _ => RunsAlike.bind (seekOpen_alike hos) fun st₁ => RunsAlike.ok rfl

theorem fileWrite_alike {buffer : List UInt8} :
    RunsAlike P (fileWrite os st file buffer) (fileWrite os' st file buffer) st.os fun r => r.2.os := by
  unfold fileWrite
  apply RunsAlike.ite (fun _ => RunsAlike.error)
  intro _
  apply RunsAlike.bind (fileAccess_alike hos)
  intro r
  apply RunsAlike.bind (sys_alike (hos.write _ _))
  rintro ⟨count, st₂⟩
  cases count <;> exact RunsAlike.ok rfl

theorem fileSync_alike : RunsAlike P (fileSync os st file) (fileSync os' st file) st.os fun r => r.2.os := by
  unfold fileSync
  apply RunsAlike.ite (fun _ => RunsAlike.error)
  intro _
  apply RunsAlike.ite (fun _ => RunsAlike.ok rfl)
  intro _
  apply RunsAlike.ite (fun _ => RunsAlike.ok rfl)
  intro _
  apply RunsAlike.ite
  · intro _
    apply RunsAlike.bind (lruInsert_alike hos)
    intro r
    apply RunsAlike.ite (fun _ => RunsAlike.ok rfl)
    intro _
    apply RunsAlike.bind (pgFsync_alike hos)
    exact fun r => RunsAlike.ite (fun _ => RunsAlike.ok rfl) fun _ => RunsAlike.ok rfl
  · intro _
    rw [hos.indeterminate]
    exact RunsAlike.ok rfl

theorem fileTruncate_alike {size : Int} :
    RunsAlike P (fileTruncate os st file size) (fileTruncate os' st file size) st.os fun r => r.2.os := by
  unfold fileTruncate
  apply RunsAlike.ite (fun _ => RunsAlike.error)
  intro _
  apply RunsAlike.bind (fileSync_alike hos)
  intro r
  apply RunsAlike.bind (fileAccess_alike hos)
  intro r
  exact RunsAlike.bind (sys_alike (hos.ftruncate _ _)) fun r => RunsAlike.ok rfl

end

end PostgresV7.Fd
