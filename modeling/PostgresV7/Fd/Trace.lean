import PostgresV7.Fd.Evict

/-!
# The calls a run makes

The operating system with a list of the calls made of it. A function is told by what it
adds to the list.
-/

namespace PostgresV7.Fd

open Outcomes

variable {σ α : Type} {os : Os σ}

/-- A call of the operating system, and what came of it. -/
inductive Syscall where
  | openFile (filename : FileName) (flags : OpenFlags) (mode : Nat) (fd : Except Errno Nat)
  | close (fd : Int) (done : Bool)
  | read (fd : Int) (amount : Nat) (bytes : Option (List UInt8))
  | write (fd : Int) (buffer : List UInt8) (count : Option Nat)
  | lseek (fd offset : Int) (whence : Whence) (pos : Option Nat)
  | fsync (fd : Int) (done : Bool)
  | ftruncate (fd size : Int) (done : Bool)
  | unlink (filename : FileName) (errno : Option Errno)

/-- A call that is put in the list when it returns. -/
def logged (call : σ → Option (α × σ)) (entry : α → Syscall) :
    σ × List Syscall → Option (α × (σ × List Syscall)) :=
  fun s => (call s.1).map fun r => (r.1, (r.2, s.2 ++ [entry r.1]))

def Os.traced (os : Os σ) : Os (σ × List Syscall) where
  openFile filename flags mode := logged (os.openFile filename flags mode) (.openFile filename flags mode)
  close fd := logged (os.close fd) (.close fd)
  read fd amount := logged (os.read fd amount) (.read fd amount)
  write fd buffer := logged (os.write fd buffer) (.write fd buffer)
  lseek fd offset whence := logged (os.lseek fd offset whence) (.lseek fd offset whence)
  fsync fd := logged (os.fsync fd) (.fsync fd)
  ftruncate fd size := logged (os.ftruncate fd size) (.ftruncate fd size)
  unlink filename := logged (os.unlink filename) (.unlink filename)
  indeterminate s := os.indeterminate s.1

theorem logged_eq_some {call : σ → Option (α × σ)} {entry : α → Syscall} {s s' : σ × List Syscall}
    {a : α} (h : logged call entry s = some (a, s')) :
    call s.1 = some (a, s'.1) ∧ s'.2 = s.2 ++ [entry a] := by
  obtain ⟨r, hcall, hr⟩ := Option.map_eq_some_iff.mp h
  obtain ⟨rfl, rfl⟩ := Prod.mk.inj hr
  exact ⟨hcall, rfl⟩

/-! ## What is added -/

/-- All calls made between two states are of one kind. -/
def Adds (P : Syscall → Prop) (st st' : FdState (σ × List Syscall)) : Prop :=
  ∃ calls, st'.os.2 = st.os.2 ++ calls ∧ ∀ c ∈ calls, P c

variable {P : Syscall → Prop} {st st' st'' : FdState (σ × List Syscall)} {file : File}

theorem Adds.of_eq (h : st'.os = st.os) : Adds P st st' :=
  ⟨[], by simp [h], by simp⟩

theorem Adds.trans (h : Adds P st st') (h' : Adds P st' st'') : Adds P st st'' := by
  obtain ⟨calls, hcalls, hP⟩ := h
  obtain ⟨calls', hcalls', hP'⟩ := h'
  refine ⟨calls ++ calls', by simp [hcalls, hcalls'], ?_⟩
  intro c hc
  rcases List.mem_append.mp hc with hc | hc
  · exact hP c hc
  · exact hP' c hc

theorem Adds.mono {P' : Syscall → Prop} (h : Adds P st st') (hP : ∀ c, P c → P' c) : Adds P' st st' := by
  obtain ⟨calls, hcalls, hall⟩ := h
  exact ⟨calls, hcalls, fun c hc => hP c (hall c hc)⟩

/-- A computation on the states whose calls are all of one kind. -/
def Makes (P : Syscall → Prop) (x : Except Fault α) (st : FdState (σ × List Syscall))
    (after : α → FdState (σ × List Syscall)) : Prop :=
  Ends (fun _ => True) x fun r => Adds P st (after r)

theorem Makes.bind {β : Type} {x : Except Fault α} {f : α → Except Fault β}
    {after : α → FdState (σ × List Syscall)} {after' : β → FdState (σ × List Syscall)}
    (h : Makes P x st after) (hf : ∀ r, Makes P (f r) (after r) after') :
    Makes P (x >>= f) st after' := by
  apply Ends.bind h
  intro r hr
  exact (hf r).mono (fun _ h => h) fun _ h' => hr.trans h'

theorem Makes.ok {a : α} {after : α → FdState (σ × List Syscall)} (h : (after a).os = st.os) :
    Makes P (.ok a) st after := Adds.of_eq h

theorem Makes.error {e : Fault} {after : α → FdState (σ × List Syscall)} :
    Makes P (.error e : Except Fault α) st after := trivial

theorem sys_makes {call : σ → Option (α × σ)} {entry : α → Syscall} (h : ∀ a, P (entry a)) :
    Makes P (st.sys (logged call entry)) st Prod.snd := by
  unfold FdState.sys
  split
  · rename_i a s heq
    refine ⟨[entry a], (logged_eq_some heq).2, ?_⟩
    intro c hc
    rw [List.mem_singleton.mp hc]
    exact h a
  · exact Makes.error

/-! ## Making room -/

/-- The calls that close a file. -/
def Syscall.Closing : Syscall → Prop
  | .lseek _ _ whence _ => whence = .SEEK_CUR
  | .fsync _ _ | .close _ _ => True
  | _ => False

theorem delete_makes : Makes P (delete st file) st id := by
  unfold delete
  split
  · exact Makes.error
  · exact Makes.ok rfl

theorem pgFsync_makes (h : ∀ done, P (.fsync (st.fd file) done)) :
    Makes P (pgFsync os.traced st file) st Prod.snd := by
  unfold pgFsync
  split
  · apply Makes.bind (sys_makes h)
    rintro ⟨done, st'⟩
    apply Makes.ok
    dsimp only
    split <;> rfl
  · exact Makes.ok rfl

theorem syncIfDirty_makes (h : ∀ done, P (.fsync (st.fd file) done)) :
    Makes P (syncIfDirty os.traced st file) st id := by
  unfold syncIfDirty
  split
  · apply Makes.bind (pgFsync_makes h)
    rintro ⟨done, st'⟩
    dsimp only
    split
    · exact Makes.ok rfl
    · exact Makes.error
  · exact Makes.ok rfl

theorem closeDescriptor_makes (h : ∀ done, P (.close (st.fd file) done)) :
    Makes P (closeDescriptor os.traced st file) st id := by
  unfold closeDescriptor
  apply Makes.bind (sys_makes h)
  rintro ⟨done, st'⟩
  dsimp only
  split
  · exact Makes.ok rfl
  · exact Makes.error

theorem lruDelete_makes : Makes Syscall.Closing (lruDelete os.traced st file) st id := by
  unfold lruDelete
  apply Makes.bind delete_makes
  intro st₁
  have hseek : ∀ pos, Syscall.Closing (.lseek (st₁.fd file) 0 .SEEK_CUR pos) := fun _ => rfl
  apply Makes.bind (sys_makes hseek)
  rintro ⟨pos, st₂⟩
  cases pos with
  | none => exact Makes.error
  | some pos =>
    have hsync : Makes Syscall.Closing (syncIfDirty os.traced
        { st₂ with seekPos := Function.update st₂.seekPos file pos } file) st₂ id :=
      syncIfDirty_makes fun _ => trivial
    apply hsync.bind
    intro st₃
    exact closeDescriptor_makes fun _ => trivial

/-- What `basic_open_file` does before the `open` that works. -/
def Syscall.Room : Syscall → Prop
  | .openFile _ _ _ fd => ∃ errno, fd = .error errno
  | c => c.Closing

theorem Syscall.Closing.room {c : Syscall} (h : c.Closing) : c.Room := by
  cases c <;> first | exact h | exact h.elim

theorem open_adds {filename : FileName} {flags : OpenFlags} {mode : Nat} {fd : Except Errno Nat}
    {s : σ × List Syscall} (h : os.traced.openFile filename flags mode st.os = some (fd, s)) :
    s.2 = st.os.2 ++ [.openFile filename flags mode fd] := (logged_eq_some h).2

/-- Making room keeps to calls of this kind. -/
theorem room_releases (st₀ : FdState (σ × List Syscall)) :
    Releases os.traced (fun _ => True) (Adds Syscall.Room st₀) := by
  apply releases_of trivial trivial trivial
  · intro st file h
    exact lruDelete_makes.mono (fun _ h => h) fun _ h' => h.trans (h'.mono fun _ => Syscall.Closing.room)
  · intro st file h
    exact h.trans (Adds.of_eq rfl)

theorem room_ignoresFailures (st₀ : FdState (σ × List Syscall)) (filename : FileName) (flags : OpenFlags)
    (mode : Nat) : IgnoresFailures os.traced (Adds Syscall.Room st₀) filename flags mode := by
  intro st errno s h hcall
  apply h.trans
  exact ⟨[.openFile filename flags mode (.error errno)], open_adds hcall, by simp [Syscall.Room]⟩

/-- At most the last call of `basic_open_file` is an `open` that works, and its descriptor
is returned. -/
theorem basicOpenFile_opened {st₀ : FdState (σ × List Syscall)} {filename : FileName} {flags : OpenFlags}
    {mode : Nat} (h : Adds Syscall.Room st₀ st) : Ends (fun _ => True)
      (basicOpenFile os.traced filename flags mode st.nFile st) fun r =>
        (r.1 = -1 ∧ Adds Syscall.Room st₀ r.2) ∨ ∃ fd : Nat, r.1 = fd ∧ ∃ room,
          r.2.os.2 = st₀.os.2 ++ (room ++ [.openFile filename flags mode (.ok fd)]) ∧
            ∀ c ∈ room, c.Room := by
  apply ((room_releases st₀).open (fun _ _ _ => trivial) (room_ignoresFailures st₀ filename flags mode) h
    (Nat.le_refl _)).mono (fun _ h => h)
  rintro _ ⟨st₁, ⟨room, hroom, hall⟩, ⟨rfl, -⟩ | ⟨fd, s, hcall, rfl⟩⟩
  · exact .inl ⟨rfl, room, hroom, hall⟩
  · refine .inr ⟨fd, rfl, room, ?_, hall⟩
    simp [open_adds hcall, hroom]

end PostgresV7.Fd
