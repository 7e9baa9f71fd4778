import PostgresV7.Fd.Alike
import PostgresV7.Fd.Tracks

/-!
# What is seen in the list of calls

A list of the calls changes nothing of what they do. A file was given up exactly if there is
a seek of no descriptor in the list. If it has no descriptor that is too large for a slot,
the system may as well be one that never returns such a descriptor.
-/

namespace PostgresV7.Fd

variable {σ : Type} {os : Os σ} {view : σ → Kernel} {base : Nat → Prop}
  {Q Q' : σ → (File → Prop) → Prop} {st : FdState σ} {k : Kernel} {limbo : Option File} {G : File → Prop}
  {calls : List Syscall} {c : Syscall}

/-- There is a seek of no descriptor. -/
def SeeksClosed (calls : List Syscall) : Prop := ∃ offset whence pos, .lseek VFD_CLOSED offset whence pos ∈ calls

/-- A seek of no descriptor. -/
def Syscall.seeksClosed : Syscall → Bool
  | .lseek fd _ _ _ => fd = VFD_CLOSED
  | _ => false

instance : Decidable (SeeksClosed calls) := by
  apply decidable_of_iff (calls.any Syscall.seeksClosed = true)
  rw [List.any_eq_true]
  constructor
  · rintro ⟨c, hmem, hc⟩
    cases c with
    | lseek fd offset whence pos =>
      obtain rfl := of_decide_eq_true hc
      exact ⟨offset, whence, pos, hmem⟩
    | _ => cases hc
  · rintro ⟨offset, whence, pos, hmem⟩
    exact ⟨_, hmem, rfl⟩

theorem seeksClosed_concat (hc : ∀ offset whence pos, c ≠ .lseek VFD_CLOSED offset whence pos) :
    SeeksClosed (calls ++ [c]) ↔ SeeksClosed calls := by
  constructor
  · rintro ⟨offset, whence, pos, hmem⟩
    rcases List.mem_append.mp hmem with hmem | hmem
    · exact ⟨offset, whence, pos, hmem⟩
    · exact absurd (List.mem_singleton.mp hmem).symm (hc offset whence pos)
  · rintro ⟨offset, whence, pos, hmem⟩
    exact ⟨offset, whence, pos, List.mem_append_left _ hmem⟩

/-- Which files were given up is seen in the list. -/
def Seen (s : σ × List Syscall) (G : File → Prop) : Prop := SeeksClosed s.2 ↔ ∃ file, G file

theorem Seen.concat {s s' : σ × List Syscall} (h : Seen s G) (hs : s'.2 = s.2 ++ [c])
    (hc : ∀ offset whence pos, c ≠ .lseek VFD_CLOSED offset whence pos) : Seen s' G := by
  unfold Seen
  rw [hs, seeksClosed_concat hc]
  exact h

theorem traced_watches : os.traced.Watches Seen where
  openFile _ _ _ _ _ _ _ h hseen := hseen.concat (logged_eq_some h).2 fun _ _ _ => nofun
  close _ _ _ _ _ h hseen := hseen.concat (logged_eq_some h).2 fun _ _ _ => nofun
  read _ _ _ _ _ _ h hseen := hseen.concat (logged_eq_some h).2 fun _ _ _ => nofun
  write _ _ _ _ _ _ h hseen := hseen.concat (logged_eq_some h).2 fun _ _ _ => nofun
  fsync _ _ _ _ _ h hseen := hseen.concat (logged_eq_some h).2 fun _ _ _ => nofun
  ftruncate _ _ _ _ _ _ h hseen := hseen.concat (logged_eq_some h).2 fun _ _ _ => nofun
  lseek fd offset whence s r s' G hfd h hseen := by
    apply hseen.concat (logged_eq_some h).2
    rintro _ _ _ heq
    exact hfd (Syscall.lseek.inj heq).1
  givesUp offset whence s r s' G G' i hi h hseen := by
    have hmem : Syscall.lseek VFD_CLOSED offset whence r ∈ s'.2 := by
      rw [(logged_eq_some h).2]
      exact List.mem_append_right _ (List.mem_singleton_self _)
    exact iff_of_true ⟨offset, whence, r, hmem⟩ ⟨i, hi⟩

theorem Os.Honest.traced (h : os.Honest view) : os.traced.Honest fun s => view s.1 where
  openFile _ _ _ _ _ _ hcall := h.openFile _ _ _ _ _ _ (logged_eq_some hcall).1
  openFails _ _ _ _ _ _ hcall := h.openFails _ _ _ _ _ _ (logged_eq_some hcall).1
  close _ _ _ hcall := h.close _ _ _ (logged_eq_some hcall).1
  lseek _ _ _ _ _ _ hcall := h.lseek _ _ _ _ _ _ (logged_eq_some hcall).1
  lseekFails _ _ _ _ _ hcall := h.lseekFails _ _ _ _ _ (logged_eq_some hcall).1
  write _ _ _ _ _ hcall := h.write _ _ _ _ _ (logged_eq_some hcall).1
  writeFails _ _ _ _ hcall := h.writeFails _ _ _ _ (logged_eq_some hcall).1
  fsync _ _ _ _ hcall := h.fsync _ _ _ _ (logged_eq_some hcall).1
  ftruncate _ _ _ _ hcall := h.ftruncate _ _ _ _ (logged_eq_some hcall).1
  ftruncateFails _ _ _ _ hcall := h.ftruncateFails _ _ _ _ (logged_eq_some hcall).1

theorem Os.Serves.traced (h : os.Serves view) : os.traced.Serves fun s => view s.1 where
  openFile _ _ _ _ _ _ hcall := h.openFile _ _ _ _ _ _ (logged_eq_some hcall).1
  close _ _ _ hfd hcall := h.close _ _ _ hfd (logged_eq_some hcall).1
  read _ _ _ _ _ _ _ hread hcall := h.read _ _ _ _ _ _ _ hread (logged_eq_some hcall).1
  lseek _ _ _ _ _ _ hseek hcall := h.lseek _ _ _ _ _ _ hseek (logged_eq_some hcall).1
  fsync _ _ _ hfd hcall := h.fsync _ _ _ hfd (logged_eq_some hcall).1

theorem Os.Short.traced (h : os.Short) : os.traced.Short :=
  fun _ _ _ _ _ _ hcall => h _ _ _ _ _ _ (logged_eq_some hcall).1

/-- Something else may be watched that holds of the files that were given up. -/
theorem Tracks.rewatch (h : Tracks view base Q st k limbo G) (hwatch : Q' st.os G) :
    Tracks view base Q' st k limbo G :=
  ⟨h.sim, h.givenUp, hwatch⟩

/-- Nothing is watched. -/
theorem watches_true : os.Watches fun _ _ => True :=
  ⟨fun _ _ _ _ _ _ _ _ => id, fun _ _ _ _ _ _ => id, fun _ _ _ _ _ _ _ => id, fun _ _ _ _ _ _ _ => id,
    fun _ _ _ _ _ _ _ _ _ => id, fun _ _ _ _ _ _ => id, fun _ _ _ _ _ _ _ => id,
    fun _ _ _ _ _ _ _ _ _ _ _ => trivial⟩

/-! ## Descriptors that fit -/

/-- A slot can hold every descriptor that was opened. -/
def Fits (calls : List Syscall) : Prop := ∀ fd ∈ opened calls, fd ≤ 32767

instance : Decidable (Fits calls) := inferInstanceAs (Decidable (∀ fd ∈ opened calls, fd ≤ 32767))

/-- A descriptor that a slot can hold, or an error. -/
def fitting : Except Errno Nat × σ → Bool
  | (.ok fd, _) => fd ≤ 32767
  | (.error _, _) => true

/-- The system, but for the `open`s that return other descriptors. -/
def Os.fitting (os : Os σ) : Os σ :=
  { os with openFile := fun filename flags mode s => (os.openFile filename flags mode s).filter Fd.fitting }

theorem Os.fitting_openFile {filename : FileName} {flags : OpenFlags} {mode : Nat} {s : σ}
    {r : Except Errno Nat × σ} (h : os.fitting.openFile filename flags mode s = some r) :
    os.openFile filename flags mode s = some r ∧ Fd.fitting r = true :=
  Option.filter_eq_some_iff.mp h

theorem fitting_short : os.fitting.Short := by
  intro filename flags mode s fd s' h
  exact of_decide_eq_true (Os.fitting_openFile h).2

theorem Os.Honest.fitting (h : os.Honest view) : os.fitting.Honest view where
  openFile _ _ _ _ _ _ hcall := h.openFile _ _ _ _ _ _ (Os.fitting_openFile hcall).1
  openFails _ _ _ _ _ _ hcall := h.openFails _ _ _ _ _ _ (Os.fitting_openFile hcall).1
  close := h.close
  lseek := h.lseek
  lseekFails := h.lseekFails
  write := h.write
  writeFails := h.writeFails
  fsync := h.fsync
  ftruncate := h.ftruncate
  ftruncateFails := h.ftruncateFails

theorem Fits.of_concat (h : Fits (calls ++ [c])) : Fits calls := by
  intro fd hfd
  apply h
  rw [opened_append]
  exact List.mem_append_left _ hfd

/-- A call that both systems make is logged alike. -/
theorem logged_alike {α : Type} {call call' : σ → Option (α × σ)} {entry : α → Syscall}
    (h : ∀ s a s', call s = some (a, s') → Fits [entry a] → call' s = some (a, s')) :
    AnswersAlike (fun s : σ × List Syscall => Fits s.2) (logged call entry) (logged call' entry) := by
  rintro s ⟨a, s'⟩ hcall hfits
  obtain ⟨hdone, hcalls⟩ := logged_eq_some hcall
  rw [hcalls] at hfits
  refine ⟨?_, hfits.of_concat⟩
  have hentry : Fits [entry a] := by
    intro fd hfd
    apply hfits
    rw [opened_append]
    exact List.mem_append_right _ hfd
  unfold logged
  rw [h s.1 a s'.1 hdone hentry]
  exact congrArg some (Prod.ext rfl (Prod.ext rfl hcalls.symm))

/-- As long as slots hold what was opened, such a system answers alike. -/
theorem fitting_alike : os.traced.Alike os.fitting.traced fun s => Fits s.2 where
  openFile filename flags mode := by
    apply logged_alike
    intro s r s' hcall hfits
    apply Option.filter_eq_some_iff.mpr
    refine ⟨hcall, ?_⟩
    cases r with
    | error errno => rfl
    | ok fd => exact decide_eq_true (hfits fd (List.mem_singleton_self fd))
  close _ := logged_alike fun _ _ _ h _ => h
  write _ _ := logged_alike fun _ _ _ h _ => h
  lseek _ _ _ := logged_alike fun _ _ _ h _ => h
  fsync _ := logged_alike fun _ _ _ h _ => h
  ftruncate _ _ := logged_alike fun _ _ _ h _ => h
  indeterminate _ := rfl

end PostgresV7.Fd
