import PostgresV7.Fd.Evict

/-!
# An operating system that does what it is asked to

Names lead to files, and descriptors to open files with a position. A call that fails
ends the run, except that `unlink` says there is no such file. Which descriptor `open`
returns is a parameter.
-/

namespace PostgresV7.Fd

open Outcomes

/-- An open file description. -/
structure OpenFile where
  inode : Nat
  pos : Nat
  access : Access
  append : Bool
  deriving DecidableEq, Repr

structure Kernel where
  directory : FileName → Option Nat
  data : Nat → List UInt8
  nextInode : Nat
  table : Nat → Option OpenFile

/-- The largest `off_t`. -/
def maxOffset : Nat := 2 ^ 63 - 1

namespace Kernel

/-- Bytes written at a position; a gap before them is filled with zeros. -/
def overwrite (data : List UInt8) (pos : Nat) (buffer : List UInt8) : List UInt8 :=
  data.take pos ++ List.replicate (pos - data.length) 0 ++ buffer ++ data.drop (pos + buffer.length)

/-- Bytes cut off, or zeros added. -/
def resize (data : List UInt8) (size : Nat) : List UInt8 :=
  data.take size ++ List.replicate (size - data.length) 0

def setFile (k : Kernel) (fd : Nat) (f : OpenFile) : Kernel :=
  { k with table := Function.update k.table fd (some f) }

def setData (k : Kernel) (inode : Nat) (bytes : List UInt8) : Kernel :=
  { k with data := Function.update k.data inode bytes }

/-- `open`, with the descriptor it is to return. -/
def openFile (k : Kernel) (fd : Nat) (filename : FileName) (flags : OpenFlags) : Except Errno Kernel :=
  match k.directory filename with
  | some inode =>
    if flags.creat ∧ flags.excl then .error .other
    else .ok ((if flags.trunc then k.setData inode [] else k).setFile fd
      ⟨inode, 0, flags.access, flags.append⟩)
  | none =>
    if flags.creat then
      let new := { k with
        directory := Function.update k.directory filename (some k.nextInode)
        nextInode := k.nextInode + 1 }
      .ok ((new.setData k.nextInode []).setFile fd ⟨k.nextInode, 0, flags.access, flags.append⟩)
    else .error .ENOENT

def read (k : Kernel) (fd amount : Nat) : Option (List UInt8 × Kernel) := do
  let f ← k.table fd
  if f.access = .O_WRONLY then none
  else
    let bytes := ((k.data f.inode).drop f.pos).take amount
    some (bytes, k.setFile fd { f with pos := f.pos + bytes.length })

def write (k : Kernel) (fd : Nat) (buffer : List UInt8) : Option (Nat × Kernel) := do
  let f ← k.table fd
  if f.access = .O_RDONLY then none
  else if buffer = [] then some (0, k)
  else
    let pos := if f.append then (k.data f.inode).length else f.pos
    if pos + buffer.length ≤ maxOffset then
      let k := k.setData f.inode (overwrite (k.data f.inode) pos buffer)
      some (buffer.length, k.setFile fd { f with pos := pos + buffer.length })
    else none

/-- Where an offset is counted from. -/
def origin (k : Kernel) (f : OpenFile) : Whence → Option Nat
  | .SEEK_SET => some 0
  | .SEEK_CUR => some f.pos
  | .SEEK_END => some (k.data f.inode).length
  | .invalid => none

def lseek (k : Kernel) (fd : Nat) (offset : Int) (whence : Whence) : Option (Nat × Kernel) := do
  let f ← k.table fd
  let start ← k.origin f whence
  let pos := start + offset
  if 0 ≤ pos ∧ pos ≤ maxOffset then some (pos.toNat, k.setFile fd { f with pos := pos.toNat })
  else none

def ftruncate (k : Kernel) (fd : Nat) (size : Int) : Option Kernel := do
  let f ← k.table fd
  if f.access ≠ .O_RDONLY ∧ 0 ≤ size ∧ size ≤ maxOffset then
    some (k.setData f.inode (resize (k.data f.inode) size.toNat))
  else none

def close (k : Kernel) (fd : Nat) : Option Kernel := do
  let _ ← k.table fd
  some { k with table := Function.update k.table fd none }

/-- A name is removed; open files stay. -/
def unlink (k : Kernel) (filename : FileName) : Option Errno × Kernel :=
  match k.directory filename with
  | some _ => (none, { k with directory := Function.update k.directory filename none })
  | none => (some .ENOENT, k)

/-- The descriptor of a call, if it can be one. -/
def descriptor? (fd : Int) : Option Nat := if 0 ≤ fd then some fd.toNat else none

/-- The system calls. `pick` is the choice of a descriptor, `junk` what is in memory that
nothing was assigned to. -/
def os (pick : Kernel → Option Nat) (junk : Kernel → Int) : Os Kernel where
  openFile filename flags _ k := do
    let fd ← pick k
    match k.openFile fd filename flags with
    | .ok k => some (.ok fd, k)
    | .error _ => none
  close fd k := do
    let k ← k.close (← descriptor? fd)
    some (true, k)
  read fd amount k := do
    let (bytes, k) ← k.read (← descriptor? fd) amount
    some (some bytes, k)
  write fd buffer k := do
    let (count, k) ← k.write (← descriptor? fd) buffer
    some (some count, k)
  lseek fd offset whence k := do
    let (pos, k) ← k.lseek (← descriptor? fd) offset whence
    some (some pos, k)
  fsync fd k := do
    let _ ← k.table (← descriptor? fd)
    some (true, k)
  ftruncate fd size k := do
    let k ← k.ftruncate (← descriptor? fd) size
    some (true, k)
  unlink filename k := some (k.unlink filename)
  indeterminate := junk

/-- `open` returns a descriptor that is not in use, and not above `limit`. -/
def Picks (pick : Kernel → Option Nat) (limit : Nat) : Prop :=
  ∀ (k : Kernel) (fd : Nat), pick k = some fd → k.table fd = none ∧ fd ≤ limit

variable {k k' : Kernel} {pick : Kernel → Option Nat} {junk : Kernel → Int} {fd : Nat}

/-! ## What the calls do -/

theorem setFile_self (f : OpenFile) (h : k.table fd = some f) : k.setFile fd f = k := by
  unfold setFile
  rw [← h, Function.update_eq_self]

/-- A successful `open` returns what `pick` chose. -/
theorem os_openFile {filename : FileName} {flags : OpenFlags} {mode d : Nat}
    (h : (os pick junk).openFile filename flags mode k = some (.ok d, k')) :
    pick k = some d ∧ k.openFile d filename flags = .ok k' := by
  obtain ⟨fd, hpick, hrest⟩ := Option.bind_eq_some_iff.mp h
  split at hrest
  · rename_i k₁ hopen
    obtain ⟨hd, rfl⟩ := Prod.mk.inj (Option.some.inj hrest)
    obtain rfl := Except.ok.inj hd
    exact ⟨hpick, hopen⟩
  · cases hrest

theorem os_openFile_ne_error {filename : FileName} {flags : OpenFlags} {mode : Nat} {errno : Errno}
    (h : (os pick junk).openFile filename flags mode k = some (.error errno, k')) : False := by
  obtain ⟨fd, -, hrest⟩ := Option.bind_eq_some_iff.mp h
  split at hrest
  · cases (Prod.mk.inj (Option.some.inj hrest)).1
  · cases hrest

/-- `open` comes to nothing where there is no descriptor for it, or no such file. -/
theorem os_openFile_none {filename : FileName} {flags : OpenFlags} {mode : Nat}
    (h : (os pick junk).openFile filename flags mode k = none) :
    pick k = none ∨ ∃ d errno, k.openFile d filename flags = .error errno := by
  cases hpick : pick k with
  | none => exact .inl rfl
  | some d =>
    cases hopen : k.openFile d filename flags with
    | error errno => exact .inr ⟨d, errno, hopen⟩
    | ok k' =>
      have hdone : (os pick junk).openFile filename flags mode k = some (.ok d, k') := by
        refine Option.bind_eq_some_iff.mpr ⟨d, hpick, ?_⟩
        rw [hopen]
      rw [h] at hdone
      cases hdone

theorem os_read {amount : Nat} {r : Option (List UInt8)}
    (h : (os pick junk).read fd amount k = some (r, k')) :
    ∃ bytes, r = some bytes ∧ k.read fd amount = some (bytes, k') := by
  obtain ⟨⟨bytes, k₁⟩, hread, heq⟩ := Option.bind_eq_some_iff.mp h
  obtain ⟨rfl, rfl⟩ := Prod.mk.inj (Option.some.inj heq)
  exact ⟨bytes, rfl, hread⟩

theorem os_write {buffer : List UInt8} {r : Option Nat}
    (h : (os pick junk).write fd buffer k = some (r, k')) :
    ∃ count, r = some count ∧ k.write fd buffer = some (count, k') := by
  obtain ⟨⟨count, k₁⟩, hwrite, heq⟩ := Option.bind_eq_some_iff.mp h
  obtain ⟨rfl, rfl⟩ := Prod.mk.inj (Option.some.inj heq)
  exact ⟨count, rfl, hwrite⟩

theorem os_ftruncate {size : Int} {done : Bool}
    (h : (os pick junk).ftruncate fd size k = some (done, k')) :
    done = true ∧ k.ftruncate fd size = some k' := by
  obtain ⟨k₁, htruncate, heq⟩ := Option.bind_eq_some_iff.mp h
  obtain ⟨hdone, rfl⟩ := Prod.mk.inj (Option.some.inj heq)
  exact ⟨hdone.symm, htruncate⟩

theorem os_short {limit : Nat} (hpick : Picks pick limit) (hlimit : limit ≤ 32767) :
    (os pick junk).Short := by
  intro filename flags mode k fd k' h
  exact Nat.le_trans (hpick k fd (os_openFile h).1).2 hlimit

theorem os_lseek {offset : Int} {whence : Whence} {r : Option Nat}
    (h : (os pick junk).lseek fd offset whence k = some (r, k')) :
    ∃ pos, r = some pos ∧ k.lseek fd offset whence = some (pos, k') := by
  obtain ⟨⟨pos, k₁⟩, hseek, heq⟩ := Option.bind_eq_some_iff.mp h
  obtain ⟨rfl, rfl⟩ := Prod.mk.inj (Option.some.inj heq)
  exact ⟨pos, rfl, hseek⟩

theorem os_fsync {d : Int} {done : Bool} (h : (os pick junk).fsync d k = some (done, k')) :
    done = true ∧ k' = k := by
  obtain ⟨fd, -, hrest⟩ := Option.bind_eq_some_iff.mp h
  obtain ⟨f, -, heq⟩ := Option.bind_eq_some_iff.mp hrest
  obtain ⟨hdone, hk⟩ := Prod.mk.inj (Option.some.inj heq)
  exact ⟨hdone.symm, hk.symm⟩

theorem os_close {done : Bool} (h : (os pick junk).close fd k = some (done, k')) :
    k' = { k with table := Function.update k.table fd none } := by
  obtain ⟨k₁, hclose, heq⟩ := Option.bind_eq_some_iff.mp h
  obtain ⟨f, -, hk⟩ := Option.bind_eq_some_iff.mp hclose
  rw [← (Prod.mk.inj (Option.some.inj heq)).2]
  exact (Option.some.inj hk).symm

/-- `lseek` of an open file. -/
theorem lseek_eq {f : OpenFile} {offset : Int} {whence : Whence} {pos : Nat}
    (hf : k.table fd = some f) (h : k.lseek fd offset whence = some (pos, k')) :
    ∃ start, k.origin f whence = some start ∧ (pos : Int) = start + offset ∧ pos ≤ maxOffset ∧
      k' = k.setFile fd { f with pos := pos } := by
  unfold lseek at h
  rw [hf, Option.bind_eq_bind, Option.bind_some] at h
  obtain ⟨start, hstart, hrest⟩ := Option.bind_eq_some_iff.mp h
  dsimp only at hrest
  split at hrest
  · rename_i hrange
    obtain ⟨rfl, rfl⟩ := Prod.mk.inj (Option.some.inj hrest)
    exact ⟨start, hstart, Int.toNat_of_nonneg hrange.1, by omega, rfl⟩
  · cases hrest

/-- `read` of an open file. -/
theorem read_eq {f : OpenFile} {amount : Nat} {bytes : List UInt8} (hf : k.table fd = some f)
    (h : k.read fd amount = some (bytes, k')) :
    f.access ≠ .O_WRONLY ∧ bytes = ((k.data f.inode).drop f.pos).take amount ∧
      k' = k.setFile fd { f with pos := f.pos + bytes.length } := by
  unfold read at h
  rw [hf, Option.bind_eq_bind, Option.bind_some] at h
  split at h
  · cases h
  · rename_i hread
    obtain ⟨rfl, rfl⟩ := Prod.mk.inj (Option.some.inj h)
    exact ⟨hread, rfl, rfl⟩

/-- `write` to a file that is not opened for appending. -/
theorem write_eq {f : OpenFile} {buffer : List UInt8} {count : Nat} (hf : k.table fd = some f)
    (happend : f.append = false) (h : k.write fd buffer = some (count, k')) :
    f.access ≠ .O_RDONLY ∧ count = buffer.length ∧ (buffer ≠ [] → f.pos + buffer.length ≤ maxOffset) ∧
      k' = if buffer = [] then k
        else (k.setData f.inode (overwrite (k.data f.inode) f.pos buffer)).setFile fd
          { f with pos := f.pos + buffer.length } := by
  unfold write at h
  rw [hf, Option.bind_eq_bind, Option.bind_some] at h
  split at h
  · cases h
  · rename_i hwrite
    split at h
    · rename_i hnil
      obtain ⟨rfl, rfl⟩ := Prod.mk.inj (Option.some.inj h)
      rw [if_pos hnil, hnil]
      exact ⟨hwrite, rfl, fun hne => absurd rfl hne, rfl⟩
    · rename_i hne
      have hpos : (if f.append then (k.data f.inode).length else f.pos) = f.pos := by
        rw [happend, if_neg Bool.false_ne_true]
      dsimp only at h
      rw [hpos] at h
      split at h
      · rename_i hle
        obtain ⟨rfl, rfl⟩ := Prod.mk.inj (Option.some.inj h)
        rw [if_neg hne]
        exact ⟨hwrite, rfl, fun _ => hle, rfl⟩
      · cases h

/-- A seek that stays in range is done. -/
theorem lseek_done {f : OpenFile} {offset : Int} {whence : Whence} {start pos : Nat}
    (hf : k.table fd = some f) (hstart : k.origin f whence = some start)
    (hpos : (pos : Int) = start + offset) (hle : pos ≤ maxOffset) :
    k.lseek fd offset whence = some (pos, k.setFile fd { f with pos := pos }) := by
  have hrange : (0 : Int) ≤ (start : Int) + offset ∧ (start : Int) + offset ≤ maxOffset := by omega
  have hnat : ((start : Int) + offset).toNat = pos := by omega
  unfold lseek
  rw [hf, Option.bind_eq_bind, Option.bind_some, hstart]
  exact (if_pos hrange).trans (by rw [hnat])

theorem os_lseek_done {f : OpenFile} {offset : Int} {whence : Whence} {start pos : Nat}
    (hf : k.table fd = some f) (hstart : k.origin f whence = some start)
    (hpos : (pos : Int) = start + offset) (hle : pos ≤ maxOffset) :
    (os pick junk).lseek fd offset whence k = some (some pos, k.setFile fd { f with pos := pos }) :=
  Option.bind_eq_some_iff.mpr ⟨_, lseek_done hf hstart hpos hle, rfl⟩

theorem os_fsync_done {f : OpenFile} (hf : k.table fd = some f) :
    (os pick junk).fsync fd k = some (true, k) :=
  Option.bind_eq_some_iff.mpr ⟨f, hf, rfl⟩

theorem os_close_done {f : OpenFile} (hf : k.table fd = some f) :
    (os pick junk).close fd k = some (true, { k with table := Function.update k.table fd none }) :=
  Option.bind_eq_some_iff.mpr ⟨_, Option.bind_eq_some_iff.mpr ⟨f, hf, rfl⟩, rfl⟩

theorem os_read_done {amount : Nat} {r : List UInt8 × Kernel} (h : k.read fd amount = some r) :
    (os pick junk).read fd amount k = some (some r.1, r.2) :=
  Option.bind_eq_some_iff.mpr ⟨r, h, rfl⟩

theorem os_write_done {buffer : List UInt8} {r : Nat × Kernel} (h : k.write fd buffer = some r) :
    (os pick junk).write fd buffer k = some (some r.1, r.2) :=
  Option.bind_eq_some_iff.mpr ⟨r, h, rfl⟩

theorem os_ftruncate_done {size : Int} (h : k.ftruncate fd size = some k') :
    (os pick junk).ftruncate fd size k = some (true, k') :=
  Option.bind_eq_some_iff.mpr ⟨k', h, rfl⟩

theorem read_done {f : OpenFile} {amount : Nat} (hf : k.table fd = some f) (haccess : f.access ≠ .O_WRONLY) :
    k.read fd amount = some (((k.data f.inode).drop f.pos).take amount,
      k.setFile fd { f with pos := f.pos + (((k.data f.inode).drop f.pos).take amount).length }) := by
  unfold read
  rw [hf, Option.bind_eq_bind, Option.bind_some, if_neg haccess]

theorem write_done {f : OpenFile} {buffer : List UInt8} (hf : k.table fd = some f)
    (happend : f.append = false) (haccess : f.access ≠ .O_RDONLY)
    (hle : buffer ≠ [] → f.pos + buffer.length ≤ maxOffset) :
    k.write fd buffer = some (buffer.length, if buffer = [] then k
      else (k.setData f.inode (overwrite (k.data f.inode) f.pos buffer)).setFile fd
        { f with pos := f.pos + buffer.length }) := by
  unfold write
  rw [hf, Option.bind_eq_bind, Option.bind_some, if_neg haccess]
  by_cases hnil : buffer = []
  · rw [if_pos hnil, if_pos hnil, hnil]
    rfl
  · have hpos : (if f.append then (k.data f.inode).length else f.pos) = f.pos := by
      rw [happend, if_neg Bool.false_ne_true]
    rw [if_neg hnil, if_neg hnil]
    dsimp only
    rw [hpos, if_pos (hle hnil)]

/-- `ftruncate` of an open file. -/
theorem ftruncate_eq {f : OpenFile} {size : Int} (hf : k.table fd = some f)
    (h : k.ftruncate fd size = some k') :
    f.access ≠ .O_RDONLY ∧ 0 ≤ size ∧ size ≤ maxOffset ∧
      k' = k.setData f.inode (resize (k.data f.inode) size.toNat) := by
  unfold ftruncate at h
  rw [hf, Option.bind_eq_bind, Option.bind_some] at h
  split at h
  · rename_i hand
    exact ⟨hand.1, hand.2.1, hand.2.2, (Option.some.inj h).symm⟩
  · cases h

theorem ftruncate_done {f : OpenFile} {size : Int} (hf : k.table fd = some f)
    (haccess : f.access ≠ .O_RDONLY) (hsize : 0 ≤ size ∧ size ≤ maxOffset) :
    k.ftruncate fd size = some (k.setData f.inode (resize (k.data f.inode) size.toNat)) := by
  unfold ftruncate
  rw [hf, Option.bind_eq_bind, Option.bind_some, if_pos ⟨haccess, hsize⟩]

/-- `lseek` may be used to ask for the position. -/
theorem lseek_current {f : OpenFile} (hf : k.table fd = some f) (hle : f.pos ≤ maxOffset) :
    k.lseek fd 0 .SEEK_CUR = some (f.pos, k) := by
  have hrange : (0 : Int) ≤ (f.pos : Int) + 0 ∧ (f.pos : Int) + 0 ≤ maxOffset := by omega
  have hpos : ((f.pos : Int) + 0).toNat = f.pos := by omega
  unfold lseek origin
  rw [hf, Option.bind_eq_bind, Option.bind_some]
  show (if (0 : Int) ≤ (f.pos : Int) + 0 ∧ (f.pos : Int) + 0 ≤ maxOffset then _ else _) = _
  rw [if_pos hrange, hpos, setFile_self f hf]

theorem openFile_exists {filename : FileName} {flags : OpenFlags} {inode d : Nat} {errno : Errno}
    (hdir : k.directory filename = some inode) (hcreat : flags.creat = false) :
    k.openFile d filename flags ≠ .error errno := by
  unfold openFile
  rw [hdir]
  dsimp only
  rw [if_neg fun hand => Bool.false_ne_true (hcreat.symm.trans hand.1)]
  exact nofun

/-- `open` of a file that exists, as it was opened before. -/
theorem openFile_again {filename : FileName} {flags : OpenFlags} {inode d : Nat}
    (hdir : k.directory filename = some inode) (hcreat : flags.creat = false)
    (htrunc : flags.trunc = false) (h : k.openFile d filename flags = .ok k') :
    k' = k.setFile d ⟨inode, 0, flags.access, flags.append⟩ := by
  unfold openFile at h
  rw [hdir] at h
  dsimp only at h
  rw [hcreat, htrunc] at h
  exact (Except.ok.inj h).symm

end Kernel

end PostgresV7.Fd
