import Mathlib.Order.Interval.Finset.Nat
import PostgresV7.Fd.Transfer
import PostgresV7.Lib.Blocks
import PostgresV7.Smgr.Md

/-!
# A relation and its files (`md.c`)

What counts of a file are its whole blocks. Calls of `fd.c` that fail leave them alone, and
so does the part of a block that was written behind them.
-/

namespace PostgresV7.Md

open Fd Smgr Outcomes Blocks

/-! ## Files -/

/-- The bytes under a name; a file that does not exist has none. -/
def content (k : Kernel) (path : FileName) : List UInt8 :=
  match k.directory path with
  | some inode => k.data inode
  | none => []

/-- New inodes have not been given yet. -/
def Fresh (k : Kernel) : Prop := ∀ path inode, k.directory path = some inode → inode < k.nextInode

/-- No file has two names. -/
def Separate (k : Kernel) : Prop :=
  ∀ path path' inode, k.directory path = some inode → k.directory path' = some inode → path = path'

/-- The files that are open are few enough for `n` more slots. -/
def Few (room : Nat) (k : Kernel) (n : Nat) : Prop :=
  ∃ slots : Finset Nat, (∀ i, k.table i ≠ none → i ∈ slots) ∧ slots.card + n < room

/-- No position in a segment is beyond this. -/
def segEnd : Nat := (RELSEG_SIZE + 1) * BLCKSZ

/-- A slot has the file of a name, for reading and writing. -/
def Holds (k : Kernel) (path : FileName) (vfd : File) : Prop :=
  ∃ f, k.table vfd = some f ∧ k.directory path = some f.inode ∧ f.access = .O_RDWR ∧ f.append = false ∧
    f.pos ≤ segEnd

/-- Names and slots stay. -/
structure Keeps (k k' : Kernel) : Prop where
  names : ∀ path inode, k.directory path = some inode → k'.directory path = some inode
  slots : ∀ i f, k.table i = some f → ∃ p, k'.table i = some { f with pos := p } ∧ (p = f.pos ∨ p ≤ segEnd)
  fresh : Fresh k → Fresh k'

/-- The whole blocks of every file stay. -/
def SameBlocks (k k' : Kernel) : Prop :=
  ∀ path, whole BLCKSZ (content k' path) = whole BLCKSZ (content k path)

variable {k k' k'' : Kernel} {path : FileName} {vfd : File} {f : OpenFile} {n room : Nat}

theorem Keeps.refl (k : Kernel) : Keeps k k :=
  ⟨fun _ _ h => h, fun _ f h => ⟨f.pos, h, .inl rfl⟩, fun h => h⟩

theorem Keeps.trans (h : Keeps k k') (h' : Keeps k' k'') : Keeps k k'' := by
  constructor
  · intro path inode hdir
    exact h'.names _ _ (h.names _ _ hdir)
  · intro i f hf
    obtain ⟨p, hp, hle⟩ := h.slots i f hf
    obtain ⟨q, hq, hle'⟩ := h'.slots i _ hp
    refine ⟨q, hq, ?_⟩
    rcases hle' with rfl | hle'
    · exact hle
    · exact .inr hle'
  · intro hfresh
    exact h'.fresh (h.fresh hfresh)

theorem Holds.keeps (h : Holds k path vfd) (hk : Keeps k k') : Holds k' path vfd := by
  obtain ⟨f, hf, hdir, haccess, happend, hle⟩ := h
  obtain ⟨p, hp, hle'⟩ := hk.slots vfd f hf
  refine ⟨_, hp, hk.names _ _ hdir, haccess, happend, ?_⟩
  rcases hle' with rfl | hle'
  · exact hle
  · exact hle'

theorem Holds.content (h : Holds k path vfd) (hf : k.table vfd = some f) :
    content k path = k.data f.inode := by
  obtain ⟨g, hg, hdir, -⟩ := h
  obtain rfl := Option.some.inj (hg.symm.trans hf)
  unfold Md.content
  rw [hdir]

/-- A position in a segment is no `-1`. -/
theorem toInt_of_le {p : Nat} (h : p ≤ segEnd) : toInt p = p := by
  have hend : segEnd = 1073750016 := rfl
  unfold toInt
  rw [Int.bmod_def]
  split <;> omega

theorem toInt_ne (h : f.pos ≤ segEnd) : toInt f.pos ≠ -1 := by
  rw [toInt_of_le h]
  omega

/-- The position of a slot moves. -/
theorem keeps_setFile {p : Nat} (hf : k.table vfd = some f) (hle : p ≤ segEnd) :
    Keeps k (k.setFile vfd { f with pos := p }) := by
  refine ⟨fun _ _ h => h, fun i g hg => ?_, fun h => h⟩
  by_cases hi : i = vfd
  · subst hi
    obtain rfl := Option.some.inj (hf.symm.trans hg)
    exact ⟨p, Function.update_self _ _ _, .inr hle⟩
  · exact ⟨g.pos, (Function.update_of_ne hi _ _).trans hg, .inl rfl⟩

theorem few_setFile (hf : k.table vfd = some f) {g : OpenFile} (h : Few room k n) :
    Few room (k.setFile vfd g) n := by
  obtain ⟨slots, hslots, hcard⟩ := h
  refine ⟨slots, fun i hi => hslots i ?_, hcard⟩
  by_cases hiv : i = vfd
  · simp [hiv, hf]
  · have hi : Function.update k.table vfd (some g) i ≠ none := hi
    rwa [Function.update_of_ne hiv] at hi

/-- The bytes of a file change. -/
theorem keeps_setData {inode : Nat} {bytes : List UInt8} : Keeps k (k.setData inode bytes) :=
  ⟨fun _ _ h => h, fun _ g hg => ⟨g.pos, hg, .inl rfl⟩, fun h => h⟩

theorem sameBlocks_setData {inode : Nat} {bytes : List UInt8}
    (hbytes : whole BLCKSZ bytes = whole BLCKSZ (k.data inode)) : SameBlocks k (k.setData inode bytes) := by
  intro path
  unfold content
  cases hdir : k.directory path with
  | none => simp [Kernel.setData, hdir]
  | some inode' =>
    simp only [Kernel.setData, hdir]
    by_cases hi : inode' = inode
    · rw [hi, Function.update_self, hbytes]
    · rw [Function.update_of_ne hi]

theorem few_of_table (h : Few room k n) (htable : k'.table = k.table) : Few room k' n := by
  obtain ⟨slots, hslots, hcard⟩ := h
  rw [← htable] at hslots
  exact ⟨slots, hslots, hcard⟩

/-- Where the whole blocks of a file end. -/
def wholeEnd (data : List UInt8) : Nat := data.length / BLCKSZ * BLCKSZ

/-- Less than a block behind the whole blocks does not matter. -/
theorem whole_overwrite {data buffer : List UInt8} (hlt : buffer.length < BLCKSZ) :
    whole BLCKSZ (Kernel.overwrite data (wholeEnd data) buffer) = whole BLCKSZ data := by
  have hle : wholeEnd data ≤ data.length := Nat.div_mul_le_self _ _
  have hrest : data.length < wholeEnd data + BLCKSZ := by
    unfold wholeEnd
    rw [← Nat.succ_mul]
    exact Nat.lt_mul_of_div_lt (Nat.lt_succ_self _) (by decide)
  unfold Kernel.overwrite
  rw [Nat.sub_eq_zero_of_le hle, List.replicate_zero, List.append_nil, List.append_assoc]
  apply whole_append (length_whole data)
  rw [List.length_append, List.length_drop]
  omega

theorem whole_resize {data : List UInt8} :
    whole BLCKSZ (Kernel.resize data (wholeEnd data)) = whole BLCKSZ data := by
  have hle : wholeEnd data ≤ data.length := Nat.div_mul_le_self _ _
  unfold Kernel.resize
  rw [Nat.sub_eq_zero_of_le hle, List.replicate_zero]
  exact whole_append (length_whole data) (by decide)

/-- A name for a new file. -/
theorem Separate.update {k' : Kernel} (h : Separate k) (hfresh : Fresh k)
    (hdir : k'.directory = Function.update k.directory path (some k.nextInode)) : Separate k' := by
  intro p q inode hp hq
  rw [hdir] at hp hq
  by_cases hpp : p = path <;> by_cases hqp : q = path
  · rw [hpp, hqp]
  · rw [hpp, Function.update_self] at hp
    rw [Function.update_of_ne hqp] at hq
    have hlt := hfresh q inode hq
    rw [← Option.some.inj hp] at hlt
    exact absurd hlt (Nat.lt_irrefl _)
  · rw [hqp, Function.update_self] at hq
    rw [Function.update_of_ne hpp] at hp
    have hlt := hfresh p inode hp
    rw [← Option.some.inj hq] at hlt
    exact absurd hlt (Nat.lt_irrefl _)
  · rw [Function.update_of_ne hpp] at hp
    rw [Function.update_of_ne hqp] at hq
    exact h p q inode hp hq

/-- What `open` does to the files. -/
structure Opened (k k' : Kernel) (path : FileName) (vfd : File) : Prop where
  keeps : Keeps k k'
  content : ∀ path', content k' path' = content k path'
  names : ∀ path', k'.directory path' ≠ none → path' = path ∨ k.directory path' ≠ none
  separate : Separate k → Separate k'
  only : ∀ i f', k'.table i = some f' → i = vfd ∨ ∃ f, k.table i = some f ∧ f.inode = f'.inode

theorem opened_openFile {d : Nat} {flags : OpenFlags} (hfree : k.table d = none) (hfresh : Fresh k)
    (htrunc : flags.trunc = false) (h : k.openFile d path flags = .ok k') :
    Opened k k' path d ∧ (flags.access = .O_RDWR → flags.append = false → Holds k' path d) := by
  obtain ⟨f, hopens⟩ := Kernel.openFile_opens h
  have hslots : ∀ i g, k.table i = some g → k'.table i = some g := by
    intro i g hg
    have hi : i ≠ d := by
      rintro rfl
      rw [hfree] at hg
      cases hg
    rw [hopens.table, Function.update_of_ne hi]
    exact hg
  have hfiles : (∀ path, Md.content k' path = Md.content k path) ∧ Fresh k' ∧
      (∀ path', k'.directory path' ≠ none → path' = path ∨ k.directory path' ≠ none) ∧
      (Separate k → Separate k') := by
    unfold Kernel.openFile at h
    cases hdir : k.directory path with
    | some inode =>
      rw [hdir] at h
      dsimp only at h
      split at h
      · cases h
      · obtain rfl := Except.ok.inj h
        rw [htrunc]
        exact ⟨fun _ => rfl, hfresh, fun _ => .inr, fun h => h⟩
    | none =>
      rw [hdir] at h
      dsimp only at h
      split at h
      · obtain rfl := Except.ok.inj h
        refine ⟨?_, ?_, ?_, fun hseparate => ?_⟩
        · intro path'
          unfold Md.content
          simp only [Kernel.setFile, Kernel.setData]
          by_cases hpath : path' = path
          · rw [hpath, Function.update_self, hdir]
            simp
          · rw [Function.update_of_ne hpath]
            cases hdir' : k.directory path' with
            | none => rfl
            | some inode =>
              have hlt := hfresh path' inode hdir'
              dsimp only
              rw [Function.update_of_ne (Nat.ne_of_lt hlt)]
        · intro path' inode hdir'
          have hdir' : Function.update k.directory path (some k.nextInode) path' = some inode := hdir'
          show inode < k.nextInode + 1
          by_cases hpath : path' = path
          · rw [hpath, Function.update_self] at hdir'
            rw [← Option.some.inj hdir']
            exact Nat.lt_succ_self _
          · rw [Function.update_of_ne hpath] at hdir'
            exact Nat.lt_succ_of_lt (hfresh path' inode hdir')
        · intro path' hdir'
          have hdir' : Function.update k.directory path (some k.nextInode) path' ≠ none := hdir'
          by_cases hpath : path' = path
          · exact .inl hpath
          · rw [Function.update_of_ne hpath] at hdir'
            exact .inr hdir'
        · exact hseparate.update hfresh rfl
      · cases h
  refine ⟨⟨⟨hopens.names, fun i g hg => ⟨g.pos, hslots i g hg, .inl rfl⟩, fun _ => hfiles.2.1⟩, hfiles.1,
    hfiles.2.2.1, hfiles.2.2.2, fun i g hg => ?_⟩, ?_⟩
  · by_cases hi : i = d
    · exact .inl hi
    · rw [hopens.table, Function.update_of_ne hi] at hg
      exact .inr ⟨g, hg, rfl⟩
  intro haccess happend
  refine ⟨f, ?_, hopens.reached, hopens.access.trans haccess, hopens.append.trans happend, ?_⟩
  · rw [hopens.table, Function.update_self]
  · rw [hopens.pos]
    exact Nat.zero_le _

theorem few_open {d : Nat} {flags : OpenFlags} (h : Few room k (n + 1))
    (hopen : k.openFile d path flags = .ok k') :
    Few room k' n := by
  obtain ⟨f, hopens⟩ := Kernel.openFile_opens hopen
  obtain ⟨slots, hslots, hcard⟩ := h
  refine ⟨insert d slots, fun i hi => ?_, ?_⟩
  · by_cases hid : i = d
    · exact hid ▸ Finset.mem_insert_self _ _
    · rw [hopens.table, Function.update_of_ne hid] at hi
      exact Finset.mem_insert_of_mem (hslots i hi)
  · have hle := Finset.card_insert_le d slots
    omega

end PostgresV7.Md
