import PostgresV7.Fd.Sim

/-!
# Reading, writing and seeking (`fd.c`)

A slot knows the position of its file, or knows that it does not. A transfer at a
position that is not known leaves a wrong one.
-/

namespace PostgresV7.Fd

open Recency Outcomes

variable {st st' : FdState Kernel} {k k' : Kernel} {file i : File} {limbo : Option File}
  {f f' : OpenFile} {pick : Kernel → Option Nat} {junk : Kernel → Int}
  {base : Nat → Prop} {allowed : Fault → Prop}

/-! ## Moving a file -/

theorem Sim.valid (h : Sim base st k none) (hf : k.table file = some f) : FileIsValid st file := by
  have hname := h.filename_ne_none hf
  obtain ⟨hpos, hlt⟩ := h.linked.within file (.inl hname)
  refine ⟨hpos, ?_, hname⟩
  have hsmall := h.small
  have hint : toInt st.sizeVfdCache = st.sizeVfdCache := by
    unfold toInt
    rw [Int.bmod_def]
    split <;> omega
  rw [hint]
  exact Int.ofNat_lt.mpr hlt

/-- The file of a slot changes as its descriptor in the model does. -/
theorem Sim.put {os' k' : Kernel} {pos : Int} (h : Sim base st k limbo) (hf : k.table file = some f)
    (hk : k'.table = Function.update k.table file (some f')) (hdir : os'.directory = st.os.directory)
    (hdir' : k'.directory = k.directory) (hdata : os'.data = k'.data)
    (hnext : os'.nextInode = k'.nextInode) (hsizes : ∀ inode, (k'.data inode).length ≤ maxOffset)
    (hinode : f'.inode = f.inode) (haccess : f'.access = f.access) (happend : f'.append = f.append)
    (hle : f'.pos ≤ maxOffset)
    (hplaced : Placed { st with seekPos := Function.update st.seekPos file pos, os := os' } file f')
    (hothers : ∀ (i : File) (d : Nat), i ≠ file → st.fd i = d → os'.table d = st.os.table d)
    (htight : ∀ d : Nat, os'.table d ≠ none → base d ∨ ∃ i, st.fd i = d) :
    Sim base { st with seekPos := Function.update st.seekPos file pos, os := os' } k' limbo := by
  refine ⟨h.linked.of_eq rfl rfl rfl rfl rfl rfl rfl rfl, hdir.trans (h.directory.trans hdir'.symm), hdata,
    hnext, fun i hi => ?_, fun i hi => ?_, h.named, h.distinct, htight, hsizes, h.small⟩
  · obtain ⟨g, hg, hheld⟩ := h.held i hi
    obtain ⟨name, hname', hreach⟩ := hheld.named
    by_cases hif : i = file
    · subst hif
      obtain rfl := Option.some.inj (hf.symm.trans hg)
      refine ⟨f', (congrFun hk i).trans (Function.update_self _ _ _), ⟨name, hname', ?_⟩, ?_, hplaced, hle⟩
      · rw [hinode]
        exact (congrFun hdir name).trans hreach
      · rw [haccess, happend]
        exact hheld.flags
    · exact ⟨g, (congrFun hk i).trans ((Function.update_of_ne hif _ _).trans hg),
        ⟨name, hname', (congrFun hdir name).trans hreach⟩, hheld.flags,
        hheld.placed.of_table rfl (Function.update_of_ne hif _ _) rfl fun d' hd' => hothers i d' hif hd',
        hheld.pos_le⟩
  · have hif : i ≠ file := by
      rintro rfl
      exact h.filename_ne_none hf hi
    exact (congrFun hk i).trans ((Function.update_of_ne hif _ _).trans (h.unused i hi))

/-- The file of an open slot and its descriptor in the model move together. -/
theorem Sim.move {os' k' : Kernel} {d : Nat} {pos : Int} (h : Sim base st k limbo) (hf : k.table file = some f)
    (hd : st.fd file = d) (hos : os'.table = Function.update st.os.table d (some f'))
    (hk : k'.table = Function.update k.table file (some f')) (hdir : os'.directory = st.os.directory)
    (hdir' : k'.directory = k.directory) (hdata : os'.data = k'.data)
    (hnext : os'.nextInode = k'.nextInode) (hsizes : ∀ inode, (k'.data inode).length ≤ maxOffset)
    (hinode : f'.inode = f.inode) (haccess : f'.access = f.access) (happend : f'.append = f.append)
    (hle : f'.pos ≤ maxOffset) (hpos : pos = f'.pos ∨ pos = FILE_UNKNOWN_POS) :
    Sim base { st with seekPos := Function.update st.seekPos file pos, os := os' } k' limbo := by
  have hself : Function.update st.seekPos file pos file = pos := Function.update_self _ _ _
  refine h.put hf hk hdir hdir' hdata hnext hsizes hinode haccess happend hle
    (.inr ⟨d, hd, (congrFun hos d).trans (Function.update_self _ _ _), hpos.imp hself.trans hself.trans⟩)
    (fun i d' hif hd' => ?_) fun d' hd' => ?_
  · refine (congrFun hos d').trans (Function.update_of_ne ?_ _ _)
    rintro rfl
    have hopen : st.fd i ≠ VFD_CLOSED := fun hc => natCast_ne_closed d' (hd'.symm.trans hc)
    exact hif (h.distinct i file hopen (hd'.trans hd.symm))
  · by_cases hdd : d' = d
    · exact .inr ⟨file, hdd ▸ hd⟩
    · rw [hos, Function.update_of_ne hdd] at hd'
      exact h.tight d' hd'

/-- The position of a file that is closed moves in its slot only. -/
theorem Sim.place {pos : Nat} (h : Sim base st k limbo) (hf : k.table file = some f)
    (hclosed : st.fd file = VFD_CLOSED) (hle : pos ≤ maxOffset) :
    Sim base { st with seekPos := Function.update st.seekPos file (pos : Int) }
      (k.setFile file { f with pos := pos }) limbo :=
  h.put hf rfl rfl rfl h.data h.nextInode h.sizes rfl rfl rfl hle
    (.inl ⟨hclosed, Function.update_self _ _ _⟩) (fun _ _ _ _ => rfl) h.tight

theorem toLong_of_le {n : Nat} (h : n ≤ maxOffset) : toLong n = n := by
  unfold maxOffset at h
  unfold toLong
  rw [Int.bmod_def]
  split <;> omega

/-- Nothing is transferred where the position of an open file is not known. -/
def Known (st : FdState Kernel) (file : File) (count : Nat) : Prop :=
  st.fd file ≠ VFD_CLOSED → st.seekPos file = FILE_UNKNOWN_POS → count = 0

/-- The position in the slot after a transfer. -/
theorem Sim.advanced {pos : Int} {count : Nat} (h : Sim base st k limbo) (hf : k.table file = some f)
    (hknown : Known st file count) (hpos : pos = st.seekPos file)
    (hle : 0 < count → f.pos + count ≤ maxOffset) :
    (if count > 0 then toLong (pos + count) else FILE_UNKNOWN_POS) = (f.pos + count : Nat) ∨
      (if count > 0 then toLong (pos + count) else FILE_UNKNOWN_POS) = FILE_UNKNOWN_POS := by
  split
  · rename_i hcount
    refine .inl ?_
    have hplace : st.seekPos file = f.pos := by
      by_cases hclosed : st.fd file = VFD_CLOSED
      · exact h.closed hf hclosed
      · obtain ⟨g, d, hg, -, -, -, hseek⟩ := h.open hclosed
        obtain rfl := Option.some.inj (hf.symm.trans hg)
        exact hseek.resolve_right fun hunknown => Nat.ne_of_gt hcount (hknown hclosed hunknown)
    rw [hpos, hplace, ← Int.natCast_add, toLong_of_le (hle hcount)]
  · exact .inr rfl

/-! ## The operations -/

theorem fileRead_sim {amount : Nat} {bytes : List UInt8} (hpick : Kernel.Picks pick 32767)
    (hfull : Exhausts pick allowed base k) (h : Sim base st k none) (hread : k.read file amount = some (bytes, k')) (hpos : Reopenable st file)
    (hknown : Known st file bytes.length) :
    Ends allowed (fileRead (Kernel.os pick junk) st file amount) fun r =>
      r.1 = ((bytes.length : Int), bytes) ∧ Sim base r.2 k' none ∧ r.2.filename = st.filename := by
  obtain ⟨f, hf, -⟩ := Option.bind_eq_some_iff.mp hread
  obtain ⟨haccess, hbytes, rfl⟩ := Kernel.read_eq hf hread
  have hvalid := h.valid hf
  unfold fileRead
  rw [if_neg (not_not.mpr hvalid)]
  refine Ends.bind (fileAccess_sim hpick hfull h hvalid.ne_zero hvalid.2.2 hpos) ?_
  rintro ⟨code, st₁⟩ ⟨h₁, hacc⟩
  dsimp only at h₁ hacc
  obtain ⟨g, d, hg, hheld, hd, hd', -⟩ := h₁.open hacc.isOpen
  obtain rfl := Option.some.inj (hf.symm.trans hg)
  refine Ends.bind (sys_ends fun hnone => ?_) ?_
  · rw [hd, Kernel.os_read_done (Kernel.read_done hd' haccess)] at hnone
    cases hnone
  rintro _ ⟨r, os', hcall, rfl⟩
  rw [hd] at hcall
  obtain ⟨bytes', rfl, hread'⟩ := Kernel.os_read hcall
  obtain ⟨-, hbytes', rfl⟩ := Kernel.read_eq hd' hread'
  obtain rfl : bytes' = bytes := by
    rw [hbytes', hbytes, h₁.data]
  have hle : 0 < bytes'.length → f.pos + bytes'.length ≤ maxOffset := by
    intro hlen
    have hsize := h.sizes f.inode
    have htake : bytes'.length ≤ (k.data f.inode).length - f.pos := by
      rw [hbytes, ← List.length_drop]
      exact List.length_take_le' _ _
    omega
  refine ⟨rfl, h₁.move hf hd rfl rfl rfl rfl h₁.data h₁.nextInode h.sizes rfl rfl rfl ?_
    (h.advanced hf hknown hacc.seekPos hle), hacc.filename⟩
  by_cases hlen : 0 < bytes'.length
  · exact hle hlen
  · have hzero : bytes'.length = 0 := Nat.eq_zero_of_not_pos hlen
    show f.pos + bytes'.length ≤ maxOffset
    rw [hzero]
    exact hheld.pos_le

theorem overwrite_length {data buffer : List UInt8} {pos : Nat} (hdata : data.length ≤ maxOffset)
    (hle : pos + buffer.length ≤ maxOffset) :
    (Kernel.overwrite data pos buffer).length ≤ maxOffset := by
  unfold Kernel.overwrite
  simp only [List.length_append, List.length_take, List.length_replicate, List.length_drop]
  omega

theorem resize_length (data : List UInt8) (size : Nat) : (Kernel.resize data size).length = size := by
  unfold Kernel.resize
  rw [List.length_append, List.length_take, List.length_replicate]
  omega

theorem fileWrite_sim {buffer : List UInt8} {count : Nat} (hpick : Kernel.Picks pick 32767)
    (hfull : Exhausts pick allowed base k) (h : Sim base st k none) (hf : k.table file = some f) (happend : f.append = false)
    (hwrite : k.write file buffer = some (count, k')) (hpos : Reopenable st file)
    (hknown : Known st file count) :
    Ends allowed (fileWrite (Kernel.os pick junk) st file buffer) fun r =>
      r.1 = count ∧ Sim base r.2 k' none ∧ r.2.filename = st.filename := by
  obtain ⟨haccess, rfl, hle, rfl⟩ := Kernel.write_eq hf happend hwrite
  have hvalid := h.valid hf
  unfold fileWrite
  rw [if_neg (not_not.mpr hvalid)]
  refine Ends.bind (fileAccess_sim hpick hfull h hvalid.ne_zero hvalid.2.2 hpos) ?_
  rintro ⟨code, st₁⟩ ⟨h₁, hacc⟩
  dsimp only at h₁ hacc
  obtain ⟨g, d, hg, hheld, hd, hd', -⟩ := h₁.open hacc.isOpen
  obtain rfl := Option.some.inj (hf.symm.trans hg)
  refine Ends.bind (sys_ends fun hnone => ?_) ?_
  · rw [hd, Kernel.os_write_done (Kernel.write_done hd' happend haccess hle)] at hnone
    cases hnone
  rintro _ ⟨r, os', hcall, rfl⟩
  rw [hd] at hcall
  obtain ⟨count, rfl, hwrite'⟩ := Kernel.os_write hcall
  obtain ⟨-, rfl, -, rfl⟩ := Kernel.write_eq hd' happend hwrite'
  refine ⟨rfl, ?_⟩
  have hadvanced := h.advanced hf hknown hacc.seekPos fun hlen => hle (List.length_pos_iff.mp hlen)
  have hst : Sim base (FdState.advance { st₁ with
      os := if buffer = [] then st₁.os
        else (st₁.os.setData f.inode (Kernel.overwrite (st₁.os.data f.inode) f.pos buffer)).setFile d
          { f with pos := f.pos + buffer.length } } file buffer.length)
      (if buffer = [] then k
        else (k.setData f.inode (Kernel.overwrite (k.data f.inode) f.pos buffer)).setFile file
          { f with pos := f.pos + buffer.length }) none := by
    by_cases hnil : buffer = []
    · rw [if_pos hnil, if_pos hnil]
      refine h₁.move hf hd (update_same hd').symm (update_same hf).symm rfl rfl h₁.data h₁.nextInode
        h.sizes rfl rfl rfl hheld.pos_le ?_
      rwa [hnil] at hadvanced ⊢
    · rw [if_neg hnil, if_neg hnil]
      refine h₁.move hf hd rfl rfl rfl rfl ?_ h₁.nextInode ?_ rfl rfl rfl (hle hnil) hadvanced
      · show Function.update st₁.os.data f.inode _ = Function.update k.data f.inode _
        rw [h₁.data]
      · exact Kernel.setData_length (overwrite_length (h.sizes _) (hle hnil)) h.sizes
  exact ⟨hst.relink (hst.linked.of_eq rfl rfl rfl rfl rfl rfl rfl rfl) rfl rfl rfl rfl rfl rfl,
    hacc.filename⟩

/-- `lseek` of a file that is open. -/
theorem seekFile_sim {offset : Int} {whence : Whence} {pos : Nat} (h : Sim base st k none)
    (hseek : k.lseek file offset whence = some (pos, k')) (hopen : st.fd file ≠ VFD_CLOSED) :
    Ends allowed (seekFile (Kernel.os pick junk) st file offset whence) fun st' =>
      st'.seekPos file = pos ∧ Sim base st' k' none ∧ st'.filename = st.filename := by
  obtain ⟨f, d, hf, -, hd, hd', -⟩ := h.open hopen
  obtain ⟨start, hstart, hpos, hle, rfl⟩ := Kernel.lseek_eq hf hseek
  have horigin : st.os.origin f whence = k.origin f whence := by
    cases whence with
    | SEEK_END => exact congrArg (fun data => some (data f.inode).length) h.data
    | SEEK_SET | SEEK_CUR | invalid => rfl
  unfold seekFile
  refine Ends.bind (sys_ends fun hnone => ?_) ?_
  · rw [hd, Kernel.os_lseek_done hd' (horigin.trans hstart) hpos hle] at hnone
    cases hnone
  rintro _ ⟨r, os', hcall, rfl⟩
  rw [hd] at hcall
  obtain ⟨pos', rfl, hseek'⟩ := Kernel.os_lseek hcall
  obtain ⟨start', hstart', hpos', -, rfl⟩ := Kernel.lseek_eq hd' hseek'
  obtain rfl := Option.some.inj (hstart'.symm.trans (horigin.trans hstart))
  obtain rfl : pos' = pos := by omega
  exact ⟨Function.update_self _ _ _, h.move hf hd rfl rfl rfl rfl h.data h.nextInode h.sizes rfl rfl rfl hle
    (.inl rfl), rfl⟩

theorem seekClosed_sim {offset : Int} {whence : Whence} {pos : Nat} (hpick : Kernel.Picks pick 32767)
    (hfull : Exhausts pick allowed base k) (h : Sim base st k none) (hseek : k.lseek file offset whence = some (pos, k'))
    (hclosed : st.fd file = VFD_CLOSED) (hpos : whence = .SEEK_END → Reopenable st file) :
    Ends allowed (seekClosed (Kernel.os pick junk) st file offset whence) fun st' =>
      st'.seekPos file = pos ∧ Sim base st' k' none ∧ st'.filename = st.filename := by
  obtain ⟨f, hf, -⟩ := Option.bind_eq_some_iff.mp hseek
  obtain ⟨start, hstart, hp, hle, hk⟩ := Kernel.lseek_eq hf hseek
  have hvalid := h.valid hf
  unfold seekClosed
  cases whence with
  | SEEK_SET =>
    obtain rfl : 0 = start := Option.some.inj hstart
    obtain rfl : offset = pos := by omega
    dsimp only
    rw [if_neg (by omega), hk]
    exact ⟨Function.update_self _ _ _, h.place hf hclosed hle, rfl⟩
  | SEEK_CUR =>
    obtain rfl : f.pos = start := Option.some.inj hstart
    have hnew : toLong (st.seekPos file + offset) = pos := by
      rw [h.closed hf hclosed, ← hp, toLong_of_le hle]
    dsimp only
    rw [hnew, hk]
    exact ⟨Function.update_self _ _ _, h.place hf hclosed hle, rfl⟩
  | SEEK_END =>
    refine Ends.bind (fileAccess_sim hpick hfull h hvalid.ne_zero hvalid.2.2 (hpos rfl)) ?_
    rintro ⟨code, st₁⟩ ⟨h₁, hacc⟩
    refine (seekFile_sim h₁ hseek hacc.isOpen).mono (fun _ h => h) ?_
    rintro st₂ ⟨hseekPos, h₂, hname⟩
    exact ⟨hseekPos, h₂, hname.trans hacc.filename⟩
  | invalid => cases hstart

/-- A file that is where it is to be does not move. -/
theorem Sim.stay {pos : Nat} (h : Sim base st k none) (hf : k.table file = some f)
    (hopen : st.fd file ≠ VFD_CLOSED) (hpos : f.pos = pos)
    (hknown : st.seekPos file ≠ FILE_UNKNOWN_POS) (hk : k' = k.setFile file { f with pos := pos }) :
    st.seekPos file = pos ∧ Sim base st k' none ∧ st.filename = st.filename := by
  obtain ⟨g, d, hg, -, -, -, hseek⟩ := h.open hopen
  obtain rfl := Option.some.inj (hf.symm.trans hg)
  subst hpos
  rw [Kernel.setFile_self f hf] at hk
  subst hk
  exact ⟨hseek.resolve_right hknown, h, rfl⟩

theorem seekOpen_sim {offset : Int} {whence : Whence} {pos : Nat} (h : Sim base st k none)
    (hseek : k.lseek file offset whence = some (pos, k')) (hopen : st.fd file ≠ VFD_CLOSED) :
    Ends allowed (seekOpen (Kernel.os pick junk) st file offset whence) fun st' =>
      st'.seekPos file = pos ∧ Sim base st' k' none ∧ st'.filename = st.filename := by
  obtain ⟨f, d, hf, -, -, -, hplace⟩ := h.open hopen
  obtain ⟨start, hstart, hp, hle, hk⟩ := Kernel.lseek_eq hf hseek
  unfold seekOpen
  cases whence with
  | SEEK_SET =>
    obtain rfl : 0 = start := Option.some.inj hstart
    obtain rfl : offset = pos := by omega
    dsimp only
    rw [if_neg (by omega)]
    split
    · exact seekFile_sim h hseek hopen
    · rename_i hsame
      have hknown : st.seekPos file ≠ FILE_UNKNOWN_POS := by
        rw [not_not.mp hsame]
        exact natCast_ne_closed pos
      have hpos : f.pos = pos := by
        have hfpos := hplace.resolve_right hknown
        omega
      exact h.stay hf hopen hpos hknown hk
  | SEEK_CUR =>
    obtain rfl : f.pos = start := Option.some.inj hstart
    dsimp only
    split
    · exact seekFile_sim h hseek hopen
    · rename_i hsame
      obtain ⟨hzero, hknown⟩ := not_or.mp hsame
      have hpos : f.pos = pos := by omega
      exact h.stay hf hopen hpos hknown hk
  | SEEK_END => exact seekFile_sim h hseek hopen
  | invalid => cases hstart

theorem fileSeek_sim {offset : Int} {whence : Whence} {pos : Nat} (hpick : Kernel.Picks pick 32767)
    (hfull : Exhausts pick allowed base k) (h : Sim base st k none) (hseek : k.lseek file offset whence = some (pos, k'))
    (hpos : whence = .SEEK_END → Reopenable st file) :
    Ends allowed (fileSeek (Kernel.os pick junk) st file offset whence) fun r =>
      r.1 = pos ∧ r.2.seekPos file = pos ∧ Sim base r.2 k' none ∧ r.2.filename = st.filename := by
  obtain ⟨f, hf, -⟩ := Option.bind_eq_some_iff.mp hseek
  unfold fileSeek
  rw [if_neg (not_not.mpr (h.valid hf))]
  split
  · rename_i hclosed
    exact Ends.bind (seekClosed_sim hpick hfull h hseek hclosed hpos) fun st' h' => ⟨h'.1, h'⟩
  · rename_i hopen
    exact Ends.bind (seekOpen_sim h hseek hopen) fun st' h' => ⟨h'.1, h'⟩

end PostgresV7.Fd
