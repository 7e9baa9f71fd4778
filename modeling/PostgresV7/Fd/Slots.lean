import PostgresV7.Fd.Lru

/-!
# Slots of the array (`fd.c`)

`allocate_vfd` takes a slot off the free list, of a larger array if the list is empty,
and `free_vfd` puts one back.
-/

namespace PostgresV7.Fd

open Chains Rings Recency Outcomes

variable {σ : Type} {os : Os σ} {st st' : FdState σ} {file : File} {limbo : Option File}
  {allowed : Fault → Prop}

/-- What an allocation leaves alone: the files, and the slots with a name. -/
structure Kept (st st' : FdState σ) : Prop where
  fd : st'.fd = st.fd
  filename : st'.filename = st.filename
  more : ∀ i ∈ 0 :: st.lru, st'.lruMoreRecently i = st.lruMoreRecently i
  less : ∀ i ∈ 0 :: st.lru, st'.lruLessRecently i = st.lruLessRecently i
  nFile : st'.nFile = st.nFile
  numAllocatedFiles : st'.numAllocatedFiles = st.numAllocatedFiles
  databasePath : st'.databasePath = st.databasePath
  enableFsync : st'.enableFsync = st.enableFsync
  os : st'.os = st.os
  descriptor : st'.descriptor = st.descriptor
  log : st'.log = st.log
  size : st.sizeVfdCache ≤ st'.sizeVfdCache
  slot : ∀ i, st.filename i ≠ none → st'.dirty i = st.dirty i ∧ st'.temporary i = st.temporary i ∧
    st'.seekPos i = st.seekPos i ∧ st'.fileFlags i = st.fileFlags i ∧ st'.fileMode i = st.fileMode i

theorem Kept.trans {st'' : FdState σ} (h : Kept st st') (h' : Kept st' st'') : Kept st st'' := by
  have hlru : st'.lru = st.lru := by
    unfold FdState.lru
    rw [h.log]
  refine ⟨h'.fd.trans h.fd, h'.filename.trans h.filename, fun i hi => ?_, fun i hi => ?_,
    h'.nFile.trans h.nFile, h'.numAllocatedFiles.trans h.numAllocatedFiles,
    h'.databasePath.trans h.databasePath, h'.enableFsync.trans h.enableFsync, h'.os.trans h.os,
    h'.descriptor.trans h.descriptor, h'.log.trans h.log, Nat.le_trans h.size h'.size,
    fun i hi => ?_⟩
  · exact (h'.more i (by rwa [hlru])).trans (h.more i hi)
  · exact (h'.less i (by rwa [hlru])).trans (h.less i hi)
  · obtain ⟨h1, h2, h3, h4, h5⟩ := h.slot i hi
    obtain ⟨g1, g2, g3, g4, g5⟩ := h'.slot i (by rwa [h.filename])
    exact ⟨g1.trans h1, g2.trans h2, g3.trans h3, g4.trans h4, g5.trans h5⟩

/-- Ring and names stay, and the free list is as it should be. -/
theorem Linked.keep {limbo' : Option File} (h : Linked st limbo) (hkept : Kept st st')
    (hfree : ∃ l, Chain id 0 st'.nextFree 0 l ∧ ∀ i, i ∈ l ↔ Spare st' i ∧ some i ≠ limbo')
    (hlimbo : ∀ i : Nat, some i = limbo' → 0 < i ∧ i < st'.sizeVfdCache)
    (hopen : ∀ i ∈ st.lru, some i = limbo → some i = limbo') : Linked st' limbo' := by
  have hlru : st'.lru = st.lru := by
    unfold FdState.lru
    rw [hkept.log]
  refine ⟨?_, fun i => ?_, ?_, hfree, fun i hi => ?_, fun i hi => ?_⟩
  · rw [hlru]
    exact h.ring.congr fun i hi => ⟨hkept.less i hi, hkept.more i hi⟩
  · rw [hlru, hkept.fd]
    exact h.open_iff i
  · rw [hlru, hkept.nFile]
    exact h.nFile
  · rw [hkept.filename] at hi
    rcases hi with hname | hlim
    · obtain ⟨hpos, hlt⟩ := h.within i (.inl hname)
      exact ⟨hpos, Nat.lt_of_lt_of_le hlt hkept.size⟩
    · exact hlimbo i hlim
  · rw [hlru] at hi
    rw [hkept.filename]
    exact (h.named i hi).imp_right (hopen i hi)

/-! ## The array -/

theorem filename_zero (h : Linked st limbo) : st.filename 0 = none := by
  by_contra hne
  exact Nat.lt_irrefl 0 (h.within 0 (.inl hne)).1

theorem lru_eq_nil (h : Linked st limbo) (hsize : st.sizeVfdCache = 0) : st.lru = [] := by
  refine List.eq_nil_iff_forall_not_mem.mpr fun i hi => ?_
  have hlt := (h.within i (h.named i hi)).2
  omega

theorem update_same {β : Type} {m : File → β} {i : File} {b : β} (h : m i = b) :
    Function.update m i b = m := by
  rw [← h]
  exact Function.update_eq_self i m

theorem initVfdCache_kept (h : Linked st none) :
    Kept st (initVfdCache st) ∧ 0 < (initVfdCache st).sizeVfdCache ∧
      Linked (initVfdCache st) none := by
  unfold initVfdCache
  by_cases hsize : st.sizeVfdCache = 0
  · rw [if_pos hsize]
    have hlru := lru_eq_nil h hsize
    have hring : st.lruLessRecently 0 = 0 ∧ st.lruMoreRecently 0 = 0 := by
      have hring := h.ring
      rw [hlru] at hring
      exact ⟨hring.forth, hring.back⟩
    have hkept : Kept st { st with
        fd := Function.update st.fd 0 VFD_CLOSED
        dirty := Function.update st.dirty 0 false
        temporary := Function.update st.temporary 0 false
        nextFree := Function.update st.nextFree 0 0
        lruMoreRecently := Function.update st.lruMoreRecently 0 0
        lruLessRecently := Function.update st.lruLessRecently 0 0
        seekPos := Function.update st.seekPos 0 0
        filename := Function.update st.filename 0 none
        sizeVfdCache := 1 } := by
      refine ⟨update_same h.closed_zero, update_same (filename_zero h),
        fun i _ => congrFun (update_same hring.2) i, fun i _ => congrFun (update_same hring.1) i,
        rfl, rfl, rfl, rfl, rfl, rfl, rfl, hsize ▸ Nat.zero_le 1, fun i hi => ?_⟩
      have hlt := (h.within i (.inl hi)).2
      omega
    refine ⟨hkept, Nat.one_pos, h.keep hkept ⟨[], ?_, fun i => ?_⟩
      (fun i hi => nomatch hi) (fun i _ hi => nomatch hi)⟩
    · exact Function.update_self (0 : File) 0 st.nextFree
    · refine iff_of_false List.not_mem_nil fun hspare => ?_
      exact absurd hspare.1.1 (Nat.not_lt.mpr (Nat.lt_one_iff.mp hspare.1.2.1).le)
  · rw [if_neg hsize]
    exact ⟨⟨rfl, rfl, fun _ _ => rfl, fun _ _ => rfl, rfl, rfl, rfl, rfl, rfl, rfl, rfl, Nat.le_refl _,
      fun _ _ => ⟨rfl, rfl, rfl, rfl, rfl⟩⟩, Nat.pos_of_ne_zero hsize, h⟩

/-- Neighbours linked one after another. -/
theorem chain_range' {cells : Nat → Nat} {n lo c : Nat} (hc : cells c = if n = 0 then 0 else lo)
    (hlo : 0 < lo)
    (hnext : ∀ i, lo ≤ i → i < lo + n → cells i = if i + 1 = lo + n then 0 else i + 1) :
    Chain id 0 cells c (List.range' lo n) := by
  induction n generalizing lo c with
  | zero => exact hc
  | succ n ih =>
    rw [List.range'_succ]
    refine ⟨hc, Nat.pos_iff_ne_zero.mp hlo, ih ?_ (Nat.succ_pos lo) fun i h1 h2 => ?_⟩
    · rw [id_eq, hnext lo (Nat.le_refl lo) (by omega)]
      exact if_congr (by omega) rfl rfl
    · rw [hnext i (by omega) (by omega)]
      exact if_congr (by omega) rfl rfl

theorem newCacheSize_gt (st : FdState σ) (h : 0 < st.sizeVfdCache) :
    st.sizeVfdCache < newCacheSize st := by
  unfold newCacheSize
  split <;> omega

theorem fill_of_lt {β : Type} {m new : File → β} {lo hi i : Nat} (h : i < lo) :
    fill m lo hi new i = m i := if_neg fun hand => absurd hand.1 (Nat.not_le.mpr h)

/-- A map that has the new values already. -/
theorem fill_same {β : Type} {m new : File → β} {lo hi : Nat}
    (h : ∀ i : Nat, lo ≤ i → i < hi → m i = new i) : fill m lo hi new = m := by
  funext i
  unfold fill
  split
  · rename_i hand
    exact (h i hand.1 hand.2).symm
  · rfl

theorem growVfdCache_kept {n : Nat} (h : Linked st none) (hpos : 0 < st.sizeVfdCache)
    (hn : st.sizeVfdCache < n) : Kept st (growVfdCache st n) := by
  have hname : ∀ i : Nat, st.sizeVfdCache ≤ i → st.filename i = none := by
    intro i hi
    by_contra hne
    exact absurd (h.within i (.inl hne)).2 (Nat.not_lt.mpr hi)
  have hlt : ∀ i : Nat, i ∈ 0 :: st.lru → i < st.sizeVfdCache := by
    intro i hi
    rcases List.mem_cons.mp hi with rfl | hmem
    · exact hpos
    · exact (h.within i (h.named i hmem)).2
  have hold : ∀ {β : Type} (m new : File → β) {i : Nat}, i < st.sizeVfdCache →
      fill m st.sizeVfdCache n new i = m i := fun _ _ _ hi => fill_of_lt hi
  refine ⟨fill_same fun i hi _ => ?_, fill_same fun i hi _ => hname i hi,
    fun i hi => hold st.lruMoreRecently (fun _ => 0) (hlt i hi),
    fun i hi => hold st.lruLessRecently (fun _ => 0) (hlt i hi), rfl, rfl, rfl, rfl, rfl,
    rfl, rfl, Nat.le_of_lt hn, fun i hi => ?_⟩
  · by_contra hne
    have hmem := (h.open_iff i).mpr hne
    exact absurd (hlt i (List.mem_cons_of_mem 0 hmem)) (Nat.not_lt.mpr hi)
  · have hi := (h.within i (.inl hi)).2
    exact ⟨hold st.dirty (fun _ => false) hi, hold st.temporary (fun _ => false) hi,
      hold st.seekPos (fun _ => 0) hi, rfl, rfl⟩

theorem growVfdCache_nextFree_zero (st : FdState σ) (n : Nat) :
    (growVfdCache st n).nextFree 0 = st.sizeVfdCache := by
  unfold growVfdCache
  dsimp only
  rw [Function.update_self]

/-- The new slots are in the free list, in order. -/
theorem growVfdCache_chain {n : Nat} (hpos : 0 < st.sizeVfdCache) (hn : st.sizeVfdCache < n) :
    Chain id 0 (growVfdCache st n).nextFree 0 (List.range' st.sizeVfdCache (n - st.sizeVfdCache)) := by
  have hnext : ∀ i : Nat, st.sizeVfdCache ≤ i → i < st.sizeVfdCache + (n - st.sizeVfdCache) →
      (growVfdCache st n).nextFree i =
        if i + 1 = st.sizeVfdCache + (n - st.sizeVfdCache) then 0 else i + 1 := by
    intro i h1 h2
    have hne : i ≠ 0 := by omega
    unfold growVfdCache
    dsimp only
    rw [Function.update_of_ne hne]
    by_cases hlast : i = n - 1
    · rw [hlast, Function.update_self, if_pos (by omega)]
    · have hlt : i < n := by omega
      have hnot : ¬ i + 1 = st.sizeVfdCache + (n - st.sizeVfdCache) := by omega
      rw [Function.update_of_ne hlast, if_neg hnot]
      exact if_pos ⟨h1, hlt⟩
  refine chain_range' ?_ hpos hnext
  rw [growVfdCache_nextFree_zero, if_neg (by omega)]

theorem growVfdCache_linked {n : Nat} (h : Linked st none) (hpos : 0 < st.sizeVfdCache)
    (hn : st.sizeVfdCache < n) (hfree : st.nextFree 0 = 0) : Linked (growVfdCache st n) none := by
  have hkept := growVfdCache_kept h hpos hn
  refine h.keep hkept ⟨_, growVfdCache_chain hpos hn, fun i => ?_⟩ (fun i hi => nomatch hi)
    (fun i _ hi => nomatch hi)
  -- the free list was empty, so no slot of the old array is spare
  have hspare : ∀ j : Nat, ¬ (Spare st j ∧ some j ≠ none) := by
    obtain ⟨l, hchain, hmem⟩ := h.free
    have hnil : l = [] := hchain.unique (show Chain id 0 st.nextFree 0 [] from hfree)
    intro j hj
    have hj := (hmem j).mpr hj
    rw [hnil] at hj
    cases hj
  have hrange : i ∈ List.range' st.sizeVfdCache (n - st.sizeVfdCache) ↔
      st.sizeVfdCache ≤ i ∧ i < n := by
    rw [List.mem_range'_1]
    exact and_congr_right fun _ => by rw [Nat.add_sub_cancel' (Nat.le_of_lt hn)]
  rw [hrange]
  constructor
  · rintro ⟨h1, h2⟩
    refine ⟨⟨Nat.lt_of_lt_of_le hpos h1, h2, ?_⟩, nofun⟩
    rw [hkept.filename]
    by_contra hne
    exact absurd (h.within i (.inl hne)).2 (Nat.not_lt.mpr h1)
  · rintro ⟨⟨h1, h2, h3⟩, -⟩
    refine ⟨Nat.not_lt.mp fun hlt => hspare i ⟨⟨h1, hlt, ?_⟩, nofun⟩, h2⟩
    rwa [hkept.filename] at h3

/-! ## Taking and giving back a slot -/

/-- The chain without its first slot. -/
theorem chain_pop {x : File} {l : List File} (h : Chain id 0 st.nextFree 0 (x :: l)) :
    Chain id 0 (Function.update st.nextFree 0 (st.nextFree x)) 0 l := by
  apply h.2.2.move (Function.update_self (0 : File) (st.nextFree x) st.nextFree)
  intro e he
  exact Function.update_of_ne (h.2.2.ne_nil he) _ _

/-- The first slot of the free list is taken off. -/
theorem Linked.pop (h : Linked st none) (hne : st.nextFree 0 ≠ 0) :
    Linked { st with nextFree := Function.update st.nextFree 0 (st.nextFree (st.nextFree 0)) }
      (some (st.nextFree 0)) ∧ Spare st (st.nextFree 0) := by
  obtain ⟨l, hchain, hmem⟩ := h.free
  cases l with
  | nil => exact absurd hchain hne
  | cons x l =>
    have hnodup := hchain.nodup
    have hpop := chain_pop hchain
    obtain ⟨rfl, hx, -⟩ := hchain
    obtain ⟨hspare, -⟩ := (hmem (st.nextFree 0)).mp List.mem_cons_self
    have hnot : st.nextFree 0 ∉ l := (List.nodup_cons.mp hnodup).1
    refine ⟨h.keep ⟨rfl, rfl, fun _ _ => rfl, fun _ _ => rfl, rfl, rfl, rfl, rfl, rfl, rfl, rfl,
      Nat.le_refl _, fun _ _ => ⟨rfl, rfl, rfl, rfl, rfl⟩⟩ ⟨l, hpop, fun i => ?_⟩ (fun i hi => ?_)
      (fun i _ hi => nomatch hi), hspare⟩
    · constructor
      · intro hi
        refine ⟨((hmem i).mp (List.mem_cons_of_mem _ hi)).1, fun heq => hnot ?_⟩
        rwa [← Option.some.inj heq]
      · rintro ⟨hi, hne'⟩
        rcases List.mem_cons.mp ((hmem i).mpr ⟨hi, nofun⟩) with rfl | hm
        · exact absurd rfl hne'
        · exact hm
    · rw [Option.some.inj hi]
      exact ⟨hspare.1, hspare.2.1⟩

/-- The size of the array after a slot was taken. -/
def allocatedSize (st : FdState σ) : Nat :=
  let st := initVfdCache st
  if st.nextFree 0 = 0 then newCacheSize st else st.sizeVfdCache

/-- `allocate_vfd` gives a slot that is in nobody's hands. -/
theorem allocateVfd_ends (h : Linked st none) (hnarrow : 2 ^ 32 ≤ allocatedSize st → allowed .narrowIndex) :
    Ends allowed (allocateVfd st) fun r => Linked r.2 (some r.1) ∧ Kept st r.2 ∧
      r.2.sizeVfdCache = allocatedSize st ∧ st.filename r.1 = none ∧ st.fd r.1 = VFD_CLOSED := by
  obtain ⟨hkept, hpos, hinit⟩ := initVfdCache_kept h
  have hpop : ∀ {st₁ : FdState σ}, Kept st st₁ → Linked st₁ none → st₁.nextFree 0 ≠ 0 →
      Linked { st₁ with nextFree := Function.update st₁.nextFree 0 (st₁.nextFree (st₁.nextFree 0)) }
        (some (st₁.nextFree 0)) ∧
      Kept st { st₁ with
        nextFree := Function.update st₁.nextFree 0 (st₁.nextFree (st₁.nextFree 0)) } ∧
      st.filename (st₁.nextFree 0) = none ∧ st.fd (st₁.nextFree 0) = VFD_CLOSED := by
    intro st₁ hkept₁ hlinked hne
    obtain ⟨hpopped, -, -, hname⟩ := hlinked.pop hne
    refine ⟨hpopped, hkept₁.trans ⟨rfl, rfl, fun _ _ => rfl, fun _ _ => rfl, rfl, rfl, rfl, rfl, rfl, rfl,
      rfl, Nat.le_refl _, fun _ _ => ⟨rfl, rfl, rfl, rfl, rfl⟩⟩, by rwa [hkept₁.filename] at hname, ?_⟩
    by_contra hopen
    rw [← hkept₁.fd] at hopen
    rcases hlinked.named _ ((hlinked.open_iff _).mpr hopen) with hn | hn
    · exact hn hname
    · cases hn
  unfold allocatedSize at hnarrow ⊢
  unfold allocateVfd
  dsimp only at hnarrow ⊢
  split
  · rename_i hzero
    rw [if_pos hzero] at hnarrow
    split
    · have hgrown : (growVfdCache (initVfdCache st) (newCacheSize (initVfdCache st))).nextFree 0 ≠ 0 := by
        rw [growVfdCache_nextFree_zero]
        exact Nat.pos_iff_ne_zero.mp hpos
      obtain ⟨hlinked, hkept', hname, hclosed⟩ :=
        hpop (hkept.trans (growVfdCache_kept hinit hpos (newCacheSize_gt _ hpos)))
          (growVfdCache_linked hinit hpos (newCacheSize_gt _ hpos) hzero) hgrown
      exact ⟨hlinked, hkept', rfl, hname, hclosed⟩
    · rename_i hge
      exact hnarrow (Nat.not_lt.mp hge)
  · rename_i hne
    obtain ⟨hlinked, hkept', hname, hclosed⟩ := hpop hkept hinit hne
    exact ⟨hlinked, hkept', rfl, hname, hclosed⟩

/-- A slot is pushed in front of the free list. -/
theorem chain_freeVfd {l : List File} (h : Chain id 0 st.nextFree 0 l) (hfile : file ≠ 0) (hnot : file ∉ l) :
    Chain id 0 (freeVfd st file).nextFree 0 (file :: l) := by
  apply h.push hfile
  · simp [freeVfd]
  · simp [freeVfd, hfile]
  · intro e he
    have hne : e ≠ file := by
      intro heq
      rw [heq] at he
      exact hnot he
    simp [freeVfd, hne, h.ne_nil he]

/-- A closed slot goes back to the free list. -/
theorem Linked.free_vfd (h : Linked st limbo) (hclosed : st.fd file = VFD_CLOSED)
    (huse : st.filename file ≠ none ∨ some file = limbo) (hlimbo : ∀ i, some i = limbo → i = file) :
    Linked (freeVfd st file) none := by
  have hpos := h.within file huse
  have hnot : file ∉ st.lru := fun hmem => (h.open_iff file).mp hmem hclosed
  have hname : ∀ i, (freeVfd st file).filename i ≠ none ↔ i ≠ file ∧ st.filename i ≠ none := by
    intro i
    show Function.update st.filename file none i ≠ none ↔ _
    by_cases hi : i = file
    · rw [hi, Function.update_self]
      exact iff_of_false (fun hne => hne rfl) (fun hand => hand.1 rfl)
    · rw [Function.update_of_ne hi]
      exact (and_iff_right hi).symm
  obtain ⟨l, hchain, hmem⟩ := h.free
  have hfree : file ∉ l := by
    intro hm
    obtain ⟨⟨-, -, hnone⟩, hne⟩ := (hmem file).mp hm
    rcases huse with hu | hu
    · exact hu hnone
    · exact hne hu
  have hzero : file ≠ 0 := Nat.pos_iff_ne_zero.mp hpos.1
  refine ⟨h.ring, h.open_iff, h.nFile, ⟨file :: l, chain_freeVfd hchain hzero hfree, fun i => ?_⟩,
    fun i hi => ?_, fun i hi => ?_⟩
  · have hspare : Spare (freeVfd st file) i ↔ 0 < i ∧ i < st.sizeVfdCache ∧
        (i = file ∨ st.filename i = none) := by
      have hnone : (freeVfd st file).filename i = none ↔ i = file ∨ st.filename i = none := by
        rw [← not_iff_not, ← ne_eq, hname, not_or]
      unfold Spare
      rw [hnone]
      rfl
    rw [hspare, List.mem_cons, hmem]
    constructor
    · rintro (rfl | ⟨⟨h1, h2, h3⟩, -⟩)
      · exact ⟨⟨hpos.1, hpos.2, .inl rfl⟩, nofun⟩
      · exact ⟨⟨h1, h2, .inr h3⟩, nofun⟩
    · rintro ⟨⟨h1, h2, h3⟩, -⟩
      rcases h3 with rfl | h3
      · exact .inl rfl
      · by_cases hi : i = file
        · exact .inl hi
        · exact .inr ⟨⟨h1, h2, h3⟩, fun heq => hi (hlimbo i heq)⟩
  · rcases hi with hi | hi
    · exact h.within i (.inl ((hname i).mp hi).2)
    · cases hi
  · have hmemi : i ∈ st.lru := hi
    have hi' : i ≠ file := fun heq => hnot (heq ▸ hmemi)
    rcases h.named i hmemi with hn | hn
    · exact .inl ((hname i).mpr ⟨hi', hn⟩)
    · exact absurd (hlimbo i hn) hi'

/-- A slot is in use as soon as it has a name. -/
theorem Linked.fill_slot {filename : FileName} {flags : OpenFlags} {mode : Nat}
    (h : Linked st (some file)) : Linked (st.fillSlot file filename flags mode) none := by
  have hname : ∀ i, (st.fillSlot file filename flags mode).filename i ≠ none ↔
      st.filename i ≠ none ∨ some i = some file := by
    intro i
    show Function.update st.filename file (some filename) i ≠ none ↔ _
    by_cases hi : i = file
    · rw [hi, Function.update_self]
      exact iff_of_true nofun (.inr rfl)
    · rw [Function.update_of_ne hi]
      exact (or_iff_left fun heq => hi (Option.some.inj heq)).symm
  obtain ⟨l, hchain, hmem⟩ := h.free
  refine ⟨h.ring, h.open_iff, h.nFile, ⟨l, hchain, fun i => ?_⟩, fun i hi => ?_, fun i hi => ?_⟩
  · rw [hmem]
    have hnone : (st.fillSlot file filename flags mode).filename i = none ↔
        st.filename i = none ∧ some i ≠ some file := by
      rw [← not_iff_not, ← ne_eq, hname, not_and_or, not_not]
    unfold Spare
    rw [hnone]
    constructor
    · rintro ⟨⟨h1, h2, h3⟩, h4⟩
      exact ⟨⟨h1, h2, h3, h4⟩, nofun⟩
    · rintro ⟨⟨h1, h2, h3, h4⟩, -⟩
      exact ⟨⟨h1, h2, h3⟩, h4⟩
  · rcases hi with hi | hi
    · exact h.within i ((hname i).mp hi)
    · cases hi
  · exact .inl ((hname i).mpr (h.named i hi))

end PostgresV7.Fd
