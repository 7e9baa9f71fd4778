import PostgresV7.Smgr.Fdvec
import PostgresV7.Smgr.Relation

/-!
# Walking the segments of a relation (`md.c`)

Each `MdfdVec` in the chain has the file of its segment. A walk goes on where a segment is
full, and opens the next one where the chain ends.
-/

namespace PostgresV7.Md

open Fd Smgr Outcomes Blocks

variable {σ : Type}

/-- An `open` that the files allow. -/
def Openable (k : Kernel) (path : FileName) (flags : OpenFlags) : Prop :=
  ∀ d errno, k.openFile d path flags ≠ .error errno

theorem openable_creat {k : Kernel} {path : FileName} {flags : OpenFlags} (hcreat : flags.creat = true)
    (hexcl : flags.excl = false) : Openable k path flags := by
  intro d errno h
  unfold Kernel.openFile at h
  rw [hcreat, hexcl] at h
  split at h <;> simp at h

theorem openable_exists {k : Kernel} {path : FileName} {flags : OpenFlags} (hdir : k.directory path ≠ none)
    (hexcl : flags.excl = false) : Openable k path flags := by
  intro d errno h
  unfold Kernel.openFile at h
  rw [hexcl] at h
  split at h
  · simp at h
  · rename_i hnone
    exact hdir hnone

theorem openable_new {k : Kernel} {path : FileName} {flags : OpenFlags} (hcreat : flags.creat = true)
    (hdir : k.directory path = none) : Openable k path flags := by
  intro d errno h
  unfold Kernel.openFile at h
  rw [hdir, hcreat] at h
  simp at h

/-- What a walk needs of `fd.c`, which keeps `inv`: the files that are open are those of `k`, but
for the ones that were given up. Calls fail only if the system does not serve. -/
structure Files (os : Os σ) (inv : FdState σ → Kernel → (File → Prop) → Prop) (room : Nat) (serves : Prop)
    (allowed : Fault → Prop) : Prop where
  named : ∀ {st k G file f}, inv st k G → k.table file = some f → ∃ filename, k.directory filename = some f.inode
  openFile : ∀ {st k G path flags}, inv st k G → Few room k 1 → path.head? = some SEP_CHAR →
    Openable k path flags ∨ allowed (.fd .osFailed) →
    Ends (fun e => allowed (.fd e)) (fileNameOpenFile os st path flags fileMode) fun r =>
      (∃ file k', r.1 = some file ∧ k.table file = none ∧ k.openFile file path flags = .ok k' ∧ ¬ G file ∧
        inv r.2 k' G) ∨ (¬ serves ∧ r.1 = none ∧ inv r.2 k G)
  seekEnd : ∀ {st k G file f}, inv st k G → Few room k 0 → k.table file = some f → toInt f.pos ≠ -1 →
    (G file → allowed (.fd .assertion)) →
    Ends (fun e => allowed (.fd e)) (fileSeek os st file 0 .SEEK_END) fun r =>
      (¬ G file ∧ r.1 = (k.data f.inode).length ∧
        inv r.2 (k.setFile file { f with pos := (k.data f.inode).length }) G) ∨
      (¬ serves ∧ r.1 = -1 ∧ ∃ G' : File → Prop, (∀ i, G' i → G i ∨ i = file) ∧ inv r.2 k G')
  failed : ¬ serves → ∀ e, allowed e

/-- The blocks of a segment. -/
def blocks (k : Kernel) (dataDir : FileName) (rnode : RelFileNode) (i : Nat) : Nat :=
  (content k (segpath dataDir rnode i)).length / BLCKSZ

/-- A file behind the first one is there only where the segment before it is full. -/
def Contiguous (k : Kernel) (dataDir : FileName) (rnode : RelFileNode) : Prop :=
  ∀ i, k.directory (segpath dataDir rnode (i + 1)) ≠ none → blocks k dataDir rnode i = RELSEG_SIZE

/-- No file has two names, the files of a relation are open in its chain only, and there is none
behind a segment that is not full. -/
structure Proper (md : MdState σ) (k : Kernel) (rnode : RelFileNode) (refs : List Ref) : Prop where
  separate : Separate k
  owned : ∀ file f i, k.table file = some f → k.directory (segpath md.dataDir rnode i) = some f.inode →
    ∃ v vec, refs[i]? = some v ∧ md.get v = .ok vec ∧ vec.vfd = file
  contiguous : Contiguous k md.dataDir rnode

/-- The chain of a relation: the file of each `MdfdVec` is that of its segment. -/
structure Chained (md : MdState σ) (k : Kernel) (rnode : RelFileNode) (refs : List Ref) : Prop where
  nodup : refs.Nodup
  head : refs[0]? = if md.rdFd rnode < 0 then none else some (.slot (md.rdFd rnode).toNat)
  segment : ∀ (i : Nat) v, refs[i]? = some v → ∃ vec, md.get v = .ok vec ∧
    Holds k (segpath md.dataDir rnode i) vec.vfd ∧ vec.chain.map Ref.node = refs[i + 1]?

/-- The file of a segment that a count comes to. -/
def Visited (md : MdState σ) (k : Kernel) (rnode : RelFileNode) (refs : List Ref) (file : File) : Prop :=
  ∃ i v vec, refs[i]? = some v ∧ md.get v = .ok vec ∧ vec.vfd = file ∧
    ∀ j < i, blocks k md.dataDir rnode j = RELSEG_SIZE

/-- A relation with its files, opened as far as `refs` goes. Only files that a count comes
to were given up. -/
structure Rel (inv : FdState σ → Kernel → (File → Prop) → Prop) (room : Nat) (md : MdState σ) (k : Kernel)
    (rnode : RelFileNode) (refs : List Ref) (G : File → Prop) : Prop where
  files : inv md.st k G
  fresh : Fresh k
  absolute : (relpath md.dataDir rnode).head? = some SEP_CHAR
  bounded : ∀ i, blocks k md.dataDir rnode i ≤ RELSEG_SIZE
  room : ∃ last < 2 ^ 30, blocks k md.dataDir rnode last ≠ RELSEG_SIZE ∧ Few room k (last + 1 - refs.length)
  unused : ∀ p, md.nextNode ≤ p → md.nodes p = none
  slots : refs = [] → ∃ freed used, Slots md freed used ∧ 1 < md.nfds
  chained : Chained md k rnode refs
  visited : ∀ file, G file → Visited md k rnode refs file

/-- The chain may have grown, and every `MdfdVec` in it has the file it had. -/
structure Extends (md md' : MdState σ) (refs refs' : List Ref) : Prop where
  dataDir : md'.dataDir = md.dataDir
  longer : ∀ (i : Nat) v, refs[i]? = some v → refs'[i]? = some v
  vfd : ∀ v vec, v ∈ refs → md.get v = .ok vec → ∃ vec', md'.get v = .ok vec' ∧ vec'.vfd = vec.vfd

variable {os : Os σ} {inv : FdState σ → Kernel → (File → Prop) → Prop} {room : Nat} {serves : Prop}
  {md md' md'' : MdState σ} {k k' : Kernel} {rnode : RelFileNode} {refs refs' refs'' : List Ref}
  {G G' : File → Prop} {allowed : Fault → Prop} {v : Ref} {vec : MdfdVec} {i : Nat} {file : File}

theorem Few.mono {m n : Nat} (h : Few room k m) (hle : n ≤ m) : Few room k n := by
  obtain ⟨slots, hslots, hcard⟩ := h
  exact ⟨slots, hslots, by omega⟩

theorem Rel.few (h : Rel inv room md k rnode refs G) : Few room k 0 := by
  obtain ⟨last, -, -, hroom⟩ := h.room
  exact hroom.mono (Nat.zero_le _)

theorem Extends.refl (md : MdState σ) (refs : List Ref) : Extends md md refs refs :=
  ⟨rfl, fun _ _ h => h, fun _ vec _ h => ⟨vec, h, rfl⟩⟩

theorem Extends.trans (h : Extends md md' refs refs') (h' : Extends md' md'' refs' refs'') :
    Extends md md'' refs refs'' := by
  constructor
  · exact h'.dataDir.trans h.dataDir
  · intro i v hv
    exact h'.longer i v (h.longer i v hv)
  · intro v vec hv hvec
    obtain ⟨i, hi⟩ := List.mem_iff_getElem?.mp hv
    obtain ⟨vec', hvec', hvfd⟩ := h.vfd v vec hv hvec
    obtain ⟨vec'', hvec'', hvfd'⟩ := h'.vfd v vec' (List.mem_iff_getElem?.mpr ⟨i, h.longer i v hi⟩) hvec'
    exact ⟨vec'', hvec'', hvfd'.trans hvfd⟩

theorem Extends.call {st : FdState σ} : Extends md { md with st := st } refs refs := by
  refine ⟨rfl, fun _ _ h => h, fun v vec _ hvec => ⟨vec, ?_, rfl⟩⟩
  rw [← hvec]
  cases v <;> rfl

theorem SameBlocks.blocks_eq (h : SameBlocks k k') (dataDir : FileName) (rnode : RelFileNode) (i : Nat) :
    blocks k' dataDir rnode i = blocks k dataDir rnode i :=
  div_eq_of_whole (by decide) (h (segpath dataDir rnode i))

theorem sameBlocks_of_content (h : ∀ path, content k' path = content k path) : SameBlocks k k' :=
  fun path => congrArg _ (h path)

theorem Visited.extends (h : Visited md k rnode refs file) (hk : SameBlocks k k')
    (he : Extends md md' refs refs') :
    Visited md' k' rnode refs' file := by
  obtain ⟨i, v, vec, hi, hvec, hfile, hfull⟩ := h
  obtain ⟨vec', hvec', hvfd⟩ := he.vfd v vec (List.mem_iff_getElem?.mpr ⟨i, hi⟩) hvec
  refine ⟨i, v, vec', he.longer i v hi, hvec', hvfd.trans hfile, fun j hj => ?_⟩
  rw [he.dataDir, hk.blocks_eq]
  exact hfull j hj

theorem get_call {st : FdState σ} (v : Ref) : ({ md with st := st } : MdState σ).get v = md.get v := by
  cases v <;> rfl

theorem Chained.keeps {st : FdState σ} (h : Chained md k rnode refs) (hk : Keeps k k') :
    Chained { md with st := st } k' rnode refs := by
  refine ⟨h.nodup, h.head, fun i v hv => ?_⟩
  obtain ⟨vec, hvec, hholds, hchain⟩ := h.segment i v hv
  exact ⟨vec, (get_call v).trans hvec, hholds.keeps hk, hchain⟩

/-- A call of `fd.c` that leaves the whole blocks alone. -/
theorem Rel.call {st : FdState σ} (h : Rel inv room md k rnode refs G) (hk : Keeps k k')
    (hblocks : SameBlocks k k') (hfew : ∀ {n}, Few room k n → Few room k' n) (ht : inv st k' G')
    (hG : ∀ file, G' file → G file ∨ Visited md k rnode refs file) :
    Rel inv room { md with st := st } k' rnode refs G' := by
  refine ⟨ht, hk.fresh h.fresh, h.absolute, fun i => ?_, ?_, h.unused, fun hnil => ?_, h.chained.keeps hk,
    fun file hfile => ?_⟩
  · rw [hblocks.blocks_eq]
    exact h.bounded i
  · obtain ⟨last, hlt, hlast, hroom⟩ := h.room
    refine ⟨last, hlt, ?_, hfew hroom⟩
    rw [hblocks.blocks_eq]
    exact hlast
  · obtain ⟨freed, used, hslots, hnfds⟩ := h.slots hnil
    exact ⟨freed, used, ⟨hslots.linked, hslots.perm, hslots.curFd_le, hslots.free, hslots.used⟩, hnfds⟩
  · have hvisited : Visited md k rnode refs file := (hG file hfile).elim (h.visited file) id
    exact hvisited.extends hblocks Extends.call

theorem call_allowed {α : Type} {x : FdState σ → Except Fd.Fault (α × FdState σ)} {P : α × FdState σ → Prop}
    (h : Ends (fun e => allowed (.fd e)) (x md.st) P) :
    Ends allowed (md.call x) fun r => ∃ st, P (r.1, st) ∧ r.2 = { md with st := st } := by
  unfold MdState.call
  cases hx : x md.st with
  | error e => exact h.of_error hx
  | ok r => exact ⟨r.2, h.of_ok hx, rfl⟩

/-- Where a segment ends. -/
theorem length_le_segEnd {data : List UInt8} (h : data.length / BLCKSZ ≤ RELSEG_SIZE) : data.length ≤ segEnd := by
  have hlt : data.length < (RELSEG_SIZE + 1) * BLCKSZ :=
    Nat.lt_mul_of_div_lt (Nat.lt_succ_of_le h) (by decide)
  exact Nat.le_of_lt hlt

/-- A position was moved, and nothing else. -/
structure Moved (k k' : Kernel) : Prop where
  keeps : Keeps k k'
  data : k'.data = k.data
  directory : k'.directory = k.directory
  few : ∀ {room n}, Few room k n → Few room k' n
  only : ∀ i f', k'.table i = some f' → ∃ f, k.table i = some f ∧ f.inode = f'.inode

theorem Moved.refl (k : Kernel) : Moved k k := ⟨.refl k, rfl, rfl, fun h => h, fun _ f h => ⟨f, h, rfl⟩⟩

theorem Moved.trans {k'' : Kernel} (h : Moved k k') (h' : Moved k' k'') : Moved k k'' := by
  refine ⟨h.keeps.trans h'.keeps, h'.data.trans h.data, h'.directory.trans h.directory,
    fun hn => h'.few (h.few hn), fun i f'' hf'' => ?_⟩
  obtain ⟨f', hf', hinode'⟩ := h'.only i f'' hf''
  obtain ⟨f, hf, hinode⟩ := h.only i f' hf'
  exact ⟨f, hf, hinode.trans hinode'⟩

theorem Moved.content (h : Moved k k') (path : FileName) : content k' path = content k path := by
  unfold Md.content
  rw [h.directory, h.data]

theorem moved_setFile {f : OpenFile} {p : Nat} (hf : k.table file = some f) (hle : p ≤ segEnd) :
    Moved k (k.setFile file { f with pos := p }) := by
  refine ⟨keeps_setFile hf hle, rfl, rfl, few_setFile hf, fun i f' hf' => ?_⟩
  have hf' : Function.update k.table file (some { f with pos := p }) i = some f' := hf'
  by_cases hi : i = file
  · rw [hi, Function.update_self] at hf'
    refine ⟨f, hi ▸ hf, ?_⟩
    rw [← Option.some.inj hf']
  · rw [Function.update_of_ne hi] at hf'
    exact ⟨f', hf', rfl⟩

section

variable (hfiles : Files os inv room serves allowed)

include hfiles

/-! ## Counting one segment -/

theorem nblocksAux_ends (md : MdState σ) {path : FileName} {vfd : File} (ht : inv md.st k G)
    (hfew : Few room k 0) (hholds : Holds k path vfd)
    (hbound : (content k path).length / BLCKSZ ≤ RELSEG_SIZE) (hG : G vfd → allowed (.fd .assertion)) :
    Ends allowed (mdNblocksAux os md vfd) fun r => ∃ k' G' st, r.2 = { md with st := st } ∧ Moved k k' ∧
      inv st k' G' ∧ (∀ i, G' i → G i ∨ i = vfd) ∧
      ((¬ G vfd ∧ G' = G ∧ r.1 = UInt32.ofNat ((content k path).length / BLCKSZ)) ∨ (¬ serves ∧ r.1 = 0)) := by
  obtain ⟨f, hf, -, -, -, hle⟩ := id hholds
  have hlen : (content k path).length ≤ segEnd := length_le_segEnd hbound
  have hpos : (k.data f.inode).length = (content k path).length := congrArg List.length (hholds.content hf).symm
  unfold mdNblocksAux
  apply Ends.bind (call_allowed (hfiles.seekEnd ht hfew hf (toInt_ne hle) hG))
  intro ⟨len, md₁⟩ ⟨st, hsought, hmd₁⟩
  dsimp only at hsought hmd₁ ⊢
  rw [hpos] at hsought
  rcases hsought with ⟨hgiven, rfl, ht'⟩ | ⟨hfails, rfl, G', hG', ht'⟩
  · have hnonneg : ¬ ((content k path).length : Int) < 0 := by omega
    rw [if_neg hnonneg]
    exact ⟨_, G, st, hmd₁, moved_setFile hf hlen, ht', fun _ => .inl, .inl ⟨hgiven, rfl, rfl⟩⟩
  · exact ⟨k, G', st, hmd₁, .refl k, ht', hG', .inr ⟨hfails, rfl⟩⟩

theorem Rel.nblocksAux (h : Rel inv room md k rnode refs G) (hv : refs[i]? = some v)
    (hvec : md.get v = .ok vec) (hfull : ∀ j < i, blocks k md.dataDir rnode j = RELSEG_SIZE)
    (hG : G vec.vfd → allowed (.fd .assertion)) :
    Ends allowed (mdNblocksAux os md vec.vfd) fun r => ∃ k' G' st, r.2 = { md with st := st } ∧ Moved k k' ∧
      Rel inv room { md with st := st } k' rnode refs G' ∧
      ((¬ G vec.vfd ∧ G' = G ∧ r.1 = UInt32.ofNat (blocks k md.dataDir rnode i)) ∨
        (¬ serves ∧ r.1 = 0)) := by
  obtain ⟨vec', hvec', hholds, -⟩ := h.chained.segment i v hv
  obtain rfl := Except.ok.inj (hvec.symm.trans hvec')
  apply (nblocksAux_ends hfiles md h.files h.few hholds (h.bounded i) hG).mono (fun _ h => h)
  intro r ⟨k', G', st, hr, hk, ht, hG', hcount⟩
  refine ⟨k', G', st, hr, hk, h.call hk.keeps (sameBlocks_of_content hk.content) hk.few ht fun file hfile => ?_,
    hcount⟩
  rcases hG' file hfile with hfile | hfile
  · exact .inl hfile
  · exact .inr ⟨i, v, vec, hv, hvec, hfile.symm, hfull⟩

end

/-! ## The chain -/


/-- One `MdfdVec` was stored. -/
structure Stored (md : MdState σ) (v : Ref) (vec : MdfdVec) (md' : MdState σ) : Prop where
  self : md'.get v = .ok vec
  others : ∀ w, w ≠ v → md'.get w = md.get w
  st : md'.st = md.st
  rdFd : md'.rdFd = md.rdFd
  dataDir : md'.dataDir = md.dataDir
  nextNode : md'.nextNode = md.nextNode
  unused : ∀ p, md.nodes p = none → md'.nodes p = none

theorem set_stored {old : MdfdVec} (hv : md.get v = .ok old) (vec : MdfdVec) :
    ∃ md', md.set v vec = .ok md' ∧ Stored md v vec md' := by
  cases v with
  | slot fd =>
    refine ⟨_, rfl, ?_, ?_, rfl, rfl, rfl, rfl, fun _ h => h⟩
    · exact congrArg Except.ok (Function.update_self _ _ _)
    · intro w hw
      cases w with
      | slot fd' =>
        have hne : fd' ≠ fd := by
          rintro rfl
          exact hw rfl
        exact congrArg Except.ok (Function.update_of_ne hne _ _)
      | node p => rfl
  | node p =>
    unfold MdState.get at hv
    unfold MdState.set
    cases hp : md.nodes p with
    | none =>
      simp only [hp] at hv
      cases hv
    | some vec' =>
      refine ⟨{ md with nodes := Function.update md.nodes p (some vec) }, by simp only [hp], ?_, ?_, rfl, rfl,
        rfl,
        rfl, ?_⟩
      · simp [MdState.get]
      · intro w hw
        cases w with
        | slot fd => rfl
        | node q =>
          have hne : q ≠ p := by
            rintro rfl
            exact hw rfl
          simp [MdState.get, hne]
      · intro q hq
        have hne : q ≠ p := by
          rintro rfl
          rw [hp] at hq
          cases hq
        simp [hne, hq]

theorem Stored.extends {old : MdfdVec} (h : Stored md v vec md') (hv : md.get v = .ok old)
    (hvfd : vec.vfd = old.vfd) : Extends md md' refs refs := by
  refine ⟨h.dataDir, fun _ _ h => h, fun w old' _ hold => ?_⟩
  by_cases hw : w = v
  · subst hw
    obtain rfl := Except.ok.inj (hv.symm.trans hold)
    exact ⟨vec, h.self, hvfd⟩
  · exact ⟨old', (h.others w hw).trans hold, rfl⟩

/-- The number of blocks is kept, or something else that the chain does not depend on. -/
theorem Rel.store {old : MdfdVec} (h : Rel inv room md k rnode refs G) (hmem : v ∈ refs)
    (hv : md.get v = .ok old) (hs : Stored md v vec md') (hvfd : vec.vfd = old.vfd)
    (hchain : vec.chain = old.chain) :
    Rel inv room md' k rnode refs G := by
  have hextends : Extends md md' refs refs := hs.extends hv hvfd
  refine ⟨?_, h.fresh, ?_, ?_, ?_, ?_, fun hnil => ?_, ⟨h.chained.nodup, ?_, ?_⟩, ?_⟩
  · rw [hs.st]
    exact h.files
  · rw [hs.dataDir]
    exact h.absolute
  · rw [hs.dataDir]
    exact h.bounded
  · rw [hs.dataDir]
    exact h.room
  · rw [hs.nextNode]
    exact fun p hp => hs.unused p (h.unused p hp)
  · rw [hnil] at hmem
    cases hmem
  · rw [hs.rdFd]
    exact h.chained.head
  · intro i w hw
    obtain ⟨vec', hvec', hholds, hnext⟩ := h.chained.segment i w hw
    rw [hs.dataDir]
    by_cases hwv : w = v
    · subst hwv
      obtain rfl := Except.ok.inj (hv.symm.trans hvec')
      refine ⟨vec, hs.self, ?_, ?_⟩
      · rwa [hvfd]
      · rwa [hchain]
    · exact ⟨vec', (hs.others w hwv).trans hvec', hholds, hnext⟩
  · intro file hfile
    exact (h.visited file hfile).extends (fun _ => rfl) hextends

/-- An `MdfdVec` at a new address. -/
def MdState.fresh (md : MdState σ) (vec : MdfdVec) : MdState σ :=
  { md with
    nodes := Function.update md.nodes md.nextNode (some vec)
    nextNode := md.nextNode + 1 }

theorem Rel.get_fresh (h : Rel inv room md k rnode refs G) (hv : md.get v = .ok vec) (new : MdfdVec) :
    (md.fresh new).get v = .ok vec := by
  cases v with
  | slot fd => exact hv
  | node p =>
    have hne : p ≠ md.nextNode := by
      rintro rfl
      unfold MdState.get at hv
      simp only [h.unused _ (Nat.le_refl _)] at hv
      cases hv
    unfold MdState.get MdState.fresh at *
    simp only [Function.update_of_ne hne]
    exact hv

/-- The chain gets one more `MdfdVec` at its end, with a file that was just opened. -/
theorem Rel.append {new : MdfdVec} {last : Nat} (h : Rel inv room md k rnode refs G) (hk : Keeps k k')
    (hblocks : SameBlocks k k') (hv : refs[i]? = some v) (hvec : md.get v = .ok vec) (hend : vec.chain = none)
    (hholds : Holds k' (segpath md.dataDir rnode (i + 1)) new.vfd) (hnew : new.chain = none)
    (hlt : last < 2 ^ 30) (hlast : blocks k md.dataDir rnode last ≠ RELSEG_SIZE)
    (hfew : Few room k' (last + 1 - (i + 2)))
    (hfull : ∀ j ≤ i, blocks k md.dataDir rnode j = RELSEG_SIZE) {st : FdState σ}
    (ht : inv st k' G') (hG : ∀ file, G' file → G file ∨ file = new.vfd)
    (hs : Stored (({ md with st := st } : MdState σ).fresh new) v
      { vec with chain := some md.nextNode } md') :
    Rel inv room md' k' rnode (refs ++ [.node md.nextNode]) G' ∧
      Extends md md' refs (refs ++ [.node md.nextNode]) ∧
      (refs ++ [Ref.node md.nextNode])[i + 1]? = some (.node md.nextNode) ∧
      md'.get (.node md.nextNode) = .ok new := by
  obtain ⟨vec', hvec', -, hchain⟩ := h.chained.segment i v hv
  obtain rfl := Except.ok.inj (hvec.symm.trans hvec')
  have hlength : refs.length = i + 1 := by
    rw [hend] at hchain
    have hle := List.getElem?_eq_none_iff.mp hchain.symm
    have hlt := (List.getElem?_eq_some_iff.mp hv).1
    omega
  have hold : ∀ {w : Ref} {old : MdfdVec}, w ≠ v → md.get w = .ok old → md'.get w = .ok old := by
    intro w old hw hold
    exact (hs.others w hw).trans (h.get_fresh hold new)
  have hnot : Ref.node md.nextNode ∉ refs := by
    intro hmem
    obtain ⟨j, hj⟩ := List.mem_iff_getElem?.mp hmem
    obtain ⟨old, hold, -⟩ := h.chained.segment j _ hj
    unfold MdState.get at hold
    simp only [h.unused _ (Nat.le_refl _)] at hold
    cases hold
  have hnode : md'.get (.node md.nextNode) = .ok new := by
    have hne : Ref.node md.nextNode ≠ v := by
      rintro rfl
      exact hnot (List.mem_iff_getElem?.mpr ⟨i, hv⟩)
    rw [hs.others _ hne]
    simp [MdState.get, MdState.fresh]
  have hlonger : ∀ (j : Nat) w, refs[j]? = some w → (refs ++ [Ref.node md.nextNode])[j]? = some w := by
    intro j w hw
    rw [List.getElem?_append_left (List.getElem?_eq_some_iff.mp hw).1]
    exact hw
  have hlast' : (refs ++ [Ref.node md.nextNode])[i + 1]? = some (.node md.nextNode) := by
    rw [← hlength, List.getElem?_concat_length]
  have hextends : Extends md md' refs (refs ++ [.node md.nextNode]) := by
    refine ⟨hs.dataDir, hlonger, fun w old _ hw => ?_⟩
    by_cases hwv : w = v
    · subst hwv
      obtain rfl := Except.ok.inj (hvec.symm.trans hw)
      exact ⟨_, hs.self, rfl⟩
    · exact ⟨old, hold hwv hw, rfl⟩
  have hsegment : ∀ (j : Nat) w, (refs ++ [Ref.node md.nextNode])[j]? = some w → ∃ vec, md'.get w = .ok vec ∧
      Holds k' (segpath md'.dataDir rnode j) vec.vfd ∧
        vec.chain.map Ref.node = (refs ++ [Ref.node md.nextNode])[j + 1]? := by
    intro j w hw
    rw [show md'.dataDir = md.dataDir from hs.dataDir]
    rcases Nat.lt_trichotomy j (i + 1) with hj | rfl | hj
    · rw [List.getElem?_append_left (by omega)] at hw
      obtain ⟨old, hget, hold', hnext⟩ := h.chained.segment j w hw
      by_cases hji : j = i
      · subst hji
        obtain rfl := Option.some.inj (hv.symm.trans hw)
        obtain rfl := Except.ok.inj (hvec.symm.trans hget)
        refine ⟨_, hs.self, hold'.keeps hk, ?_⟩
        rw [hlast']
        rfl
      · have hwv : w ≠ v := by
          rintro rfl
          obtain ⟨hlt, hw'⟩ := List.getElem?_eq_some_iff.mp hw
          obtain ⟨hlt', hv'⟩ := List.getElem?_eq_some_iff.mp hv
          exact hji ((h.chained.nodup.getElem_inj_iff).mp (hw'.trans hv'.symm))
        refine ⟨old, hold hwv hget, hold'.keeps hk, ?_⟩
        rw [List.getElem?_append_left (by omega)]
        exact hnext
    · obtain rfl := Option.some.inj (hlast'.symm.trans hw)
      refine ⟨new, hnode, hholds, ?_⟩
      rw [hnew, List.getElem?_eq_none (by simp [hlength])]
      rfl
    · rw [List.getElem?_eq_none (by simp [hlength]; omega)] at hw
      cases hw
  refine ⟨⟨?_, hk.fresh h.fresh, ?_, ?_, ⟨last, hlt, ?_, ?_⟩, ?_, fun hnil => ?_, ⟨?_, ?_, hsegment⟩, ?_⟩,
    hextends,
    hlast', hnode⟩
  · rw [show md'.st = st from hs.st]
    exact ht
  · rw [hextends.dataDir]
    exact h.absolute
  · intro j
    rw [hextends.dataDir, hblocks.blocks_eq]
    exact h.bounded j
  · rw [hextends.dataDir, hblocks.blocks_eq]
    exact hlast
  · rwa [List.length_append, hlength]
  · intro p hp
    rw [show md'.nextNode = md.nextNode + 1 from hs.nextNode] at hp
    apply hs.unused
    have hne : p ≠ md.nextNode := by omega
    exact (Function.update_of_ne hne _ _).trans (h.unused p (by omega))
  · simp at hnil
  · rw [List.nodup_append]
    refine ⟨h.chained.nodup, List.nodup_singleton _, fun a ha b hb => ?_⟩
    rintro rfl
    rw [List.mem_singleton.mp hb] at ha
    exact hnot ha
  · rw [show md'.rdFd = md.rdFd from hs.rdFd, ← h.chained.head, List.getElem?_append_left (by omega)]
  · intro file hfile
    rcases hG file hfile with hfile | rfl
    · exact (h.visited file hfile).extends hblocks hextends
    · refine ⟨i + 1, _, new, hlast', hnode, rfl, fun j hj => ?_⟩
      rw [hextends.dataDir, hblocks.blocks_eq]
      exact hfull j (by omega)

/-- What a walk leaves of a relation: it opens files, and makes one where a full segment is
the last. -/
structure Walked (inv : FdState σ → Kernel → (File → Prop) → Prop) (room : Nat) (serves : Prop)
    (rnode : RelFileNode) (md : MdState σ) (k : Kernel) (refs : List Ref) (G : File → Prop)
    (md' : MdState σ) (k' : Kernel) (refs' : List Ref) (G' : File → Prop) : Prop where
  keeps : Keeps k k'
  content : ∀ path, content k' path = content k path
  proper : Proper md k rnode refs → Proper md' k' rnode refs'
  few : ∀ n, refs'.length ≤ n → Few room k (n - refs.length) → Few room k' (n - refs'.length)
  rel : Rel inv room md' k' rnode refs' G'
  extends' : Extends md md' refs refs'
  served : serves → G' = G

variable {k'' : Kernel} {G'' : File → Prop}

theorem Extends.length_le (h : Extends md md' refs refs') : refs.length ≤ refs'.length := by
  by_contra hlt
  have hlt : refs'.length < refs.length := Nat.not_le.mp hlt
  have hv : refs[refs'.length]? = some refs[refs'.length] := List.getElem?_eq_getElem hlt
  have hv' := h.longer _ _ hv
  rw [List.getElem?_eq_none (Nat.le_refl _)] at hv'
  cases hv'

theorem Rel.walked (h : Rel inv room md k rnode refs G) :
    Walked inv room serves rnode md k refs G md k refs G :=
  ⟨.refl k, fun _ => rfl, fun h => h, fun _ _ h => h, h, .refl md refs, fun _ => rfl⟩

theorem Walked.trans (h : Walked inv room serves rnode md k refs G md' k' refs' G')
    (h' : Walked inv room serves rnode md' k' refs' G' md'' k'' refs'' G'') :
    Walked inv room serves rnode md k refs G md'' k'' refs'' G'' := by
  refine ⟨h.keeps.trans h'.keeps, fun path => (h'.content path).trans (h.content path),
    fun hp => h'.proper (h.proper hp), fun n hn hf => ?_, h'.rel, h.extends'.trans h'.extends',
    fun hs => (h'.served hs).trans (h.served hs)⟩
  exact h'.few n hn (h.few n (Nat.le_trans h'.extends'.length_le hn) hf)

theorem Walked.blocks_eq (h : Walked inv room serves rnode md k refs G md' k' refs' G') (i : Nat) :
    blocks k' md'.dataDir rnode i = blocks k md.dataDir rnode i := by
  rw [h.extends'.dataDir, (sameBlocks_of_content h.content).blocks_eq]

/-- Segments that were full are full. -/
theorem Walked.full (h : Walked inv room serves rnode md k refs G md' k' refs' G') {n : Nat}
    (hfull : ∀ j < n, blocks k md.dataDir rnode j = RELSEG_SIZE) :
    ∀ j < n, blocks k' md'.dataDir rnode j = RELSEG_SIZE := by
  intro j hj
  rw [h.blocks_eq]
  exact hfull j hj

theorem Contiguous.moved {dataDir : FileName} (h : Contiguous k dataDir rnode) (hk : Moved k k') :
    Contiguous k' dataDir rnode := by
  intro i hi
  rw [hk.directory] at hi
  rw [(sameBlocks_of_content hk.content).blocks_eq]
  exact h i hi

theorem Proper.moved {st : FdState σ} (h : Proper md k rnode refs) (hk : Moved k k') :
    Proper { md with st := st } k' rnode refs := by
  refine ⟨?_, ?_, h.contiguous.moved hk⟩
  · unfold Separate
    rw [hk.directory]
    exact h.separate
  · intro file f' i hf' hdir
    obtain ⟨f, hf, hinode⟩ := hk.only file f' hf'
    rw [hk.directory, ← hinode] at hdir
    obtain ⟨v, vec, hv, hvec, hvfd⟩ := h.owned file f i hf hdir
    exact ⟨v, vec, hv, (get_call v).trans hvec, hvfd⟩

/-- The chain may grow. -/
theorem Proper.extends (h : Proper md k rnode refs) (he : Extends md md' refs refs') :
    Proper md' k rnode refs' := by
  refine ⟨h.separate, ?_, ?_⟩
  · intro file f i hf hdir
    rw [he.dataDir] at hdir
    obtain ⟨v, vec, hv, hvec, hvfd⟩ := h.owned file f i hf hdir
    obtain ⟨vec', hvec', hvfd'⟩ := he.vfd v vec (List.mem_iff_getElem?.mpr ⟨i, hv⟩) hvec
    exact ⟨v, vec', he.longer i v hv, hvec', hvfd'.trans hvfd⟩
  · rw [he.dataDir]
    exact h.contiguous

/-- A segment behind a full one may be opened, if the chain gets it. -/
theorem Proper.opened {s : Nat} (hfiles : Files os inv room serves allowed) (h : Proper md k rnode refs)
    (hrel : Rel inv room md k rnode refs G)
    (ho : Opened k k' (segpath md.dataDir rnode s) file) (hholds : Holds k' (segpath md.dataDir rnode s) file)
    (he : Extends md md' refs refs')
    (hv : refs'[s]? = some v) (hvec : md'.get v = .ok vec) (hvfd : vec.vfd = file)
    (hfull : ∀ j < s, blocks k md.dataDir rnode j = RELSEG_SIZE) : Proper md' k' rnode refs' := by
  have hseparate := ho.separate h.separate
  refine ⟨hseparate, ?_, ?_⟩
  · intro file' f' i hf' hdir
    rw [he.dataDir] at hdir
    rcases ho.only file' f' hf' with rfl | ⟨f, hf, hinode⟩
    · obtain ⟨g, hg, hdir', -⟩ := hholds
      obtain rfl := Option.some.inj (hg.symm.trans hf')
      obtain ⟨-, rfl⟩ := segpath_inj (hseparate _ _ _ hdir hdir')
      exact ⟨v, vec, hv, hvec, hvfd⟩
    · obtain ⟨filename, hname⟩ := hfiles.named hrel.files hf
      rw [← hinode] at hdir
      obtain rfl := hseparate _ _ _ (ho.keeps.names _ _ hname) hdir
      obtain ⟨w, old, hw, hold, hold'⟩ := h.owned file' f i hf hname
      obtain ⟨new, hnew, hnew'⟩ := he.vfd w old (List.mem_iff_getElem?.mpr ⟨i, hw⟩) hold
      exact ⟨w, new, he.longer i w hw, hnew, hnew'.trans hold'⟩
  · intro i hi
    rw [he.dataDir] at hi ⊢
    rw [(sameBlocks_of_content ho.content).blocks_eq]
    rcases ho.names _ hi with hpath | hold
    · obtain ⟨-, rfl⟩ := segpath_inj hpath
      exact hfull i (Nat.lt_succ_self i)
    · exact h.contiguous i hold

theorem Moved.walked {st : FdState σ} (hk : Moved k k')
    (h : Rel inv room { md with st := st } k' rnode refs G') (hG : serves → G' = G) :
    Walked inv room serves rnode md k refs G { md with st := st } k' refs G' :=
  ⟨hk.keeps, hk.content, fun hp => hp.moved hk, fun _ _ hf => hk.few hf, h, .call, hG⟩

theorem segpath_head {dataDir : FileName} {rnode : RelFileNode}
    (h : (relpath dataDir rnode).head? = some SEP_CHAR)
    (i : Nat) : (segpath dataDir rnode i).head? = some SEP_CHAR := by
  rw [segpath_eq]
  cases hpath : relpath dataDir rnode with
  | nil =>
    rw [hpath] at h
    cases h
  | cons c cs =>
    rw [hpath] at h
    exact h

end PostgresV7.Md
