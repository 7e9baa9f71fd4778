import PostgresV7.Smgr.Walk

/-!
# Looking for a segment and counting blocks (`md.c`)

A loop goes on behind a full segment only, so a walk of the chain ends at the first one
that is not full.
-/

namespace PostgresV7.Md

open Fd Smgr Outcomes Blocks

variable {σ : Type} {os : Os σ} {inv : FdState σ → Kernel → (File → Prop) → Prop} {room : Nat} {serves : Prop}
  {md md' : MdState σ} {k k' : Kernel} {rnode : RelFileNode} {refs refs' : List Ref} {G G' : File → Prop}
  {allowed : Fault → Prop} {v : Ref} {vec : MdfdVec} {i : Nat} {path : FileName}

/-- The file of a full segment is there. -/
theorem exists_of_full {dataDir : FileName} (h : blocks k dataDir rnode i = RELSEG_SIZE) :
    k.directory (segpath dataDir rnode i) ≠ none := by
  intro hnone
  unfold blocks content at h
  rw [hnone] at h
  simp [RELSEG_SIZE] at h

theorem Opened.moved {k'' : Kernel} {vfd : File} (h : Opened k k' path vfd) (hk : Moved k' k'') :
    Opened k k'' path vfd := by
  refine ⟨h.keeps.trans hk.keeps, fun path' => (hk.content path').trans (h.content path'), fun path' hpath' => ?_,
    fun hs => ?_, fun i f'' hf'' => ?_⟩
  · rw [hk.directory] at hpath'
    exact h.names path' hpath'
  · unfold Separate
    rw [hk.directory]
    exact h.separate hs
  · obtain ⟨f', hf', hinode⟩ := hk.only i f'' hf''
    refine (h.only i f' hf').imp_right ?_
    rintro ⟨f, hf, hinode'⟩
    exact ⟨f, hf, hinode'.trans hinode⟩

/-- A file that was opened in a slot that was not in use. -/
structure OpensFile (inv : FdState σ → Kernel → (File → Prop) → Prop) (room : Nat) (path : FileName)
    (k : Kernel) (G : File → Prop) (st : FdState σ) (vfd : File) (k' : Kernel) : Prop where
  opened : Opened k k' path vfd
  few : ∀ {n}, Few room k (n + 1) → Few room k' n
  files : inv st k' G
  holds : Holds k' path vfd
  kept : ¬ G vfd

/-- A segment's file was opened, and there is an `MdfdVec` for it. -/
structure OpensSeg (inv : FdState σ → Kernel → (File → Prop) → Prop) (room : Nat) (serves : Prop)
    (path : FileName) (k : Kernel) (G : File → Prop) (st : FdState σ) (new : MdfdVec) (k' : Kernel)
    (G' : File → Prop) : Prop where
  opened : Opened k k' path new.vfd
  few : ∀ {n}, Few room k (n + 1) → Few room k' n
  files : inv st k' G'
  holds : Holds k' path new.vfd
  chain : new.chain = none
  givenUp : ∀ file, G' file → G file ∨ file = new.vfd
  served : serves → G' = G

section

variable (hfiles : Files os inv room serves allowed)

include hfiles

theorem fileNameOpenFile_opens (md : MdState σ) {flags : OpenFlags} (ht : inv md.st k G) (hfresh : Fresh k)
    (habsolute : path.head? = some SEP_CHAR) (hfew : Few room k 1)
    (hcan : Openable k path flags ∨ allowed (.fd .osFailed))
    (hflags : flags.access = .O_RDWR ∧ flags.append = false ∧ flags.trunc = false) :
    Ends allowed (md.call fun st => fileNameOpenFile os st path flags fileMode) fun r => ∃ st,
      r.2 = { md with st := st } ∧
        ((∃ vfd k', r.1 = some vfd ∧ k.openFile vfd path flags = .ok k' ∧ OpensFile inv room path k G st vfd k') ∨
          (¬ serves ∧ r.1 = none ∧ inv st k G)) := by
  apply (call_allowed (hfiles.openFile ht hfew habsolute hcan)).mono (fun _ h => h)
  rintro r ⟨st, hopened, hr⟩
  refine ⟨st, hr, ?_⟩
  rcases hopened with ⟨vfd, k', hvfd, hfree, hopen, hG, ht'⟩ | hfails
  · obtain ⟨hopened, hholds⟩ := opened_openFile hfree hfresh hflags.2.2 hopen
    exact .inl ⟨vfd, k', hvfd, hopen, hopened, fun hn => few_open hn hopen, ht', hholds hflags.1 hflags.2.1, hG⟩
  · exact .inr hfails

theorem mdFdOpenSeg_ends {segNo : Nat} {creat : Bool} (ht : inv md.st k G) (hfresh : Fresh k)
    (habsolute : (relpath md.dataDir rnode).head? = some SEP_CHAR) (hfew : Few room k 1)
    (hbound : blocks k md.dataDir rnode segNo ≤ RELSEG_SIZE)
    (hcan : creat = true ∨ k.directory (segpath md.dataDir rnode segNo) ≠ none) :
    Ends allowed (mdFdOpenSeg os md rnode segNo creat) fun r =>
      (¬ serves ∧ r.1 = none) ∨ ∃ st new k' G',
        r = (some md.nextNode, ({ md with st := st } : MdState σ).fresh new) ∧
          OpensSeg inv room serves (segpath md.dataDir rnode segNo) k G st new k' G' := by
  have hopenable : Openable k (segpath md.dataDir rnode segNo) { RDWR with creat := creat } :=
    hcan.elim (fun h => openable_creat h rfl) fun h => openable_exists h rfl
  unfold mdFdOpenSeg
  apply Ends.bind (fileNameOpenFile_opens hfiles md ht hfresh (segpath_head habsolute segNo) hfew (.inl hopenable)
    ⟨rfl, rfl, rfl⟩)
  rintro ⟨fd, md₁⟩ ⟨st₁, hmd₁, ⟨vfd, k₁, hfd, -, hopens⟩ | ⟨hfails, hfd, -⟩⟩
  · dsimp only at hfd hmd₁ ⊢
    subst hfd hmd₁
    have hbound₁ : (content k₁ (segpath md.dataDir rnode segNo)).length / BLCKSZ ≤ RELSEG_SIZE := by
      rw [hopens.opened.content]
      exact hbound
    apply Ends.bind (nblocksAux_ends hfiles { md with st := st₁ } hopens.files
      (hopens.few hfew) hopens.holds hbound₁
      fun hgiven => absurd hgiven hopens.kept)
    intro ⟨nblocks, md₂⟩ ⟨k', G', st, hmd₂, hmoved, ht', hG', hcount⟩
    dsimp only at hmd₂ hcount ⊢
    subst hmd₂
    refine .inr ⟨st, ⟨vfd, false, toInt nblocks.toNat, 0, none⟩, k', G', rfl, hopens.opened.moved hmoved, ?_, ht',
      hopens.holds.keeps hmoved.keeps, rfl, hG', ?_⟩
    · exact fun hn => hmoved.few (hopens.few hn)
    · intro hserves
      exact (hcount.resolve_right fun hfails => hfails.1 hserves).2.1
  · dsimp only at hfd ⊢
    subst hfd
    exact .inl ⟨hfails, rfl⟩

/-- The next segment is in the chain, or it is opened. -/
theorem Rel.chainNext {creat : Bool} (h : Rel inv room md k rnode refs G) (hv : refs[i]? = some v)
    (hfull : ∀ j ≤ i, blocks k md.dataDir rnode j = RELSEG_SIZE)
    (hcan : creat = true ∨ k.directory (segpath md.dataDir rnode (i + 1)) ≠ none) :
    Ends allowed (chainNext os md rnode v (i + 1) creat) fun r => ∃ k' refs' G',
      Walked inv room serves rnode md k refs G r.2 k' refs' G' ∧ refs'[i + 1]? = some r.1 := by
  obtain ⟨vec, hvec, -, hchain⟩ := h.chained.segment i v hv
  unfold Md.chainNext
  rw [hvec]
  cases hnext : vec.chain with
  | some next =>
    rw [hnext] at hchain
    simp only [bind, Except.bind, hnext]
    exact ⟨k, refs, G, h.walked, hchain.symm⟩
  | none =>
    have hlength : refs.length = i + 1 := by
      rw [hnext] at hchain
      have hle := List.getElem?_eq_none_iff.mp hchain.symm
      have hlt := (List.getElem?_eq_some_iff.mp hv).1
      omega
    obtain ⟨last, hsmall, hlast, hroom⟩ := h.room
    have hlt : i < last := by
      by_contra hge
      exact hlast (hfull last (by omega))
    rw [hlength] at hroom
    have hfew : Few room k (last + 1 - (i + 2) + 1) := by
      rw [show last + 1 - (i + 2) + 1 = last + 1 - (i + 1) by omega]
      exact hroom
    have hone : Few room k 1 := hfew.mono (Nat.succ_pos _)
    simp only [bind, Except.bind, hnext]
    have hopens := mdFdOpenSeg_ends hfiles h.files h.fresh h.absolute hone (h.bounded (i + 1)) hcan
    refine Ends.bind (x := mdFdOpenSeg os md rnode (i + 1) creat) hopens ?_
    intro ⟨next, md₁⟩ hopened
    dsimp only at hopened ⊢
    rcases hopened with ⟨hfails, rfl⟩ | ⟨st, new, k', G', hr, hopened⟩
    · exact hfiles.failed hfails _
    · obtain ⟨rfl, rfl⟩ := Prod.mk.inj hr
      have hget : (({ md with st := st } : MdState σ).fresh new).get v = .ok vec :=
        h.get_fresh hvec new
      obtain ⟨md', hset, hstored⟩ := set_stored hget { vec with chain := some md.nextNode }
      dsimp only
      rw [hget]
      dsimp only
      rw [hset]
      have hsame := sameBlocks_of_content hopened.opened.content
      obtain ⟨hrel, hextends, hfound, hlast'⟩ :=
        h.append hopened.opened.keeps hsame hv hvec hnext hopened.holds hopened.chain
        hsmall hlast (hopened.few hfew) hfull hopened.files hopened.givenUp hstored
      refine ⟨k', _, G', ⟨hopened.opened.keeps, hopened.opened.content, ?_, ?_, hrel, hextends, hopened.served⟩,
        hfound⟩
      · intro hp
        exact hp.opened hfiles h hopened.opened hopened.holds hextends hfound hlast' rfl
          fun j hj => hfull j (by omega)
      · intro n hn hf
        rw [List.length_append, List.length_singleton] at hn ⊢
        apply hopened.few
        rwa [show n - (refs.length + 1) + 1 = n - refs.length by omega]

/-- The loop of `md_fd_get_seg` comes to the segment it was sent to. -/
theorem Rel.getSegLoop {segNo : Nat} (h : Rel inv room md k rnode refs G) (hv : refs[i]? = some v)
    (hfull : ∀ j < i + segNo, blocks k md.dataDir rnode j = RELSEG_SIZE) :
    Ends allowed (getSegLoop os rnode segNo md (i + 1) v) fun r => ∃ k' refs' G',
      Walked inv room serves rnode md k refs G r.2 k' refs' G' ∧ refs'[i + segNo]? = some r.1 := by
  induction segNo generalizing md k refs G i v with
  | zero => exact ⟨k, refs, G, h.walked, hv⟩
  | succ segNo ih =>
    unfold Md.getSegLoop
    have hcan : (decide (segNo = 0)) = true ∨ k.directory (segpath md.dataDir rnode (i + 1)) ≠ none := by
      by_cases hlast : segNo = 0
      · exact .inl (decide_eq_true hlast)
      · exact .inr (exists_of_full (hfull (i + 1) (by omega)))
    refine Ends.bind (h.chainNext hfiles hv (fun j hj => hfull j (by omega)) hcan) ?_
    intro ⟨v₁, md₁⟩ ⟨k₁, refs₁, G₁, hwalked, hv₁⟩
    dsimp only at hwalked hv₁ ⊢
    have hfull₁ : ∀ j < i + 1 + segNo, blocks k₁ md₁.dataDir rnode j = RELSEG_SIZE :=
      hwalked.full fun j hj => hfull j (by omega)
    apply (ih hwalked.rel hv₁ hfull₁).mono (fun _ h => h)
    rintro r ⟨k', refs', G', hwalked', hfound⟩
    rw [show i + 1 + segNo = i + (segNo + 1) by omega] at hfound
    exact ⟨k', refs', G', hwalked.trans hwalked', hfound⟩

/-- Where a count ends, and how it comes out. -/
structure Counted (serves : Prop) (md : MdState σ) (k : Kernel) (rnode : RelFileNode)
    (refs refs' : List Ref) (G : File → Prop) (s n x : Nat) : Prop where
  lt : x < RELSEG_SIZE
  full : ∀ j < n, blocks k md.dataDir rnode j = RELSEG_SIZE
  reached : n < refs'.length
  count : serves → x = blocks k md.dataDir rnode n
  visits : serves → ∀ t v vec, s ≤ t → t ≤ n → refs[t]? = some v → md.get v = .ok vec → ¬ G vec.vfd

omit hfiles in
theorem toInt_ofNat {b : Nat} (hb : b ≤ RELSEG_SIZE) : toInt (UInt32.ofNat b).toNat = b := by
  have hsize : RELSEG_SIZE = 131072 := rfl
  have hlt : b < 2 ^ 32 := by omega
  rw [UInt32.toNat_ofNat_of_lt' hlt]
  unfold toInt
  rw [Int.bmod_def]
  split <;> omega

/-- What the count of one segment says: it is right where no call fails, and where it says that
the segment is full. -/
structure ReadCount (serves : Prop) (G : File → Prop) (vfd : File) (b : Nat)
    (nblocks : BlockNumber) (x : Nat) : Prop where
  int : toInt nblocks.toNat = x
  le : x ≤ RELSEG_SIZE
  serves : serves → x = b ∧ ¬ G vfd
  full : x = RELSEG_SIZE → x = b

omit hfiles in
theorem read_count {b : Nat} {vfd : File} {nblocks : BlockNumber} (hbound : b ≤ RELSEG_SIZE)
    (h : (¬ G vfd ∧ nblocks = UInt32.ofNat b) ∨ (¬ serves ∧ nblocks = 0)) :
    ∃ x, ReadCount serves G vfd b nblocks x := by
  rcases h with ⟨hgiven, rfl⟩ | ⟨hfails, rfl⟩
  · exact ⟨b, toInt_ofNat hbound, hbound, fun _ => ⟨rfl, hgiven⟩, fun _ => rfl⟩
  · have hzero : 0 ≠ RELSEG_SIZE := by decide
    exact ⟨0, by decide, Nat.zero_le _, fun hs => absurd hs hfails, fun heq => absurd heq hzero⟩

/-- The loop of `md_nblocks`. -/
theorem Rel.nblocksLoop {fuel s : Nat} (h : Rel inv room md k rnode refs G) (hv : refs[s]? = some v)
    (hfull : ∀ j < s, blocks k md.dataDir rnode j = RELSEG_SIZE) (hG : ∀ file, G file → allowed (.fd .assertion))
    (hfuel : 2 ^ 30 ≤ s + fuel) :
    Ends allowed (nblocksLoop os rnode fuel md s v) fun r => ∃ k' refs' G' n x,
      Walked inv room serves rnode md k refs G r.2 k' refs' G' ∧ r.1 = toInt ((n * RELSEG_SIZE + x : Nat) : Int) ∧
        Counted serves md k rnode refs refs' G s n x := by
  induction fuel generalizing md k refs G s v with
  | zero =>
    obtain ⟨last, hsmall, hlast, -⟩ := h.room
    exact absurd (hfull last (by omega)) hlast
  | succ fuel ih =>
    obtain ⟨vec, hvec, -⟩ := h.chained.segment s v hv
    have hbound := h.bounded s
    unfold Md.nblocksLoop
    rw [hvec]
    simp only [bind, Except.bind]
    refine Ends.bind (x := mdNblocksAux os md vec.vfd)
      (h.nblocksAux hfiles hv hvec hfull (hG vec.vfd)) ?_
    intro ⟨nblocks, md₁⟩ ⟨k₁, G₁, st₁, hmd₁, hmoved, hrel₁, hcount⟩
    dsimp only at hmd₁ hcount ⊢
    subst hmd₁
    have hserved : serves → G₁ = G := fun hserves =>
      (hcount.resolve_right fun hfails => hfails.1 hserves).2.1
    have hread := read_count hbound (hcount.imp (fun h => ⟨h.1, h.2.2⟩) id)
    cases hread with
    | intro x hread =>
    have hle := hread.le
    rw [hread.int]
    have hwalked₁ : Walked inv room serves rnode md k refs G { md with st := st₁ } k₁ refs G₁ :=
      hmoved.walked hrel₁ hserved
    rw [if_neg (by omega), (get_call v).trans hvec]
    dsimp only
    have hget : ({ md with st := st₁ } : MdState σ).get v = .ok vec := (get_call v).trans hvec
    obtain ⟨md₂, hset, hstored⟩ := set_stored hget { vec with lstBcnt := (x : Int) }
    rw [hset]
    dsimp only
    have hrel₂ : Rel inv room md₂ k₁ rnode refs G₁ :=
      hrel₁.store (List.mem_iff_getElem?.mpr ⟨s, hv⟩) hget hstored rfl rfl
    have hextends : Extends { md with st := st₁ } md₂ refs refs := hstored.extends hget rfl
    have hwalked₂ : Walked inv room serves rnode md k refs G md₂ k₁ refs G₁ :=
      ⟨hwalked₁.keeps, hwalked₁.content, fun hp => (hwalked₁.proper hp).extends hextends,
        hwalked₁.few, hrel₂, hwalked₁.extends'.trans hextends,
        hserved⟩
    by_cases hfullx : x = RELSEG_SIZE
    · rw [if_pos (congrArg _ hfullx)]
      have hfull₁ : ∀ j < s + 1, blocks k md.dataDir rnode j = RELSEG_SIZE := by
        intro j hj
        rcases Nat.lt_succ_iff_lt_or_eq.mp hj with hj | rfl
        · exact hfull j hj
        · exact (hread.full hfullx).symm.trans hfullx
      have hfull₂ := hwalked₂.full hfull₁
      refine Ends.bind (x := Md.chainNext os md₂ rnode v (s + 1) true)
        (hrel₂.chainNext hfiles hv (fun j hj => hfull₂ j (by omega)) (.inl rfl)) ?_
      intro ⟨v₃, md₃⟩ ⟨k₃, refs₃, G₃, hwalked₃, hv₃⟩
      dsimp only at hwalked₃ hv₃ ⊢
      have hwalked : Walked inv room serves rnode md k refs G md₃ k₃ refs₃ G₃ := hwalked₂.trans hwalked₃
      have hG₃ : ∀ file, G₃ file → allowed (.fd .assertion) := by
        intro file hfile
        by_cases hs : serves
        · rw [hwalked.served hs] at hfile
          exact hG file hfile
        · exact hfiles.failed hs _
      apply (ih hwalked.rel hv₃ (hwalked.full hfull₁) hG₃ (by omega)).mono (fun _ h => h)
      rintro r ⟨k', refs', G', n, y, hwalked', hr, hcounted⟩
      refine ⟨k', refs', G', n, y, hwalked.trans hwalked', hr, hcounted.lt, ?_, hcounted.reached, ?_, ?_⟩
      · intro j hj
        rw [← hwalked.blocks_eq]
        exact hcounted.full j hj
      · intro hs
        rw [← hwalked.blocks_eq]
        exact hcounted.count hs
      · intro hs t w old ht htn hw hold
        rcases Nat.eq_or_lt_of_le ht with rfl | hlt
        · obtain rfl := Option.some.inj (hv.symm.trans hw)
          obtain rfl := Except.ok.inj (hvec.symm.trans hold)
          exact (hread.serves hs).2
        · obtain ⟨new, hnew, hvfd⟩ := hwalked.extends'.vfd w old (List.mem_iff_getElem?.mpr ⟨t, hw⟩) hold
          have hnot := hcounted.visits hs t w new hlt htn (hwalked.extends'.longer t w hw) hnew
          rwa [hwalked.served hs, hvfd] at hnot
    · rw [if_neg fun heq => hfullx (Int.natCast_inj.mp heq)]
      refine ⟨k₁, refs, G₁, s, x, hwalked₂, ?_, by omega, hfull, (List.getElem?_eq_some_iff.mp hv).1, ?_, ?_⟩
      · push_cast
        rfl
      · exact fun hs => (hread.serves hs).1
      · intro hs t w old ht htn hw hold
        obtain rfl : t = s := by omega
        obtain rfl := Option.some.inj (hv.symm.trans hw)
        obtain rfl := Except.ok.inj (hvec.symm.trans hold)
        exact (hread.serves hs).2

end

/-- No file was given up that a count went past. -/
theorem Counted.none_givenUp {n x : Nat} (hc : Counted serves md k rnode refs refs' G 0 n x)
    (h : Rel inv room md k rnode refs G) (hs : serves) (file : File) : ¬ G file := by
  intro hfile
  obtain ⟨i, v, vec, hi, hvec, rfl, hfull⟩ := h.visited file hfile
  have hle : i ≤ n := by
    by_contra hlt
    have hn := hfull n (by omega)
    rw [← hc.count hs] at hn
    exact absurd hc.lt (by omega)
  exact hc.visits hs i v vec (Nat.zero_le i) hle hi hvec hfile

/-! ## The first segment -/

/-- Only the array and its list change. -/
structure SameBut (md md' : MdState σ) : Prop where
  st : md'.st = md.st
  nodes : md'.nodes = md.nodes
  nextNode : md'.nextNode = md.nextNode
  rdFd : md'.rdFd = md.rdFd
  dataDir : md'.dataDir = md.dataDir

theorem fdvecAlloc_sameBut {n : Nat} (h : fdvecAlloc md = .ok (n, md')) : SameBut md md' := by
  unfold fdvecAlloc at h
  dsimp only at h
  split at h
  · split at h
    · cases h
    · split at h
      · split at h
        · cases h
        · obtain ⟨-, rfl⟩ := Prod.mk.inj (Except.ok.inj h)
          exact ⟨rfl, rfl, rfl, rfl, rfl⟩
      · obtain ⟨-, rfl⟩ := Prod.mk.inj (Except.ok.inj h)
        exact ⟨rfl, rfl, rfl, rfl, rfl⟩
  · split at h
    · cases h
    · obtain ⟨-, rfl⟩ := Prod.mk.inj (Except.ok.inj h)
      exact ⟨rfl, rfl, rfl, rfl, rfl⟩

/-- The relation is known by the slot that was filled for its first segment. -/
theorem Rel.head (hfiles : Files os inv room serves allowed) {new : MdfdVec} {n : Nat}
    (h : Rel inv room md k rnode [] G)
    (ho : OpensSeg inv room serves (relpath md.dataDir rnode) k G md'.st new k' G') (hget : md'.fdvec n = new)
    (hnodes : md'.nodes = md.nodes) (hnext : md'.nextNode = md.nextNode) (hrdFd : md'.rdFd rnode = n)
    (hdataDir : md'.dataDir = md.dataDir) :
    Walked inv room serves rnode md k [] G md' k' [.slot n] G' := by
  have hsame := sameBlocks_of_content ho.opened.content
  have hextends : Extends md md' [] [.slot n] := ⟨hdataDir, nofun, nofun⟩
  have hslot : md'.get (.slot n) = .ok new := congrArg Except.ok hget
  refine ⟨ho.opened.keeps, ho.opened.content, ?_, fun m hm hf => ?_,
    ⟨ho.files, ho.opened.keeps.fresh h.fresh, ?_, ?_, ?_,
    ?_, nofun, ⟨List.nodup_singleton _, ?_, ?_⟩, ?_⟩, hextends, ho.served⟩
  · intro hp
    exact hp.opened (s := 0) hfiles h ho.opened ho.holds hextends rfl hslot rfl
      fun j hj => absurd hj (Nat.not_lt_zero j)
  · rw [List.length_singleton] at hm ⊢
    apply ho.few
    rwa [Nat.sub_add_cancel hm]
  · rw [hdataDir]
    exact h.absolute
  · intro i
    rw [hdataDir, hsame.blocks_eq]
    exact h.bounded i
  · obtain ⟨last, hsmall, hlast, hroom⟩ := h.room
    refine ⟨last, hsmall, ?_, ho.few hroom⟩
    rw [hdataDir, hsame.blocks_eq]
    exact hlast
  · rw [hnodes, hnext]
    exact h.unused
  · rw [hrdFd, if_neg (by omega)]
    simp
  · intro i v hv
    cases i with
    | zero =>
      obtain rfl := Option.some.inj hv
      refine ⟨new, hslot, ?_, ?_⟩
      · rw [hdataDir]
        exact ho.holds
      · rw [ho.chain]
        rfl
    | succ i => cases hv
  · intro file hfile
    rcases ho.givenUp file hfile with hold | rfl
    · obtain ⟨i, v, vec, hi, -⟩ := h.visited file hold
      cases hi
    · exact ⟨0, .slot n, new, rfl, hslot, rfl, fun j hj => absurd hj (Nat.not_lt_zero j)⟩

section

variable (hfiles : Files os inv room serves allowed)

include hfiles

/-- One of the two ways to open the file works, if there is one. -/
theorem openEither_ends {flags others : OpenFlags} (ht : inv md.st k G) (hfresh : Fresh k)
    (habsolute : path.head? = some SEP_CHAR) (hfew : Few room k 1)
    (hcan : Openable k path flags ∨ allowed (.fd .osFailed))
    (hflags : flags.access = .O_RDWR ∧ flags.append = false ∧ flags.trunc = false)
    (hothers : others.access = .O_RDWR ∧ others.append = false ∧ others.trunc = false) :
    Ends allowed (openEither os md path flags others) fun r =>
      (¬ serves ∧ r.1 = none) ∨ ∃ vfd st k', r = (some vfd, { md with st := st }) ∧
        (serves → k.openFile vfd path flags = .ok k') ∧ OpensFile inv room path k G st vfd k' := by
  unfold openEither
  apply Ends.bind (fileNameOpenFile_opens hfiles md ht hfresh habsolute hfew hcan hflags)
  rintro ⟨fd, md₁⟩ ⟨st, hmd₁, ⟨vfd, k', hfd, hopen, hopens⟩ | ⟨hfails, hfd, ht₁⟩⟩
  · dsimp only at hmd₁ hfd ⊢
    subst hmd₁ hfd
    rw [if_neg fun hand => nomatch hand.1]
    exact .inr ⟨vfd, st, k', rfl, fun _ => hopen, hopens⟩
  · dsimp only at hmd₁ hfd ⊢
    subst hmd₁ hfd
    split
    · apply (fileNameOpenFile_opens hfiles { md with st := st } ht₁ hfresh habsolute hfew
        (.inr (hfiles.failed hfails _)) hothers).mono (fun _ h => h)
      rintro ⟨fd, md₂⟩ ⟨st₂, hmd₂, ⟨vfd, k', hfd, -, hopens⟩ | ⟨-, hfd, -⟩⟩
      · dsimp only at hmd₂ hfd
        subst hmd₂ hfd
        exact .inr ⟨vfd, st₂, k', rfl, fun hserves => absurd hserves hfails, hopens⟩
      · exact .inl ⟨hfails, hfd⟩
    · exact .inl ⟨hfails, rfl⟩

omit hfiles in
theorem Rel.few_one (h : Rel inv room md k rnode [] G) : Few room k 1 := by
  obtain ⟨last, -, -, hroom⟩ := h.room
  exact hroom.mono (Nat.succ_pos _)

/-- `md_open` of a relation that is not open. -/
theorem Rel.mdOpen (h : Rel inv room md k rnode [] G) (hclosed : md.rdFd rnode < 0)
    (hcan : k.directory (relpath md.dataDir rnode) ≠ none ∨ allowed (.fd .osFailed)) :
    Ends allowed (mdOpen os md rnode) fun r => (¬ serves ∧ r.1 = none) ∨ ∃ n k' G',
      r.1 = some n ∧ Walked inv room serves rnode md k [] G
        { r.2 with rdFd := Function.update r.2.rdFd rnode n } k' [.slot n] G' := by
  obtain ⟨freed, used, hslots, hnfds⟩ := h.slots rfl
  have hrdwr : RDWR.access = .O_RDWR ∧ RDWR.append = false ∧ RDWR.trunc = false := ⟨rfl, rfl, rfl⟩
  unfold Md.mdOpen
  rw [if_neg (not_not.mpr hclosed)]
  refine Ends.bind (openEither_ends hfiles h.files h.fresh h.absolute h.few_one
    (hcan.imp_left fun h => openable_exists h rfl) hrdwr ⟨rfl, rfl, rfl⟩) ?_
  rintro ⟨fd, md₁⟩ (⟨hfails, hfd⟩ | ⟨vfd, st, k₁, hr, -, hopens⟩)
  · dsimp only at hfd ⊢
    subst hfd
    exact .inl ⟨hfails, rfl⟩
  · obtain ⟨rfl, rfl⟩ := Prod.mk.inj hr
    have hslots₁ : Slots { md with st := st } freed used :=
      ⟨hslots.linked, hslots.perm, hslots.curFd_le, hslots.free, hslots.used⟩
    obtain ⟨n, md₂, freed', halloc, -, -, -⟩ := fdvecAlloc_spec hslots₁ hnfds
    have hsame := fdvecAlloc_sameBut halloc
    dsimp only
    rw [halloc]
    dsimp only [bind, Except.bind]
    have ht : inv md₂.st k₁ G := by
      rw [hsame.st]
      exact hopens.files
    have hbound : (content k₁ (relpath md.dataDir rnode)).length / BLCKSZ ≤ RELSEG_SIZE := by
      rw [hopens.opened.content]
      exact h.bounded 0
    have haux := nblocksAux_ends hfiles { md₂ with
      fdvec := Function.update md₂.fdvec n { md₂.fdvec n with vfd := vfd, free := false } } ht
        (hopens.few h.few_one) hopens.holds hbound
      fun hgiven => absurd hgiven hopens.kept
    refine Ends.bind haux ?_
    intro ⟨nblocks, md₃⟩ ⟨k', G', st₃, hmd₃, hmoved, ht', hG', hcount⟩
    dsimp only at hmd₃ hcount ⊢
    subst hmd₃
    have hopened : OpensSeg inv room serves (relpath md.dataDir rnode) k G st₃
        { md₂.fdvec n with vfd := vfd, free := false, lstBcnt := toInt nblocks.toNat, chain := none } k' G' :=
      ⟨hopens.opened.moved hmoved, fun hm => hmoved.few (hopens.few hm), ht',
        hopens.holds.keeps hmoved.keeps, rfl,
        hG', fun hserves => (hcount.resolve_right fun hfails => hfails.1 hserves).2.1⟩
    refine .inr ⟨n, k', G', rfl, h.head hfiles hopened ?_ hsame.nodes hsame.nextNode (Function.update_self _ _ _)
      hsame.dataDir⟩
    simp

/-- `md_create` of a relation that is not there. -/
theorem Rel.mdCreate (h : Rel inv room md k rnode [] G) (hclosed : md.rdFd rnode < 0)
    (hnew : k.directory (relpath md.dataDir rnode) = none) :
    Ends allowed (mdCreate os md rnode) fun r => (¬ serves ∧ r.1 = none) ∨ ∃ n k' G',
      r.1 = some n ∧ Walked inv room serves rnode md k [] G
        { r.2 with rdFd := Function.update r.2.rdFd rnode n } k' [.slot n] G' := by
  obtain ⟨freed, used, hslots, hnfds⟩ := h.slots rfl
  have hrdwr : RDWR.access = .O_RDWR ∧ RDWR.append = false ∧ RDWR.trunc = false := ⟨rfl, rfl, rfl⟩
  unfold Md.mdCreate
  rw [if_neg (not_not.mpr hclosed)]
  refine Ends.bind (openEither_ends hfiles h.files h.fresh h.absolute h.few_one (.inl (openable_new rfl hnew))
    ⟨rfl, rfl, rfl⟩ hrdwr) ?_
  rintro ⟨fd, md₁⟩ (⟨hfails, hfd⟩ | ⟨vfd, st, k₁, hr, -, hopens⟩)
  · dsimp only at hfd ⊢
    subst hfd
    exact .inl ⟨hfails, rfl⟩
  · obtain ⟨rfl, rfl⟩ := Prod.mk.inj hr
    have hslots₁ : Slots { md with st := st } freed used :=
      ⟨hslots.linked, hslots.perm, hslots.curFd_le, hslots.free, hslots.used⟩
    obtain ⟨n, md₂, freed', halloc, -, -, -⟩ := fdvecAlloc_spec hslots₁ hnfds
    have hsame := fdvecAlloc_sameBut halloc
    have hst : md₂.st = st := hsame.st
    dsimp only
    rw [halloc]
    have hopened : OpensSeg inv room serves (relpath md.dataDir rnode) k G st
        { md₂.fdvec n with vfd := vfd, free := false, lstBcnt := 0, chain := none } k₁ G :=
      ⟨hopens.opened, hopens.few, hopens.files, hopens.holds, rfl, fun _ => .inl, fun _ => rfl⟩
    rw [← hst] at hopened
    refine .inr ⟨n, k₁, G, rfl, h.head hfiles hopened ?_ hsame.nodes hsame.nextNode (Function.update_self _ _ _)
      hsame.dataDir⟩
    simp

/-- `md_fd_get_reln_fd` finds the slot of the relation, or opens the relation. -/
theorem Rel.getRelnFd (h : Rel inv room md k rnode refs G)
    (hcan : refs = [] → k.directory (relpath md.dataDir rnode) ≠ none ∨ allowed (.fd .osFailed)) :
    Ends allowed (mdFdGetRelnFd os md rnode) fun r => ∃ k' refs' G',
      Walked inv room serves rnode md k refs G r.2 k' refs' G' ∧ refs'[0]? = some (.slot r.1) := by
  have hhead := h.chained.head
  unfold mdFdGetRelnFd
  by_cases hclosed : md.rdFd rnode < 0
  · rw [if_pos hclosed] at hhead ⊢
    obtain rfl : refs = [] := by
      cases refs with
      | nil => rfl
      | cons v refs => cases hhead
    refine Ends.bind (h.mdOpen hfiles hclosed (hcan rfl)) ?_
    rintro ⟨fd, md₁⟩ (⟨hfails, rfl⟩ | ⟨n, k', G', rfl, hwalked⟩)
    · exact hfiles.failed hfails _
    · exact ⟨k', _, G', hwalked, rfl⟩
  · rw [if_neg hclosed] at hhead ⊢
    exact ⟨k, refs, G, h.walked, hhead⟩

/-- `md_nblocks` counts the segments that are full, and the blocks of the next one. -/
theorem Rel.mdNblocks (h : Rel inv room md k rnode refs G) (hG : ∀ file, G file → allowed (.fd .assertion))
    (hcan : refs = [] → k.directory (relpath md.dataDir rnode) ≠ none ∨ allowed (.fd .osFailed)) :
    Ends allowed (mdNblocks os md rnode) fun r => ∃ k' refs' G' n x,
      Walked inv room serves rnode md k refs G r.2 k' refs' G' ∧ r.1 = toInt ((n * RELSEG_SIZE + x : Nat) : Int) ∧
        Counted serves md k rnode refs refs' G 0 n x := by
  unfold Md.mdNblocks
  refine Ends.bind (h.getRelnFd hfiles hcan) ?_
  rintro ⟨fd, md₁⟩ ⟨k₁, refs₁, G₁, hwalked₁, hv⟩
  dsimp only at hwalked₁ hv ⊢
  have hG₁ : ∀ file, G₁ file → allowed (.fd .assertion) := by
    intro file hfile
    by_cases hs : serves
    · rw [hwalked₁.served hs] at hfile
      exact hG file hfile
    · exact hfiles.failed hs _
  apply (hwalked₁.rel.nblocksLoop hfiles hv (fun j hj => absurd hj (Nat.not_lt_zero j)) hG₁
    (by decide)).mono (fun _ h => h)
  rintro r ⟨k', refs', G', n, x, hwalked, hr, hcounted⟩
  refine ⟨k', refs', G', n, x, hwalked₁.trans hwalked, hr, hcounted.lt, ?_, hcounted.reached, ?_, ?_⟩
  · intro j hj
    rw [← hwalked₁.blocks_eq]
    exact hcounted.full j hj
  · intro hs
    rw [← hwalked₁.blocks_eq]
    exact hcounted.count hs
  · intro hs t w old ht htn hw hold
    obtain ⟨new, hnew, hvfd⟩ := hwalked₁.extends'.vfd w old (List.mem_iff_getElem?.mpr ⟨t, hw⟩) hold
    have hnot := hcounted.visits hs t w new ht htn (hwalked₁.extends'.longer t w hw) hnew
    rwa [hwalked₁.served hs, hvfd] at hnot

/-- `md_fd_get_seg` finds a segment behind full ones. -/
theorem Rel.mdFdGetSeg {blockNum : Int} {s : Nat} (h : Rel inv room md k rnode refs G)
    (hs : (Int.tdiv blockNum RELSEG_SIZE).toNat = s) (hfull : ∀ j < s, blocks k md.dataDir rnode j = RELSEG_SIZE)
    (hcan : refs = [] → k.directory (relpath md.dataDir rnode) ≠ none ∨ allowed (.fd .osFailed)) :
    Ends allowed (mdFdGetSeg os md rnode blockNum) fun r => ∃ k' refs' G',
      Walked inv room serves rnode md k refs G r.2.2 k' refs' G' ∧ refs'[s]? = some r.2.1 ∧
        r.2.2.get r.2.1 = .ok r.1 := by
  unfold Md.mdFdGetSeg
  refine Ends.bind (h.getRelnFd hfiles hcan) ?_
  rintro ⟨fd, md₁⟩ ⟨k₁, refs₁, G₁, hwalked₁, hv⟩
  dsimp only at hwalked₁ hv ⊢
  rw [hs]
  have hfull₁ : ∀ j < 0 + s, blocks k₁ md₁.dataDir rnode j = RELSEG_SIZE := by
    rw [Nat.zero_add]
    exact hwalked₁.full hfull
  refine Ends.bind (hwalked₁.rel.getSegLoop hfiles hv hfull₁) ?_
  rintro ⟨v, md₂⟩ ⟨k₂, refs₂, G₂, hwalked₂, hv₂⟩
  dsimp only at hwalked₂ hv₂ ⊢
  rw [Nat.zero_add] at hv₂
  obtain ⟨vec, hvec, -⟩ := hwalked₂.rel.chained.segment s v hv₂
  rw [hvec]
  exact ⟨k₂, refs₂, G₂, hwalked₁.trans hwalked₂, hv₂, hvec⟩

end

end PostgresV7.Md
