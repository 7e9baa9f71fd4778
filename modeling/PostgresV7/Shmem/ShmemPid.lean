import PostgresV7.Lib.Decimal
import PostgresV7.Shmem.ShmemRun

/-!
# Processes in the shmem index (`shmem_pid_lookup`, `shmem_pid_destroy`)

A process has its entry in the index of the structures, under a name made of its process id. As
long as no structure has such a name, neither disturbs the other.
-/

namespace PostgresV7.Shmem

open Decimal Dynahash Outcomes Runs

/-! ## The name of a process -/

/-- `%d`. -/
def percentD (n : Int) : List Char :=
  if n < 0 then '-' :: decimal (-n).toNat else decimal n.toNat

/-- `sprintf(item.key, "PID %d", pid)`, into zeros. -/
def pidName (pid : Int32) : List UInt8 :=
  ('P' :: 'I' :: 'D' :: ' ' :: percentD pid.toInt).map fun c => UInt8.ofNat c.toNat

theorem percentD_injective : Function.Injective percentD := by
  intro m n h
  have hsign : ∀ k, '-' ∉ decimal k := not_mem_decimal rfl
  unfold percentD at h
  split at h
  · split at h
    · have hsame := decimal_injective (List.cons.inj h).2
      omega
    · exact absurd (h ▸ List.mem_cons_self) (hsign _)
  · split at h
    · exact absurd (h ▸ List.mem_cons_self) (hsign _)
    · have hsame := decimal_injective h
      omega

/-- The characters of a name are those of a text. -/
theorem percentD_ascii (n : Int) : ∀ c ∈ percentD n, 0 < c.toNat ∧ c.toNat < 128 := by
  have hdigits : ∀ k, ∀ c ∈ decimal k, 0 < c.toNat ∧ c.toNat < 128 := by
    intro k c hc
    have hdigit := Nat.isDigit_of_mem_toDigits (by decide) (by decide) hc
    obtain ⟨hlow, hhigh⟩ : 48 ≤ c.toNat ∧ c.toNat ≤ 57 := Char.isDigit_iff_toNat.mp hdigit
    exact ⟨by omega, by omega⟩
  intro c hc
  unfold percentD at hc
  split at hc
  · rcases List.mem_cons.mp hc with rfl | hc
    · decide
    · exact hdigits _ c hc
  · exact hdigits _ c hc

theorem pidName_ascii (pid : Int32) :
    ∀ c ∈ 'P' :: 'I' :: 'D' :: ' ' :: percentD pid.toInt, 0 < c.toNat ∧ c.toNat < 128 := by
  simp only [List.forall_mem_cons]
  exact ⟨by decide, by decide, by decide, by decide, percentD_ascii _⟩

/-- Different processes have different names. -/
theorem pidName_injective : Function.Injective pidName := by
  intro p q h
  have hback : ∀ r, (pidName r).map (fun b => Char.ofNat b.toNat) =
      'P' :: 'I' :: 'D' :: ' ' :: percentD r.toInt := by
    intro r
    unfold pidName
    rw [List.map_map, List.map_congr_left (g := id), List.map_id]
    intro c hc
    have hlt := (pidName_ascii r c hc).2
    show Char.ofNat (UInt8.ofNat c.toNat).toNat = c
    rw [UInt8.toNat_ofNat', Nat.mod_eq_of_lt (Nat.lt_trans hlt (by decide)), Char.ofNat_toNat]
  have htext := congrArg (List.map fun b => Char.ofNat b.toNat) h
  rw [hback, hback] at htext
  simp only [List.cons.injEq, true_and] at htext
  exact Int32.toInt_inj.mp (percentD_injective htext)

theorem validName_pidName (pid : Int32) : ValidName (pidName pid) := by
  have hbounds : -2 ^ 31 ≤ pid.toInt ∧ pid.toInt < 2 ^ 31 := ⟨pid.le_toInt, pid.toInt_lt⟩
  have hlength : ∀ k, k ≤ 2 ^ 31 → (decimal k).length ≤ 10 := fun k hk =>
    (Nat.length_toDigits_le_iff (by decide) (by decide)).mpr (by omega)
  have hdigits : (percentD pid.toInt).length ≤ 11 := by
    unfold percentD
    split
    · exact Nat.succ_le_succ (hlength _ (by omega))
    · exact Nat.le_succ_of_le (hlength _ (by omega))
  constructor
  · unfold pidName SHMEM_INDEX_KEY_SIZE
    simp only [List.length_map, List.length_cons]
    omega
  · unfold pidName
    rw [List.mem_map]
    rintro ⟨c, hc, hzero⟩
    have hrange := pidName_ascii pid c hc
    have hnat := congrArg UInt8.toNat hzero
    rw [UInt8.toNat_ofNat', Nat.mod_eq_of_lt (Nat.lt_trans hrange.2 (by decide))] at hnat
    exact absurd hnat hrange.1.ne'

/-! ## The calls -/

variable {hash : IndexKey → Int} {s s' : ShmemIndex} {m : Dict IndexKey} {M : Catalog} {name : List UInt8}

/-- `shmem_pid_lookup`: the result, and `*location_ptr` afterwards. -/
def shmemPidLookup (hash : IndexKey → Int) (pid : Int32) (location : Nat) (s : ShmemIndex) :
    Except IndexFault (Bool × Nat × ShmemIndex) := do
  let s ← s.spinAcquire
  let (result, found, s) ← s.search hash (strncpy (pidName pid)) .HASH_ENTER
  match result with
  | .null =>
    let s ← s.spinRelease
    .ok (false, location, s)
  | .yes => .error (.dynahash .undefined)
  | .element e =>
    if found then
      let s ← s.spinRelease
      .ok (true, s.location e, s)
    else
      let s ← { s with location := Function.update s.location e location }.spinRelease
      .ok (true, location, s)

/-- `shmem_pid_destroy`; `none` is `INVALID_OFFSET`. -/
def shmemPidDestroy (hash : IndexKey → Int) (pid : Int32) (s : ShmemIndex) :
    Except IndexFault (Option Nat × ShmemIndex) := do
  let s ← s.spinAcquire
  let (result, found, s) ← s.search hash (strncpy (pidName pid)) .HASH_REMOVE
  match result with
  | .element e =>
    let location := if found then s.location e else 0
    let s ← s.spinRelease
    .ok (if found then some location else none, s)
  | _ =>
    let s ← s.spinRelease
    .ok (none, s)

/-! ## What one call does -/

/-- Entering a name: it is there, there is no element for it, or it has one now. -/
inductive Entered (hash : IndexKey → Int) (name : List UInt8) (m : Dict IndexKey) (M : Catalog)
    (s : ShmemIndex) : Result → Bool → Prop where
  | there {e : Nat} {size : UInt64} : M name = some (s.location e, size) →
      Known hash { s with locked := false } m M → Entered hash name m M s (.element e) true
  | full : M name = none → Known hash { s with locked := false } m M → Entered hash name m M s .null false
  | new {e : Nat} : M name = none → (∀ p < s.hdr.totalSize, Known hash
      { s with location := Function.update s.location e p, locked := false }
      (m.insert (strncpy name) e) (Function.update M name (some (p, s.size e)))) →
      Entered hash name m M s (.element e) false

theorem Known.enterName (h : Known hash s m M) (hname : ValidName name) (hfits : M name = none → IndexFits s) :
    ∃ result found s', ShmemIndex.search hash { s with locked := true } (strncpy name) .HASH_ENTER =
      .ok (result, found, s') ∧ s'.locked = true ∧ s'.hdr.totalSize = s.hdr.totalSize ∧
        Entered hash name m M s' result found := by
  obtain ⟨result, found, w', m', hrun, hkept, hrep, hans, hheap⟩ :=
    search_spec hash { s with locked := true } h.inShmem h.represents h.coherent (strncpy name) .HASH_ENTER
  refine ⟨result, found, _, hrun, rfl, rfl, ?_⟩
  have hentry := h.entry name hname
  have hmissing : strncpy name ∉ m → M name = none := by
    intro hnot
    rw [hentry, Finmap.lookup_eq_none.mpr hnot]
    rfl
  generalize href : decide (Refuses (segment s.hdr.totalSize) s.hashp s.world) = refused at hans
  cases hans with
  | @hit _ _ _ e hlook =>
    have hsame : w'.heap = s.world.heap := hheap
    have hhdr : { s.hdr with freeOffset := endOf w'.heap.regions } = s.hdr := by
      rw [hsame, ← h.coherent.end_eq]
    have hcoh : Coherent { s.hdr with freeOffset := endOf w'.heap.regions } w'.heap := by
      rw [hhdr, hsame]
      exact h.coherent
    rw [hlook] at hentry
    exact .there hentry (h.move hkept hrep hcoh rfl)
  | miss _ hne => exact absurd rfl hne
  | refused hnot =>
    have hno : ¬ Enters s :=
      (refuses_iff h.coherent h.inShmem.memAlloc (hfits (hmissing hnot))).mp (of_decide_eq_true href)
    have hsame : w'.heap = enterHeap (segment s.hdr.totalSize) s.hashp s.world := hheap
    have hend : endOf w'.heap.regions = s.hdr.freeOffset := by
      rw [hsame, endOf_refused h.coherent h.inShmem.memAlloc (hfits (hmissing hnot)) hno]
    have hcoh : Coherent { s.hdr with freeOffset := endOf w'.heap.regions } w'.heap := by
      refine ⟨?_, rfl⟩
      rw [hend]
      exact h.coherent.valid
    exact .full (hmissing hnot) (h.move hkept hrep hcoh rfl)
  | @enter _ e hnot hfresh hne =>
    have hf := hfits (hmissing hnot)
    have henters : Enters s := by
      by_contra hno
      exact of_decide_eq_false href ((refuses_iff h.coherent h.inShmem.memAlloc hf).mpr hno)
    obtain ⟨hcoh, htotal⟩ := coherent_index h.coherent h.inShmem.memAlloc hf henters
    have hsame : w'.heap = enterHeap (segment s.hdr.totalSize) s.hashp s.world := hheap
    rw [← hsame] at hcoh
    have hhdr : { s.hdr with freeOffset := endOf w'.heap.regions } = hdrAfterIndex s := by
      rw [← hcoh.end_eq]
      show PGShmemHeader.mk s.hdr.totalSize _ = _
      rw [← htotal]
    have hcoh' : Coherent { s.hdr with freeOffset := endOf w'.heap.regions } w'.heap := by
      rw [hhdr]
      exact hcoh
    refine .new (hmissing hnot) fun p hp => ?_
    have hadded := h.addEntry hname w' hfresh hkept hrep hcoh' rfl hp (s.size e)
    rwa [Function.update_eq_self] at hadded

/-- Taking a name out. -/
theorem Known.removeName (h : Known hash s m M) (hname : ValidName name) :
    ∃ result found s', ShmemIndex.search hash { s with locked := true } (strncpy name) .HASH_REMOVE =
      .ok (result, found, s') ∧ s'.locked = true ∧ s'.location = s.location ∧
        (∃ m', Known hash { s' with locked := false } m' (Function.update M name none)) ∧
        ((∃ e size, result = .element e ∧ found = true ∧ M name = some (s.location e, size)) ∨
          result = .yes ∧ found = false ∧ M name = none) := by
  obtain ⟨result, found, w', m', hrun, hkept, hrep, hans, hheap⟩ :=
    search_spec hash { s with locked := true } h.inShmem h.represents h.coherent (strncpy name) .HASH_REMOVE
  have hsame : w'.heap = s.world.heap := hheap
  have hcoh : Coherent { s.hdr with freeOffset := endOf w'.heap.regions } w'.heap := by
    refine ⟨?_, rfl⟩
    rw [hsame, ← h.coherent.end_eq]
    exact h.coherent.valid
  have hentry := h.entry name hname
  generalize hr : decide (Refuses (segment s.hdr.totalSize) s.hashp s.world) = refused at hans
  refine ⟨result, found, _, hrun, rfl, rfl, ?_⟩
  cases hans with
  | hit _ hne => exact absurd rfl hne
  | miss hnot =>
    have hnone : M name = none := by
      rw [hentry, Finmap.lookup_eq_none.mpr hnot]
      rfl
    have hsame : Function.update M name none = M := by
      rw [← hnone, Function.update_eq_self]
    rw [hsame]
    exact ⟨⟨_, h.move hkept hrep hcoh rfl⟩, .inr ⟨rfl, rfl, hnone⟩⟩
  | @remove _ _ e hlook =>
    rw [hlook] at hentry
    refine ⟨⟨m.erase (strncpy name), ?_⟩, .inl ⟨e, _, rfl, rfl, hentry⟩⟩
    refine ⟨h.inShmem.kept hkept, hrep, fun n hn => ?_, hcoh, fun k e' he' => ?_, rfl⟩
    · by_cases hnn : n = name
      · rw [hnn, Function.update_self, Finmap.lookup_erase]
        rfl
      · have hkey : strncpy n ≠ strncpy name := fun heq => hnn (strncpy_inj hn hname heq)
        rw [Function.update_of_ne hnn, Finmap.lookup_erase_ne hkey]
        exact h.entry n hn
    · have hk : k ≠ strncpy name := by
        rintro rfl
        rw [Finmap.lookup_erase] at he'
        cases he'
      rw [Finmap.lookup_erase_ne hk] at he'
      exact h.inside k e' he'

/-! ## Runs -/

/-- Structures by their names, and processes by their ids. -/
structure Index where
  structs : Catalog
  procs : Int32 → Option Nat

/-- A call with what it was given and what it returned. -/
inductive IndexCall where
  | initStruct (c : Call)
  | pidLookup (pid : Int32) (given : Nat) (result : Bool) (location : Nat)
  | pidDestroy (pid : Int32) (location : Option Nat)

/-- What the calls are for: a process is found where it was registered first, until it is destroyed. -/
inductive Index.Step : Index → IndexCall → Index → Prop where
  | initStruct {I : Index} {c : Call} {structs : Catalog} : Catalog.Step I.structs c structs →
      Step I (.initStruct c) { I with structs := structs }
  | registered {I : Index} {pid : Int32} {given location : Nat} : I.procs pid = some location →
      Step I (.pidLookup pid given true location) I
  | register {I : Index} {pid : Int32} {given : Nat} : I.procs pid = none →
      Step I (.pidLookup pid given true given) { I with procs := Function.update I.procs pid (some given) }
  | noMemory {I : Index} {pid : Int32} {given : Nat} : I.procs pid = none →
      Step I (.pidLookup pid given false given) I
  | destroy {I : Index} {pid : Int32} :
      Step I (.pidDestroy pid (I.procs pid)) { I with procs := Function.update I.procs pid none }

/-- The calls. A structure does not have the name of a process; the location of a process is one in the
segment; and no request of the index is cut to a small one. -/
inductive SharedStep (hash : IndexKey → Int) : ShmemIndex → IndexCall → ShmemIndex → Prop where
  | initStruct {s s' : ShmemIndex} {c : Call} : IndexStep hash s c s' → (∀ pid, c.name ≠ pidName pid) →
      SharedStep hash s (.initStruct c) s'
  | pidLookup {s s' : ShmemIndex} {pid : Int32} {given location : Nat} {result : Bool} :
      given < s.hdr.totalSize → (Absent hash s (pidName pid) → IndexFits s) →
      shmemPidLookup hash pid given s = .ok (result, location, s') →
      SharedStep hash s (.pidLookup pid given result location) s'
  | pidDestroy {s s' : ShmemIndex} {pid : Int32} {location : Option Nat} :
      shmemPidDestroy hash pid s = .ok (location, s') → SharedStep hash s (.pidDestroy pid location) s'

/-- The catalog has the structures and, under their names, the processes. -/
structure Index.Joins (I : Index) (M : Catalog) : Prop where
  structs : ∀ name, (∀ pid, name ≠ pidName pid) → I.structs name = M name
  procs : ∀ pid, I.procs pid = (M (pidName pid)).map Prod.fst

theorem Index.Joins.register {I : Index} (h : I.Joins M) (pid : Int32) (entry : Option (Nat × UInt64)) :
    Index.Joins { I with procs := Function.update I.procs pid (entry.map Prod.fst) }
      (Function.update M (pidName pid) entry) where
  structs n hn := by
    rw [Function.update_of_ne (hn pid)]
    exact h.structs n hn
  procs q := by
    dsimp only
    by_cases hq : q = pid
    · subst hq
      rw [Function.update_self, Function.update_self]
    · rw [Function.update_of_ne hq, Function.update_of_ne fun hname => hq (pidName_injective hname)]
      exact h.procs q

/-- A call for a structure does to its own name what it does in the whole catalog. -/
theorem Index.Joins.initStruct {I : Index} {c : Call} {M' : Catalog} (h : I.Joins M)
    (hname : ∀ pid, c.name ≠ pidName pid) (hstep : Catalog.Step M c M') :
    ∃ structs, Catalog.Step I.structs c structs ∧ Index.Joins { I with structs := structs } M' := by
  cases hstep with
  | create hM =>
    refine ⟨_, .create ((h.structs _ hname).trans hM), fun n hn => ?_, fun pid => ?_⟩
    · dsimp only
      unfold Function.update
      split
      · rfl
      · exact h.structs n hn
    · rw [Function.update_of_ne (hname pid).symm]
      exact h.procs pid
  | attach hM => exact ⟨_, .attach ((h.structs _ hname).trans hM), h.structs, h.procs⟩
  | mismatch hM hne => exact ⟨_, .mismatch ((h.structs _ hname).trans hM) hne, h.structs, h.procs⟩
  | noMemory hM => exact ⟨_, .noMemory ((h.structs _ hname).trans hM), h.structs, h.procs⟩

/-- The index is in order and holds the structures and the processes. -/
def Holds (hash : IndexKey → Int) (s : ShmemIndex) (I : Index) : Prop :=
  ∃ m M, Known hash s m M ∧ I.Joins M

theorem Holds.pidLookup {I : Index} {pid : Int32} {given location : Nat} {result : Bool} (h : Holds hash s I)
    (hgiven : given < s.hdr.totalSize) (hfits : Absent hash s (pidName pid) → IndexFits s)
    (hcall : shmemPidLookup hash pid given s = .ok (result, location, s')) :
    ∃ I', I.Step (.pidLookup pid given result location) I' ∧ Holds hash s' I' := by
  obtain ⟨m, M, hknown, hjoins⟩ := h
  have hvalid := validName_pidName pid
  obtain ⟨r, found, s₁, hrun, hlocked, htotal, hentered⟩ :=
    hknown.enterName hvalid fun hM => hfits ((hknown.absent_iff hvalid).mpr hM)
  have hprocs := hjoins.procs pid
  unfold shmemPidLookup ShmemIndex.spinAcquire at hcall
  rw [hknown.unlocked, if_neg Bool.false_ne_true] at hcall
  dsimp only [bind, Except.bind] at hcall
  rw [hrun] at hcall
  unfold ShmemIndex.spinRelease at hcall
  cases hentered with
  | there hM hs' =>
    dsimp only at hcall
    rw [if_pos rfl, if_pos hlocked] at hcall
    obtain ⟨rfl, hrest⟩ := Prod.mk.inj (Except.ok.inj hcall)
    obtain ⟨rfl, rfl⟩ := Prod.mk.inj hrest
    rw [hM] at hprocs
    exact ⟨I, .registered hprocs, m, M, hs', hjoins⟩
  | full hM hs' =>
    dsimp only at hcall
    rw [if_pos hlocked] at hcall
    obtain ⟨rfl, hrest⟩ := Prod.mk.inj (Except.ok.inj hcall)
    obtain ⟨rfl, rfl⟩ := Prod.mk.inj hrest
    rw [hM] at hprocs
    exact ⟨I, .noMemory hprocs, m, M, hs', hjoins⟩
  | new hM hs' =>
    dsimp only at hcall
    rw [if_neg Bool.false_ne_true, if_pos hlocked] at hcall
    obtain ⟨rfl, hrest⟩ := Prod.mk.inj (Except.ok.inj hcall)
    obtain ⟨rfl, rfl⟩ := Prod.mk.inj hrest
    rw [hM] at hprocs
    exact ⟨_, .register hprocs, _, _, hs' given (htotal ▸ hgiven), hjoins.register pid (some (given, _))⟩

theorem Holds.pidDestroy {I : Index} {pid : Int32} {location : Option Nat} (h : Holds hash s I)
    (hcall : shmemPidDestroy hash pid s = .ok (location, s')) :
    ∃ I', I.Step (.pidDestroy pid location) I' ∧ Holds hash s' I' := by
  obtain ⟨m, M, hknown, hjoins⟩ := h
  obtain ⟨r, found, s₁, hrun, hlocked, hlocation, ⟨m', hs'⟩, hout⟩ := hknown.removeName (validName_pidName pid)
  have hprocs := hjoins.procs pid
  have hnext : Holds hash { s₁ with locked := false } { I with procs := Function.update I.procs pid none } :=
    ⟨m', _, hs', hjoins.register pid none⟩
  unfold shmemPidDestroy ShmemIndex.spinAcquire at hcall
  rw [hknown.unlocked, if_neg Bool.false_ne_true] at hcall
  dsimp only [bind, Except.bind] at hcall
  rw [hrun] at hcall
  unfold ShmemIndex.spinRelease at hcall
  rcases hout with ⟨e, size, rfl, rfl, hM⟩ | ⟨rfl, rfl, hM⟩
  · dsimp only at hcall
    rw [if_pos hlocked] at hcall
    obtain ⟨rfl, rfl⟩ := Prod.mk.inj (Except.ok.inj hcall)
    rw [hM] at hprocs
    have hfound : some (s₁.location e) = I.procs pid := by
      rw [hlocation]
      exact hprocs.symm
    rw [if_pos rfl, if_pos rfl, hfound]
    exact ⟨_, .destroy, hnext⟩
  · dsimp only at hcall
    rw [if_pos hlocked] at hcall
    obtain ⟨rfl, rfl⟩ := Prod.mk.inj (Except.ok.inj hcall)
    rw [hM] at hprocs
    rw [show none = I.procs pid from hprocs.symm]
    exact ⟨_, .destroy, hnext⟩

theorem Holds.step {I : Index} {c : IndexCall} (h : Holds hash s I) (hs : SharedStep hash s c s') :
    ∃ I', I.Step c I' ∧ Holds hash s' I' := by
  cases hs with
  | initStruct hstep hname =>
    obtain ⟨m, M, hknown, hjoins⟩ := h
    cases hstep with
    | call hvalid hharm hcall =>
      obtain ⟨hright, -, m', hs'⟩ := (hknown.call hvalid hharm).of_ok hcall
      obtain ⟨structs, hstep, hjoins'⟩ := hjoins.initStruct hname hright.step
      exact ⟨_, .initStruct hstep, m', _, hs', hjoins'⟩
  | pidLookup hgiven hfits hcall => exact h.pidLookup hgiven hfits hcall
  | pidDestroy hcall => exact h.pidDestroy hcall

/-- A process is registered, found again from another place, destroyed and not found any more. -/
theorem smallSegment_process : ∃ hdr s₀ s₁ s₂ s₃, ipcMemoryCreate 8192 = some hdr ∧
    initShmemAllocation (fun _ => 0) hdr = .ok (some s₀) ∧ s₀.hdr = ⟨8192, 6656⟩ ∧ s₁.hdr = ⟨8192, 6656⟩ ∧
    (¬ NeedsElements s₀ ∧ ¬ GrowsSegment s₀.world.hctl) ∧ (¬ NeedsElements s₁ ∧ ¬ GrowsSegment s₁.world.hctl) ∧
    shmemPidLookup (fun _ => 0) 7 6000 s₀ = .ok (true, 6000, s₁) ∧
    shmemPidLookup (fun _ => 0) 7 100 s₁ = .ok (true, 6000, s₂) ∧
    shmemPidDestroy (fun _ => 0) 7 s₂ = .ok (some 6000, s₃) := by
  have hrun : (ipcMemoryCreate 8192).any (fun hdr => okAnd (initShmemAllocation (fun _ => 0) hdr) fun r =>
      r.any fun s₀ => okAnd (shmemPidLookup (fun _ => 0) 7 6000 s₀) fun t =>
        okAnd (shmemPidLookup (fun _ => 0) 7 100 t.2.2) fun u =>
          okAnd (shmemPidDestroy (fun _ => 0) 7 u.2.2) fun v =>
            decide (s₀.hdr = ⟨8192, 6656⟩ ∧ t.2.2.hdr = ⟨8192, 6656⟩ ∧
              (¬ NeedsElements s₀ ∧ ¬ GrowsSegment s₀.world.hctl) ∧
              (¬ NeedsElements t.2.2 ∧ ¬ GrowsSegment t.2.2.world.hctl) ∧
              (t.1 = true ∧ t.2.1 = 6000) ∧ (u.1 = true ∧ u.2.1 = 6000) ∧ v.1 = some 6000)) = true := by
    decide +kernel
  obtain ⟨hdr, hcreate, hinits⟩ := (Option.any_eq_true _ _).mp hrun
  obtain ⟨r, hinit, hsome⟩ := okAnd_iff.mp hinits
  obtain ⟨s₀, rfl, hfirst⟩ := (Option.any_eq_true _ _).mp hsome
  obtain ⟨⟨_, _, s₁⟩, hlookup₁, hsecond⟩ := okAnd_iff.mp hfirst
  obtain ⟨⟨_, _, s₂⟩, hlookup₂, hthird⟩ := okAnd_iff.mp hsecond
  obtain ⟨⟨_, s₃⟩, hdestroy, htest⟩ := okAnd_iff.mp hthird
  obtain ⟨hhdr₀, hhdr₁, hfree₀, hfree₁, ⟨rfl, rfl⟩, ⟨rfl, rfl⟩, rfl⟩ := of_decide_eq_true htest
  exact ⟨hdr, s₀, s₁, s₂, s₃, hcreate, hinit, hhdr₀, hhdr₁, hfree₀, hfree₁, hlookup₁, hlookup₂, hdestroy⟩

end PostgresV7.Shmem
