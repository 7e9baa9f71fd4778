import PostgresV7.Smgr.Array

/-!
# Cutting a relation (`md_truncate`)

The segments before the cut stay, the one it is in becomes shorter, and those behind it are
taken from the chain one after another: the file is emptied and unlinked, and the `MdfdVec`
is freed.
-/

namespace PostgresV7.Md

open Fd Smgr Outcomes Blocks

variable {base : Nat → Prop} {pick : Kernel → Option Nat} {junk : Kernel → Int} {room : Nat}
  {allowed : Fault → Prop} {st : FdState Kernel} {md md' : MdState Kernel} {k k' : Kernel} {rnode : RelFileNode}
  {refs kept rest : List Ref} {array : List Block} {p : Nat}

/-- The array is in the segments of `kept`. Those of `rest`, from number `p` on, are still to be
removed. -/
structure Cutting (base : Nat → Prop) (room : Nat) (md : MdState Kernel) (k : Kernel) (rnode : RelFileNode)
    (kept rest : List Ref) (p : Nat) (array : List Block) : Prop where
  sim : Sim base md.st k none
  fresh : Fresh k
  separate : Separate k
  absolute : (relpath md.dataDir rnode).head? = some SEP_CHAR
  laid : ∀ i, i < p ∨ p + rest.length ≤ i →
    content k (segpath md.dataDir rnode i) = (window RELSEG_SIZE array i).flatMap Block.bytes
  behind : ∀ i, i + 1 < p ∨ p + rest.length ≤ i + 1 → k.directory (segpath md.dataDir rnode (i + 1)) ≠ none →
    (i + 1) * RELSEG_SIZE ≤ array.length
  length_le : array.length ≤ 2 ^ 31
  short : array.length ≤ p * RELSEG_SIZE
  chained : Chained md k rnode kept
  kept_le : kept.length ≤ p
  kept_ne : kept ≠ []
  apart : ∀ v ∈ rest, v ∉ kept
  nodup : rest.Nodup
  node : ∀ v ∈ rest, ∃ q, v = .node q
  segment : ∀ (t : Nat) v, rest[t]? = some v → ∃ vec, md.get v = .ok vec ∧
    Holds k (segpath md.dataDir rnode (p + t)) vec.vfd ∧ vec.chain.map Ref.node = rest[t + 1]?
  owned : ∀ file f i, k.table file = some f → k.directory (segpath md.dataDir rnode i) = some f.inode →
    ∃ v vec, (kept[i]? = some v ∨ p ≤ i ∧ rest[i - p]? = some v) ∧ md.get v = .ok vec ∧ vec.vfd = file
  unused : ∀ q, md.nextNode ≤ q → md.nodes q = none
  few : Few room k (lastSegment + 1 - (kept.length + rest.length))

theorem Cutting.done (h : Cutting base room md k rnode kept [] p array) : Represents base room md k rnode kept array where
  sim := h.sim
  fresh := h.fresh
  separate := h.separate
  absolute := h.absolute
  laid i := h.laid i (Nat.lt_or_ge i p)
  behind i := h.behind i (Nat.lt_or_ge (i + 1) p)
  length_le := h.length_le
  chained := h.chained
  owned file f i hf hdir := by
    obtain ⟨v, vec, hv | ⟨-, hv⟩, hvec, hvfd⟩ := h.owned file f i hf hdir
    · exact ⟨v, vec, hv, hvec, hvfd⟩
    · cases hv
  unused := h.unused
  slots hnil := absurd hnil h.kept_ne
  few := h.few

/-- The bytes of one file change, and those under other names do not. -/
theorem Separate.content_setData {path path' : FileName} {inode : Nat} {bytes : List UInt8} (h : Separate k)
    (hdir : k.directory path = some inode) (hne : path' ≠ path) :
    content (k.setData inode bytes) path' = content k path' := by
  unfold content
  cases hdir' : k.directory path' with
  | none => simp [Kernel.setData, hdir']
  | some inode' =>
    have hother : inode' ≠ inode := by
      rintro rfl
      exact hne (h _ _ _ hdir' hdir)
    simp [Kernel.setData, hdir', hother]

theorem segpath_ne {dataDir : FileName} {i j : Nat} (h : i ≠ j) :
    segpath dataDir rnode i ≠ segpath dataDir rnode j :=
  fun heq => h (segpath_inj heq).2

/-- A file of the segments to be removed may lose its bytes. -/
theorem Cutting.emptied {v : Ref} {inode : Nat} {bytes : List UInt8}
    (h : Cutting base room md k rnode kept (v :: rest) p array)
    (hdir : k.directory (segpath md.dataDir rnode p) = some inode)
    (hsim : Sim base st (k.setData inode bytes) none) :
    Cutting base room { md with st := st } (k.setData inode bytes) rnode kept (v :: rest) p array where
  sim := hsim
  fresh := h.fresh
  separate := h.separate
  absolute := h.absolute
  laid i hi := by
    have hne : i ≠ p := by
      rintro rfl
      rw [List.length_cons] at hi
      omega
    exact (h.separate.content_setData hdir (segpath_ne hne)).trans (h.laid i hi)
  behind := h.behind
  length_le := h.length_le
  short := h.short
  chained := h.chained.keeps keeps_setData
  kept_le := h.kept_le
  kept_ne := h.kept_ne
  apart := h.apart
  nodup := h.nodup
  node := h.node
  segment t w hw := by
    obtain ⟨vec, hvec, hholds, hchain⟩ := h.segment t w hw
    exact ⟨vec, (get_call w).trans hvec, hholds.keeps keeps_setData, hchain⟩
  owned file f i hf hdir := by
    obtain ⟨w, vec, hw, hvec, hvfd⟩ := h.owned file f i hf hdir
    exact ⟨w, vec, hw, (get_call w).trans hvec, hvfd⟩
  unused := h.unused
  few := few_of_table h.few rfl

/-- A file without a name is not held by other slots. -/
theorem Holds.dropped {path path' : FileName} {file vfd : File} (h : Holds k path vfd) (hpath : path ≠ path')
    (hfile : vfd ≠ file) : Holds (k.dropped file path') path vfd := by
  obtain ⟨f, hf, hdir, hrest⟩ := h
  exact ⟨f, (Function.update_of_ne hfile _ _).trans hf, (Function.update_of_ne hpath _ _).trans hdir, hrest⟩

theorem content_dropped {path path' : FileName} {file : File} (hpath : path ≠ path') :
    content (k.dropped file path') path = content k path := by
  unfold content Kernel.dropped
  dsimp only
  rw [Function.update_of_ne hpath]

/-- The slots of two segments are different. -/
theorem Holds.ne {dataDir : FileName} {i j : Nat} {vfd vfd' : File} (hseparate : Separate k)
    (h : Holds k (segpath dataDir rnode i) vfd) (h' : Holds k (segpath dataDir rnode j) vfd') (hij : i ≠ j) :
    vfd ≠ vfd' := by
  rintro rfl
  obtain ⟨f, hf, hdir, -⟩ := h
  obtain ⟨g, hg, hdir', -⟩ := h'
  obtain rfl := Option.some.inj (hf.symm.trans hg)
  exact hij (segpath_inj (hseparate _ _ _ hdir hdir')).2

theorem few_dropped {path : FileName} {file : File} {f : OpenFile} {n : Nat} (h : Few room k n)
    (hf : k.table file = some f) : Few room (k.dropped file path) (n + 1) := by
  obtain ⟨slots, hslots, hcard⟩ := h
  have hmem : file ∈ slots := hslots file (by simp [hf])
  refine ⟨slots.erase file, fun i hi => ?_, ?_⟩
  · have hi : Function.update k.table file none i ≠ none := hi
    by_cases hif : i = file
    · rw [hif, Function.update_self] at hi
      exact absurd rfl hi
    · rw [Function.update_of_ne hif] at hi
      exact Finset.mem_erase.mpr ⟨hif, hslots i hi⟩
  · have hpos := Finset.card_pos.mpr ⟨file, hmem⟩
    rw [Finset.card_erase_of_mem hmem]
    omega

/-- An `MdfdVec` is freed. -/
def MdState.freed (md : MdState Kernel) (q : Nat) : MdState Kernel :=
  { md with nodes := Function.update md.nodes q none }

theorem get_freed {v : Ref} {vec : MdfdVec} {q : Nat} (hv : md.get v = .ok vec) (hne : v ≠ .node q) :
    (md.freed q).get v = .ok vec := by
  cases v with
  | slot fd => exact hv
  | node q' =>
    have hq : q' ≠ q := by
      rintro rfl
      exact hne rfl
    unfold MdState.get MdState.freed at *
    simp only [Function.update_of_ne hq]
    exact hv

/-- The next segment is gone. -/
theorem Cutting.unlinked {q : Nat} {vec : MdfdVec}
    (h : Cutting base room md k rnode kept (.node q :: rest) p array)
    (hvec : md.get (.node q) = .ok vec)
    (hsim : Sim base st (k.dropped vec.vfd (segpath md.dataDir rnode p)) none) :
    Cutting base room (({ md with st := st } : MdState Kernel).freed q)
      (k.dropped vec.vfd (segpath md.dataDir rnode p)) rnode kept rest (p + 1) array := by
  obtain ⟨vec', hvec', hholds, -⟩ := h.segment 0 (.node q) rfl
  obtain rfl := Except.ok.inj (hvec.symm.trans hvec')
  rw [Nat.add_zero] at hholds
  obtain ⟨f, hf, hdir, -⟩ := id hholds
  have hnodup := List.nodup_cons.mp h.nodup
  have hget : ∀ {w : Ref} {old : MdfdVec}, w ≠ .node q → md.get w = .ok old →
      (({ md with st := st } : MdState Kernel).freed q).get w = .ok old := fun hw hold =>
    get_freed ((get_call _).trans hold) hw
  have hkept : ∀ w ∈ kept, w ≠ .node q := by
    rintro w hw rfl
    exact h.apart (.node q) List.mem_cons_self hw
  have hrest : ∀ w ∈ rest, w ≠ .node q := by
    rintro w hw rfl
    exact hnodup.1 hw
  have hname : ∀ path inode, (k.dropped vec.vfd (segpath md.dataDir rnode p)).directory path = some inode →
      path ≠ segpath md.dataDir rnode p ∧ k.directory path = some inode := by
    intro path inode hdir
    have hdir : Function.update k.directory (segpath md.dataDir rnode p) none path = some inode := hdir
    have hpath : path ≠ segpath md.dataDir rnode p := by
      rintro rfl
      rw [Function.update_self] at hdir
      cases hdir
    rw [Function.update_of_ne hpath] at hdir
    exact ⟨hpath, hdir⟩
  refine ⟨hsim, fun path inode hdir => h.fresh path inode (hname path inode hdir).2, ?_, h.absolute,
    fun i hi => ?_,
    fun i hi hdir => ?_, h.length_le, ?_, ⟨h.chained.nodup, h.chained.head, fun i w hw => ?_⟩,
    Nat.le_succ_of_le h.kept_le, h.kept_ne, fun w hw => h.apart w (List.mem_cons_of_mem _ hw), hnodup.2,
    fun w hw => h.node w (List.mem_cons_of_mem _ hw), fun t w hw => ?_, fun file f' i hf' hdir => ?_,
      fun q' hq' => ?_, ?_⟩
  · intro path path' inode hdir hdir'
    exact h.separate path path' inode (hname _ _ hdir).2 (hname _ _ hdir').2
  · show content (k.dropped vec.vfd (segpath md.dataDir rnode p)) (segpath md.dataDir rnode i) = _
    by_cases hip : i = p
    · have hnone :
          (k.dropped vec.vfd (segpath md.dataDir rnode p)).directory (segpath md.dataDir rnode p) = none :=
        Function.update_self _ _ _
      rw [hip, window_of_le h.short]
      unfold content
      rw [hnone]
      rfl
    · rw [content_dropped (segpath_ne hip)]
      refine h.laid i ?_
      rw [List.length_cons]
      omega
  · obtain ⟨inode, hdir⟩ := Option.ne_none_iff_exists'.mp hdir
    obtain ⟨hpath, hdir⟩ := hname _ _ hdir
    have hip : i + 1 ≠ p := by
      rintro rfl
      exact hpath rfl
    have hne : k.directory (segpath md.dataDir rnode (i + 1)) ≠ none := fun hnone => nomatch hnone.symm.trans hdir
    refine h.behind i ?_ hne
    rw [List.length_cons]
    omega
  · rw [Nat.succ_mul]
    exact Nat.le_add_right_of_le h.short
  · obtain ⟨old, hold, hholds', hchain⟩ := h.chained.segment i w hw
    have hlt := (List.getElem?_eq_some_iff.mp hw).1
    have hip : i ≠ p := Nat.ne_of_lt (Nat.lt_of_lt_of_le hlt h.kept_le)
    refine ⟨old, hget (hkept w (List.mem_iff_getElem?.mpr ⟨i, hw⟩)) hold, ?_, hchain⟩
    exact hholds'.dropped (segpath_ne hip) (hholds'.ne h.separate hholds hip)
  · obtain ⟨old, hold, hholds', hchain⟩ := h.segment (t + 1) w hw
    have hip : p + (t + 1) ≠ p := by omega
    refine ⟨old, hget (hrest w (List.mem_iff_getElem?.mpr ⟨t, hw⟩)) hold, ?_, hchain⟩
    rw [Nat.succ_add_eq_add_succ]
    exact hholds'.dropped (segpath_ne hip) (hholds'.ne h.separate hholds hip)
  · have hf' : Function.update k.table vec.vfd none file = some f' := hf'
    have hfile : file ≠ vec.vfd := by
      rintro rfl
      rw [Function.update_self] at hf'
      cases hf'
    rw [Function.update_of_ne hfile] at hf'
    obtain ⟨hpath, hdir⟩ := hname _ _ hdir
    have hip : i ≠ p := by
      rintro rfl
      exact hpath rfl
    obtain ⟨w, old, hw | ⟨hle, hw⟩, hold, hold'⟩ := h.owned file f' i hf' hdir
    · exact ⟨w, old, .inl hw, hget (hkept w (List.mem_iff_getElem?.mpr ⟨i, hw⟩)) hold, hold'⟩
    · have hlt : p + 1 ≤ i := by omega
      rw [show i - p = (i - (p + 1)) + 1 by omega, List.getElem?_cons_succ] at hw
      exact ⟨w, old, .inr ⟨hlt, hw⟩, hget (hrest w (List.mem_iff_getElem?.mpr ⟨_, hw⟩)) hold, hold'⟩
  · show Function.update md.nodes q none q' = none
    by_cases hq : q' = q
    · rw [hq, Function.update_self]
    · rw [Function.update_of_ne hq]
      exact h.unused q' hq'
  · refine (few_dropped h.few hf).mono ?_
    rw [List.length_cons]
    omega

/-- A segment that became shorter is the last one that is kept. -/
theorem Represents.cut {v : Ref} {vec new : MdfdVec} {inode s n : Nat} {bytes : List UInt8}
    (h : Represents base room md k rnode refs array) (hv : refs[s]? = some v) (hvec : md.get v = .ok vec)
    (hdir : k.directory (segpath md.dataDir rnode s) = some inode) (hn : n / RELSEG_SIZE = s)
    (hreached : array.length / RELSEG_SIZE < refs.length)
    (hbytes : bytes = (window RELSEG_SIZE (array.take n) s).flatMap Block.bytes)
    (hsim : Sim base st (k.setData inode bytes) none) (hs : Stored { md with st := st } v new md')
    (hvfd : new.vfd = vec.vfd) (hchain : new.chain = none) :
    Cutting base room md' (k.setData inode bytes) rnode (refs.take (s + 1)) (refs.drop (s + 1)) (s + 1)
      (array.take n) := by
  have hlt := (List.getElem?_eq_some_iff.mp hv).1
  have hkept : (refs.take (s + 1)).length = s + 1 := by
    rw [List.length_take]
    omega
  have hrest : s + 1 + (refs.drop (s + 1)).length = refs.length := by
    rw [List.length_drop]
    omega
  have hshort : (array.take n).length ≤ (s + 1) * RELSEG_SIZE := by
    have hlt : n < (s + 1) * RELSEG_SIZE := Nat.lt_mul_of_div_lt (by omega) (by decide)
    rw [List.length_take]
    omega
  have hend : array.length < refs.length * RELSEG_SIZE := Nat.lt_mul_of_div_lt hreached (by decide)
  have hwindow : ∀ i, i < s → window RELSEG_SIZE (array.take n) i = window RELSEG_SIZE array i := by
    intro i hi
    apply window_take_of_le
    rw [← hn] at hi
    exact Nat.le_trans (Nat.mul_le_mul_right _ hi) (Nat.div_mul_le_self _ _)
  have hget : ∀ {i : Nat} {w : Ref} {old : MdfdVec}, i ≠ s → refs[i]? = some w → md.get w = .ok old →
      md'.get w = .ok old := by
    intro i w old hi hw hold
    have hwv : w ≠ v := by
      rintro rfl
      obtain ⟨hlt, hw'⟩ := List.getElem?_eq_some_iff.mp hw
      obtain ⟨hlt', hv'⟩ := List.getElem?_eq_some_iff.mp hv
      exact hi ((h.chained.nodup.getElem_inj_iff).mp (hw'.trans hv'.symm))
    exact (hs.others w hwv).trans ((get_call w).trans hold)
  have hfile : ∀ {i : Nat} {w : Ref} {old : MdfdVec}, refs[i]? = some w → md.get w = .ok old →
      ∃ old', md'.get w = .ok old' ∧ old'.vfd = old.vfd := by
    intro i w old hw hold
    by_cases hi : i = s
    · subst hi
      obtain rfl := Option.some.inj (hv.symm.trans hw)
      obtain rfl := Except.ok.inj (hvec.symm.trans hold)
      exact ⟨new, hs.self, hvfd⟩
    · exact ⟨old, hget hi hw hold, rfl⟩
  have hdropped : ∀ {t : Nat} {w : Ref}, (refs.drop (s + 1))[t]? = some w → refs[s + t + 1]? = some w := by
    intro t w hw
    rwa [List.getElem?_drop, Nat.add_right_comm] at hw
  have hdataDir : md'.dataDir = md.dataDir := hs.dataDir
  refine ⟨?_, h.fresh, h.separate, ?_, fun i hi => ?_, fun i hi hdir' => ?_, ?_, hshort,
    ⟨?_, ?_, fun i w hw => ?_⟩,
    Nat.le_of_eq hkept, ?_, fun w hw hw' => ?_, ?_, fun w hw => ?_, fun t w hw => ?_, fun file f i hf hdir' => ?_,
    fun q hq => ?_, ?_⟩
  · rw [show md'.st = st from hs.st]
    exact hsim
  · rw [hdataDir]
    exact h.absolute
  · rw [hdataDir]
    by_cases his : i = s
    · subst his
      unfold content
      simp [Kernel.setData, hdir, hbytes]
    · rw [h.separate.content_setData hdir (segpath_ne his), h.laid]
      rcases hi with hi | hi
      · rw [hwindow i (by omega)]
      · have hmul := Nat.mul_le_mul_right RELSEG_SIZE (show refs.length ≤ i by omega)
        have hlong : array.length ≤ i * RELSEG_SIZE := by omega
        have htake : (array.take n).length ≤ i * RELSEG_SIZE := by
          rw [List.length_take]
          omega
        rw [window_of_le hlong, window_of_le htake]
  · rw [hdataDir] at hdir'
    have hlong := h.behind i hdir'
    rw [List.length_take]
    refine Nat.le_min.mpr ⟨?_, hlong⟩
    rcases hi with hi | hi
    · have hle : i + 1 ≤ n / RELSEG_SIZE := by omega
      exact Nat.le_trans (Nat.mul_le_mul_right _ hle) (Nat.div_mul_le_self _ _)
    · have hmul := Nat.mul_le_mul_right RELSEG_SIZE (show refs.length ≤ i + 1 by omega)
      omega
  · rw [List.length_take]
    exact Nat.le_trans (Nat.min_le_right _ _) h.length_le
  · exact h.chained.nodup.sublist (List.take_sublist _ _)
  · rw [List.getElem?_take_of_lt (Nat.succ_pos s), h.chained.head, show md'.rdFd = md.rdFd from hs.rdFd]
  · have hi : i < s + 1 := hkept ▸ (List.getElem?_eq_some_iff.mp hw).1
    rw [List.getElem?_take_of_lt hi] at hw
    obtain ⟨old, hold, hholds, hnext⟩ := h.chained.segment i w hw
    rw [hdataDir]
    by_cases his : i = s
    · subst his
      obtain rfl := Option.some.inj (hv.symm.trans hw)
      obtain rfl := Except.ok.inj (hvec.symm.trans hold)
      refine ⟨new, hs.self, ?_, ?_⟩
      · rw [hvfd]
        exact hholds.keeps keeps_setData
      · rw [hchain, List.getElem?_eq_none (Nat.le_of_eq hkept)]
        rfl
    · refine ⟨old, hget his hw hold, hholds.keeps keeps_setData, ?_⟩
      rw [List.getElem?_take_of_lt (by omega)]
      exact hnext
  · intro hnil
    rw [hnil] at hkept
    cases hkept
  · have hnodup := h.chained.nodup
    rw [← List.take_append_drop (s + 1) refs] at hnodup
    exact (List.nodup_append.mp hnodup).2.2 w hw' w hw rfl
  · exact h.chained.nodup.sublist (List.drop_sublist _ _)
  · obtain ⟨t, ht⟩ := List.mem_iff_getElem?.mp hw
    have hw := hdropped ht
    have hlt' := (List.getElem?_eq_some_iff.mp hw).1
    obtain ⟨old, -, -, hnext⟩ := h.chained.segment (s + t) _ (List.getElem?_eq_getElem (by omega))
    rw [hw] at hnext
    obtain ⟨q, -, hq⟩ := Option.map_eq_some_iff.mp hnext
    exact ⟨q, hq.symm⟩
  · have hw := hdropped hw
    obtain ⟨old, hold, hholds, hnext⟩ := h.chained.segment _ w hw
    refine ⟨old, hget (by omega) hw hold, ?_, ?_⟩
    · rw [hdataDir, Nat.add_right_comm]
      exact hholds.keeps keeps_setData
    · rw [hnext, List.getElem?_drop]
      congr 1
      omega
  · rw [hdataDir] at hdir'
    obtain ⟨w, old, hw, hold, hold'⟩ := h.owned file f i hf hdir'
    obtain ⟨old', hget', hvfd'⟩ := hfile hw hold
    refine ⟨w, old', ?_, hget', hvfd'.trans hold'⟩
    rcases Nat.lt_or_ge i (s + 1) with hi | hi
    · rw [List.getElem?_take_of_lt hi]
      exact .inl hw
    · rw [List.getElem?_drop, Nat.add_sub_cancel' hi]
      exact .inr ⟨hi, hw⟩
  · rw [show md'.nextNode = md.nextNode from hs.nextNode] at hq
    exact hs.unused q (h.unused q hq)
  · rw [hkept, hrest]
    exact few_of_table h.few rfl

theorem callUnit_allowed (md : MdState Kernel) {x : FdState Kernel → Except Fd.Fault (FdState Kernel)}
    {P : FdState Kernel → Prop}
    (h : Ends (fun e => allowed (.fd e)) (x md.st) P) :
    Ends allowed (md.callUnit x) fun md' => ∃ st, P st ∧ md' = { md with st := st } := by
  unfold MdState.callUnit
  cases hx : x md.st with
  | error e => exact h.of_error hx
  | ok st => exact ⟨st, h.of_ok hx, rfl⟩

/-- The slot of the next segment to be removed is the only one with its name. -/
theorem Cutting.filename {v : Ref} {vec : MdfdVec} (h : Cutting base room md k rnode kept (v :: rest) p array)
    (hvec : md.get v = .ok vec) : md.st.filename vec.vfd = some (segpath md.dataDir rnode p) ∧
      ∀ i, i ≠ vec.vfd → md.st.filename i ≠ some (segpath md.dataDir rnode p) := by
  obtain ⟨vec', hvec', hholds, -⟩ := h.segment 0 v rfl
  obtain rfl := Except.ok.inj (hvec.symm.trans hvec')
  obtain ⟨f, hf, hdir, -⟩ := hholds
  rw [Nat.add_zero] at hdir
  constructor
  · obtain ⟨g, hg, hheld⟩ := h.sim.held _ (h.sim.filename_ne_none hf)
    obtain rfl := Option.some.inj (hf.symm.trans hg)
    obtain ⟨filename, hname, hreach⟩ := hheld.named
    rw [h.sim.directory] at hreach
    obtain rfl := h.separate _ _ _ hreach hdir
    exact hname
  · intro i hi hname
    obtain ⟨g, hg, hheld⟩ := h.sim.held i fun hnone => nomatch hname.symm.trans hnone
    obtain ⟨filename, hname', hreach⟩ := hheld.named
    obtain rfl := Option.some.inj (hname.symm.trans hname')
    rw [h.sim.directory] at hreach
    obtain ⟨w, old, hw | ⟨-, hw⟩, hold, hold'⟩ := h.owned i g p hg hreach
    · have hlt := (List.getElem?_eq_some_iff.mp hw).1
      exact absurd h.kept_le (Nat.not_le.mpr hlt)
    · rw [Nat.sub_self] at hw
      obtain rfl := Option.some.inj hw
      obtain rfl := Except.ok.inj (hvec.symm.trans hold)
      exact hi hold'.symm

section

variable (hprovides : Provides pick base room allowed)

include hprovides

/-- The segments behind the cut are removed. -/
theorem Cutting.truncateLoop {fuel : Nat} {n prior : Int} (h : Cutting base room md k rnode kept rest p array)
    (hfuel : rest.length ≤ fuel) (hprior : rest ≠ [] → prior = (p * RELSEG_SIZE : Nat))
    (hcut : n < (p * RELSEG_SIZE : Nat)) (hsmall : (p + rest.length) * RELSEG_SIZE ≤ 2 ^ 31) :
    Ends allowed (truncateLoop (Kernel.os pick junk) n fuel md prior rest.head?) fun r => r.1 = true ∧
      ∃ k', Represents base room r.2 k' rnode kept array := by
  induction fuel generalizing md k rest p prior with
  | zero =>
    obtain rfl := List.length_eq_zero_iff.mp (Nat.le_zero.mp hfuel)
    exact ⟨rfl, k, h.done⟩
  | succ fuel ih =>
    cases rest with
    | nil => exact ⟨rfl, k, h.done⟩
    | cons v rest =>
      have hprior := hprior (List.cons_ne_nil _ _)
      subst hprior
      obtain ⟨q, rfl⟩ := h.node v List.mem_cons_self
      obtain ⟨vec, hvec, hholds, hchain⟩ := h.segment 0 (.node q) rfl
      rw [Nat.add_zero] at hholds
      obtain ⟨f, hf, hdir, haccess, -, hpos⟩ := id hholds
      have hwritable : f.access ≠ .O_RDONLY := by
        rw [haccess]
        exact nofun
      rw [List.head?_cons]
      unfold Md.truncateLoop
      rw [hvec, ok_bind]
      dsimp only
      rw [if_pos hcut]
      refine Ends.bind (call_allowed (fileTruncate_sim hprovides.picks
        (hprovides.full k (h.few.mono (Nat.zero_le _)))
        h.sim hf (Nat.lt_of_le_of_lt hpos (by decide)) (Kernel.ftruncate_done hf hwritable (by decide)))) ?_
      rintro ⟨code, md₁⟩ ⟨st₁, ⟨-, hsim₁, -⟩, hmd₁⟩
      dsimp only at hmd₁ hsim₁ ⊢
      subst hmd₁
      have h₁ := h.emptied hdir hsim₁
      have hvec₁ : ({ md with st := st₁ } : MdState Kernel).get (.node q) = .ok vec := hvec
      obtain ⟨hname, hothers⟩ := h₁.filename hvec₁
      refine Ends.bind (callUnit_allowed { md with st := st₁ } (fileUnlink_sim h₁.sim hf hname hothers)) ?_
      rintro md₂ ⟨st₂, ⟨hsim₂, -⟩, hmd₂⟩
      dsimp only at hmd₂ hsim₂ ⊢
      subst hmd₂
      have h₂ := h₁.unlinked hvec₁ hsim₂
      have hnext : vec.chain.map Ref.node = rest.head? := by
        rw [hchain, List.head?_eq_getElem?]
        rfl
      have hlength : (Ref.node q :: rest).length = rest.length + 1 := List.length_cons
      rw [hnext]
      refine ih h₂ (by omega) (fun hne => ?_) ?_ ?_
      · have hpos := List.length_pos_iff.mpr hne
        have hmul := Nat.mul_le_mul_right RELSEG_SIZE (show p + 2 ≤ p + (Ref.node q :: rest).length by omega)
        have hsize : RELSEG_SIZE = 131072 := rfl
        have hsucc : (p * RELSEG_SIZE : Nat) + (RELSEG_SIZE : Int) = ((p + 1) * RELSEG_SIZE : Nat) := by
          rw [Nat.succ_mul]
          push_cast
          rfl
        rw [hsucc, toInt_of_lt]
        rw [Nat.succ_mul] at hmul ⊢
        omega
      · rw [Nat.succ_mul]
        omega
      · rwa [hlength, ← Nat.add_assoc, Nat.add_right_comm] at hsmall

omit hprovides in
/-- No chain is longer than there are nodes. -/
theorem Represents.length_refs_le (h : Represents base room md k rnode refs array) : refs.length ≤ md.nextNode + 1 := by
  have hsub : refs.tail ⊆ (List.range md.nextNode).map Ref.node := by
    intro w hw
    obtain ⟨t, ht⟩ := List.mem_iff_getElem?.mp hw
    rw [List.getElem?_tail] at ht
    obtain ⟨hlt, -⟩ := List.getElem?_eq_some_iff.mp ht
    obtain ⟨vec, hvec, -⟩ := h.chained.segment _ _ ht
    obtain ⟨old, -, -, hnext⟩ := h.chained.segment t _ (List.getElem?_eq_getElem (by omega))
    rw [ht] at hnext
    obtain ⟨q, -, rfl⟩ := Option.map_eq_some_iff.mp hnext
    refine List.mem_map.mpr ⟨q, List.mem_range.mpr ?_, rfl⟩
    by_contra hge
    have hnone := h.unused q (Nat.not_lt.mp hge)
    unfold MdState.get at hvec
    simp only [hnone] at hvec
    cases hvec
  have hnodup : refs.tail.Nodup := h.chained.nodup.sublist (List.tail_sublist refs)
  have hle := (hnodup.subperm hsub).length_le
  rw [List.length_map, List.length_range, List.length_tail] at hle
  omega

omit hprovides in
/-- A segment before the cut is left alone. -/
theorem truncateLoop_skip {fuel : Nat} {n prior : Int} {v : Ref} {vec : MdfdVec} (hvec : md.get v = .ok vec)
    (hbefore : ¬ prior > n) (hafter : ¬ toInt (prior + RELSEG_SIZE) > n) :
    Md.truncateLoop (Kernel.os pick junk) n (fuel + 1) md prior (some v) =
      Md.truncateLoop (Kernel.os pick junk) n fuel md (toInt (prior + RELSEG_SIZE)) (vec.chain.map Ref.node) := by
  conv_lhs => unfold Md.truncateLoop
  rw [hvec]
  exact (if_neg hbefore).trans (if_neg hafter)

omit hprovides in
theorem next_prior (i : Nat) : ((i * RELSEG_SIZE : Nat) : Int) + RELSEG_SIZE = ((i + 1) * RELSEG_SIZE : Nat) := by
  rw [Nat.succ_mul]
  push_cast
  rfl

omit hprovides in
theorem resize_flatMap {l : List Block} {n : Nat} (hn : n ≤ l.length) :
    Kernel.resize (l.flatMap Block.bytes) (BLCKSZ * n) = (l.take n).flatMap Block.bytes := by
  have hle : BLCKSZ * n ≤ BLCKSZ * l.length := Nat.mul_le_mul_left _ hn
  unfold Kernel.resize
  rw [take_flatMap length_bytes, length_flatMap length_bytes, Nat.sub_eq_zero_of_le hle, List.replicate_zero,
    List.append_nil]

/-- The segment of the cut becomes shorter, and those behind it are removed. -/
theorem Represents.truncateAt {fuel n : Nat} {v : Ref} (h : Represents base room md k rnode refs array)
    (hreached : array.length / RELSEG_SIZE < refs.length) (hlt : array.length < 2 ^ 31) (hn : n < array.length)
    (hv : refs[n / RELSEG_SIZE]? = some v) (hfuel : refs.length ≤ n / RELSEG_SIZE + fuel + 1)
    (hsmall : (n / RELSEG_SIZE + 1) * RELSEG_SIZE < 2 ^ 31) :
    Ends allowed (Md.truncateLoop (Kernel.os pick junk) n (fuel + 1) md (n / RELSEG_SIZE * RELSEG_SIZE : Nat)
      (some v))
      fun r => r.1 = true ∧ ∃ k' refs', Represents base room r.2 k' rnode refs' (array.take n) ∧ refs' ≠ [] := by
  obtain ⟨vec, hvec, -, hchain⟩ := h.chained.segment _ v hv
  obtain ⟨f, hf, hdir, haccess, -, hpos, hdata⟩ := h.slot hv hvec
  have hmod : n % RELSEG_SIZE < RELSEG_SIZE := Nat.mod_lt _ (by decide)
  have hdiv : n - n / RELSEG_SIZE * RELSEG_SIZE = n % RELSEG_SIZE := by
    rw [Nat.mod_eq_sub_div_mul]
  have hcut : n < (n / RELSEG_SIZE + 1) * RELSEG_SIZE := Nat.lt_mul_of_div_lt (Nat.lt_succ_self _) (by decide)
  have hbefore : ¬ ((n / RELSEG_SIZE * RELSEG_SIZE : Nat) : Int) > n :=
    Int.not_lt.mpr (Int.ofNat_le.mpr (Nat.div_mul_le_self _ _))
  have hprior : toInt (((n / RELSEG_SIZE * RELSEG_SIZE : Nat) : Int) + RELSEG_SIZE) =
      ((n / RELSEG_SIZE + 1) * RELSEG_SIZE : Nat) := by
    rw [next_prior]
    exact toInt_of_lt hsmall
  have hafter : toInt (((n / RELSEG_SIZE * RELSEG_SIZE : Nat) : Int) + RELSEG_SIZE) > n := by
    rw [hprior]
    exact Int.ofNat_lt.mpr hcut
  have hlast : ((n : Int) - (n / RELSEG_SIZE * RELSEG_SIZE : Nat)) * BLCKSZ =
      (BLCKSZ * (n % RELSEG_SIZE) : Nat) := by
    rw [← Nat.cast_sub (Nat.div_mul_le_self _ _), hdiv, Nat.mul_comm]
    exact (Nat.cast_mul _ _).symm
  have hwindow : n % RELSEG_SIZE ≤ (window RELSEG_SIZE array (n / RELSEG_SIZE)).length := by
    rw [length_window, ← hdiv]
    exact Nat.le_min.mpr ⟨hdiv ▸ Nat.le_of_lt hmod, Nat.sub_le_sub_right (Nat.le_of_lt hn) _⟩
  have hbytes : Kernel.resize (k.data f.inode) (BLCKSZ * (n % RELSEG_SIZE)) =
      (window RELSEG_SIZE (array.take n) (n / RELSEG_SIZE)).flatMap Block.bytes := by
    rw [hdata, resize_flatMap hwindow, window_take, hdiv]
  have hwritable : f.access ≠ .O_RDONLY := by
    rw [haccess]
    exact nofun
  have hmax : BLCKSZ * (n % RELSEG_SIZE) ≤ maxOffset :=
    Nat.le_trans (Nat.mul_le_mul_left BLCKSZ (Nat.le_of_lt hmod)) (by decide)
  unfold Md.truncateLoop
  rw [hvec, ok_bind]
  dsimp only
  rw [if_neg hbefore, if_pos hafter, hlast]
  refine Ends.bind (call_allowed (fileTruncate_sim hprovides.picks (hprovides.full k (h.few.mono (Nat.zero_le _)))
    h.sim hf (Nat.lt_of_le_of_lt hpos (by decide)) (Kernel.ftruncate_done hf hwritable
      ⟨Int.natCast_nonneg _, Int.ofNat_le.mpr hmax⟩))) ?_
  rintro ⟨code, md₁⟩ ⟨st₁, ⟨hcode, hsim₁, -⟩, hmd₁⟩
  dsimp only at hcode hmd₁ hsim₁ ⊢
  subst hcode hmd₁
  rw [Int.toNat_natCast, hbytes] at hsim₁
  rw [if_neg (Int.lt_irrefl 0)]
  have hget : ({ md with st := st₁ } : MdState Kernel).get v = .ok vec := (get_call v).trans hvec
  obtain ⟨md₂, hset, hstored⟩ := set_stored hget { vec with
    lstBcnt := (n : Int) - (n / RELSEG_SIZE * RELSEG_SIZE : Nat)
    chain := none }
  have hcutting := h.cut hv hvec hdir rfl hreached rfl hsim₁ hstored rfl rfl
  have hlength : n / RELSEG_SIZE + 1 + (refs.drop (n / RELSEG_SIZE + 1)).length = refs.length := by
    have hle := (List.getElem?_eq_some_iff.mp hv).1
    rw [List.length_drop]
    omega
  have hnext : vec.chain.map Ref.node = (refs.drop (n / RELSEG_SIZE + 1)).head? := by
    rw [hchain, List.head?_eq_getElem?, List.getElem?_drop, Nat.add_zero]
  rw [hget, ok_bind, hset, ok_bind]
  rw [hprior, hnext]
  have htotal : (n / RELSEG_SIZE + 1 + (refs.drop (n / RELSEG_SIZE + 1)).length) * RELSEG_SIZE ≤ 2 ^ 31 := by
    have hle := h.chained.length_le h.behind
    have hlt : array.length / RELSEG_SIZE < lastSegment := Nat.div_lt_of_lt_mul hlt
    rw [hlength, ← lastSegment_mul]
    exact Nat.mul_le_mul_right _ (by omega)
  apply (hcutting.truncateLoop hprovides (by omega) (fun _ => rfl) (Int.ofNat_lt.mpr hcut) htotal).mono
    (fun _ h => h)
  rintro r ⟨hdone, k', h'⟩
  exact ⟨hdone, k', _, h', hcutting.kept_ne⟩

/-- The loop of `md_truncate` up to the segment of the cut. Where the number of the block behind that
segment is no `int`, nothing is cut. -/
theorem Represents.truncateLoop {fuel i n : Nat} {v : Ref} (h : Represents base room md k rnode refs array)
    (junk : Kernel → Int) (hreached : array.length / RELSEG_SIZE < refs.length) (hlt : array.length < 2 ^ 31)
    (hn : n < array.length)
    (hv : refs[i]? = some v) (hi : i ≤ n / RELSEG_SIZE) (hfuel : refs.length ≤ i + fuel) :
    Ends allowed (Md.truncateLoop (Kernel.os pick junk) n fuel md (i * RELSEG_SIZE : Nat)
      (some v)) fun r => r.1 = true ∧
      ∃ k' refs' array', Represents base room r.2 k' rnode refs' array' ∧ refs' ≠ [] ∧
        (array' = array ∨ array' = array.take n) ∧
        ((n / RELSEG_SIZE + 1) * RELSEG_SIZE < 2 ^ 31 → array' = array.take n) := by
  have hlength := (List.getElem?_eq_some_iff.mp hv).1
  induction fuel generalizing i v with
  | zero => omega
  | succ fuel ih =>
    obtain ⟨vec, hvec, -, hchain⟩ := h.chained.segment i v hv
    have hdiv := Nat.div_mul_le_self n RELSEG_SIZE
    have hmul := Nat.mul_le_mul_right RELSEG_SIZE hi
    have hbefore : ¬ ((i * RELSEG_SIZE : Nat) : Int) > n := by omega
    rcases Nat.lt_or_eq_of_le hi with hstep | rfl
    · have hle : (i + 1) * RELSEG_SIZE ≤ n := Nat.le_trans (Nat.mul_le_mul_right RELSEG_SIZE hstep) hdiv
      have hnext : i + 1 < refs.length := by
        have hmono := Nat.div_le_div_right (c := RELSEG_SIZE) (Nat.le_of_lt hn)
        omega
      have hprior : toInt (((i * RELSEG_SIZE : Nat) : Int) + RELSEG_SIZE) = ((i + 1) * RELSEG_SIZE : Nat) := by
        rw [next_prior]
        exact toInt_of_lt (by omega)
      have hafter : ¬ toInt (((i * RELSEG_SIZE : Nat) : Int) + RELSEG_SIZE) > n := by
        rw [hprior]
        exact Int.not_lt.mpr (Int.ofNat_le.mpr hle)
      rw [truncateLoop_skip hvec hbefore hafter, hprior, hchain, List.getElem?_eq_getElem hnext]
      exact ih (List.getElem?_eq_getElem hnext) hstep (by omega) hnext
    · by_cases hsmall : (n / RELSEG_SIZE + 1) * RELSEG_SIZE < 2 ^ 31
      · apply (h.truncateAt hprovides hreached hlt hn hv hfuel hsmall).mono (fun _ h => h)
        rintro r ⟨hdone, k', refs', h', hne⟩
        exact ⟨hdone, k', refs', _, h', hne, .inr rfl, fun _ => rfl⟩
      · have hlast : n / RELSEG_SIZE + 1 = lastSegment := by
          have hlt : n / RELSEG_SIZE < lastSegment := Nat.div_lt_of_lt_mul (Nat.lt_trans hn hlt)
          rw [← lastSegment_mul] at hsmall
          have hle := Nat.le_of_mul_le_mul_right (Nat.not_lt.mp hsmall) (show 0 < RELSEG_SIZE by decide)
          omega
        have hprior : toInt (((n / RELSEG_SIZE * RELSEG_SIZE : Nat) : Int) + RELSEG_SIZE) = -2 ^ 31 := by
          rw [next_prior, hlast]
          decide
        have hafter : ¬ toInt (((n / RELSEG_SIZE * RELSEG_SIZE : Nat) : Int) + RELSEG_SIZE) > n := by
          rw [hprior]
          omega
        have hend : refs[n / RELSEG_SIZE + 1]? = none := by
          have hle := h.chained.length_le h.behind
          have hlt : array.length / RELSEG_SIZE < lastSegment := Nat.div_lt_of_lt_mul hlt
          exact List.getElem?_eq_none (by omega)
        rw [truncateLoop_skip hvec hbefore hafter, hchain, hend]
        unfold Md.truncateLoop
        refine ⟨rfl, k, refs, array, h, ?_, .inl rfl, fun hlt => absurd hlt hsmall⟩
        rintro rfl
        cases hv

/-- The segments are found, and the relation is cut. -/
theorem Represents.truncateTo {m : Nat} (h : Represents base room md k rnode refs array)
    (hreached : array.length / RELSEG_SIZE < refs.length) (hlt : array.length < 2 ^ 31) (hm : m < array.length) :
    Ends allowed (do
        let (fd, md) ← mdFdGetRelnFd (Kernel.os pick junk) md rnode
        let (done, md) ← Md.truncateLoop (Kernel.os pick junk) (m : Int) (md.nextNode + 1) md 0 (some (.slot fd))
        .ok (if done then (m : Int) else -1, md)) fun r => r.1 = m ∧ ∃ k' refs' array',
      Represents base room r.2 k' rnode refs' array' ∧ refs' ≠ [] ∧ (array' = array ∨ array' = array.take m) ∧
        ((m / RELSEG_SIZE + 1) * RELSEG_SIZE < 2 ^ 31 → array' = array.take m) := by
  have hcan : Reaches allowed md k rnode refs := by
    rintro rfl
    cases hreached
  apply Ends.bind (h.getRelnFd hprovides hcan)
  intro ⟨fd, md₁⟩ hfound
  dsimp only at hfound ⊢
  generalize hfuel : md₁.nextNode + 1 = fuel
  obtain ⟨k₁, refs₁, h₁, hlonger, hv⟩ := hfound
  have hloop := h₁.truncateLoop hprovides junk (Nat.lt_of_lt_of_le hreached hlonger) hlt hm hv (Nat.zero_le _)
    (Nat.le_trans h₁.length_refs_le (Nat.le_of_eq (hfuel.trans (Nat.zero_add fuel).symm)))
  rw [Nat.zero_mul] at hloop
  apply Ends.bind hloop
  rintro ⟨done, md₂⟩ ⟨rfl, hcut⟩
  exact ⟨rfl, hcut⟩

omit hprovides in
/-- A count that is not negative is right. -/
theorem lt_of_lt_toInt {m : Nat} (hle : array.length ≤ 2 ^ 31) (hm : (m : Int) < toInt array.length) :
    array.length < 2 ^ 31 ∧ m < array.length := by
  have hlt : array.length < 2 ^ 31 := by
    refine Nat.lt_of_le_of_ne hle fun heq => ?_
    have hneg : toInt (array.length : Int) = -2 ^ 31 := by
      rw [heq]
      decide
    omega
  rw [toInt_of_lt hlt] at hm
  exact ⟨hlt, Int.ofNat_lt.mp hm⟩

/-- What `md_truncate` makes of an array. -/
structure Truncated (n : Int) (array : List Block) (result : Int) (array' : List Block) : Prop where
  result : result = if 0 ≤ n ∧ n ≤ toInt array.length then n else -1
  either : array' = array ∨ array' = array.take n.toNat
  refused : ¬ (0 ≤ n ∧ n ≤ toInt array.length) → array' = array
  done : 0 ≤ n → n ≤ toInt array.length → array.length + RELSEG_SIZE < 2 ^ 31 → array' = array.take n.toNat

/-- `md_truncate` keeps the first blocks of the array. -/
theorem Represents.truncate {n : Int} (h : Represents base room md k rnode refs array)
    (hcan : Reaches allowed md k rnode refs) :
    Ends allowed (mdTruncate (Kernel.os pick junk) md rnode n) fun r => ∃ k' refs' array',
      Represents base room r.2 k' rnode refs' array' ∧ refs' ≠ [] ∧ Truncated n array r.1 array' := by
  unfold mdTruncate
  apply Ends.bind (h.nblocks hprovides hcan)
  rintro ⟨curNblk, md₁⟩ ⟨hcount, k₁, refs₁, h₁, hreached⟩
  dsimp only at hcount h₁ ⊢
  rw [hcount]
  have hne : refs₁ ≠ [] := by
    rintro rfl
    cases hreached
  by_cases hrange : 0 ≤ n ∧ n ≤ toInt array.length
  · rw [if_neg (by omega)]
    by_cases hall : n = toInt array.length
    · rw [if_pos hall]
      have hlt : array.length < 2 ^ 31 := by
        refine Nat.lt_of_le_of_ne h.length_le fun heq => ?_
        have hneg : toInt (array.length : Int) = -2 ^ 31 := by
          rw [heq]
          decide
        omega
      have hlen : n.toNat = array.length := by
        rw [hall, toInt_of_lt hlt]
        rfl
      have htake : array = array.take n.toNat := by
        rw [hlen, List.take_length]
      exact ⟨k₁, refs₁, array, h₁, hne, (if_pos hrange).symm, .inl rfl, fun hnot => absurd hrange hnot,
        fun _ _ _ => htake⟩
    · rw [if_neg hall]
      obtain ⟨m, rfl⟩ := Int.eq_ofNat_of_zero_le hrange.1
      obtain ⟨hlt, hm⟩ := lt_of_lt_toInt h.length_le (Int.lt_iff_le_and_ne.mpr ⟨hrange.2, hall⟩)
      apply (h₁.truncateTo hprovides hreached hlt hm).mono (fun _ h => h)
      rintro r ⟨hr, k', refs', array', h', hne', heither, hdone⟩
      refine ⟨k', refs', array', h', hne', hr.trans (if_pos hrange).symm, heither,
        fun hnot => absurd hrange hnot, fun _ _ hsmall => ?_⟩
      apply hdone
      rw [Nat.succ_mul]
      have hle := Nat.div_mul_le_self m RELSEG_SIZE
      omega
  · rw [if_pos (by omega)]
    exact ⟨k₁, refs₁, array, h₁, hne, (if_neg hrange).symm, .inl rfl, fun _ => rfl,
      fun h0 hle => absurd ⟨h0, hle⟩ hrange⟩

end

end PostgresV7.Md
