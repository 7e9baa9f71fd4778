import PostgresV7.Lib.Links
import PostgresV7.Oset.Oset

/-!
# Ordered sets as sequences (`oset.c`)

A set that has been initialised holds a sequence of elements. It is linked between the two places
that lie over the fields of the set, of which `dummy` stays `NULL`.
-/

namespace PostgresV7.Oset

open Links

variable {O : Objects} {m m' : Memory} {s : O.sets} {e : O.elems} {x y : Place O} {v : UInt64}

/-! ## Reading and writing the words -/

section

variable (m : Memory) (s : O.sets) (e : O.elems) (x : Place O) (v : UInt64)

theorem load_word (w : Word O) : load m (base w.object) w.field = some (m.get w) := if_neg (O.inside w.object).1

theorem store_word (w : Word O) : store m (base w.object) w.field v = some (m.put w v) :=
  if_neg (O.inside w.object).1

@[simp] theorem load_set : load m e setField = some (m.get (.set e)) := load_word m (.set e)

@[simp] theorem load_head : load m s headField = some (m.get (.head s)) := load_word m (.head s)

@[simp] theorem load_offset : load m s offsetField = some (m.get (.offset s)) := load_word m (.offset s)

@[simp] theorem load_elem_next : load m e nextField = some (m.get (.next e)) := load_word m (.next e)

@[simp] theorem load_elem_prev : load m e prevField = some (m.get (.prev e)) := load_word m (.prev e)

@[simp] theorem store_set : store m e setField v = some (m.put (.set e) v) := store_word m v (.set e)

@[simp] theorem store_head : store m s headField v = some (m.put (.head s) v) := store_word m v (.head s)

@[simp] theorem store_dummy : store m s dummyField v = some (m.put (.dummy s) v) := store_word m v (.dummy s)

@[simp] theorem store_tail : store m s tailField v = some (m.put (.tail s) v) := store_word m v (.tail s)

@[simp] theorem store_offset : store m s offsetField v = some (m.put (.offset s) v) := store_word m v (.offset s)

@[simp] theorem store_elem_next : store m e nextField v = some (m.put (.next e) v) := store_word m v (.next e)

@[simp] theorem store_elem_prev : store m e prevField v = some (m.put (.prev e) v) := store_word m v (.prev e)

@[simp] theorem load_next : load m x.ptr nextField = some (m.get x.nextWord) := by
  rw [load, if_neg x.ptr_ne_null, ← x.addr_nextWord]
  rfl

@[simp] theorem load_prev : load m x.ptr prevField = some (m.get x.prevWord) := by
  rw [load, if_neg x.ptr_ne_null, ← x.addr_prevWord]
  rfl

@[simp] theorem store_next : store m x.ptr nextField v = some (m.put x.nextWord v) := by
  rw [store, if_neg x.ptr_ne_null, ← x.addr_nextWord]
  rfl

@[simp] theorem store_prev : store m x.ptr prevField v = some (m.put x.prevWord v) := by
  rw [store, if_neg x.ptr_ne_null, ← x.addr_prevWord]
  rfl

end

theorem get_put_self (m : Memory) (w : Word O) (v : UInt64) : (m.put w v).get w = v := by
  rw [Memory.get_put, Function.update_self]

theorem get_put_of_ne {w w' : Word O} (h : w' ≠ w) (m : Memory) (v : UInt64) : (m.put w v).get w' = m.get w' := by
  rw [Memory.get_put, Function.update_of_ne h]

/-! ## What the functions write -/

/-- `ordered_set_init`. -/
def Memory.init (m : Memory) (s : O.sets) (offset : Int32) : Memory :=
  let m := ((m.put (.head s) (Place.back s).ptr).put (.dummy s) NULL).put (.tail s) (Place.front s).ptr
  m.put (.offset s) (setInt (m.get (.offset s)) offset)

/-- `ordered_elem_push_into`, where `y` is the place behind the head. -/
def Memory.push (m : Memory) (e : O.elems) (s : O.sets) (y : Place O) : Memory :=
  let m := ((m.put (.set e) s).put (.next e) NULL).put (.prev e) NULL
  let m := (m.put (.next e) y.ptr).put (.prev e) (Place.front s).ptr
  (m.put y.prevWord e).put (.head s) e

/-- `ordered_elem_pop`, where the element is between `x` and `y`. -/
def Memory.pop (m : Memory) (e : O.elems) (x y : Place O) : Memory :=
  (((m.put y.prevWord x.ptr).put x.nextWord y.ptr).put (.next e) NULL).put (.prev e) NULL

theorem orderedSetInit_eq (m : Memory) (s : O.sets) (offset : Int32) :
    orderedSetInit m s offset = some (m.init s offset) := by
  simp [orderedSetInit, Memory.init, Place.ptr]

theorem prevWord_ne (hy : y ≠ .elem e) : y.prevWord ≠ .prev e := by
  cases y with
  | front s => exact nofun
  | elem d => exact fun heq => hy (congrArg Place.elem (Word.prev.inj heq))
  | back s => exact nofun

theorem prevWord_ne_next (y : Place O) (e : O.elems) : y.prevWord ≠ .next e := by
  cases y <;> exact nofun

theorem nextWord_injective : Function.Injective (Place.nextWord : Place O → Word O) := by
  intro x y heq
  cases x <;> cases y <;> cases heq <;> rfl

theorem prevWord_injective : Function.Injective (Place.prevWord : Place O → Word O) := by
  intro x y heq
  cases x <;> cases y <;> cases heq <;> rfl

/-- Only `dummy` is both, of the place behind the last one and of that before the first one. -/
theorem nextWord_ne_prevWord (x : Place O) (hy : ∀ s, y ≠ .front s) : x.nextWord ≠ y.prevWord := by
  cases y with
  | front s => exact absurd rfl (hy s)
  | elem d => cases x <;> exact nofun
  | back s => cases x <;> exact nofun

theorem orderedElemPushInto_eq (hhead : m.get (.head s) = y.ptr) (hy : y ≠ .elem e) :
    orderedElemPushInto m e s = some (m.push e s y) := by
  simp only [orderedElemPushInto, orderedElemPush, orderedElemPushHead, store_set, store_elem_next, store_elem_prev,
    load_set, load_head, load_elem_next, load_elem_prev, store_prev, Memory.get_put, Option.bind_eq_bind,
    Option.bind_some, Function.update_self, Function.update_of_ne, ne_eq, reduceCtorEq, not_false_eq_true, hhead]
  rw [Function.update_of_ne (prevWord_ne hy).symm, Function.update_self]
  exact store_next _ (.front s) e

theorem push_same {w : Word O} (hset : w ≠ .set e) (hnext : w ≠ .next e) (hprev : w ≠ .prev e) (hy : w ≠ y.prevWord)
    (hhead : w ≠ .head s) : (m.push e s y).get w = m.get w := by
  unfold Memory.push
  dsimp only
  rw [get_put_of_ne hhead, get_put_of_ne hy, get_put_of_ne hprev, get_put_of_ne hnext, get_put_of_ne hprev,
    get_put_of_ne hnext, get_put_of_ne hset]

theorem pop_same {w : Word O} (hy : w ≠ y.prevWord) (hx : w ≠ x.nextWord) (hnext : w ≠ .next e) (hprev : w ≠ .prev e) :
    (m.pop e x y).get w = m.get w := by
  unfold Memory.pop
  rw [get_put_of_ne hprev, get_put_of_ne hnext, get_put_of_ne hx, get_put_of_ne hy]

theorem push_set (hy : Word.set e ≠ y.prevWord) : (m.push e s y).get (.set e) = s := by
  have hhead : Word.set e ≠ .head s := nofun
  have hnext : Word.set e ≠ .next e := nofun
  have hprev : Word.set e ≠ .prev e := nofun
  unfold Memory.push
  dsimp only
  rw [get_put_of_ne hhead, get_put_of_ne hy, get_put_of_ne hprev, get_put_of_ne hnext, get_put_of_ne hprev,
    get_put_of_ne hnext, get_put_self]

/-- The links of a place. -/
def Memory.next (m : Memory) (x : Place O) : UInt64 := m.get x.nextWord

def Memory.prev (m : Memory) (x : Place O) : UInt64 := m.get x.prevWord

theorem push_left (hy : y ≠ .elem e) :
    Joined Place.ptr (m.push e s y).next (m.push e s y).prev (.front s) (.elem e) := by
  have hhead : Word.prev e ≠ .head s := nofun
  refine ⟨get_put_self _ _ _, ?_⟩
  show (m.push e s y).get (.prev e) = _
  unfold Memory.push
  dsimp only
  rw [get_put_of_ne hhead, get_put_of_ne (prevWord_ne hy).symm, get_put_self]

theorem push_right (hfront : ∀ s, y ≠ .front s) :
    Joined Place.ptr (m.push e s y).next (m.push e s y).prev (.elem e) y := by
  have hhead : Word.next e ≠ .head s := nofun
  have hprev : Word.next e ≠ .prev e := nofun
  refine ⟨?_, ?_⟩
  · show (m.push e s y).get (.next e) = _
    unfold Memory.push
    dsimp only
    rw [get_put_of_ne hhead, get_put_of_ne (prevWord_ne_next y e).symm, get_put_of_ne hprev, get_put_self]
  · exact (get_put_of_ne (nextWord_ne_prevWord (.front s) hfront).symm _ _).trans (get_put_self _ _ _)

theorem push_next (hfront : ∀ s, y ≠ .front s) {z : Place O} (hz : z ≠ .front s) (hz' : z ≠ .elem e) :
    (m.push e s y).next z = m.next z := by
  refine push_same ?_ (fun heq => hz' (nextWord_injective heq)) ?_ (nextWord_ne_prevWord z hfront) fun heq =>
    hz (nextWord_injective heq) <;> cases z <;> exact nofun

theorem push_prev {z : Place O} (hz : z ≠ y) (hz' : z ≠ .elem e) : (m.push e s y).prev z = m.prev z := by
  refine push_same ?_ ?_ (fun heq => hz' (prevWord_injective heq)) (fun heq => hz (prevWord_injective heq)) ?_ <;>
    cases z <;> exact nofun

theorem pop_joined (hx : x ≠ .elem e) (hy : y ≠ .elem e) (hfront : ∀ s, y ≠ .front s) :
    Joined Place.ptr (m.pop e x y).next (m.pop e x y).prev x y := by
  have hnext : x.nextWord ≠ .next e := fun heq => hx (nextWord_injective heq)
  have hprev : x.nextWord ≠ .prev e := by
    cases x <;> exact nofun
  refine ⟨?_, ?_⟩
  · show (m.pop e x y).get x.nextWord = _
    unfold Memory.pop
    rw [get_put_of_ne hprev, get_put_of_ne hnext, get_put_self]
  · show (m.pop e x y).get y.prevWord = _
    unfold Memory.pop
    rw [get_put_of_ne (prevWord_ne hy), get_put_of_ne (prevWord_ne_next y e),
      get_put_of_ne (nextWord_ne_prevWord x hfront).symm, get_put_self]

theorem pop_next (hfront : ∀ s, y ≠ .front s) {z : Place O} (hz : z ≠ x) (hz' : z ≠ .elem e) :
    (m.pop e x y).next z = m.next z := by
  refine pop_same (nextWord_ne_prevWord z hfront) (fun heq => hz (nextWord_injective heq)) (fun heq =>
    hz' (nextWord_injective heq)) ?_
  cases z <;> exact nofun

theorem pop_prev (hback : ∀ s, x ≠ .back s) {z : Place O} (hz : z ≠ y) (hz' : z ≠ .elem e) :
    (m.pop e x y).prev z = m.prev z := by
  refine pop_same (fun heq => hz (prevWord_injective heq)) ?_ ?_ fun heq => hz' (prevWord_injective heq)
  · cases x with
    | back s => exact absurd rfl (hback s)
    | _ => cases z <;> exact nofun
  · cases z <;> exact nofun

theorem orderedElemPop_eq (hnext : m.get (.next e) = y.ptr) (hprev : m.get (.prev e) = x.ptr) (hy : y ≠ .elem e) :
    orderedElemPop m e = some (m.pop e x y) := by
  have hnext' : (m.put y.prevWord x.ptr).get (.next e) = y.ptr :=
    (get_put_of_ne (prevWord_ne_next y e).symm m x.ptr).trans hnext
  have hprev' : (m.put y.prevWord x.ptr).get (.prev e) = x.ptr :=
    (get_put_of_ne (prevWord_ne hy).symm m x.ptr).trans hprev
  simp [orderedElemPop, hnext, hprev, hnext', hprev', Memory.pop]

/-! ## What the memory holds -/

/-- A set that has been initialised. -/
structure OSet (O : Objects) where
  offset : Int32
  elems : List O.elems

/-- The record of an element, or `NULL` for none. -/
def OSet.record (S : OSet O) : Option O.elems → UInt64
  | none => NULL
  | some e => e - S.offset.toInt64.toUInt64

abbrev Sets (O : Objects) := O.sets → Option (OSet O)

structure Represents (m : Memory) (sets : Sets O) : Prop where
  linked : ∀ s S, sets s = some S → Linked Place.ptr m.next m.prev (.front s) (.back s) (S.elems.map .elem)
  dummy : ∀ s S, sets s = some S → m.get (.dummy s) = NULL
  offset : ∀ s S, sets s = some S → getInt (m.get (.offset s)) = S.offset
  nodup : ∀ s S, sets s = some S → S.elems.Nodup
  member : ∀ s S, sets s = some S → ∀ e ∈ S.elems, m.get (.set e) = s

/-- The words of a set and of some elements. -/
def Word.Of (s : O.sets) (l : List O.elems) : Word O → Prop
  | next e | prev e | set e => e ∈ l
  | head s' | dummy s' | tail s' | offset s' => s' = s

variable {sets : Sets O} {S : OSet O} {l : List O.elems}

theorem places_nodup (s : O.sets) (hnodup : l.Nodup) : (places (.front s) (.back s) (l.map Place.elem)).Nodup :=
  places_map_nodup (fun _ _ => Place.elem.inj) (fun _ => nofun) (fun _ => nofun) nofun hnodup

namespace Represents

/-- An element is in one set. -/
theorem only (h : Represents m sets) {s' : O.sets} {S' : OSet O} (hs : sets s = some S) (hs' : sets s' = some S')
    (he : e ∈ S.elems) (he' : e ∈ S'.elems) : s' = s :=
  Subtype.ext ((h.member s' S' hs' e he').symm.trans (h.member s S hs e he))

/-- One set becomes another one. -/
theorem change (h : Represents m sets)
    (hlinked : Linked Place.ptr m'.next m'.prev (.front s) (.back s) (S.elems.map .elem))
    (hdummy : m'.get (.dummy s) = NULL) (hoffset : getInt (m'.get (.offset s)) = S.offset) (hnodup : S.elems.Nodup)
    (hmember : ∀ e ∈ S.elems, m'.get (.set e) = s)
    (hapart : ∀ e ∈ l, ∀ s' S', sets s' = some S' → e ∈ S'.elems → s' = s)
    (hsame : ∀ w : Word O, ¬ w.Of s l → m'.get w = m.get w) : Represents m' (Function.update sets s (some S)) := by
  have hcases : ∀ s' S', Function.update sets s (some S) s' = some S' →
      (s' = s ∧ S' = S) ∨ (s' ≠ s ∧ sets s' = some S' ∧ ∀ e ∈ S'.elems, e ∉ l) := by
    intro s' S' hs'
    by_cases hne : s' = s
    · subst hne
      rw [Function.update_self] at hs'
      exact .inl ⟨rfl, (Option.some.inj hs').symm⟩
    · rw [Function.update_of_ne hne] at hs'
      exact .inr ⟨hne, hs', fun e he hl => hne (hapart e hl s' S' hs' he)⟩
  refine ⟨fun s' S' hs' => ?_, fun s' S' hs' => ?_, fun s' S' hs' => ?_, fun s' S' hs' => ?_, fun s' S' hs' e he => ?_⟩ <;>
    rcases hcases s' S' hs' with ⟨rfl, rfl⟩ | ⟨hne, hs', hout⟩
  · exact hlinked
  · refine (h.linked s' S' hs').congr (fun z hz => hsame _ ?_) fun z hz => hsame _ ?_
    · rcases List.mem_cons.mp hz with rfl | hz
      · exact hne
      · obtain ⟨e, he, rfl⟩ := List.mem_map.mp hz
        exact hout e he
    · rcases List.mem_append.mp hz with hz | hz
      · obtain ⟨e, he, rfl⟩ := List.mem_map.mp hz
        exact hout e he
      · rw [List.mem_singleton.mp hz]
        exact hne
  · exact hdummy
  · rw [hsame (.dummy s') hne, h.dummy s' S' hs']
  · exact hoffset
  · rw [hsame (.offset s') hne, h.offset s' S' hs']
  · exact hnodup
  · exact h.nodup s' S' hs'
  · exact hmember e he
  · rw [hsame (.set e) (hout e he), h.member s' S' hs' e he]

/-- What is behind the head of a set. -/
theorem head_cases (l : List O.elems) (s : O.sets) :
    (l.map Place.elem).headD (.back s) = .back s ∨ ∃ d ∈ l, (l.map Place.elem).headD (.back s) = .elem d :=
  headD_map_cases l (Place.back s)

theorem init (h : Represents m sets) (s : O.sets) (offset : Int32) :
    Represents (m.init s offset) (Function.update sets s (some ⟨offset, []⟩)) := by
  have hsame : ∀ w : Word O, ¬ w.Of s [] → (m.init s offset).get w = m.get w := by
    intro w hw
    unfold Memory.init
    dsimp only
    rw [get_put_of_ne, get_put_of_ne, get_put_of_ne, get_put_of_ne] <;> rintro rfl <;> exact hw rfl
  have hget : ∀ w v, w ≠ .offset s → ((((m.put (.head s) (Place.back s).ptr).put (.dummy s) NULL).put (.tail s)
      (Place.front s).ptr).get w = v) → (m.init s offset).get w = v := by
    intro w v hw hv
    rw [← hv]
    exact get_put_of_ne hw _ _
  refine h.change (l := []) (linked_nil.mpr ⟨?_, ?_⟩) ?_ ?_ List.nodup_nil (fun e he => absurd he List.not_mem_nil)
    (fun e he => absurd he List.not_mem_nil) hsame
  · refine hget (.head s) _ nofun ?_
    rw [get_put_of_ne (by exact nofun), get_put_of_ne (by exact nofun), get_put_self]
  · refine hget (.tail s) _ nofun ?_
    rw [get_put_self]
  · refine hget (.dummy s) _ nofun ?_
    rw [get_put_of_ne (by exact nofun), get_put_self]
  · exact (congrArg getInt (get_put_self _ _ _)).trans (getInt_setInt _ _)

theorem push (h : Represents m sets) (hs : sets s = some S) (hfree : ∀ s' S', sets s' = some S' → e ∉ S'.elems) :
    ∃ m', orderedElemPushInto m e s = some m' ∧
      Represents m' (Function.update sets s (some { S with elems := e :: S.elems })) := by
  have hlinked := h.linked s S hs
  have hnot : Place.elem e ∉ S.elems.map Place.elem := by
    intro hmem
    obtain ⟨d, hd, heq⟩ := List.mem_map.mp hmem
    exact hfree s S hs (Place.elem.inj heq ▸ hd)
  obtain ⟨y, hy⟩ : ∃ y, y = (S.elems.map Place.elem).headD (.back s) := ⟨_, rfl⟩
  have hcases := hy ▸ head_cases S.elems s
  have hne : y ≠ .elem e := by
    rcases hcases with rfl | ⟨d, hd, rfl⟩
    · exact nofun
    · exact fun heq => hfree s S hs (Place.elem.inj heq ▸ hd)
  have hfront : ∀ s', y ≠ .front s' := by
    rcases hcases with rfl | ⟨d, hd, rfl⟩ <;> exact nofun
  have hhead : m.get (.head s) = y.ptr := hy ▸ hlinked.first.1
  refine ⟨m.push e s y, orderedElemPushInto_eq hhead hne, ?_⟩
  have hset : ∀ d : O.elems, Word.set d ≠ y.prevWord := by
    cases y <;> exact fun d => nofun
  have hoffset : Word.offset s ≠ y.prevWord := by
    cases y <;> exact nofun
  refine h.change (l := e :: S.elems) ?_ ?_ ?_ ?_ (fun d hd => ?_) (fun d hd s' S' hs' hd' => ?_) fun w hw => ?_
  · refine Linked.insert (show Linked _ _ _ _ _ ([] ++ _) from hlinked) (places_nodup s (h.nodup s S hs)) ?_
      (push_left hne) (hy ▸ push_right hfront) (fun z => push_next hfront) fun z hz => push_prev (hy ▸ hz)
    intro hmem
    rcases mem_places.mp hmem with heq | hmem | heq
    · cases heq
    · exact hnot hmem
    · cases heq
  · rw [← h.dummy s S hs]
    exact push_same nofun nofun nofun (nextWord_ne_prevWord (.back s) hfront) nofun
  · rw [← h.offset s S hs]
    exact congrArg getInt (push_same nofun nofun nofun hoffset nofun)
  · exact List.nodup_cons.mpr ⟨hfree s S hs, h.nodup s S hs⟩
  · by_cases hde : d = e
    · rw [hde]
      exact push_set (hset e)
    · have hd := (List.mem_cons.mp hd).resolve_left hde
      rw [← h.member s S hs d hd]
      exact push_same (fun heq => hde (Word.set.inj heq)) nofun nofun (hset d) nofun
  · rcases List.mem_cons.mp hd with rfl | hd
    · exact absurd hd' (hfree s' S' hs')
    · exact h.only hs hs' hd hd'
  · refine push_same ?_ ?_ ?_ ?_ ?_
    · rintro rfl
      exact hw List.mem_cons_self
    · rintro rfl
      exact hw List.mem_cons_self
    · rintro rfl
      exact hw List.mem_cons_self
    · rintro rfl
      rcases hcases with rfl | ⟨d, hd, rfl⟩
      · exact hw rfl
      · exact hw (List.mem_cons_of_mem e hd)
    · rintro rfl
      exact hw rfl

/-- An element is between two places. -/
theorem around (h : Represents m sets) (hs : sets s = some S) {l₁ l₂ : List O.elems} (hl : S.elems = l₁ ++ e :: l₂) :
    Joined Place.ptr m.next m.prev ((l₁.map Place.elem).getLastD (.front s)) (.elem e) ∧
      Joined Place.ptr m.next m.prev (.elem e) ((l₂.map Place.elem).headD (.back s)) := by
  have hlinked := h.linked s S hs
  rw [hl, List.map_append, List.map_cons] at hlinked
  exact hlinked.around

theorem ne_of_split (h : Represents m sets) (hs : sets s = some S) {l₁ l₂ : List O.elems} (hl : S.elems = l₁ ++ e :: l₂)
    {d : O.elems} (hd : d ∈ l₁ ++ l₂) : d ≠ e := by
  rintro rfl
  have hnodup := h.nodup s S hs
  rw [hl] at hnodup
  exact (List.nodup_cons.mp (List.perm_middle.nodup_iff.mp hnodup)).1 hd

theorem pop (h : Represents m sets) (hs : sets s = some S) {l₁ l₂ : List O.elems} (hl : S.elems = l₁ ++ e :: l₂) :
    ∃ m', orderedElemPop m e = some m' ∧ Represents m' (Function.update sets s (some { S with elems := l₁ ++ l₂ })) := by
  have hlinked := h.linked s S hs
  have hnodup := h.nodup s S hs
  rw [hl] at hnodup
  rw [hl, List.map_append, List.map_cons] at hlinked
  obtain ⟨hleft, hright⟩ := h.around hs hl
  obtain ⟨x, hx⟩ : ∃ x, x = (l₁.map Place.elem).getLastD (.front s) := ⟨_, rfl⟩
  obtain ⟨y, hy⟩ : ∃ y, y = (l₂.map Place.elem).headD (.back s) := ⟨_, rfl⟩
  have hxcases : x = .front s ∨ ∃ d ∈ l₁, x = .elem d := hx ▸ getLastD_map_cases l₁ (Place.front s)
  have hycases : y = .back s ∨ ∃ d ∈ l₂, y = .elem d := hy ▸ head_cases l₂ s
  rw [← hx] at hleft
  rw [← hy] at hright
  have hxe : x ≠ .elem e := by
    rcases hxcases with rfl | ⟨d, hd, rfl⟩
    · exact nofun
    · exact fun heq => h.ne_of_split hs hl (List.mem_append_left l₂ hd) (Place.elem.inj heq)
  have hye : y ≠ .elem e := by
    rcases hycases with rfl | ⟨d, hd, rfl⟩
    · exact nofun
    · exact fun heq => h.ne_of_split hs hl (List.mem_append_right l₁ hd) (Place.elem.inj heq)
  have hfront : ∀ s', y ≠ .front s' := by
    rcases hycases with rfl | ⟨d, hd, rfl⟩ <;> exact nofun
  have hback : ∀ s', x ≠ .back s' := by
    rcases hxcases with rfl | ⟨d, hd, rfl⟩ <;> exact nofun
  have hjoined := pop_joined (m := m) hxe hye hfront
  refine ⟨m.pop e x y, orderedElemPop_eq hright.1 hleft.2 hye, ?_⟩
  refine h.change (l := S.elems) ?_ ?_ ?_ ?_ (fun d hd => ?_) (fun d hd s' S' hs' => h.only hs hs' hd) fun w hw => ?_
  · show Linked Place.ptr _ _ _ _ ((l₁ ++ l₂).map Place.elem)
    rw [List.map_append]
    have hplaces := places_nodup s hnodup
    rw [List.map_append, List.map_cons] at hplaces
    refine hlinked.remove hplaces ?_ ?_ (fun z hz => pop_next hfront (hx ▸ hz)) fun z hz => pop_prev hback (hy ▸ hz)
    · rw [← hx, hjoined.1, hright.1]
    · rw [← hy, hjoined.2, hleft.2]
  · rw [← h.dummy s S hs]
    have hdummy : (Place.back s).nextWord ≠ x.nextWord := fun heq => hback s (nextWord_injective heq).symm
    exact pop_same (nextWord_ne_prevWord (.back s) hfront) hdummy nofun nofun
  · rw [← h.offset s S hs]
    refine congrArg getInt (pop_same ?_ ?_ nofun nofun)
    · cases y <;> exact nofun
    · cases x <;> exact nofun
  · exact (List.nodup_cons.mp (List.perm_middle.nodup_iff.mp hnodup)).2
  · have hd : d ∈ S.elems := by
      rw [hl]
      rcases List.mem_append.mp hd with hd | hd
      · exact List.mem_append_left _ hd
      · exact List.mem_append_right _ (List.mem_cons_of_mem e hd)
    rw [← h.member s S hs d hd]
    refine pop_same ?_ ?_ nofun nofun
    · cases y <;> exact nofun
    · cases x <;> exact nofun
  · have he : e ∈ S.elems := hl ▸ List.mem_append_right _ List.mem_cons_self
    refine pop_same ?_ ?_ ?_ ?_
    · rintro rfl
      rcases hycases with rfl | ⟨d, hd, rfl⟩
      · exact hw rfl
      · exact hw (hl ▸ List.mem_append_right _ (List.mem_cons_of_mem e hd))
    · rintro rfl
      rcases hxcases with rfl | ⟨d, hd, rfl⟩
      · exact hw rfl
      · exact hw (hl ▸ List.mem_append_left _ hd)
    · rintro rfl
      exact hw he
    · rintro rfl
      exact hw he

/-! ## What is read -/

/-- The record of an element is at its base. -/
theorem getBase (h : Represents m sets) (hs : sets s = some S) (he : e ∈ S.elems) :
    orderedElemGetBase m e = some (S.record (some e)) := by
  have hset : m.get (.set e) = s := h.member s S hs e he
  have he : (e : UInt64) ≠ NULL := (Place.elem e).ptr_ne_null
  unfold orderedElemGetBase
  rw [if_neg he]
  simp only [load_set, load_offset, hset, Option.bind_eq_bind, Option.bind_some, h.offset s S hs]
  rfl

/-- The end behind the last element is known by its `next`, which is `dummy`. -/
theorem read_next (h : Represents m sets) (hs : sets s = some S) {l₁ l₂ : List O.elems} (hl : S.elems = l₁ ++ l₂) :
    (load m ((l₂.map Place.elem).headD (.back s)).ptr nextField).bind (fun next =>
      if next ≠ NULL then orderedElemGetBase m ((l₂.map Place.elem).headD (.back s)).ptr else some NULL) =
        some (S.record l₂.head?) := by
  rw [load_next, Option.bind_some]
  cases l₂ with
  | nil => exact if_neg (not_not.mpr (h.dummy s S hs))
  | cons e l₂ =>
    have hon : m.get (.next e) = _ := (h.around hs hl).2.1
    have hmore : m.get (.next e) ≠ NULL := hon ▸ Place.ptr_ne_null _
    refine (if_pos hmore).trans (h.getBase hs ?_)
    rw [hl]
    exact List.mem_append_right _ List.mem_cons_self

/-- The end before the first element is known by its `prev`, which is `dummy` again. -/
theorem read_prev (h : Represents m sets) (hs : sets s = some S) {l₁ l₂ : List O.elems} (hl : S.elems = l₁ ++ l₂) :
    (load m ((l₁.map Place.elem).getLastD (.front s)).ptr prevField).bind (fun prev =>
      if prev ≠ NULL then orderedElemGetBase m ((l₁.map Place.elem).getLastD (.front s)).ptr else some NULL) =
        some (S.record l₁.getLast?) := by
  rw [load_prev, Option.bind_some]
  rcases List.eq_nil_or_concat' l₁ with rfl | ⟨l₁, e, rfl⟩
  · exact if_neg (not_not.mpr (h.dummy s S hs))
  · rw [List.map_append, List.map_singleton, List.getLastD_concat, List.getLast?_concat]
    rw [List.append_assoc] at hl
    have hback : m.get (.prev e) = _ := (h.around hs hl).1.2
    have hmore : m.get (.prev e) ≠ NULL := hback ▸ Place.ptr_ne_null _
    refine (if_pos hmore).trans (h.getBase hs ?_)
    rw [hl]
    exact List.mem_append_right _ List.mem_cons_self

theorem getHead (h : Represents m sets) (hs : sets s = some S) :
    orderedSetGetHead m s = some (S.record S.elems.head?) := by
  have hhead : m.get (.head s) = _ := (h.linked s S hs).first.1
  unfold orderedSetGetHead
  rw [load_head, hhead]
  exact h.read_next hs (show S.elems = [] ++ S.elems from rfl)

theorem getPredecessor (h : Represents m sets) (hs : sets s = some S) {l₁ l₂ : List O.elems}
    (hl : S.elems = l₁ ++ e :: l₂) : orderedElemGetPredecessor m e = some (S.record l₁.getLast?) := by
  have hprev : m.get (.prev e) = _ := (h.around hs hl).1.2
  unfold orderedElemGetPredecessor
  rw [load_elem_prev, hprev]
  exact h.read_prev hs hl

theorem getSuccessor (h : Represents m sets) (hs : sets s = some S) {l₁ l₂ : List O.elems}
    (hl : S.elems = l₁ ++ e :: l₂) : orderedElemGetSuccessor m e = some (S.record l₂.head?) := by
  have hnext : m.get (.next e) = _ := (h.around hs hl).2.1
  have hl : S.elems = (l₁ ++ [e]) ++ l₂ := by rw [hl, List.append_cons]
  unfold orderedElemGetSuccessor
  rw [load_elem_next, hnext]
  exact h.read_next hs hl

end Represents

end PostgresV7.Oset
