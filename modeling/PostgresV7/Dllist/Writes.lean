import PostgresV7.Dllist.Dllist

/-!
# What the calls write (`dllist.c`)

A call takes an element out from between two places, or puts it behind the header of a list, or
both. All other links are left alone.
-/

namespace PostgresV7.Dllist

open Links Outcomes

variable {m m' m₁ : Memory} {l e : Nat} {x y : Place}

/-- The element is between two places. -/
structure Between (m : Memory) (l e : Nat) (x y : Place) : Prop where
  left : Joined Place.ptr m.next m.prev x (.elem e)
  right : Joined Place.ptr m.next m.prev (.elem e) y
  before : x = .front l ∨ ∃ p, x = .elem p ∧ p ≠ NULL ∧ p ≠ e
  behind : y = .back l ∨ ∃ s, y = .elem s ∧ s ≠ NULL ∧ s ≠ e
  list : m.dleList e = l
  header : l ≠ NULL
  elem : e ≠ NULL

/-- The element is taken out from between `x` and `y`. -/
structure Removes (m : Memory) (e : Nat) (x y : Place) (m' : Memory) : Prop where
  left : m'.next x = m.dleNext e
  right : m'.prev y = m.dlePrev e
  next : ∀ z, z ≠ x → z ≠ .elem e → m'.next z = m.next z
  prev : ∀ z, z ≠ y → z ≠ .elem e → m'.prev z = m.prev z
  gone : m'.dleNext e = NULL ∧ m'.dlePrev e = NULL
  list : m'.dleList = Function.update m.dleList e NULL

/-- The element is put between `x` and `y`, as one of the list `l`. -/
structure Inserts (m : Memory) (l e : Nat) (x y : Place) (m' : Memory) : Prop where
  left : Joined Place.ptr m'.next m'.prev x (.elem e)
  right : Joined Place.ptr m'.next m'.prev (.elem e) y
  next : ∀ z, z ≠ x → z ≠ .elem e → m'.next z = m.next z
  prev : ∀ z, z ≠ y → z ≠ .elem e → m'.prev z = m.prev z
  list : m'.dleList = Function.update m.dleList e l

/-- There is one way to put an element somewhere. -/
theorem Inserts.unique (h : Inserts m l e x y m₁) (h' : Inserts m l e x y m') : m₁ = m' := by
  apply Memory.ext_places
  · funext z
    by_cases hx : z = x
    · rw [hx, h.left.1, h'.left.1]
    · by_cases he : z = .elem e
      · rw [he, h.right.1, h'.right.1]
      · rw [h.next z hx he, h'.next z hx he]
  · funext z
    by_cases hy : z = y
    · rw [hy, h.right.2, h'.right.2]
    · by_cases he : z = .elem e
      · rw [he, h.left.2, h'.left.2]
      · rw [h.prev z hy he, h'.prev z hy he]
  · rw [h.list, h'.list]

namespace Between

variable (h : Between m l e x y)

include h

theorem before_ne : x ≠ .elem e := by
  rcases h.before with rfl | ⟨p, rfl, -, hne⟩
  · exact nofun
  · exact fun heq => hne (Place.elem.inj heq)

theorem behind_ne : y ≠ .elem e := by
  rcases h.behind with rfl | ⟨s, rfl, -, hne⟩
  · exact nofun
  · exact fun heq => hne (Place.elem.inj heq)

theorem before_ne_back (l' : Nat) : x ≠ .back l' := by
  rcases h.before with rfl | ⟨p, rfl, -⟩ <;> exact nofun

theorem behind_ne_front (l' : Nat) : y ≠ .front l' := by
  rcases h.behind with rfl | ⟨s, rfl, -⟩ <;> exact nofun

theorem unlinkPrev : Dllist.unlinkPrev m l e = .ok (m.linkNext x (m.dleNext e)) := by
  have hback : m.dlePrev e = x.ptr := h.left.2
  have hon : m.next x = e := h.left.1
  unfold Dllist.unlinkPrev
  rw [hback]
  rcases h.before with rfl | ⟨p, rfl, hp, -⟩
  · rw [if_neg (show ¬ Place.ptr (.front l) ≠ NULL from not_not.mpr rfl), deref, if_neg h.header, assert,
      if_pos (show e = m.dllHead l from hon.symm)]
    rfl
  · rw [if_pos (show Place.ptr (.elem p) ≠ NULL from hp)]
    rfl

theorem unlinkNext (m' : Memory) (hnext : m'.dleNext e = m.dleNext e) (hprev : m'.prev = m.prev) :
    Dllist.unlinkNext m' l e = .ok (m'.linkPrev y (m.dlePrev e)) := by
  have hon : m.dleNext e = y.ptr := h.right.1
  have hback : m.prev y = e := h.right.2
  have hdlePrev : m'.dlePrev e = m.dlePrev e := congrFun hprev (.elem e)
  unfold Dllist.unlinkNext
  rw [hnext, hon, hdlePrev]
  rcases h.behind with rfl | ⟨s, rfl, hs, -⟩
  · have htail : e = m'.dllTail l := by
      rw [← hback, ← hprev]
      rfl
    rw [if_neg (show ¬ Place.ptr (.back l) ≠ NULL from not_not.mpr rfl), deref, if_neg h.header, assert, if_pos htail]
    rfl
  · rw [if_pos (show Place.ptr (.elem s) ≠ NULL from hs)]
    rfl

/-- `DLRemove` takes the element out. -/
theorem dlRemove : ∃ m', Dllist.dlRemove m e = .ok m' ∧ Removes m e x y m' := by
  have hnext : (m.linkNext x (m.dleNext e)).next = Function.update m.next x (m.dleNext e) :=
    m.next_linkNext h.before_ne_back _
  have hkept : (m.linkNext x (m.dleNext e)).dleNext e = m.dleNext e := by
    have hkept := congrFun hnext (.elem e)
    rwa [Function.update_of_ne h.before_ne.symm] at hkept
  have hrest := h.unlinkNext (m.linkNext x (m.dleNext e)) hkept (m.prev_linkNext x _)
  let m₂ := (m.linkNext x (m.dleNext e)).linkPrev y (m.dlePrev e)
  have hrun : Dllist.dlRemove m e = .ok (((m₂.linkNext (.elem e) NULL).linkPrev (.elem e) NULL).setList e NULL) := by
    unfold Dllist.dlRemove
    rw [h.list, deref, if_neg h.elem, ok_bind]
    dsimp only
    rw [h.unlinkPrev, ok_bind, hrest]
    rfl
  have hnext₂ : m₂.next = Function.update m.next x (m.dleNext e) := (Memory.next_linkPrev _ y _).trans hnext
  have hprev₂ : m₂.prev = Function.update m.prev y (m.dlePrev e) := by
    rw [Memory.prev_linkPrev _ h.behind_ne_front, Memory.prev_linkNext]
  have hnext' : (((m₂.linkNext (.elem e) NULL).linkPrev (.elem e) NULL).setList e NULL).next =
      Function.update m₂.next (.elem e) NULL := by
    show ((m₂.linkNext (.elem e) NULL).linkPrev (.elem e) NULL).next = _
    rw [Memory.next_linkPrev, Memory.next_linkNext _ (elem_ne_back e)]
  have hprev' : (((m₂.linkNext (.elem e) NULL).linkPrev (.elem e) NULL).setList e NULL).prev =
      Function.update m₂.prev (.elem e) NULL := by
    show ((m₂.linkNext (.elem e) NULL).linkPrev (.elem e) NULL).prev = _
    rw [Memory.prev_linkPrev _ (elem_ne_front e), Memory.prev_linkNext]
  refine ⟨_, hrun, ?_, ?_, fun z hx he => ?_, fun z hy he => ?_, ⟨?_, ?_⟩, ?_⟩
  · rw [hnext', Function.update_of_ne h.before_ne, hnext₂, Function.update_self]
  · rw [hprev', Function.update_of_ne h.behind_ne, hprev₂, Function.update_self]
  · rw [hnext', Function.update_of_ne he, hnext₂, Function.update_of_ne hx]
  · rw [hprev', Function.update_of_ne he, hprev₂, Function.update_of_ne hy]
  · exact (congrFun hnext' (.elem e)).trans (Function.update_self _ _ _)
  · exact (congrFun hprev' (.elem e)).trans (Function.update_self _ _ _)
  · have hlist : m₂.dleList = m.dleList := by
      cases x <;> cases y <;> rfl
    show Function.update m₂.dleList e NULL = _
    rw [hlist]

end Between

/-! ## At the head -/

/-- A list header leads to the place behind it. -/
structure Ahead (m : Memory) (l e : Nat) (y : Place) : Prop where
  head : m.dllHead l = y.ptr
  behind : y = .back l ∨ ∃ s, y = .elem s ∧ s ≠ NULL ∧ s ≠ e
  tail : m.dllTail l = NULL ↔ y = .back l

theorem Ahead.behind_ne (h : Ahead m l e y) : y ≠ .elem e := by
  rcases h.behind with rfl | ⟨s, rfl, -, hne⟩
  · exact nofun
  · exact fun heq => hne (Place.elem.inj heq)

theorem Ahead.behind_ne_front (h : Ahead m l e y) (l' : Nat) : y ≠ .front l' := by
  rcases h.behind with rfl | ⟨s, rfl, -⟩ <;> exact nofun

/-- The element with its links, and theirs to it. -/
def Memory.put (m : Memory) (l e : Nat) (y : Place) : Memory :=
  ((((m.setList e l).linkPrev y e).linkNext (.elem e) y.ptr).linkPrev (.elem e) NULL).linkNext (.front l) e

theorem put_inserts (m : Memory) (l : Nat) (hne : y ≠ .elem e) (hfront : ∀ l', y ≠ .front l') :
    Inserts m l e (.front l) y (m.put l e y) := by
  have hnext : (m.put l e y).next = Function.update (Function.update m.next (.elem e) y.ptr) (.front l) e := by
    unfold Memory.put
    rw [Memory.next_linkNext _ (front_ne_back l), Memory.next_linkPrev, Memory.next_linkNext _ (elem_ne_back e),
      Memory.next_linkPrev]
    rfl
  have hprev : (m.put l e y).prev = Function.update (Function.update m.prev y e) (.elem e) NULL := by
    unfold Memory.put
    rw [Memory.prev_linkNext, Memory.prev_linkPrev _ (elem_ne_front e), Memory.prev_linkNext,
      Memory.prev_linkPrev _ hfront]
    rfl
  refine ⟨⟨?_, ?_⟩, ⟨?_, ?_⟩, fun z hx he => ?_, fun z hy he => ?_, ?_⟩
  · rw [hnext, Function.update_self]
    rfl
  · rw [hprev, Function.update_self]
    rfl
  · rw [hnext, Function.update_of_ne (elem_ne_front e l), Function.update_self]
  · rw [hprev, Function.update_of_ne hne, Function.update_self]
    rfl
  · rw [hnext, Function.update_of_ne hx, Function.update_of_ne he]
  · rw [hprev, Function.update_of_ne he, Function.update_of_ne hy]
  · cases y <;> rfl

theorem Ahead.inserts (h : Ahead m l e y) : Inserts m l e (.front l) y (m.put l e y) :=
  put_inserts m l h.behind_ne h.behind_ne_front

/-- `DLAddHead` puts the element behind the header. -/
theorem Ahead.dlAddHead (h : Ahead m l e y) (hl : l ≠ NULL) (he : e ≠ NULL) :
    Dllist.dlAddHead m l e = .ok (m.put l e y) := by
  unfold Dllist.dlAddHead
  rw [deref, if_neg hl, ok_bind, deref, if_neg he, ok_bind]
  have htail := h.tail
  rcases h.behind with rfl | ⟨s, rfl, hs, hne⟩
  · have hhead : (m.setList e l).dllHead l = NULL := h.head
    have hnil : (m.setList e l).dllTail l = NULL := htail.mpr rfl
    dsimp only
    rw [if_neg (not_not.mpr hhead), hhead]
    exact congrArg Except.ok (if_pos hnil)
  · have hhead : (m.setList e l).dllHead l = s := h.head
    have hhead' : ((m.setList e l).setPrev s e).dllHead l = s := hhead
    have hmore : (m.setList e l).dllTail l ≠ NULL := fun hnil => elem_ne_back s l (htail.mp hnil)
    dsimp only
    rw [hhead, if_pos hs, hhead']
    exact congrArg Except.ok (if_neg hmore)

/-- `DLRemHead` takes out the element behind the header. -/
theorem Between.dlRemHead (h : Between m l e (.front l) y) (htail : m.dllTail l = e ↔ y = .back l) :
    ∃ m', Dllist.dlRemHead m l = .ok (e, m') ∧ Removes m e (.front l) y m' := by
  have hhead : m.dllHead l = e := h.left.1
  have hback : m.dlePrev e = NULL := h.left.2
  have hon : m.dleNext e = y.ptr := h.right.1
  let m₂ := (m.linkPrev y NULL).linkNext (.front l) (m.dleNext e)
  have hrun : Dllist.dlRemHead m l = .ok (e, (m₂.linkNext (.elem e) NULL).setList e NULL) := by
    unfold Dllist.dlRemHead
    rw [deref, if_neg h.header, ok_bind]
    dsimp only
    rw [hhead, if_neg h.elem]
    rcases h.behind with rfl | ⟨s, rfl, hs, hne⟩
    · have hlast : e = (m.setHead l (m.dleNext e)).dllTail l := (htail.mpr rfl).symm
      rw [if_neg (show ¬ m.dleNext e ≠ NULL from not_not.mpr hon), if_pos hlast]
      rfl
    · have hlast : ¬ e = ((m.setPrev s NULL).setHead l s).dllTail l :=
        fun heq => elem_ne_back s l (htail.mp heq.symm)
      have hnext : m.dleNext e = s := hon
      have hnext' : (m.setPrev s NULL).dleNext e = s := hon
      rw [hnext, if_pos hs, hnext', if_neg hlast]
      show _ = Except.ok (e, _)
      rw [show m₂ = (m.setPrev s NULL).setHead l s from congrArg (fun v => (m.setPrev s NULL).setHead l v) hnext]
      rfl
  have hnext₂ : m₂.next = Function.update m.next (.front l) (m.dleNext e) := by
    rw [Memory.next_linkNext _ (front_ne_back l), Memory.next_linkPrev]
  have hprev₂ : m₂.prev = Function.update m.prev y NULL := by
    rw [Memory.prev_linkNext, Memory.prev_linkPrev _ h.behind_ne_front]
  have hnext' : ((m₂.linkNext (.elem e) NULL).setList e NULL).next = Function.update m₂.next (.elem e) NULL :=
    m₂.next_linkNext (elem_ne_back e) NULL
  have hprev' : ((m₂.linkNext (.elem e) NULL).setList e NULL).prev = m₂.prev :=
    m₂.prev_linkNext (.elem e) NULL
  refine ⟨_, hrun, ?_, ?_, fun z hx he => ?_, fun z hy he => ?_, ⟨?_, ?_⟩, ?_⟩
  · rw [hnext', Function.update_of_ne (elem_ne_front e l).symm, hnext₂, Function.update_self]
  · rw [hprev', hprev₂, Function.update_self, hback]
  · rw [hnext', Function.update_of_ne he, hnext₂, Function.update_of_ne hx]
  · rw [hprev', hprev₂, Function.update_of_ne hy]
  · exact (congrFun hnext' (.elem e)).trans (Function.update_self _ _ _)
  · have hkept := congrFun (hprev'.trans hprev₂) (.elem e)
    rw [Function.update_of_ne h.behind_ne.symm] at hkept
    exact hkept.trans hback
  · have hlist : m₂.dleList = m.dleList := by
      cases y <;> rfl
    show Function.update m₂.dleList e NULL = _
    rw [hlist]

/-- What was in the links of the element does not matter when it is put somewhere. -/
theorem put_congr (hne : y ≠ .elem e) (hfront : ∀ l', y ≠ .front l') (hnext : ∀ z, z ≠ .elem e → m₁.next z = m.next z)
    (hprev : ∀ z, z ≠ .elem e → m₁.prev z = m.prev z) (hlist : ∀ d, d ≠ e → m₁.dleList d = m.dleList d) :
    m₁.put l e y = m.put l e y := by
  have hput := put_inserts m l hne hfront
  refine (put_inserts m₁ l hne hfront).unique ⟨hput.left, hput.right, fun z hx he => ?_, fun z hy he => ?_, ?_⟩
  · rw [hput.next z hx he, hnext z he]
  · rw [hput.prev z hy he, hprev z he]
  · rw [hput.list]
    funext d
    by_cases hd : d = e
    · rw [hd, Function.update_self, Function.update_self]
    · rw [Function.update_of_ne hd, Function.update_of_ne hd, hlist d hd]

theorem Removes.next_of (h : Removes m e x y m₁) (hm' : m'.next = Function.update m.next x (m.dleNext e))
    {z : Place} (hz : z ≠ .elem e) : m₁.next z = m'.next z := by
  rw [hm']
  by_cases hx : z = x
  · rw [hx, Function.update_self, h.left]
  · rw [Function.update_of_ne hx, h.next z hx hz]

theorem Removes.prev_of (h : Removes m e x y m₁) (hm' : m'.prev = Function.update m.prev y (m.dlePrev e))
    {z : Place} (hz : z ≠ .elem e) : m₁.prev z = m'.prev z := by
  rw [hm']
  by_cases hy : z = y
  · rw [hy, Function.update_self, h.right]
  · rw [Function.update_of_ne hy, h.prev z hy hz]

/-- An element that is the first one is put where it was. -/
theorem Between.put_first {f : Place} (h : Between m l e (.front l) y) (hremoved : Removes m e (.front l) y m₁)
    (hahead : Ahead m₁ l e f) : m = m₁.put l e f := by
  have hsame : f = y := by
    have hptr : f.ptr = y.ptr := hahead.head.symm.trans (hremoved.left.trans h.right.1)
    rcases hahead.behind with rfl | ⟨d, rfl, hd, -⟩ <;> rcases h.behind with rfl | ⟨s, rfl, hs, -⟩
    · rfl
    · exact absurd hptr.symm hs
    · exact absurd hptr hd
    · exact congrArg Place.elem hptr
  subst hsame
  refine Inserts.unique ⟨h.left, h.right, fun z hx he => ?_, fun z hy he => ?_, ?_⟩ hahead.inserts
  · exact (hremoved.next z hx he).symm
  · exact (hremoved.prev z hy he).symm
  · rw [hremoved.list, Function.update_idem, ← h.list, Function.update_eq_self]

/-- The links of `DLMoveToFront` past an element that is not the first one. -/
theorem Between.unlink {p : Nat} (h : Between m l e (.elem p) y) (hne : p ≠ e) : ∃ m₂,
    Dllist.unlinkNext (m.setNext p (m.dleNext e)) l e = .ok m₂ ∧
    m₂.next = Function.update m.next (.elem p) (m.dleNext e) ∧ m₂.prev = Function.update m.prev y (m.dlePrev e) ∧
    m₂.dleList = m.dleList := by
  have hnext₁ : (m.setNext p (m.dleNext e)).next = Function.update m.next (.elem p) (m.dleNext e) :=
    m.next_linkNext (elem_ne_back p) (m.dleNext e)
  have hkept : (m.setNext p (m.dleNext e)).dleNext e = m.dleNext e := Function.update_of_ne hne.symm _ _
  refine ⟨_, h.unlinkNext _ hkept (m.prev_linkNext (.elem p) _), (Memory.next_linkPrev _ y _).trans hnext₁, ?_, ?_⟩
  · rw [Memory.prev_linkPrev _ h.behind_ne_front]
    exact congrArg (fun g => Function.update g y (m.dlePrev e)) (m.prev_linkNext (.elem p) _)
  · cases y <;> rfl

/-- `DLMoveToFront` makes what `DLAddHead` makes of the list without the element. -/
theorem Between.dlMoveToFront {f : Place} (h : Between m l e x y) (hremoved : Removes m e x y m₁)
    (hahead : Ahead m₁ l e f) (hfirst : m.dllHead l = e ↔ x = .front l) (hhead : m.dllHead l ≠ NULL) :
    Dllist.dlMoveToFront m e = .ok (m₁.put l e f) := by
  unfold Dllist.dlMoveToFront
  rw [deref, if_neg h.elem, ok_bind]
  dsimp only
  rw [h.list, deref, if_neg h.header, ok_bind]
  by_cases heq : m.dllHead l = e
  · obtain rfl := hfirst.mp heq
    rw [if_pos heq]
    exact congrArg Except.ok (h.put_first hremoved hahead)
  · obtain ⟨p, rfl, hp, hne⟩ := h.before.resolve_left fun hx => heq (hfirst.mpr hx)
    have hprev : m.dlePrev e = p := h.left.2
    obtain ⟨m₂, hrun, hnext₂, hprev₂, hlist₂⟩ := h.unlink hne
    have hhead₂ : m₂.dllHead l = m.dllHead l := by
      have hkept := congrFun hnext₂ (.front l)
      rwa [Function.update_of_ne (elem_ne_front p l).symm] at hkept
    have hf : f.ptr = m.dllHead l := by
      rw [← hhead₂, ← hahead.head]
      exact hremoved.next_of hnext₂ (elem_ne_front e l).symm
    obtain ⟨s, rfl, hs, -⟩ : ∃ s, f = .elem s ∧ s ≠ NULL ∧ s ≠ e := by
      refine hahead.behind.resolve_left ?_
      rintro rfl
      exact hhead hf.symm
    have hhead₂ : m₂.dllHead l = s := hhead₂.trans hf.symm
    have hput : m₁.put l e (.elem s) = m₂.put l e (.elem s) := by
      refine put_congr hahead.behind_ne hahead.behind_ne_front (fun z => hremoved.next_of hnext₂)
        (fun z => hremoved.prev_of hprev₂) fun d hd => ?_
      rw [hlist₂, hremoved.list, Function.update_of_ne hd]
    have hset : m₂.setList e l = m₂ := by
      unfold Memory.setList
      rw [← h.list, ← hlist₂, Function.update_eq_self]
    rw [if_neg heq, assert, if_pos (hprev ▸ hp), ok_bind, hprev, hrun, ok_bind, deref, if_neg (hhead₂ ▸ hs), ok_bind]
    rw [hput, Memory.put, hset, hhead₂, show (m₂.setPrev s e).dllHead l = s from hhead₂]
    rfl

/-! ## The other way round -/

def Place.flip : Place → Place
  | .front l => .back l
  | .elem e => .elem e
  | .back l => .front l

/-- Heads are tails, and what is next is what was before. -/
def Memory.flip (m : Memory) : Memory :=
  { m with dleNext := m.dlePrev, dlePrev := m.dleNext, dllHead := m.dllTail, dllTail := m.dllHead }

theorem Place.ptr_flip (x : Place) : x.flip.ptr = x.ptr := by
  cases x <;> rfl

theorem Memory.next_flip (m : Memory) (x : Place) : m.flip.next x.flip = m.prev x := by
  cases x <;> rfl

theorem Memory.prev_flip (m : Memory) (x : Place) : m.flip.prev x.flip = m.next x := by
  cases x <;> rfl

/-- `DLAddTail` is `DLAddHead` the other way round. -/
theorem dlAddTail_flip (m : Memory) (l e : Nat) : dlAddTail m l e = (dlAddHead m.flip l e).map Memory.flip := by
  unfold dlAddTail dlAddHead deref
  by_cases hl : l = NULL
  · rw [if_pos hl]
    rfl
  · rw [if_neg hl, ok_bind, ok_bind]
    by_cases he : e = NULL
    · rw [if_pos he]
      rfl
    · rw [if_neg he, ok_bind, ok_bind]
      -- the two tests read the same fields on both sides
      by_cases htail : m.dllTail l = NULL <;> by_cases hhead : m.dllHead l = NULL <;>
        simp only [Memory.setList, Memory.setNext, Memory.setPrev, Memory.setHead, Memory.setTail, Memory.flip, htail,
          hhead, Except.map, ne_eq, not_true_eq_false, not_false_eq_true, if_true, if_false]

theorem dlRemTail_flip (m : Memory) (l : Nat) :
    dlRemTail m l = (dlRemHead m.flip l).map fun r => (r.1, r.2.flip) := by
  unfold dlRemTail dlRemHead deref
  by_cases hl : l = NULL
  · rw [if_pos hl]
    rfl
  · rw [if_neg hl, ok_bind, ok_bind]
    show (if m.dllTail l = NULL then _ else _) = Except.map _ (if m.dllTail l = NULL then _ else _)
    by_cases htail : m.dllTail l = NULL
    · rw [if_pos htail, if_pos htail]
      rfl
    · rw [if_neg htail, if_neg htail]
      -- the two tests read the same fields on both sides
      by_cases hprev : m.dlePrev (m.dllTail l) = NULL <;>
        simp only [Memory.setList, Memory.setNext, Memory.setPrev, Memory.setHead, Memory.setTail, Memory.flip, hprev,
          Except.map, ne_eq, not_true_eq_false, not_false_eq_true, if_true, if_false] <;>
        by_cases hlast : m.dllTail l = m.dllHead l <;> simp only [hlast, if_true, if_false]

end PostgresV7.Dllist
