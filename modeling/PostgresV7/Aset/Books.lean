import PostgresV7.Aset.Session

/-!
# The blocks a set has

What a set got from `malloc` and has not given to `free` is in its list of blocks, each
block once.
-/

namespace PostgresV7.Aset.Debug

open Chains Ledgers Runs

variable {M : Libc} {s s' s₀ : Image} {L L' : Layout} {node : Nat}

/-- Since `s₀` the blocks in `bs` were obtained and not given back; nothing was given back
that was not held, and these are the blocks in the list. -/
structure Balanced (s₀ s : Image) (bs : List Nat) : Prop where
  linked : Linked id 0 s.st.mem.next s.st.set.blocks bs
  nodup : bs.Nodup
  settles : ∃ es, s.ledger = es ++ s₀.ledger ∧ Settles es [] bs ∧
    ∀ p, bs.count p + losses p es = gains p es

/-- The books balance at each address. -/
theorem settles_count {es : List (Entry Nat)} {bs : List Nat} (h : Settles es [] bs) (p : Nat) :
    bs.count p + losses p es = gains p es := by
  obtain ⟨out, hout, hperm⟩ := h
  have hcount := settle_count p hout
  rw [← hperm.count_eq]
  simpa using hcount

theorem Balanced.of_sane (h : Sane s L)
    (hes : ∃ es, s.ledger = es ++ s₀.ledger ∧ Settles es [] L.blocks) : Balanced s₀ s L.blocks := by
  obtain ⟨es, hledger, hset⟩ := hes
  exact ⟨h.marked.shape.linked, h.marked.shape.linked.nodup, es, hledger, hset, settles_count hset⟩

/-- What was held goes on being accounted for. -/
theorem settles_trans {bs bs' : List Nat} (h : ∃ es, s.ledger = es ++ s₀.ledger ∧ Settles es [] bs)
    (h' : ∃ es, s'.ledger = es ++ s.ledger ∧ Settles es bs bs') :
    ∃ es, s'.ledger = es ++ s₀.ledger ∧ Settles es [] bs' := by
  obtain ⟨es, hes, hset⟩ := h
  obtain ⟨es', hes', hset'⟩ := h'
  exact ⟨es' ++ es, by rw [hes', hes, List.append_assoc], hset.trans hset'⟩

/-! ## Over a run -/

/-- Between two events, with the calls since `s₀`. -/
structure Booked (s₀ : Image) (keeper : Nat) (L : Layout) (s : Session) : Prop where
  sane : Sane s.image L
  held : Held L s
  keeper : s.image.st.set.keeper = keeper
  settles : ∃ es, s.image.ledger = es ++ s₀.ledger ∧ Settles es [] L.blocks

theorem Booked.step {s s' : Session} {ev : Event} {keeper : Nat} (h : Booked s₀ keeper L s)
    (hs : Step M s ev s') : ∃ L', Booked s₀ keeper L' s' := by
  obtain ⟨L', hf⟩ := hs.follows h.sane h.held
  exact ⟨L', hf.sane, hf.held, hf.keeper.trans h.keeper, settles_trans h.settles hf.settles⟩

theorem Created.booked (h : Created s₀ node s) :
    Booked s₀ s.st.set.keeper (Layout.empty s.st.set.keeper) ⟨s, []⟩ :=
  ⟨h.sane, ⟨⟨List.nodup_nil, fun _ hx => absurd hx List.not_mem_nil⟩,
    fun _ hx => absurd hx List.not_mem_nil⟩, rfl, h.settles⟩

theorem Created.run_booked (h : Created s₀ node s) {s' : Session} {l : List Event}
    (hrun : Run (Step M) ⟨s, []⟩ l s') : ∃ L, Booked s₀ s.st.set.keeper L s' := by
  refine hrun.invariant (I := fun s' => ∃ L, Booked s₀ s.st.set.keeper L s') ?_ ⟨_, h.booked⟩
  intro s₁ ev s₂ ⟨L, hL⟩ hstep
  exact hL.step hstep

/-- A reset gives back all blocks but the keeper, and empties that. -/
theorem Booked.reset {s : Session} {keeper : Nat} (h : Booked s₀ keeper L s) :
    ∃ s₁, allocSetReset s.image = .ok s₁ ∧ Balanced s₀ s₁ (if keeper = 0 then [] else [keeper]) ∧
      (keeper ≠ 0 → s₁.st.mem.freeptr keeper = keeper + ALLOC_BLOCK_HDR_SZ) ∧
      ∀ k < ALLOC_SET_NUM_FREELISTS, s₁.st.set.freelist k = 0 := by
  obtain ⟨s₁, hreset, hsane, ht, hfree⟩ := allocSetReset_spec h.sane
  have hkeeper : s₁.st.set.keeper = keeper := ht.keeper.trans h.keeper
  have hbalanced := Balanced.of_sane hsane (settles_trans h.settles ht.settles)
  rw [h.keeper] at hfree
  rw [hkeeper] at hbalanced
  exact ⟨s₁, hreset, hbalanced, hfree, fun k hk => hsane.marked.shape.lists k hk⟩

/-- Deleting the set gives back everything. -/
theorem Booked.delete {s : Session} {keeper : Nat} (h : Booked s₀ keeper L s) :
    ∃ s₂, allocSetDelete s.image = .ok s₂ ∧ Balanced s₀ s₂ [] := by
  obtain ⟨s₂, hdelete, hd⟩ := allocSetDelete_spec h.sane
  obtain ⟨es, hledger, hset⟩ := settles_trans h.settles hd.settles
  exact ⟨s₂, hdelete, hd.blocks, List.nodup_nil, es, hledger, hset, settles_count hset⟩

end PostgresV7.Aset.Debug
