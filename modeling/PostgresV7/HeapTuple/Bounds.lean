import PostgresV7.HeapTuple.Form

/-!
# What `data_fill` writes

`compute_data_size` reserves room for the attributes marked `' '`, `data_fill` stores
those not marked `'n'`. The two agree on the data when both add up to the same and the
sum does not wrap; then nothing else is written.
-/

namespace PostgresV7.Heap

open ByteMem Align

variable {src raw : Mem} {chunk : Nat} {desc : TupleDesc} {value : Nat → Datum} {nulls : Nat → Char}

/-! ## The call -/

/-- The call of `data_fill` in `heap_form_tuple`. -/
def dataFillCall (src raw : Mem) (chunk : Nat) (desc : TupleDesc) (value : Nat → Datum)
    (nulls : Nat → Char) : Except FormFailure FillState :=
  let td := chunk + HEAP_TUPLE_SIZE
  let hoff := headerLen desc.natts (hasNull desc nulls)
  let len := hoff + computeDataSize src desc value nulls desc.natts 0 0
  dataFill src td (td + len) desc value nulls (hasNull desc nulls) desc.natts 0
    (fillStart raw td len desc.natts hoff)

theorem heapFormTuple_eq_call (hle : desc.natts ≤ MAX_HEAP_ATTRIBUTE_NUMBER)
    (href : ¬ Refused src desc value nulls) :
    heapFormTuple src raw chunk desc value nulls =
      (dataFillCall src raw chunk desc value nulls).map (finish (chunk + HEAP_TUPLE_SIZE)
        (headerLen desc.natts (hasNull desc nulls) +
          computeDataSize src desc value nulls desc.natts 0 0)) := by
  unfold dataFillCall
  rw [heapFormTuple_eq hle rfl rfl, computeDataSize_all]
  exact if_neg href

/-- The bytes between `td` and the data that belong to the bitmap. -/
def bitmapRoom (desc : TupleDesc) (nulls : Nat → Char) : Nat :=
  if hasNull desc nulls then bitMapLen desc.natts else 0

/-- `data_fill` ends `size` bytes into the data, and the bytes that are neither data nor
bitmap are as they were in `m`. -/
structure StaysInside (td hoff size bitmap : Nat) (m : Mem) (s : FillState) : Prop where
  advance : s.data = td + hoff + size
  outside : ∀ a, a < td + hoff ∨ td + hoff + size ≤ a →
    a < td + OFFSET_T_BITS ∨ td + OFFSET_T_BITS + bitmap ≤ a → s.mem a = m a

/-- The call writes what was reserved, and all of it. -/
def FillsReserved (src raw : Mem) (chunk : Nat) (desc : TupleDesc) (value : Nat → Datum)
    (nulls : Nat → Char) : Prop :=
  let td := chunk + HEAP_TUPLE_SIZE
  let hoff := headerLen desc.natts (hasNull desc nulls)
  let size := computeDataSize src desc value nulls desc.natts 0 0
  ∃ s, dataFillCall src raw chunk desc value nulls = .ok s ∧
    StaysInside td hoff size (bitmapRoom desc nulls) (clearedTuple raw td (hoff + size) desc.natts hoff) s

/-! ## The marks -/

/-- The marks as `data_fill` takes them. -/
def asFilled (nulls : Nat → Char) (i : Nat) : Char := if nulls i = 'n' then 'n' else ' '

theorem asFilled_flag (nulls : Nat → Char) (i : Nat) :
    asFilled nulls i = ' ' ∨ asFilled nulls i = 'n' := by
  unfold asFilled
  split
  · exact .inr rfl
  · exact .inl rfl

theorem asFilled_eq_n {i : Nat} : asFilled nulls i = 'n' ↔ nulls i = 'n' := by
  unfold asFilled
  split
  · rename_i h
    exact iff_of_true rfl h
  · rename_i h
    exact iff_of_false (by decide) h

theorem asFilled_of_blank {i : Nat} (h : nulls i = ' ') : asFilled nulls i = ' ' := by
  unfold asFilled
  rw [h]
  rfl

/-- `data_fill` only asks which marks are `'n'`. -/
theorem dataFill_asFilled {base limit : Nat} {bit : Bool} (k i : Nat) (s : FillState) :
    dataFill src base limit desc value nulls bit k i s =
      dataFill src base limit desc value (asFilled nulls) bit k i s := by
  induction k generalizing i s with
  | zero => rfl
  | succ k ih =>
    have hone : fillOne src base limit desc value nulls bit s i =
        fillOne src base limit desc value (asFilled nulls) bit s i := by
      unfold fillOne
      by_cases hn : nulls i = 'n'
      · simp only [hn, asFilled_eq_n.mpr hn]
      · simp only [hn, mt asFilled_eq_n.mp hn]
    rw [dataFill, dataFill, hone]
    congr 1
    funext s'
    exact ih (i + 1) s'

/-- What is stored takes at least the room of what is counted. -/
theorem dataStop_le_asFilled (src : Mem) (desc : TupleDesc) (value : Nat → Datum)
    (nulls : Nat → Char) (n : Nat) :
    dataStop src desc value nulls n ≤ dataStop src desc value (asFilled nulls) n := by
  refine Layout.stop_le_of_skip (fun k => (desc.att k).attalign.width_pos) fun i _ h => ?_
  by_contra hblank
  have hmark : nulls i = ' ' := by simpa using hblank
  rw [asFilled_of_blank hmark] at h
  exact absurd h (by decide)

/-! ## What is written -/

/-- Bitmap bytes of the attributes there are lie in the bitmap. -/
theorem lt_bitMapLen {natts j : Nat} (h : j < natts) : j / 8 < bitMapLen natts := by
  have hshift : (natts - 1) >>> 3 = (natts - 1) / 8 := Nat.shiftRight_eq_div_pow _ 3
  unfold bitMapLen
  rw [hshift]
  omega

/-- Either a value does not fit in what was reserved, or nothing else is written. -/
theorem dataFillCall_cases (src raw : Mem) (value : Nat → Datum) (nulls : Nat → Char)
    (hle : desc.natts ≤ MAX_HEAP_ATTRIBUTE_NUMBER) (haligned : 16 ∣ chunk) :
    (dataStop src desc value nulls desc.natts % 2 ^ 32 <
        dataStop src desc value (asFilled nulls) desc.natts ∧
      dataFillCall src raw chunk desc value nulls = .error .overrun) ∨
    (dataStop src desc value (asFilled nulls) desc.natts =
        dataStop src desc value nulls desc.natts % 2 ^ 32 ∧
      FillsReserved src raw chunk desc value nulls) := by
  obtain ⟨hdvd, hlow, hhigh, hroom⟩ := headerLen_spec hle (hasNull desc nulls)
  unfold FillsReserved
  dsimp only
  unfold dataFillCall
  dsimp only
  rw [computeDataSize_all, dataFill_asFilled]
  generalize hhoff : headerLen desc.natts (hasNull desc nulls) = hoff at hdvd hlow hhigh hroom ⊢
  generalize hsize : dataStop src desc value nulls desc.natts % 2 ^ 32 = size
  have hdata : 8 ∣ chunk + HEAP_TUPLE_SIZE + hoff := by
    unfold HEAP_TUPLE_SIZE
    omega
  have hnobit : hasNull desc nulls = false → ∀ j, j < 0 + desc.natts → asFilled nulls j = ' ' := by
    intro hb j hj
    have hall := List.any_eq_false.mp hb j (List.mem_range.mpr (by omega))
    exact asFilled_of_blank (by simpa using hall)
  rcases dataFill_cases desc.natts 0 _ (fillInv_fillStart hhigh (Nat.le_add_right hoff size)) hdata hlow
    (by omega) (fun j _ => asFilled_flag nulls j) hnobit (fun hb j hj => hroom hb j (by omega)) with
    ⟨hover, he⟩ | ⟨s, he, hf, hmem⟩
  · rw [Nat.zero_add] at hover
    exact .inl ⟨by omega, he⟩
  · rw [Nat.zero_add] at hf hmem
    have hend := hf.1.data
    have hfit := hf.1.le
    have hmono := dataStop_le_asFilled src desc value nulls desc.natts
    have hmod := Nat.mod_le (dataStop src desc value nulls desc.natts) (2 ^ 32)
    refine .inr ⟨by omega, s, he, by omega, fun a hout hbits => ?_⟩
    refine hmem a ⟨by omega, fun hb j hj => ?_⟩
    have hbyte := lt_bitMapLen hj
    unfold bitmapRoom at hbits
    rw [if_pos hb] at hbits
    omega

theorem not_fillsReserved (hle : desc.natts ≤ MAX_HEAP_ATTRIBUTE_NUMBER) (haligned : 16 ∣ chunk)
    (h : dataStop src desc value nulls desc.natts % 2 ^ 32 <
      dataStop src desc value (asFilled nulls) desc.natts) :
    ¬ FillsReserved src raw chunk desc value nulls := by
  rintro ⟨s, hs, -⟩
  rcases dataFillCall_cases src raw value nulls hle haligned with
    ⟨-, he⟩ | ⟨heq, -⟩
  · rw [he] at hs
    cases hs
  · omega

/-- Whatever the marks are, `data_fill` writes and fills what is reserved for it, or is
not called at all, exactly when what it stores adds up to what is counted, or too much is
asked of `palloc`. -/
theorem data_fill_reserved_iff (src raw : Mem) (value : Nat → Datum) (nulls : Nat → Char)
    (hle : desc.natts ≤ MAX_HEAP_ATTRIBUTE_NUMBER) (haligned : 16 ∣ chunk) :
    (¬ Refused src desc value nulls → FillsReserved src raw chunk desc value nulls) ↔
      Refused src desc value nulls ∨ (dataStop src desc value nulls desc.natts < 2 ^ 32 ∧
        dataStop src desc value (asFilled nulls) desc.natts =
          dataStop src desc value nulls desc.natts) := by
  have hmono := dataStop_le_asFilled src desc value nulls desc.natts
  rcases dataFillCall_cases src raw value nulls hle haligned with
    ⟨hlt, -⟩ | ⟨heq, hfills⟩
  · constructor
    · intro h
      by_contra hno
      exact not_fillsReserved hle haligned hlt (h fun hr => hno (.inl hr))
    · rintro (hr | ⟨hsmall, heq⟩) hno
      · exact absurd hr hno
      · omega
  · refine iff_of_true (fun _ => hfills) (.inr ?_)
    omega

/-- The text of `(7, 'hi')` is null. -/
theorem data_fill_reserved_iff_example :
    FillsReserved exampleText (fun _ => 0xFF) 4096 exampleDesc (fun i => if i = 0 then 7 else 16)
      (fun i => if i = 0 then ' ' else 'n') := by
  refine (data_fill_reserved_iff _ _ _ _ (by decide) (by decide)).mpr (.inr ?_) ?_
  · decide
  · unfold Refused
    decide

/-- The five texts whose sizes wrap are more than was reserved, and so is a number whose
mark is neither `' '` nor `'n'`. -/
theorem data_fill_exceeds_reserved :
    (¬ Refused longText fiveTexts longValues (fun _ => ' ') ∧
      ¬ FillsReserved longText (fun _ => 0) 4096 fiveTexts longValues fun _ => ' ') ∧
    (¬ Refused exampleText exampleDesc (fun _ => 7) (fun i => if i = 0 then 'x' else 'n') ∧
      ¬ FillsReserved exampleText (fun _ => 0) 4096 exampleDesc (fun _ => 7)
        fun i => if i = 0 then 'x' else 'n') := by
  have hlong : dataStop longText fiveTexts longValues (fun _ => ' ') fiveTexts.natts = 2 ^ 32 + 4 := by
    decide
  refine ⟨⟨?_, not_fillsReserved (by decide) (by decide) ?_⟩, ?_,
    not_fillsReserved (by decide) (by decide) (by decide)⟩
  · unfold Refused
    rw [hlong]
    decide
  · have hall : asFilled (fun _ => ' ') = fun _ => ' ' := funext fun _ => rfl
    rw [hall, hlong]
    decide
  · unfold Refused
    decide

end PostgresV7.Heap
