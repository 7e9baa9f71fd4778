import PostgresV7.Strings.Stringinfo

/-!
# What an extensible string holds

The buffer's size is `256` times a power of two, which is what the doubling makes of it, and an
`int`; so it is at most `2 ^ 30`.
-/

namespace PostgresV7.Strings

open ByteMem Outcomes

/-- The bytes are stored; behind them may be anything. -/
structure Buffered (str : StringInfo) (bytes : List UInt8) : Prop where
  len : str.len = bytes.length
  maxlen : str.maxlen = str.size
  doubled : ∃ k, str.size = 256 * 2 ^ k
  small : (str.size : Int) ≤ INT_MAX
  room : bytes.length < str.size
  content : slice str.data 0 bytes.length = bytes

/-- What every function relies on: the byte behind is a NUL. -/
structure Holds (str : StringInfo) (bytes : List UInt8) : Prop extends Buffered str bytes where
  terminated : str.data bytes.length = 0

variable {repalloc : Repalloc} {vsnprintf : Vsnprintf} {rounds : Nat} {str str' : StringInfo}
  {bytes new text : List UInt8} {needed : Int}

theorem holds_init (fresh : Mem) : Holds (initStringInfo fresh) [] := by
  refine ⟨⟨rfl, rfl, ⟨0, rfl⟩, (by decide : (256 : Int) ≤ INT_MAX), (by decide : 0 < 256), rfl⟩, ?_⟩
  have h := write_inside fresh 0 1 (fun _ => 0) Nat.one_pos
  exact h

/-- No such size lies between `2 ^ 30` and `INT_MAX`. -/
theorem le_of_doubled {n k : Nat} (hk : n = 256 * 2 ^ k) (hsmall : (n : Int) ≤ INT_MAX) : k ≤ 22 ∧ n ≤ 2 ^ 30 := by
  unfold INT_MAX at hsmall
  have hlt : 2 ^ (8 + k) < 2 ^ 31 := by
    rw [pow_add]
    omega
  have hk31 := (Nat.pow_lt_pow_iff_right (by decide : 1 < 2)).mp hlt
  refine ⟨by omega, ?_⟩
  calc n = 2 ^ (8 + k) := by rw [hk, pow_add]; rfl
    _ ≤ 2 ^ 30 := Nat.pow_le_pow_right (by decide) (by omega)

theorem Buffered.size_le (h : Buffered str bytes) : str.size ≤ 2 ^ 30 := by
  obtain ⟨k, hk⟩ := h.doubled
  exact (le_of_doubled hk h.small).2

theorem Buffered.len_succ (h : Buffered str bytes) : int (str.len + 1) = .ok ((bytes.length + 1 : Nat) : Int) := by
  have hroom := h.room
  have hsize := h.size_le
  rw [h.len, int_ok (by unfold INT_MIN INT_MAX; omega)]
  push_cast
  rfl

/-! ## Storing -/

/-- The buffer may hold other bytes. -/
theorem Buffered.rewritten (h : Buffered str bytes) (hsize : str'.size = str.size) (hmaxlen : str'.maxlen = str.maxlen)
    (hlen : str'.len = new.length) (hroom : new.length < str.size) (hcontent : slice str'.data 0 new.length = new) :
    Buffered str' new := by
  refine ⟨hlen, ?_, ?_, ?_, ?_, hcontent⟩
  · rw [hmaxlen, h.maxlen, hsize]
  · rw [hsize]
    exact h.doubled
  · rw [hsize]
    exact h.small
  · rwa [hsize]

theorem slice_left {m : Mem} {a : Nat} (h : slice m a (bytes ++ new).length = bytes ++ new) :
    slice m a bytes.length = bytes := by
  have hbytes := slice_eq_iff.mp h
  refine slice_eq_iff.mpr fun i hi => ?_
  have hlt : i < (bytes ++ new).length := by
    rw [List.length_append]
    omega
  rw [hbytes i hlt, List.getElem_append_left hi]

/-- Bytes stored behind the others. -/
theorem Buffered.store (h : Buffered str bytes) (new : List UInt8) (hfit : bytes.length + new.length ≤ str.size) :
    ∃ str', str.store str.len new = .ok str' ∧ str'.size = str.size ∧ str'.len = str.len ∧ str'.maxlen = str.maxlen ∧
      slice str'.data 0 (bytes ++ new).length = bytes ++ new := by
  unfold StringInfo.store
  have hlen := h.len
  rw [if_pos ⟨by omega, by omega⟩]
  refine ⟨_, rfl, rfl, rfl, rfl, ?_⟩
  have hold := slice_eq_iff.mp h.content
  refine slice_eq_iff.mpr fun i hi => ?_
  dsimp only
  rw [hlen, Int.toNat_natCast, Nat.zero_add]
  by_cases hlt : i < bytes.length
  · rw [write_outside _ _ _ _ (.inl hlt), List.getElem_append_left hlt, ← hold i hlt, Nat.zero_add]
  · obtain ⟨j, rfl⟩ := Nat.exists_eq_add_of_le (Nat.not_lt.mp hlt)
    have hj : j < new.length := by
      rw [List.length_append] at hi
      omega
    rw [write_inside _ _ _ _ hj, List.getElem_append_right (Nat.le_add_right _ _)]
    simp [hj]

/-- The bytes are counted and terminated. -/
theorem Buffered.append (h : Buffered str bytes) (new : List UInt8) (hfit : bytes.length + new.length < str.size) :
    ∃ str', (do
        let str ← str.store str.len new
        let str := { str with len := ← int (str.len + new.length) }
        str.store str.len [0]) = .ok str' ∧ Holds str' (bytes ++ new) ∧ str'.size = str.size := by
  obtain ⟨str₁, hstore₁, hsize₁, hlen₁, hmaxlen₁, hcontent₁⟩ := h.store new (Nat.le_of_lt hfit)
  have hsize := h.size_le
  have hint : int (str₁.len + new.length) = .ok ((bytes ++ new).length : Int) := by
    rw [hlen₁, h.len, List.length_append, int_ok (by unfold INT_MIN INT_MAX; omega)]
    push_cast
    rfl
  have hroom : (bytes ++ new).length < str.size := by
    rw [List.length_append]
    exact hfit
  have h₂ : Buffered { str₁ with len := ((bytes ++ new).length : Int) } (bytes ++ new) :=
    h.rewritten hsize₁ hmaxlen₁ rfl hroom hcontent₁
  obtain ⟨str₃, hstore₃, hsize₃, hlen₃, hmaxlen₃, hcontent₃⟩ := h₂.store [0] (Nat.succ_le_of_lt h₂.room)
  refine ⟨str₃, ?_, ⟨h₂.rewritten hsize₃ hmaxlen₃ hlen₃ h₂.room (slice_left hcontent₃), ?_⟩, hsize₃.trans hsize₁⟩
  · simp only [hstore₁, hint, bind, Except.bind, hstore₃]
  · have hlt : (bytes ++ new).length < (bytes ++ new ++ [0]).length := by simp
    have hzero := slice_eq_iff.mp hcontent₃ (bytes ++ new).length hlt
    rw [Nat.zero_add] at hzero
    rw [hzero, List.getElem_append_right (Nat.le_refl _)]
    simp

/-! ## Enlarging -/

/-- An enlarged buffer holds what it held, and has the room asked for. -/
theorem Buffered.enlarge_inv (h : Buffered str bytes)
    (hrun : enlargeStringInfo repalloc rounds str needed = .ok str') :
    Buffered str' bytes ∧ bytes.length + needed + 1 ≤ str'.size ∧ str'.data bytes.length = str.data bytes.length := by
  unfold enlargeStringInfo at hrun
  obtain ⟨behind, hbehind, hrun⟩ := bind_eq_ok hrun
  obtain rfl := Except.ok.inj (h.len_succ.symm.trans hbehind)
  obtain ⟨need, hneed, hrun⟩ := bind_eq_ok hrun
  obtain ⟨rfl, -⟩ := int_inv hneed
  split at hrun
  · rename_i hle
    obtain rfl := Except.ok.inj hrun
    rw [h.maxlen] at hle
    push_cast at hle
    exact ⟨h, by omega, rfl⟩
  obtain ⟨first, hfirst, hrun⟩ := bind_eq_ok hrun
  obtain ⟨rfl, hmax⟩ := int_inv hfirst
  obtain ⟨newlen, hdoubling, hrun⟩ := bind_eq_ok hrun
  obtain ⟨hle, k, hk, hsmall⟩ := doubling_inv hdoubling
  have hnewlen : newlen = (str.size * 2 ^ (k + 1) : Nat) := by
    rw [hk, h.maxlen, pow_succ']
    push_cast
    ring
  have hlt : newlen ≤ INT_MAX := by
    rcases hsmall with rfl | hsmall
    · rwa [hk, pow_zero, mul_one]
    · exact hsmall
  have hroom := h.room
  have hgrown : str.size ≤ str.size * 2 ^ (k + 1) := Nat.le_mul_of_pos_right _ (Nat.two_pow_pos _)
  split at hrun
  · cases hrun
  rename_i fresh _
  obtain rfl := Except.ok.inj hrun
  rw [hnewlen] at hlt hle ⊢
  refine ⟨⟨h.len, rfl, ?_, hlt, Nat.lt_of_lt_of_le hroom hgrown, ?_⟩, ?_, if_pos hroom⟩
  · obtain ⟨k₀, hk₀⟩ := h.doubled
    refine ⟨k₀ + (k + 1), ?_⟩
    show (str.size * 2 ^ (k + 1) : Nat) = _
    rw [hk₀, mul_assoc, ← pow_add]
  · refine slice_eq_iff.mpr fun i hi => ?_
    have hold := slice_eq_iff.mp h.content i hi
    have hin : 0 + i < str.size := by omega
    rw [← hold]
    exact if_pos hin
  · show bytes.length + needed + 1 ≤ ((str.size * 2 ^ (k + 1) : Nat) : Int)
    push_cast at hle ⊢
    omega

theorem lt_of_mul_two_pow_le {n k : Nat} (hn : 0 < n) (h : ((n * 2 ^ k : Nat) : Int) ≤ INT_MAX) : k < 31 := by
  unfold INT_MAX at h
  have hle : 2 ^ k ≤ n * 2 ^ k := Nat.le_mul_of_pos_left _ hn
  have hlt : 2 ^ k < 2 ^ 31 := by omega
  exact (Nat.pow_lt_pow_iff_right (by decide : 1 < 2)).mp hlt

/-- The buffer gets the first size that covers what is needed, or `repalloc` refuses that size. -/
theorem Buffered.enlarge {n k : Nat} (h : Buffered str bytes)
    (hbelow : ∀ j < k, str.size * 2 ^ j < bytes.length + n + 1) (hle : bytes.length + n + 1 ≤ str.size * 2 ^ k)
    (hmax : ((str.size * 2 ^ k : Nat) : Int) ≤ INT_MAX) (hrounds : 31 ≤ rounds) :
    (enlargeStringInfo repalloc rounds str n = .error .refused ∧ 0 < k ∧ repalloc (str.size * 2 ^ k : Nat) = none) ∨
      ∃ str', enlargeStringInfo repalloc rounds str n = .ok str' ∧ str'.size = str.size * 2 ^ k := by
  have hroom := h.room
  have hsum : (n : Int) + ((bytes.length + 1 : Nat) : Int) = ((bytes.length + n + 1 : Nat) : Int) := by
    push_cast
    ring
  have hneed : int ((n : Int) + ((bytes.length + 1 : Nat) : Int)) = .ok ((bytes.length + n + 1 : Nat) : Int) := by
    rw [hsum]
    exact int_ok ⟨by unfold INT_MIN; omega, Int.le_trans (Int.ofNat_le.mpr hle) hmax⟩
  unfold enlargeStringInfo
  rw [h.len_succ, ok_bind, hneed, ok_bind]
  cases k with
  | zero =>
    rw [pow_zero, mul_one] at hle ⊢
    rw [if_pos (by rw [h.maxlen]; exact_mod_cast hle)]
    exact .inr ⟨str, rfl, rfl⟩
  | succ k =>
    have hfirst := hbelow 0 (Nat.succ_pos k)
    rw [pow_zero, mul_one] at hfirst
    have hshift : ∀ j, str.size * 2 ^ (j + 1) = 2 * str.size * 2 ^ j := fun j => by rw [pow_succ']; ring
    have hmono : 2 * str.size ≤ str.size * 2 ^ (k + 1) := by
      rw [hshift]
      exact Nat.le_mul_of_pos_right _ (Nat.two_pow_pos k)
    have hint : int (2 * str.maxlen) = .ok ((2 * str.size : Nat) : Int) := by
      rw [h.maxlen, int_ok ⟨by unfold INT_MIN; omega, by omega⟩]
      push_cast
      rfl
    have hk := lt_of_mul_two_pow_le (by omega : 0 < str.size) hmax
    have hdoubling : doubling ((bytes.length + n + 1 : Nat) : Int) rounds ((2 * str.size : Nat) : Int) =
        .ok ((str.size * 2 ^ (k + 1) : Nat) : Int) := by
      rw [hshift] at hle hmax ⊢
      refine doubling_ok (fun j hj => ?_) (Int.ofNat_le.mpr hle) hmax (by omega)
      rw [← hshift]
      exact Int.ofNat_lt.mpr (hbelow (j + 1) (Nat.succ_lt_succ hj))
    rw [if_neg (by rw [h.maxlen]; exact Int.not_le.mpr (Int.ofNat_lt.mpr hfirst))]
    rw [hint, ok_bind, hdoubling, ok_bind]
    cases hrepalloc : repalloc ((str.size * 2 ^ (k + 1) : Nat) : Int) with
    | none => exact .inl ⟨rfl, Nat.succ_pos k, rfl⟩
    | some fresh => exact .inr ⟨_, rfl, Int.toNat_natCast _⟩

/-! ## Calls -/

/-- An append, with what it appends. -/
inductive Call where
  | format (text : List UInt8) (vsnprintf : Vsnprintf)
  | char (ch : UInt8)
  | charMacro (ch : UInt8)
  | binary (data : List UInt8)

def Call.appended : Call → List UInt8
  | .format text _ => text
  | .char ch => [ch]
  | .charMacro ch => [ch]
  | .binary data => data

def Call.run (repalloc : Repalloc) (rounds : Nat) (str : StringInfo) : Call → Except Fault StringInfo
  | .format _ vsnprintf => appendStringInfo repalloc rounds vsnprintf rounds str
  | .char ch => appendStringInfoChar repalloc rounds str ch
  | .charMacro ch => appendStringInfoCharMacro repalloc rounds str ch
  | .binary data => appendBinaryStringInfo repalloc rounds str data

def runCalls (repalloc : Repalloc) (rounds : Nat) (str : StringInfo) (calls : List Call) : Except Fault StringInfo :=
  calls.foldlM (Call.run repalloc rounds) str

def contents (calls : List Call) : List UInt8 := calls.flatMap Call.appended

/-- `vsnprintf` returns the length of the whole text or `-1` and stores no more than it is given;
a length below the given size says that the text is stored, with a NUL. -/
structure Documented (text : List UInt8) (vsnprintf : Vsnprintf) : Prop where
  returns : ∀ size, (vsnprintf size).nprinted = text.length ∨ (vsnprintf size).nprinted = -1
  within : ∀ size, (vsnprintf size).bytes.length ≤ size
  whole : ∀ size, (vsnprintf size).nprinted = text.length → text.length < size →
    text ++ [0] <+: (vsnprintf size).bytes

def Call.Documented : Call → Prop
  | .format text vsnprintf => Strings.Documented text vsnprintf
  | _ => True

/-- The macro does what the function does. -/
theorem charMacro_eq (repalloc : Repalloc) (rounds : Nat) (str : StringInfo) (ch : UInt8) :
    appendStringInfoCharMacro repalloc rounds str ch = appendStringInfoChar repalloc rounds str ch := by
  unfold appendStringInfoCharMacro appendStringInfoChar
  cases int (str.len + 1) with
  | error fault => rfl
  | ok n =>
    simp only [ok_bind]
    by_cases hn : n ≥ str.maxlen
    · rw [if_pos hn, if_pos hn]
    · rw [if_neg hn, if_neg hn]

/-! ## Printing -/

/-- A round of `append_string_info` is the last one in a buffer of this size. -/
def Printable (vsnprintf : Vsnprintf) (len size : Nat) : Prop :=
  16 < size - len - 1 ∧ 0 ≤ (vsnprintf (size - len - 1)).nprinted ∧
    (vsnprintf (size - len - 1)).nprinted < (size - len - 1 : Nat) - (1 : Int)

instance (vsnprintf : Vsnprintf) (len size : Nat) : Decidable (Printable vsnprintf len size) :=
  inferInstanceAs (Decidable (_ ∧ _))

theorem Buffered.avail (h : Buffered str bytes) :
    int (str.maxlen - str.len - 1) = .ok ((str.size - bytes.length - 1 : Nat) : Int) := by
  have hroom := h.room
  have hsize := h.size_le
  have havail : str.maxlen - str.len - 1 = ((str.size - bytes.length - 1 : Nat) : Int) := by
    rw [h.maxlen, h.len]
    omega
  rw [havail]
  exact int_ok ⟨by unfold INT_MIN; omega, by unfold INT_MAX; omega⟩

/-- What `vsnprintf` stores stays in the buffer. -/
theorem Buffered.storePrinted (h : Buffered str bytes) (hv : Documented text vsnprintf) :
    ∃ str', str.store str.len (vsnprintf (str.size - bytes.length - 1)).bytes = .ok str' ∧ str'.size = str.size ∧
      str'.len = str.len ∧ str'.maxlen = str.maxlen ∧
      slice str'.data 0 (bytes ++ (vsnprintf (str.size - bytes.length - 1)).bytes).length =
        bytes ++ (vsnprintf (str.size - bytes.length - 1)).bytes := by
  have hwithin := hv.within (str.size - bytes.length - 1)
  have hroom := h.room
  exact h.store _ (by omega)

theorem Buffered.printed (h : Buffered str bytes) (hv : Documented text vsnprintf)
    (hprint : Printable vsnprintf bytes.length str.size) :
    ∃ str', tryPrint vsnprintf str = .ok (true, str') ∧ str'.size = str.size ∧ Holds str' (bytes ++ text) := by
  obtain ⟨hgt, hnonneg, hlt⟩ := hprint
  obtain ⟨str₁, hstore, hsize₁, hlen₁, hmaxlen₁, hcontent₁⟩ := h.storePrinted hv
  have hsize := h.size_le
  have hnprinted := (hv.returns (str.size - bytes.length - 1)).resolve_right (by omega)
  obtain ⟨rest, hrest⟩ := hv.whole (str.size - bytes.length - 1) hnprinted (by omega)
  have hfit : (bytes ++ text).length < str.size := by
    rw [List.length_append]
    omega
  have hint : int (str₁.len + (vsnprintf (str.size - bytes.length - 1)).nprinted) = .ok ((bytes ++ text).length : Int) := by
    rw [hlen₁, h.len, hnprinted, List.length_append]
    push_cast
    rw [List.length_append] at hfit
    exact int_ok ⟨by unfold INT_MIN; omega, by unfold INT_MAX; omega⟩
  rw [← hrest, ← List.append_assoc, ← List.append_assoc] at hcontent₁
  have hterminated := slice_left hcontent₁
  refine ⟨{ str₁ with len := ((bytes ++ text).length : Int) }, ?_, hsize₁,
    h.rewritten hsize₁ hmaxlen₁ rfl hfit (slice_left hterminated), ?_⟩
  · unfold Strings.tryPrint
    rw [h.avail, ok_bind, if_pos (by omega)]
    dsimp only
    rw [Int.toNat_natCast, hstore, ok_bind, if_pos ⟨hnonneg, hlt⟩, hint, ok_bind]
    rfl
  · have hlast : (bytes ++ text).length < (bytes ++ text ++ [0]).length := by simp
    have hzero := slice_eq_iff.mp hterminated (bytes ++ text).length hlast
    rw [Nat.zero_add] at hzero
    show str₁.data (bytes ++ text).length = 0
    rw [hzero, List.getElem_append_right (Nat.le_refl _)]
    simp

/-- Where the text does not fit, part of it may be left behind the bytes. -/
theorem Buffered.unprinted (h : Buffered str bytes) (hv : Documented text vsnprintf)
    (hprint : ¬ Printable vsnprintf bytes.length str.size) :
    ∃ str', tryPrint vsnprintf str = .ok (false, str') ∧ str'.size = str.size ∧ Buffered str' bytes := by
  unfold Strings.tryPrint
  rw [h.avail, ok_bind]
  by_cases hgt : 16 < str.size - bytes.length - 1
  · obtain ⟨str₁, hstore, hsize₁, hlen₁, hmaxlen₁, hcontent₁⟩ := h.storePrinted hv
    refine ⟨str₁, ?_, hsize₁, h.rewritten hsize₁ hmaxlen₁ (hlen₁.trans h.len) h.room (slice_left hcontent₁)⟩
    rw [if_pos (by omega)]
    dsimp only
    rw [Int.toNat_natCast, hstore, ok_bind, if_neg fun hand => hprint ⟨hgt, hand.1, hand.2⟩]
    rfl
  · refine ⟨str, ?_, rfl, h⟩
    rw [if_neg (by omega)]
    rfl

/-- A call of `append_string_info` that returns. -/
theorem Buffered.format_inv {n : Nat} (h : Buffered str bytes) (hv : Documented text vsnprintf)
    (hrun : appendStringInfo repalloc rounds vsnprintf n str = .ok str') : Holds str' (bytes ++ text) := by
  induction n generalizing str with
  | zero => cases hrun
  | succ n ih =>
    unfold appendStringInfo at hrun
    by_cases hprint : Printable vsnprintf bytes.length str.size
    · obtain ⟨str₁, htry, -, h₁⟩ := h.printed hv hprint
      rw [htry, ok_bind] at hrun
      obtain rfl := Except.ok.inj hrun
      exact h₁
    · obtain ⟨str₁, htry, -, h₁⟩ := h.unprinted hv hprint
      rw [htry, ok_bind] at hrun
      obtain ⟨str₂, henlarge, hrest⟩ := bind_eq_ok hrun
      exact ih (h₁.enlarge_inv henlarge).1 hrest

/-- A character is a byte string. -/
theorem Buffered.char_eq (h : Buffered str bytes) (repalloc : Repalloc) (rounds : Nat) (ch : UInt8) :
    appendStringInfoChar repalloc rounds str ch = appendBinaryStringInfo repalloc rounds str [ch] := by
  unfold appendStringInfoChar appendBinaryStringInfo
  rw [h.len_succ, ok_bind]
  dsimp only
  by_cases hge : ((bytes.length + 1 : Nat) : Int) ≥ str.maxlen
  · rw [if_pos hge]
    rfl
  · have hsize := h.size_le
    have hmaxlen := h.maxlen
    have hint : int (1 + ((bytes.length + 1 : Nat) : Int)) = .ok (1 + ((bytes.length + 1 : Nat) : Int)) :=
      int_ok ⟨by unfold INT_MIN; omega, by unfold INT_MAX; omega⟩
    have henlarge : enlargeStringInfo repalloc rounds str 1 = .ok str := by
      unfold enlargeStringInfo
      rw [h.len_succ, ok_bind, hint, ok_bind, if_pos (by omega)]
      rfl
    rw [if_neg hge]
    show _ = (enlargeStringInfo repalloc rounds str 1 >>= _)
    rw [henlarge]
    rfl

/-- A call of `append_binary_string_info` that returns. -/
theorem Buffered.binary_inv (h : Buffered str bytes)
    (hrun : appendBinaryStringInfo repalloc rounds str new = .ok str') : Holds str' (bytes ++ new) := by
  unfold appendBinaryStringInfo at hrun
  obtain ⟨str₁, henlarge, hrest⟩ := bind_eq_ok hrun
  obtain ⟨h₁, hroom, -⟩ := h.enlarge_inv henlarge
  obtain ⟨str₂, happend, hholds, -⟩ := h₁.append new (by omega)
  obtain rfl := Except.ok.inj (happend.symm.trans hrest)
  exact hholds

/-- Every call that returns has appended its bytes. -/
theorem Holds.call_inv {c : Call} (h : Holds str bytes) (hc : c.Documented)
    (hrun : c.run repalloc rounds str = .ok str') : Holds str' (bytes ++ c.appended) := by
  cases c with
  | format text vsnprintf => exact h.format_inv hc hrun
  | char ch =>
    rw [Call.run, h.char_eq] at hrun
    exact h.binary_inv hrun
  | charMacro ch =>
    rw [Call.run, charMacro_eq, h.char_eq] at hrun
    exact h.binary_inv hrun
  | binary data => exact h.binary_inv hrun

theorem Holds.calls_inv {calls : List Call} (h : Holds str bytes) (hcalls : ∀ c ∈ calls, c.Documented)
    (hrun : runCalls repalloc rounds str calls = .ok str') : Holds str' (bytes ++ contents calls) := by
  induction calls generalizing str bytes with
  | nil =>
    obtain rfl := Except.ok.inj hrun
    rwa [contents, List.flatMap_nil, List.append_nil]
  | cons c calls ih =>
    unfold runCalls at hrun
    rw [List.foldlM_cons] at hrun
    obtain ⟨str₁, hstep, hrest⟩ := bind_eq_ok hrun
    have h₁ := h.call_inv (hcalls c List.mem_cons_self) hstep
    have h' := ih h₁ (fun c' hc' => hcalls c' (List.mem_cons_of_mem c hc')) hrest
    have hcons : contents (c :: calls) = c.appended ++ contents calls := List.flatMap_cons
    rwa [hcons, ← List.append_assoc]

/-! ## Runs whose sizes are accepted -/

/-- `repalloc` gives a buffer of this size; it is an `int` that it is given. -/
def Accepts (repalloc : Repalloc) (size : Nat) : Prop := (size : Int) ≤ INT_MAX ∧ repalloc size ≠ none

/-- Doubling to the first size with the room needed, which is accepted where it is another one. -/
def Covers (repalloc : Repalloc) (need size size' : Nat) : Prop :=
  ∃ k, size' = size * 2 ^ k ∧ need ≤ size' ∧ (∀ j < k, size * 2 ^ j < need) ∧ (0 < k → Accepts repalloc size')

/-- The size of the buffer after a call, from the one before. For printing every doubling is asked for. -/
def Call.Grows (repalloc : Repalloc) (len size size' : Nat) : Call → Prop
  | .format _ vsnprintf => ∃ k, size' = size * 2 ^ k ∧ Printable vsnprintf len size' ∧
      (∀ j < k, ¬ Printable vsnprintf len (size * 2 ^ j)) ∧ ∀ j, 0 < j → j ≤ k → Accepts repalloc (size * 2 ^ j)
  | c => Covers repalloc (len + c.appended.length + 1) size size'

/-- `repalloc` accepts every size that the calls come to. -/
def AcceptsAll (repalloc : Repalloc) (len size : Nat) : List Call → Prop
  | [] => True
  | c :: calls => ∃ size', c.Grows repalloc len size size' ∧ AcceptsAll repalloc (len + c.appended.length) size' calls

theorem Buffered.covers {n size' : Nat} (h : Buffered str bytes)
    (hcovers : Covers repalloc (bytes.length + n + 1) str.size size') (hrounds : 31 ≤ rounds) :
    ∃ str', enlargeStringInfo repalloc rounds str n = .ok str' ∧ str'.size = size' := by
  obtain ⟨k, rfl, hle, hbelow, haccepts⟩ := hcovers
  have hmax : ((str.size * 2 ^ k : Nat) : Int) ≤ INT_MAX := by
    rcases Nat.eq_zero_or_pos k with rfl | hk
    · rw [pow_zero, mul_one]
      exact h.small
    · exact (haccepts hk).1
  rcases h.enlarge hbelow hle hmax hrounds with ⟨-, hk, hnone⟩ | hok
  · exact absurd hnone (haccepts hk).2
  · exact hok

theorem Buffered.binary {size' : Nat} (h : Buffered str bytes)
    (hcovers : Covers repalloc (bytes.length + new.length + 1) str.size size') (hrounds : 31 ≤ rounds) :
    ∃ str', appendBinaryStringInfo repalloc rounds str new = .ok str' ∧ str'.size = size' := by
  obtain ⟨str₁, henlarge, hsize⟩ := h.covers hcovers hrounds
  obtain ⟨h₁, hroom, -⟩ := h.enlarge_inv henlarge
  obtain ⟨str₂, happend, -, hsize₂⟩ := h₁.append new (by omega)
  refine ⟨str₂, ?_, hsize₂.trans hsize⟩
  unfold appendBinaryStringInfo
  dsimp only
  rw [henlarge, ok_bind]
  exact happend

/-- Printing ends in the first buffer in which a round is the last one. -/
theorem Buffered.format {n k : Nat} (h : Buffered str bytes) (hv : Documented text vsnprintf)
    (hprint : Printable vsnprintf bytes.length (str.size * 2 ^ k))
    (hnot : ∀ j < k, ¬ Printable vsnprintf bytes.length (str.size * 2 ^ j))
    (haccepts : ∀ j, 0 < j → j ≤ k → Accepts repalloc (str.size * 2 ^ j)) (hrounds : 31 ≤ rounds) (hn : k < n) :
    ∃ str', appendStringInfo repalloc rounds vsnprintf n str = .ok str' ∧ str'.size = str.size * 2 ^ k := by
  induction k generalizing str n with
  | zero =>
    obtain ⟨n, rfl⟩ := Nat.exists_eq_succ_of_ne_zero (Nat.ne_of_gt hn)
    rw [pow_zero, mul_one] at hprint ⊢
    obtain ⟨str₁, htry, hsize₁, -⟩ := h.printed hv hprint
    refine ⟨str₁, ?_, hsize₁⟩
    rw [appendStringInfo, htry, ok_bind]
    rfl
  | succ k ih =>
    obtain ⟨n, rfl⟩ := Nat.exists_eq_succ_of_ne_zero (Nat.ne_of_gt (Nat.lt_trans (Nat.succ_pos k) hn))
    have hfirst := hnot 0 (Nat.succ_pos k)
    rw [pow_zero, mul_one] at hfirst
    obtain ⟨str₁, htry, hsize₁, h₁⟩ := h.unprinted hv hfirst
    have hshift : ∀ j, str.size * 2 * 2 ^ j = str.size * 2 ^ (j + 1) := fun j => by rw [pow_succ']; ring
    have hroom := h.room
    have hcovers : Covers repalloc (bytes.length + str.size + 1) str₁.size (str.size * 2) := by
      refine ⟨1, by rw [hsize₁, pow_one], by omega, fun j hj => ?_, fun _ => ?_⟩
      · obtain rfl := Nat.lt_one_iff.mp hj
        rw [hsize₁, pow_zero, mul_one]
        omega
      · have hone := haccepts 1 Nat.one_pos (Nat.succ_le_succ (Nat.zero_le k))
        rwa [pow_one] at hone
    obtain ⟨str₂, henlarge, hsize₂⟩ := h₁.covers hcovers hrounds
    have h₂ := (h₁.enlarge_inv henlarge).1
    obtain ⟨str', hrest, hsize'⟩ := ih h₂ (by rw [hsize₂, hshift]; exact hprint)
      (fun j hj => by rw [hsize₂, hshift]; exact hnot (j + 1) (Nat.succ_lt_succ hj))
      (fun j hj hjk => by rw [hsize₂, hshift]; exact haccepts (j + 1) (Nat.succ_pos j) (Nat.succ_le_succ hjk))
      (Nat.lt_of_succ_lt_succ hn)
    refine ⟨str', ?_, by rw [hsize', hsize₂, hshift]⟩
    have hmaxlen : str₁.maxlen = (str.size : Int) := by rw [h₁.maxlen, hsize₁]
    rw [appendStringInfo, htry, ok_bind]
    show (do
      let str ← enlargeStringInfo repalloc rounds str₁ str₁.maxlen
      appendStringInfo repalloc rounds vsnprintf n str) = _
    rw [hmaxlen, henlarge, ok_bind, hrest]

/-- A call whose sizes are accepted returns. -/
theorem Buffered.call {c : Call} {size' : Nat} (h : Buffered str bytes) (hc : c.Documented)
    (hgrows : c.Grows repalloc bytes.length str.size size') (hrounds : 31 ≤ rounds) :
    ∃ str', c.run repalloc rounds str = .ok str' ∧ str'.size = size' := by
  cases c with
  | format text vsnprintf =>
    obtain ⟨k, rfl, hprint, hnot, haccepts⟩ := hgrows
    have hk : k < rounds := by
      rcases Nat.eq_zero_or_pos k with rfl | hk
      · omega
      · have hroom := h.room
        have hlt := lt_of_mul_two_pow_le (by omega) (haccepts k hk (Nat.le_refl k)).1
        omega
    exact h.format hc hprint hnot haccepts hrounds hk
  | char ch =>
    rw [Call.run, h.char_eq]
    exact h.binary hgrows hrounds
  | charMacro ch =>
    rw [Call.run, charMacro_eq, h.char_eq]
    exact h.binary hgrows hrounds
  | binary data => exact h.binary hgrows hrounds

theorem Holds.calls {calls : List Call} (h : Holds str bytes) (hcalls : ∀ c ∈ calls, c.Documented)
    (haccepts : AcceptsAll repalloc bytes.length str.size calls) (hrounds : 31 ≤ rounds) :
    ∃ str', runCalls repalloc rounds str calls = .ok str' := by
  induction calls generalizing str bytes with
  | nil => exact ⟨str, rfl⟩
  | cons c calls ih =>
    obtain ⟨size', hgrows, hrest⟩ := haccepts
    have hc := hcalls c List.mem_cons_self
    obtain ⟨str₁, hstep, rfl⟩ := h.call hc hgrows hrounds
    have h₁ := h.call_inv hc hstep
    rw [← List.length_append] at hrest
    obtain ⟨str', hrun⟩ := ih h₁ (fun c' hc' => hcalls c' (List.mem_cons_of_mem c hc')) hrest
    refine ⟨str', ?_⟩
    unfold runCalls
    rw [List.foldlM_cons, hstep]
    exact hrun

/-- Appends whose buffer sizes are accepted all return, and the string holds what they appended;
the macro and the function for a character do the same. -/
theorem stringinfo_holds (repalloc : Repalloc) (fresh : Mem) (calls : List Call) (rounds : Nat)
    (hcalls : ∀ c ∈ calls, c.Documented) (haccepts : AcceptsAll repalloc 0 256 calls) (hrounds : 31 ≤ rounds) :
    (∃ str, runCalls repalloc rounds (initStringInfo fresh) calls = .ok str ∧
      0 ≤ str.len ∧ str.len < str.maxlen ∧ str.maxlen = str.size ∧ str.data str.len.toNat = 0 ∧
      slice str.data 0 str.len.toNat = contents calls) ∧
    ∀ str ch, appendStringInfoCharMacro repalloc rounds str ch = appendStringInfoChar repalloc rounds str ch := by
  refine ⟨?_, charMacro_eq repalloc rounds⟩
  have hinit := holds_init fresh
  obtain ⟨str, hrun⟩ := hinit.calls hcalls haccepts hrounds
  have h := hinit.calls_inv hcalls hrun
  rw [List.nil_append] at h
  have hroom := h.room
  refine ⟨str, hrun, ?_, ?_, h.maxlen, ?_, ?_⟩
  · rw [h.len]
    exact Int.natCast_nonneg _
  · rw [h.len, h.maxlen]
    exact Int.ofNat_lt.mpr hroom
  · rw [h.len, Int.toNat_natCast]
    exact h.terminated
  · rw [h.len, Int.toNat_natCast]
    exact h.content

/-- `vsnprintf` that stores what fits, with a NUL, and returns the length of the whole text. -/
def storeFitting (text : List UInt8) : Vsnprintf :=
  fun size => ⟨text.length, if size = 0 then [] else text.take (size - 1) ++ [0]⟩

theorem documented_storeFitting (text : List UInt8) : Documented text (storeFitting text) := by
  refine ⟨fun size => .inl rfl, fun size => ?_, fun size _ hlt => ?_⟩
  · unfold storeFitting
    by_cases hsize : size = 0
    · rw [if_pos hsize]
      exact Nat.zero_le _
    · rw [if_neg hsize, List.length_append, List.length_take, List.length_singleton]
      omega
  · have hbytes : (storeFitting text size).bytes = text ++ [0] := by
      unfold storeFitting
      rw [if_neg (by omega), List.take_of_length_le (by omega)]
    exact hbytes ▸ List.prefix_rfl

/-- A word, a character, `300` bytes and a character: the buffer is doubled once. -/
theorem stringinfo_holds_doubled : ∃ str, runCalls (fun _ => some fun _ => 0) 31 (initStringInfo fun _ => 7)
      [.format [104, 105] (storeFitting [104, 105]), .char 33, .binary (List.replicate 300 1), .charMacro 10] = .ok str ∧
    slice str.data 0 str.len.toNat = [104, 105] ++ [33] ++ List.replicate 300 1 ++ [10] := by
  have haccepts : ∀ data : List UInt8, data.length = 300 → AcceptsAll (fun _ => some fun _ => 0) 0 256
      [.format [104, 105] (storeFitting [104, 105]), .char 33, .binary data, .charMacro 10] := by
    intro data hdata
    refine ⟨256, ⟨0, rfl, by decide, fun j hj => absurd hj (Nat.not_lt_zero j), fun j hj hj0 => by omega⟩,
      256, ⟨0, rfl, by decide, fun j hj => absurd hj (Nat.not_lt_zero j), fun h0 => absurd h0 (Nat.lt_irrefl 0)⟩,
      512, ⟨1, rfl, ?_, fun j hj => ?_, fun _ => ⟨by decide, Option.some_ne_none _⟩⟩,
      512, ⟨0, rfl, ?_, fun j hj => absurd hj (Nat.not_lt_zero j), fun h0 => absurd h0 (Nat.lt_irrefl 0)⟩, trivial⟩
    · show 3 + data.length + 1 ≤ 512
      omega
    · obtain rfl := Nat.lt_one_iff.mp hj
      show 256 < 3 + data.length + 1
      omega
    · show 3 + data.length + 2 ≤ 512
      omega
  have hdocumented : ∀ c ∈ [Call.format [104, 105] (storeFitting [104, 105]), .char 33, .binary (List.replicate 300 1),
      .charMacro 10], c.Documented := by
    intro c hc
    simp only [List.mem_cons, List.not_mem_nil, or_false] at hc
    rcases hc with rfl | rfl | rfl | rfl
    · exact documented_storeFitting _
    all_goals trivial
  obtain ⟨⟨str, hrun, -, -, -, -, hcontent⟩, -⟩ :=
    stringinfo_holds (fun _ => some fun _ => 0) (fun _ => 7) _ 31 hdocumented (haccepts _ List.length_replicate)
      (Nat.le_refl _)
  exact ⟨str, hrun, hcontent⟩

end PostgresV7.Strings
