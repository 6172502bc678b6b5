import OnDemandFs.Text.Utf8

/-!
# Bytes below 128

In an encoded text a byte below 128 stands for the character of that number and for nothing else. So
a text has a slash or a NUL among its characters just if its bytes have one.
-/
namespace OnDemandFs.Utf8

theorem encode_eq_flatMap (s : String) : encode s = s.toList.flatMap String.utf8EncodeChar := by
  have hbytes : s.toByteArray = s.toList.utf8Encode := String.utf8Encode_toList.symm
  rw [encode, hbytes, List.utf8Encode, List.data_toByteArray]

@[simp] theorem encode_empty : encode "" = [] := rfl

@[simp] theorem encode_append (s t : String) : encode (s ++ t) = encode s ++ encode t := by
  simp only [encode_eq_flatMap, String.toList_append, List.flatMap_append]

/-- A character is one byte of its own number, if that is below 128, or bytes from 128 on. -/
theorem utf8EncodeChar_cases (c : Char) :
    (c.toNat < 128 ∧ String.utf8EncodeChar c = [UInt8.ofNat c.toNat]) ∨
      128 ≤ c.toNat ∧ ∀ b ∈ String.utf8EncodeChar c, 128 ≤ b.toNat := by
  have hnat : c.val.toNat = c.toNat := rfl
  unfold String.utf8EncodeChar
  simp only [hnat]
  by_cases hone : c.toNat ≤ 0x7f
  · exact .inl ⟨by omega, if_pos hone⟩
  · refine .inr ⟨by omega, ?_⟩
    rw [if_neg hone]
    by_cases htwo : c.toNat ≤ 0x7ff
    · simp [htwo]
      omega
    · by_cases hthree : c.toNat ≤ 0xffff
      · simp [htwo, hthree]
        omega
      · simp [htwo, hthree]
        omega

theorem mem_utf8EncodeChar_iff {n : Nat} (hn : n < 128) (c : Char) :
    UInt8.ofNat n ∈ String.utf8EncodeChar c ↔ c = Char.ofNat n := by
  have hbyte : (UInt8.ofNat n).toNat = n := by simp; omega
  have hvalid : n.isValidChar := .inl (by omega)
  have hchar : (Char.ofNat n).toNat = n := by
    rw [Char.ofNat, dif_pos hvalid]
    rfl
  rcases utf8EncodeChar_cases c with ⟨hc, hencode⟩ | ⟨hc, hencode⟩
  · rw [hencode, List.mem_singleton]
    constructor
    · intro h
      have hnat := congrArg UInt8.toNat h
      have hc' : (UInt8.ofNat c.toNat).toNat = c.toNat := by simp; omega
      rw [hbyte, hc'] at hnat
      rw [hnat, Char.ofNat_toNat]
    · intro h
      rw [h, hchar]
  · constructor
    · intro h
      have := hencode _ h
      omega
    · intro h
      rw [h, hchar] at hc
      omega

/-- A first byte below 128 is the first character of the text. -/
theorem encode_eq_cons {n : Nat} (hn : n < 128) {cs : List Char} {rest : Bytes}
    (h : encode (String.ofList cs) = UInt8.ofNat n :: rest) :
    ∃ cs', cs = Char.ofNat n :: cs' ∧ encode (String.ofList cs') = rest := by
  cases cs with
  | nil => cases h
  | cons c cs =>
      rw [encode_eq_flatMap, String.toList_ofList, List.flatMap_cons] at h
      obtain ⟨b, bs, hencode⟩ := List.exists_cons_of_ne_nil (String.utf8EncodeChar_ne_nil : _ ≠ [])
      rw [hencode, List.cons_append] at h
      obtain ⟨rfl, hrest⟩ := List.cons.inj h
      have hmem : UInt8.ofNat n ∈ String.utf8EncodeChar c := by
        rw [hencode]
        exact List.mem_cons_self
      have hc := (mem_utf8EncodeChar_iff hn c).mp hmem
      refine ⟨cs, by rw [hc], ?_⟩
      rcases utf8EncodeChar_cases c with ⟨-, hone⟩ | ⟨-, hlarge⟩
      · rw [hone] at hencode
        obtain ⟨-, rfl⟩ := List.cons.inj hencode
        rw [encode_eq_flatMap, String.toList_ofList]
        exact hrest
      · have := hlarge _ hmem
        have hbyte : (UInt8.ofNat n).toNat = n := by simp; omega
        omega

/-- A byte below 128 is in a text just if its character is. -/
theorem mem_encode_iff {n : Nat} (hn : n < 128) (s : String) :
    UInt8.ofNat n ∈ encode s ↔ Char.ofNat n ∈ s.toList := by
  rw [encode_eq_flatMap, List.mem_flatMap]
  constructor
  · intro h
    obtain ⟨c, hc, hmem⟩ := h
    rw [← (mem_utf8EncodeChar_iff hn c).mp hmem]
    exact hc
  · intro h
    exact ⟨_, h, (mem_utf8EncodeChar_iff hn _).mpr rfl⟩

theorem slash_mem_encode_iff (s : String) : (47 : UInt8) ∈ encode s ↔ '/' ∈ s.toList :=
  mem_encode_iff (by decide : 47 < 128) s

theorem nul_mem_encode_iff (s : String) : (0 : UInt8) ∈ encode s ↔ '\x00' ∈ s.toList :=
  mem_encode_iff (by decide : 0 < 128) s

end OnDemandFs.Utf8
