import OnDemandFs.Proofs.Index.Listings
import OnDemandFs.Proofs.Text.Ascii

/-!
# What was published is read back

Nothing checks an index on the way out, and everything is checked on the way in. A valid listing
passes: no name and no numeral has a NUL, so the entries can be told apart again, and no numeral has
a blank, so the fields can. `decode_encode` is therefore the round trip of every index that
`Index.ofEntries` makes.
-/
namespace OnDemandFs

namespace Numeral

theorem isDigit_of_mem_ofNat {n : Nat} {c : Char} (h : c ∈ ofNat n) : c.isDigit = true :=
  Nat.isDigit_of_mem_toDigits (by decide) (by decide) h

/-- What is not a digit is not in a numeral. -/
theorem not_mem_ofNat (n : Nat) {c : Char} (hc : c.isDigit = false) : c ∉ ofNat n := by
  intro h
  rw [isDigit_of_mem_ofNat h] at hc
  cases hc

theorem not_mem_ofInt (i : Int) {c : Char} (hc : c.isDigit = false) (hminus : c ≠ '-') :
    c ∉ ofInt i := by
  cases i with
  | ofNat n => exact not_mem_ofNat n hc
  | negSucc n =>
      intro h
      rcases List.mem_cons.mp h with heq | hmem
      · exact hminus heq
      · exact not_mem_ofNat _ hc hmem

theorem value?_ofNat (n : Nat) : value? (ofNat n) = some n := by
  have hne : ofNat n ≠ [] := Nat.toDigits_ne_nil
  have hdigits : isDigits (ofNat n) = true := by
    rw [isDigits, Bool.and_eq_true]
    refine ⟨by simpa using hne, List.all_eq_true.mpr fun c hc => isDigit_of_mem_ofNat hc⟩
  have hvalue : Nat.ofDigitChars 10 (ofNat n) 0 = n := Nat.ofDigitChars_ten_toDigits
  rw [value?, if_pos hdigits, hvalue]

/-- A numeral starts with a digit. -/
theorem ofNat_eq_cons (n : Nat) : ∃ c rest, ofNat n = c :: rest ∧ c.isDigit = true := by
  have hne : ofNat n ≠ [] := Nat.toDigits_ne_nil
  obtain ⟨c, rest, heq⟩ := List.exists_cons_of_ne_nil hne
  have hmem : c ∈ ofNat n := by
    rw [heq]
    exact List.mem_cons_self
  exact ⟨c, rest, heq, isDigit_of_mem_ofNat hmem⟩

theorem natural?_ofNat (n : UInt64) : natural? (ofNat n.toNat) = some n := by
  have hvalue := value?_ofNat n.toNat
  have hbound : n.toNat < wordLimit := n.toNat_lt
  obtain ⟨c, rest, heq, hdigit⟩ := ofNat_eq_cons n.toNat
  have hplus : c ≠ '+' := by
    rintro rfl
    cases hdigit
  rw [heq] at hvalue ⊢
  unfold natural?
  split
  · next h => exact absurd (List.head_eq_of_cons_eq h) hplus
  · simp only [hvalue, hbound, if_true, UInt64.ofNat_toNat]

theorem integer?_ofInt (i : Int64) : integer? (ofInt i.toInt) = some i := by
  have hback := Int64.ofInt_toInt i
  have hlower := i.le_toInt
  have hupper := i.toInt_lt
  cases hi : i.toInt with
  | ofNat n =>
      rw [hi] at hback hupper
      have hbound : n < signedLimit := by
        unfold signedLimit
        simp only [Int.ofNat_eq_natCast] at hupper
        omega
      have hvalue := value?_ofNat n
      obtain ⟨c, rest, heq, hdigit⟩ := ofNat_eq_cons n
      rw [ofInt]
      rw [heq] at hvalue ⊢
      unfold integer?
      split
      next negative digits hsign =>
        split at hsign
        · next h =>
            rw [List.head_eq_of_cons_eq h] at hdigit
            cases hdigit
        · next h =>
            rw [List.head_eq_of_cons_eq h] at hdigit
            cases hdigit
        · cases hsign
          simp only [hvalue, hbound, if_true, Bool.false_eq_true, if_false]
          exact congrArg some hback
  | negSucc n =>
      rw [hi] at hback hlower
      have hbound : n + 1 ≤ signedLimit := by
        unfold signedLimit
        simp only [Int.negSucc_eq] at hlower
        omega
      have hvalue := value?_ofNat (n + 1)
      have hnegative : -((n + 1 : Nat) : Int) = Int.negSucc n := rfl
      simp only [ofInt, integer?, hvalue, hbound, if_true, hnegative, hback]

end Numeral

namespace Index
variable {e : Entry} {entries : List Entry}

theorem ofTag?_tag (k : EntryKind) : EntryKind.ofTag? [k.tag] = some k := by
  cases k <;> rfl

theorem fields?_entryText (e : Entry) : fields? (entryText e) =
    some ([e.kind.tag], Numeral.ofNat e.size.toNat, Numeral.ofInt e.mtime.toInt,
      e.name.toList) := by
  have hkind : ' ' ∉ [e.kind.tag] := by
    cases e.kind <;> decide
  have hsize : ' ' ∉ Numeral.ofNat e.size.toNat := Numeral.not_mem_ofNat _ rfl
  have hmtime : ' ' ∉ Numeral.ofInt e.mtime.toInt := Numeral.not_mem_ofInt _ rfl (by decide)
  have htext : entryText e = [e.kind.tag] ++ ' ' :: (Numeral.ofNat e.size.toNat ++
      ' ' :: (Numeral.ofInt e.mtime.toInt ++ ' ' :: e.name.toList)) := by
    simp [entryText]
  unfold fields?
  rw [htext, cut_append hkind]
  simp only [Option.bind_eq_bind, Option.bind_some]
  rw [cut_append hsize]
  simp only [Option.bind_some]
  rw [cut_append hmtime]
  rfl

/-- An entry is read back, whatever its name. -/
theorem decodeEntry_entryText (e : Entry) : decodeEntry (textBytes (entryText e)) = .ok e := by
  have hfields := decodeEntry_textBytes (fields?_entryText e) (ofTag?_tag e.kind)
    (Numeral.natural?_ofNat e.size) (Numeral.integer?_ofInt e.mtime)
  rw [hfields, String.ofList_toList]

/-- No NUL comes before the one that closes an entry. -/
theorem nul_not_mem_entryText (h : IsEntryName e.name) : 0 ∉ textBytes (entryText e) := by
  obtain ⟨-, -, -, -, -, hname⟩ := h
  have hkind : '\x00' ≠ e.kind.tag := by
    cases e.kind <;> decide
  have hsize : '\x00' ∉ Numeral.ofNat e.size.toNat := Numeral.not_mem_ofNat _ rfl
  have hmtime : '\x00' ∉ Numeral.ofInt e.mtime.toInt := Numeral.not_mem_ofInt _ rfl (by decide)
  rw [textBytes, Utf8.nul_mem_encode_iff, String.toList_ofList]
  simp only [entryText, List.mem_cons, List.mem_append, not_or]
  exact ⟨⟨⟨hkind, by decide, hsize⟩, by decide, hmtime⟩, by decide, hname⟩

/-- Pieces that are each closed by a separator are pieces with separators between them, and one
more at the end. -/
theorem flatMap_closed {α β : Type} (sep : β) (f : α → List β) (a : α) (l : List α) :
    (a :: l).flatMap (fun x => f x ++ [sep]) =
      [sep].intercalate ((a :: l).map f) ++ [sep] := by
  induction l generalizing a with
  | nil => simp
  | cons b rest ih =>
      have hmap : (a :: b :: rest).map f = f a :: f b :: rest.map f := rfl
      rw [List.flatMap_cons, ih b, hmap, List.intercalate_cons_cons, List.map_cons]
      simp only [List.append_assoc]

theorem mapM_decodeEntry (entries : List Entry) :
    (entries.map fun e => textBytes (entryText e)).mapM decodeEntry = .ok entries := by
  induction entries with
  | nil => rfl
  | cons e rest ih =>
      rw [List.map_cons, List.mapM_cons, decodeEntry_entryText, ih]
      rfl

/-- The body of a listing that is not empty. -/
theorem decodeEntries_flatMap (h : ∀ x ∈ e :: entries, IsEntryName x.name) :
    decodeEntries ((e :: entries).flatMap encodeEntry) = .ok (e :: entries) := by
  have hbody := flatMap_closed 0 (fun e => textBytes (entryText e)) e entries
  have hpieces : ∀ piece ∈ (e :: entries).map fun e => textBytes (entryText e),
      (0 : UInt8) ∉ piece := by
    intro piece hpiece
    obtain ⟨x, hx, rfl⟩ := List.mem_map.mp hpiece
    exact nul_not_mem_entryText (h x hx)
  change decodeEntries ((e :: entries).flatMap fun e => textBytes (entryText e) ++ [0]) = _
  rw [hbody, decodeEntries, List.getLast?_concat, if_neg (not_not_intro rfl), List.dropLast_concat,
    List.splitOn_intercalate 0 hpieces (by simp), mapM_decodeEntry]

/-- What an index can carry is read back. -/
theorem decode_encode {index : Index}
    (h : ∀ entries, index = .listing entries → IsListing entries) :
    decode (encode index) = .ok index := by
  cases index with
  | dynamic => decide
  | listing entries =>
      have hlisting : IsListing entries := h entries rfl
      cases entries with
      | nil => decide
      | cons e rest =>
          have hlast : ((e :: rest).flatMap encodeEntry).getLast? = some 0 := by
            have hbody := flatMap_closed 0 (fun e => textBytes (entryText e)) e rest
            change ((e :: rest).flatMap fun e => textBytes (entryText e) ++ [0]).getLast? = _
            rw [hbody, List.getLast?_concat]
          rw [encode, decode_markerLine hlast, decodeEntries_flatMap hlisting.names]
          exact ofEntries_eq_ok_iff.mpr ⟨rfl, hlisting⟩

/-- A dynamic index, or one whose listing `ofEntries` accepts. -/
def IsSound (index : Index) : Prop := index = .dynamic ∨ ofEntries index.entries = .ok index

theorem isSound_iff {index : Index} :
    index.IsSound ↔ ∀ entries, index = .listing entries → IsListing entries := by
  cases index with
  | dynamic => exact ⟨fun _ => nofun, fun _ => .inl rfl⟩
  | listing es =>
      have hlisting : ofEntries es = .ok (.listing es) ↔ IsListing es :=
        ofEntries_eq_ok_iff.trans ⟨fun h => h.2, fun h => ⟨rfl, h⟩⟩
      constructor
      · rintro (h | h) entries heq
        · cases h
        · cases heq
          exact hlisting.mp h
      · intro h
        exact .inr (hlisting.mpr (h es rfl))

theorem isSound_of_decode {bytes : Bytes} {index : Index} (h : decode bytes = .ok index) :
    index.IsSound := by
  refine isSound_iff.mpr fun entries heq => ?_
  rw [heq] at h
  exact isListing_of_decode h

/-- The sound indices are those that are read back as they were written, and whatever is read is one
of them, however its file was spelled. -/
theorem read_back (index : Index) :
    (index.IsSound ↔ decode (encode index) = .ok index) ∧
      ∀ bytes, decode bytes = .ok index → index.IsSound ∧ decode (encode index) = .ok index := by
  have hback (h : index.IsSound) : decode (encode index) = .ok index :=
    decode_encode (isSound_iff.mp h)
  refine ⟨⟨hback, isSound_of_decode⟩, fun bytes h => ?_⟩
  have hsound : index.IsSound := isSound_of_decode h
  exact ⟨hsound, hback hsound⟩

/-- A file with a sign, a leading zero and a name that looks like a marker line. -/
theorem read_back_spelledOtherwise :
    decode (Utf8.encode "LazyFS\nf +05 -0 LazyFS\n d\x00") =
        .ok (.listing [⟨.file, 5, 0, "LazyFS\n d"⟩]) ∧
      (listing [⟨.file, 5, 0, "LazyFS\n d"⟩]).IsSound ∧
      decode (encode (.listing [⟨.file, 5, 0, "LazyFS\n d"⟩])) =
        .ok (.listing [⟨.file, 5, 0, "LazyFS\n d"⟩]) := by
  have hdecode : decode (Utf8.encode "LazyFS\nf +05 -0 LazyFS\n d\x00") =
      .ok (.listing [⟨.file, 5, 0, "LazyFS\n d"⟩]) := by
    decide
  exact ⟨hdecode, (read_back _).2 _ hdecode⟩

end Index
end OnDemandFs
