import OnDemandFs.Proofs.Index.RoundTrip
import Mathlib.Data.List.Induction
import Mathlib.Data.List.TakeWhile

/-!
# The grammar of index files

What `Index.decode` accepts, written down without it. A numeral is built digit by digit and a
listing entry by entry; nothing here cuts a line or splits at a NUL. `decode_iff_written` says that
the decoder accepts these files and no others, with this meaning. The cutting is unique because no
numeral has a blank and no valid entry a NUL before the one that closes it.
-/
namespace OnDemandFs

namespace Numeral

/-- At least one digit, and the value that the digits have. -/
inductive Digits : List Char → Nat → Prop
  | one {c : Char} : c.isDigit = true → Digits [c] (c.toNat - '0'.toNat)
  | more {cs : List Char} {n : Nat} {c : Char} : Digits cs n → c.isDigit = true →
      Digits (cs ++ [c]) (10 * n + (c.toNat - '0'.toNat))

/-- How a number of 64 bits may be spelled. -/
inductive Unsigned : List Char → UInt64 → Prop
  | plain {cs : List Char} {n : UInt64} : Digits cs n.toNat → Unsigned cs n
  | plus {cs : List Char} {n : UInt64} : Digits cs n.toNat → Unsigned ('+' :: cs) n

/-- How a signed number of 64 bits may be spelled. -/
inductive Signed : List Char → Int64 → Prop
  | plain {cs : List Char} {n : Nat} {i : Int64} : Digits cs n → i.toInt = n → Signed cs i
  | plus {cs : List Char} {n : Nat} {i : Int64} : Digits cs n → i.toInt = n → Signed ('+' :: cs) i
  | minus {cs : List Char} {n : Nat} {i : Int64} : Digits cs n → i.toInt = -n → Signed ('-' :: cs) i

variable {cs : List Char} {n : Nat} {c : Char}

theorem Digits.isDigit_of_mem (h : Digits cs n) (hc : c ∈ cs) : c.isDigit = true := by
  induction h with
  | one hdigit =>
      rw [List.mem_singleton.mp hc]
      exact hdigit
  | more _ hdigit ih =>
      rcases List.mem_append.mp hc with hinit | hlast
      · exact ih hinit
      · rw [List.mem_singleton.mp hlast]
        exact hdigit

theorem Digits.not_mem (h : Digits cs n) (hc : c.isDigit = false) : c ∉ cs := by
  intro hmem
  rw [h.isDigit_of_mem hmem] at hc
  cases hc

/-- Digits have no sign in front. -/
theorem not_digits_cons (hc : c.isDigit = false) : ¬ Digits (c :: cs) n :=
  fun h => h.not_mem hc List.mem_cons_self

theorem Digits.ne_nil (h : Digits cs n) : cs ≠ [] := by
  cases h with
  | one => exact List.cons_ne_nil _ _
  | more => exact List.append_ne_nil_of_right_ne_nil _ (List.cons_ne_nil _ _)

theorem Digits.ofDigitChars (h : Digits cs n) : Nat.ofDigitChars 10 cs 0 = n := by
  induction h with
  | one => simp [Nat.ofDigitChars]
  | more _ _ ih => rw [Nat.ofDigitChars_append, ih, Nat.ofDigitChars_cons, Nat.ofDigitChars_nil]

theorem digits_ofDigitChars (hne : cs ≠ []) (hall : ∀ c ∈ cs, c.isDigit = true) :
    Digits cs (Nat.ofDigitChars 10 cs 0) := by
  induction cs using List.reverseRecOn with
  | nil => exact absurd rfl hne
  | append_singleton init c ih =>
      have hlast : c.isDigit = true := hall c (List.mem_append_right _ List.mem_cons_self)
      rw [Nat.ofDigitChars_append, Nat.ofDigitChars_cons, Nat.ofDigitChars_nil]
      cases init with
      | nil => simpa using Digits.one hlast
      | cons d init =>
          refine (ih (List.cons_ne_nil _ _) fun c hc => ?_).more hlast
          exact hall c (List.mem_append_left _ hc)

theorem value?_eq_some_iff : value? cs = some n ↔ Digits cs n := by
  have hdigits : isDigits cs = true ↔ cs ≠ [] ∧ ∀ c ∈ cs, c.isDigit = true := by
    simp [isDigits]
  unfold value?
  constructor
  · intro h
    split at h
    · next hall =>
        cases h
        obtain ⟨hne, hall⟩ := hdigits.mp hall
        exact digits_ofDigitChars hne hall
    · cases h
  · intro h
    rw [if_pos (hdigits.mpr ⟨h.ne_nil, fun c hc => h.isDigit_of_mem hc⟩), h.ofDigitChars]

/-- The value of the digits, if 64 bits hold it. -/
theorem word_eq_some_iff {m : UInt64} :
    ((value? cs).bind fun n => if n < wordLimit then some (UInt64.ofNat n) else none) = some m ↔
      Digits cs m.toNat := by
  rw [Option.bind_eq_some_iff]
  constructor
  · rintro ⟨n, hvalue, hword⟩
    split at hword
    · next hbound =>
        cases hword
        rw [UInt64.toNat_ofNat_of_lt' hbound]
        exact value?_eq_some_iff.mp hvalue
    · cases hword
  · intro h
    refine ⟨m.toNat, value?_eq_some_iff.mpr h, ?_⟩
    have hbound : m.toNat < wordLimit := m.toNat_lt
    rw [if_pos hbound, UInt64.ofNat_toNat]

theorem natural?_eq_some_iff {m : UInt64} : natural? cs = some m ↔ Unsigned cs m := by
  by_cases hplus : ∃ ds, cs = '+' :: ds
  · obtain ⟨ds, rfl⟩ := hplus
    have hread : natural? ('+' :: ds) =
        (value? ds).bind fun n => if n < wordLimit then some (UInt64.ofNat n) else none := by
      cases h : value? ds <;> simp [natural?, h]
    rw [hread, word_eq_some_iff]
    constructor
    · exact .plus
    · intro h
      cases h with
      | plain hdigits => exact absurd hdigits (not_digits_cons rfl)
      | plus hdigits => exact hdigits
  · have hread : natural? cs =
        (value? cs).bind fun n => if n < wordLimit then some (UInt64.ofNat n) else none := by
      unfold natural?
      split
      · next ds => exact absurd ⟨ds, rfl⟩ hplus
      · cases h : value? cs <;> simp [h]
    rw [hread, word_eq_some_iff]
    constructor
    · exact .plain
    · intro h
      cases h with
      | plain hdigits => exact hdigits
      | plus => exact absurd ⟨_, rfl⟩ hplus

/-- The value of the digits, with a minus if there was one, if it is a signed number of 64 bits. -/
theorem signedWord_eq_some_iff (negative : Bool) {i : Int64} :
    ((value? cs).bind fun n =>
      if negative then (if n ≤ signedLimit then some (Int64.ofInt (-(n : Int))) else none)
      else if n < signedLimit then some (Int64.ofInt n) else none) = some i ↔
      ∃ n : Nat, Digits cs n ∧ i.toInt = if negative then -(n : Int) else n := by
  have hlower := i.le_toInt
  have hupper := i.toInt_lt
  rw [Option.bind_eq_some_iff]
  cases negative with
  | false =>
      simp only [Bool.false_eq_true, if_false]
      constructor
      · rintro ⟨n, hvalue, hword⟩
        split at hword
        · next hbound =>
            cases hword
            have hback : (Int64.ofInt n).toInt = n :=
              Int64.toInt_ofInt_of_le (by omega) (by unfold signedLimit at hbound; omega)
            exact ⟨n, value?_eq_some_iff.mp hvalue, hback⟩
        · cases hword
      · rintro ⟨n, hdigits, hint⟩
        have hbound : n < signedLimit := by
          unfold signedLimit
          omega
        refine ⟨n, value?_eq_some_iff.mpr hdigits, ?_⟩
        rw [if_pos hbound, ← hint, Int64.ofInt_toInt]
  | true =>
      simp only [if_true]
      constructor
      · rintro ⟨n, hvalue, hword⟩
        split at hword
        · next hbound =>
            cases hword
            have hback : (Int64.ofInt (-n)).toInt = -n :=
              Int64.toInt_ofInt_of_le (by unfold signedLimit at hbound; omega) (by omega)
            exact ⟨n, value?_eq_some_iff.mp hvalue, hback⟩
        · cases hword
      · rintro ⟨n, hdigits, hint⟩
        have hbound : n ≤ signedLimit := by
          unfold signedLimit
          omega
        refine ⟨n, value?_eq_some_iff.mpr hdigits, ?_⟩
        rw [if_pos hbound, ← hint, Int64.ofInt_toInt]

theorem integer?_eq_some_iff {i : Int64} : integer? cs = some i ↔ Signed cs i := by
  by_cases hplus : ∃ ds, cs = '+' :: ds
  · obtain ⟨ds, rfl⟩ := hplus
    have hread : integer? ('+' :: ds) = (value? ds).bind fun n =>
        if false then (if n ≤ signedLimit then some (Int64.ofInt (-(n : Int))) else none)
        else if n < signedLimit then some (Int64.ofInt n) else none := by
      cases h : value? ds <;> simp [integer?, h]
    rw [hread, signedWord_eq_some_iff false]
    constructor
    · rintro ⟨n, hdigits, hint⟩
      exact .plus hdigits hint
    · intro h
      cases h with
      | plain hdigits => exact absurd hdigits (not_digits_cons rfl)
      | plus hdigits hint => exact ⟨_, hdigits, hint⟩
  · by_cases hminus : ∃ ds, cs = '-' :: ds
    · obtain ⟨ds, rfl⟩ := hminus
      have hread : integer? ('-' :: ds) = (value? ds).bind fun n =>
          if true then (if n ≤ signedLimit then some (Int64.ofInt (-(n : Int))) else none)
          else if n < signedLimit then some (Int64.ofInt n) else none := by
        cases h : value? ds <;> simp [integer?, h]
      rw [hread, signedWord_eq_some_iff true]
      constructor
      · rintro ⟨n, hdigits, hint⟩
        exact .minus hdigits hint
      · intro h
        cases h with
        | plain hdigits => exact absurd hdigits (not_digits_cons rfl)
        | minus hdigits hint => exact ⟨_, hdigits, hint⟩
    · have hread : integer? cs = (value? cs).bind fun n =>
          if false then (if n ≤ signedLimit then some (Int64.ofInt (-(n : Int))) else none)
          else if n < signedLimit then some (Int64.ofInt n) else none := by
        unfold integer?
        split
        next negative digits hsign =>
          split at hsign
          · next ds => exact absurd ⟨ds, rfl⟩ hplus
          · next ds => exact absurd ⟨ds, rfl⟩ hminus
          · cases hsign
            cases value? cs <;> simp
      rw [hread, signedWord_eq_some_iff false]
      constructor
      · rintro ⟨n, hdigits, hint⟩
        exact .plain hdigits hint
      · intro h
        cases h with
        | plain hdigits hint => exact ⟨_, hdigits, hint⟩
        | plus => exact absurd ⟨_, rfl⟩ hplus
        | minus => exact absurd ⟨_, rfl⟩ hminus

/-- What is neither a digit nor a sign is in no numeral. -/
theorem Unsigned.not_mem {m : UInt64} (h : Unsigned cs m) (hdigit : c.isDigit = false)
    (hplus : c ≠ '+') : c ∉ cs := by
  cases h with
  | plain h => exact h.not_mem hdigit
  | plus h => exact List.not_mem_cons_of_ne_of_not_mem hplus (h.not_mem hdigit)

theorem Signed.not_mem {i : Int64} (h : Signed cs i) (hdigit : c.isDigit = false)
    (hplus : c ≠ '+') (hminus : c ≠ '-') : c ∉ cs := by
  cases h with
  | plain h _ => exact h.not_mem hdigit
  | plus h _ => exact List.not_mem_cons_of_ne_of_not_mem hplus (h.not_mem hdigit)
  | minus h _ => exact List.not_mem_cons_of_ne_of_not_mem hminus (h.not_mem hdigit)

end Numeral

namespace Index

/-- The text of an entry: kind, size, modification time and name, with one blank between them. -/
inductive Line : List Char → Entry → Prop
  | intro {size mtime : List Char} {e : Entry} :
      Numeral.Unsigned size e.size → Numeral.Signed mtime e.mtime →
      Line (e.kind.tag :: ' ' :: size ++ ' ' :: mtime ++ ' ' :: e.name.toList) e

/-- Entries one after the other, each closed by a NUL. -/
inductive Lines : Bytes → List Entry → Prop
  | nil : Lines [] []
  | cons {line : List Char} {e : Entry} {body : Bytes} {entries : List Entry} : Line line e →
      Lines body entries → Lines (textBytes line ++ 0 :: body) (e :: entries)

/-- The bytes that mean an index. Behind a first line that declares the directory dynamic, anything
may follow. -/
inductive Written : Bytes → Index → Prop
  | dynamicLine (rest : Bytes) : Written (Utf8.encode "LazyFS Dynamic\n" ++ rest) dynamic
  | dynamicWord : Written (Utf8.encode "LazyFS\nDynamic") dynamic
  | dynamicBody : Written (Utf8.encode "LazyFS\nDynamic\n") dynamic
  | listing {body : Bytes} {entries : List Entry} : Lines body entries → IsListing entries →
      Written (Utf8.encode "LazyFS\n" ++ body) (listing entries)

variable {line : List Char} {raw body bytes : Bytes} {e : Entry} {entries : List Entry}

theorem cut_of_not_mem {α : Type} [DecidableEq α] {sep : α} {l : List α} (h : sep ∉ l) :
    cut sep l = none := by
  have hall : ∀ a ∈ l, decide (a ≠ sep) = true := fun a ha => decide_eq_true fun heq => h (heq ▸ ha)
  unfold cut
  rw [List.span_eq_takeWhile_dropWhile, List.dropWhile_eq_nil_iff.mpr hall]

theorem cut_eq_some_iff {α : Type} [DecidableEq α] {sep : α} {l before after : List α} :
    cut sep l = some (before, after) ↔ sep ∉ before ∧ l = before ++ sep :: after := by
  constructor
  · intro h
    by_cases hmem : sep ∈ l
    · obtain ⟨first, rest, rfl, hfirst⟩ := List.eq_append_cons_of_mem hmem
      rw [cut_append hfirst] at h
      cases h
      exact ⟨hfirst, rfl⟩
    · rw [cut_of_not_mem hmem] at h
      cases h
  · rintro ⟨hbefore, rfl⟩
    exact cut_append hbefore after

theorem fields?_eq_some_iff {kind size mtime name : List Char} :
    fields? line = some (kind, size, mtime, name) ↔
      (' ' ∉ kind ∧ ' ' ∉ size ∧ ' ' ∉ mtime) ∧
        line = kind ++ ' ' :: (size ++ ' ' :: (mtime ++ ' ' :: name)) := by
  unfold fields?
  simp only [Option.bind_eq_bind, Option.bind_eq_some_iff, Option.pure_def, Option.some.injEq,
    Prod.exists, Prod.mk.injEq, cut_eq_some_iff]
  constructor
  · rintro ⟨_, _, ⟨hkind, rfl⟩, _, _, ⟨hsize, rfl⟩, _, _, ⟨hmtime, rfl⟩, rfl, rfl, rfl, rfl⟩
    exact ⟨⟨hkind, hsize, hmtime⟩, rfl⟩
  · rintro ⟨⟨hkind, hsize, hmtime⟩, rfl⟩
    exact ⟨_, _, ⟨hkind, rfl⟩, _, _, ⟨hsize, rfl⟩, _, _, ⟨hmtime, rfl⟩, rfl, rfl, rfl, rfl⟩

theorem ofTag?_eq_some_iff {cs : List Char} {k : EntryKind} :
    EntryKind.ofTag? cs = some k ↔ cs = [k.tag] := by
  constructor
  · intro h
    unfold EntryKind.ofTag? at h
    split at h
    · cases h
      rfl
    · cases h
      rfl
    · cases h
  · rintro rfl
    exact ofTag?_tag k

theorem textBytes_toList (text : String) : textBytes text.toList = Utf8.encode text := by
  rw [textBytes, String.ofList_toList]

theorem decodeEntry_eq_ok_iff :
    decodeEntry raw = .ok e ↔ ∃ line, raw = textBytes line ∧ Line line e := by
  constructor
  · intro h
    unfold decodeEntry at h
    split at h
    · cases h
    · next text htext =>
        refine ⟨text.toList, by rw [textBytes_toList, Utf8.encode_of_decode htext], ?_⟩
        split at h
        · cases h
        · next kind size mtime name hfields =>
            obtain ⟨-, hline⟩ := fields?_eq_some_iff.mp hfields
            split at h
            · cases h
            · next k hkind =>
                split at h
                · next s m hsize hmtime =>
                    cases h
                    rw [hline, ofTag?_eq_some_iff.mp hkind]
                    have hentry := Line.intro (e := ⟨k, s, m, String.ofList name⟩)
                      (Numeral.natural?_eq_some_iff.mp hsize)
                      (Numeral.integer?_eq_some_iff.mp hmtime)
                    simpa using hentry
                · cases h
  · rintro ⟨line, rfl, hline⟩
    cases hline with
    | @intro size mtime _ hsize hmtime =>
        have hkind : ' ' ∉ [e.kind.tag] := by
          cases e.kind <;> decide
        have hfields : fields? (e.kind.tag :: ' ' :: size ++ ' ' :: mtime ++ ' ' :: e.name.toList) =
            some ([e.kind.tag], size, mtime, e.name.toList) :=
          fields?_eq_some_iff.mpr ⟨⟨hkind, hsize.not_mem rfl (by decide),
            hmtime.not_mem rfl (by decide) (by decide)⟩, by simp⟩
        rw [decodeEntry_textBytes hfields (ofTag?_tag e.kind)
          (Numeral.natural?_eq_some_iff.mpr hsize) (Numeral.integer?_eq_some_iff.mpr hmtime),
          String.ofList_toList]

theorem mapM_eq_ok_iff {α β ε : Type} {f : α → Except ε β} {l : List α} {m : List β} :
    l.mapM f = .ok m ↔ List.Forall₂ (fun a b => f a = .ok b) l m := by
  induction l generalizing m with
  | nil =>
      rw [List.mapM_nil, List.forall₂_nil_left_iff]
      constructor
      · intro h
        cases h
        rfl
      · rintro rfl
        rfl
  | cons a l ih =>
      rw [List.mapM_cons, List.forall₂_cons_left_iff]
      constructor
      · intro h
        cases ha : f a with
        | error fault =>
            rw [ha] at h
            cases h
        | ok b =>
            cases hl : l.mapM f with
            | error fault =>
                rw [ha, hl] at h
                cases h
            | ok rest =>
                rw [ha, hl] at h
                cases h
                exact ⟨b, rest, rfl, ih.mp hl, rfl⟩
      · rintro ⟨b, rest, ha, hrest, rfl⟩
        rw [ha, ih.mpr hrest]
        rfl

/-- Before the NUL that closes an entry there is none, if its name has none. -/
theorem nul_not_mem_line (h : Line line e) (hnul : '\x00' ∉ e.name.toList) :
    0 ∉ textBytes line := by
  cases h with
  | @intro size mtime _ hsize hmtime =>
      have hkind : '\x00' ≠ e.kind.tag := by
        cases e.kind <;> decide
      have hsize : '\x00' ∉ size := hsize.not_mem rfl (by decide)
      have hmtime : '\x00' ∉ mtime := hmtime.not_mem rfl (by decide) (by decide)
      rw [textBytes, Utf8.nul_mem_encode_iff, String.toList_ofList]
      simp only [List.mem_cons, List.mem_append, not_or]
      exact ⟨⟨⟨hkind, by decide, hsize⟩, by decide, hmtime⟩, by decide, hnul⟩

/-- A body of valid entries falls into pieces that its NULs close. -/
theorem pieces_of_lines (h : Lines body entries) (hnames : ∀ e ∈ entries, IsEntryName e.name) :
    ∃ pieces : List Bytes, (∀ p ∈ pieces, 0 ∉ p) ∧
      List.Forall₂ (fun p e => decodeEntry p = .ok e) pieces entries ∧
      body = pieces.flatMap fun p => p ++ [0] := by
  induction h with
  | nil => exact ⟨[], nofun, .nil, rfl⟩
  | cons hline _ ih =>
      obtain ⟨pieces, hnul, hpieces, rfl⟩ := ih fun e he => hnames e (List.mem_cons_of_mem _ he)
      obtain ⟨-, -, -, -, -, hname⟩ := hnames _ List.mem_cons_self
      have hhead := nul_not_mem_line hline hname
      exact ⟨_, List.forall_mem_cons.mpr ⟨hhead, hnul⟩,
        .cons (decodeEntry_eq_ok_iff.mpr ⟨_, rfl, hline⟩) hpieces, by simp⟩

theorem lines_of_pieces {pieces : List Bytes}
    (h : List.Forall₂ (fun p e => decodeEntry p = .ok e) pieces entries) :
    Lines (pieces.flatMap fun p => p ++ [0]) entries := by
  induction h with
  | nil => exact .nil
  | cons hpiece _ ih =>
      obtain ⟨line, rfl, hline⟩ := decodeEntry_eq_ok_iff.mp hpiece
      simpa using Lines.cons hline ih

theorem decodeEntries_of_lines (h : Lines body entries) (hbody : body ≠ [])
    (hnames : ∀ e ∈ entries, IsEntryName e.name) : decodeEntries body = .ok entries := by
  obtain ⟨pieces, hnul, hpieces, rfl⟩ := pieces_of_lines h hnames
  cases pieces with
  | nil => exact absurd rfl hbody
  | cons piece pieces =>
      have hclosed := flatMap_closed 0 id piece pieces
      rw [List.map_id] at hclosed
      change decodeEntries ((piece :: pieces).flatMap fun p => id p ++ [0]) = _
      rw [hclosed, decodeEntries, List.getLast?_concat, if_neg (not_not_intro rfl),
        List.dropLast_concat, List.splitOn_intercalate 0 hnul (List.cons_ne_nil _ _)]
      exact mapM_eq_ok_iff.mpr hpieces

theorem lines_of_decodeEntries (h : decodeEntries body = .ok entries) : Lines body entries := by
  unfold decodeEntries at h
  split at h
  · cases h
  · next hlast =>
      have hpieces := mapM_eq_ok_iff.mp h
      have hend : body.dropLast ++ [0] = body := by
        rw [not_not] at hlast
        exact List.dropLast_append_getLast? 0 hlast
      obtain ⟨piece, pieces, hsplit⟩ := List.exists_cons_of_ne_nil
        (List.splitOn_ne_nil 0 body.dropLast)
      have hclosed := flatMap_closed 0 id piece pieces
      rw [List.map_id, ← hsplit, List.intercalate_splitOn, hend] at hclosed
      rw [← hclosed]
      exact lines_of_pieces hpieces

theorem getLast?_of_lines (h : Lines body entries) :
    body = [] ∧ entries = [] ∨ body.getLast? = some 0 := by
  induction h with
  | nil => exact .inl ⟨rfl, rfl⟩
  | cons _ _ ih =>
      refine .inr ?_
      rcases ih with ⟨rfl, -⟩ | hlast
      · rw [List.getLast?_concat]
      · rw [List.getLast?_append_cons, List.getLast?_cons, hlast]
        rfl

theorem written_of_decode {index : Index} (h : decode bytes = .ok index) : Written bytes index := by
  unfold decode at h
  split at h
  · cases h
  · next header body hcut =>
      obtain ⟨-, rfl⟩ := cut_eq_some_iff.mp hcut
      split_ifs at h with hline hmarker hword hempty
      · cases h
        rw [hline]
        exact .dynamicLine body
      · cases h
        rw [not_not.mp hmarker]
        rcases hword with rfl | rfl
        · exact .dynamicWord
        · exact .dynamicBody
      · cases h
        rw [not_not.mp hmarker, hempty]
        exact .listing .nil ⟨nofun, List.nodup_nil⟩
      · cases hdecoded : decodeEntries body with
        | error fault =>
            rw [hdecoded] at h
            cases h
        | ok entries =>
            rw [hdecoded] at h
            obtain ⟨rfl, hvalid⟩ := ofEntries_eq_ok_iff.mp h
            rw [not_not.mp hmarker]
            exact .listing (lines_of_decodeEntries hdecoded) hvalid

theorem decode_of_written {index : Index} (h : Written bytes index) : decode bytes = .ok index := by
  cases h with
  | dynamicLine rest =>
      have hline : Utf8.encode "LazyFS Dynamic\n" ++ rest =
          textBytes (marker ++ ' ' :: dynamicWord) ++ 10 :: rest := rfl
      have hcut : cut 10 (Utf8.encode "LazyFS Dynamic\n" ++ rest) =
          some (textBytes (marker ++ ' ' :: dynamicWord), rest) := by
        rw [hline]
        exact cut_append (by decide) rest
      unfold decode
      rw [hcut]
      exact if_pos rfl
  | dynamicWord => decide
  | dynamicBody => decide
  | @listing body entries hlines hvalid =>
      rcases getLast?_of_lines hlines with ⟨rfl, rfl⟩ | hlast
      · decide
      · have hbody : body ≠ [] := by
          rintro rfl
          cases hlast
        have hmarker : Utf8.encode "LazyFS\n" = markerLine := by decide
        rw [hmarker, decode_markerLine hlast, decodeEntries_of_lines hlines hbody hvalid.names]
        exact ofEntries_eq_ok_iff.mpr ⟨rfl, hvalid⟩

/-- The decoder accepts exactly the index grammar, and everything else is an error. -/
theorem decode_iff_written (bytes : Bytes) :
    (∀ index, decode bytes = .ok index ↔ Written bytes index) ∧
      ((∃ fault, decode bytes = .error fault) ↔ ∀ index, ¬ Written bytes index) := by
  have hiff (index : Index) : decode bytes = .ok index ↔ Written bytes index :=
    ⟨written_of_decode, decode_of_written⟩
  refine ⟨hiff, ?_, ?_⟩
  · rintro ⟨fault, hfault⟩ index hwritten
    rw [decode_of_written hwritten] at hfault
    cases hfault
  · intro hnone
    cases hdecode : decode bytes with
    | error fault => exact ⟨fault, rfl⟩
    | ok index => exact absurd (written_of_decode hdecode) (hnone index)

/-- Signs and leading zeros are accepted, and a name may hold blanks and line breaks. -/
example : decode (Utf8.encode "LazyFS\nf +05 -0  a\nb\x00") =
    .ok (.listing [⟨.file, 5, 0, " a\nb"⟩]) := by
  decide

end Index
end OnDemandFs
