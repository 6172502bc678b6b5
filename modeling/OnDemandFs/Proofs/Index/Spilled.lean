import OnDemandFs.Proofs.Index.Grammar

/-!
# What an unchecked listing is read as

`Index.encode` takes any listing, whatever its names. What no index can carry is refused on the way
in, with one exception: a NUL closes an entry, so the decoder cuts a name there before it looks at
it. An entry with a NUL in its name comes back as several if what follows each NUL is the text of an
entry. `Spilled` says which entries these are, without the decoder, and `decode_encode_iff` that the
decoder reads just these.
-/
namespace OnDemandFs.Index

/-- The entries that come out of one. Its name ends at the first NUL; what follows the NUL, up to
the end of the name, is the text of an entry, which may spill in turn. -/
inductive Spilled : Entry → List Entry → Prop
  | whole {e : Entry} : '\x00' ∉ e.name.toList → Spilled e [e]
  | cut {e inner : Entry} {head tail : List Char} {rest : List Entry} : '\x00' ∉ head →
      e.name.toList = head ++ '\x00' :: tail → Line tail inner → Spilled inner rest →
      Spilled e ({ e with name := String.ofList head } :: rest)

/-- The entries that come out of a listing. -/
inductive AllSpilled : List Entry → List Entry → Prop
  | nil : AllSpilled [] []
  | cons {e : Entry} {entries group rest : List Entry} : Spilled e group →
      AllSpilled entries rest → AllSpilled (e :: entries) (group ++ rest)

/-- An index and what is read if it is written unchecked. -/
inductive ReadAs : Index → Index → Prop
  | dynamic : ReadAs dynamic dynamic
  | listing {entries read : List Entry} : AllSpilled entries read → IsListing read →
      ReadAs (listing entries) (listing read)

variable {line head tail : List Char} {e inner : Entry} {entries group read : List Entry}
  {rest : Bytes} {index : Index}

/-! ### Lines -/

theorem textBytes_cut (head tail : List Char) :
    textBytes (head ++ '\x00' :: tail) = textBytes head ++ 0 :: textBytes tail := by
  have hnul : String.ofList (head ++ '\x00' :: tail) =
      String.ofList head ++ ("\x00" ++ String.ofList tail) := String.ext (by simp)
  rw [textBytes, hnul, Utf8.encode_append, Utf8.encode_append]
  rfl

@[simp] theorem nul_mem_textBytes_iff : 0 ∈ textBytes line ↔ '\x00' ∈ line := by
  rw [textBytes, Utf8.nul_mem_encode_iff, String.toList_ofList]

theorem textBytes_injective (h : textBytes head = textBytes tail) : head = tail :=
  String.ofList_injective (Utf8.encode_injective h)

/-- What stands before the first NUL and after it is determined. -/
theorem append_nul_inj {p q b c : Bytes} (hp : 0 ∉ p) (hq : 0 ∉ q)
    (h : p ++ 0 :: b = q ++ 0 :: c) : p = q ∧ b = c := by
  have hcut := cut_append hp b
  rw [h, cut_append hq c] at hcut
  obtain ⟨rfl, rfl⟩ := Prod.mk.inj (Option.some.inj hcut)
  exact ⟨rfl, rfl⟩

theorem line_entryText (e : Entry) : Line (entryText e) e := by
  obtain ⟨line, htext, hline⟩ := decodeEntry_eq_ok_iff.mp (decodeEntry_entryText e)
  rw [textBytes_injective htext]
  exact hline

/-- The name runs to the end of the text. -/
theorem Line.append (h : Line line e) (more : List Char) :
    Line (line ++ more) { e with name := e.name ++ String.ofList more } := by
  cases h with
  | intro hsize hmtime =>
      have hlonger := Line.intro (e := { e with name := e.name ++ String.ofList more }) hsize hmtime
      simpa using hlonger

/-- The text of an entry without the end of its name. -/
theorem Line.dropEnd {more : List Char} (h : Line line e) (hname : e.name.toList = head ++ more) :
    ∃ front, line = front ++ more ∧ Line front { e with name := String.ofList head } := by
  cases h with
  | @intro size mtime _ hsize hmtime =>
      refine ⟨e.kind.tag :: ' ' :: size ++ ' ' :: mtime ++ ' ' :: head, ?_, ?_⟩
      · simp [hname]
      · have hshorter := Line.intro (e := { e with name := String.ofList head }) hsize hmtime
        simpa using hshorter

theorem Line.entry_unique (h : Line line e) (h' : Line line inner) : e = inner := by
  have hread := decodeEntry_eq_ok_iff.mpr ⟨line, rfl, h⟩
  rw [decodeEntry_eq_ok_iff.mpr ⟨line, rfl, h'⟩] at hread
  exact (Except.ok.inj hread).symm

/-- The bytes of a body that is not empty start with those of an entry with a valid name. -/
theorem exists_line_of_lines {body : Bytes} (h : Lines body read) (hbody : body ≠ [])
    (hnames : ∀ x ∈ read, IsEntryName x.name) :
    ∃ line e after others, body = textBytes line ++ 0 :: after ∧ 0 ∉ textBytes line ∧
      read = e :: others ∧ Line line e ∧ Lines after others := by
  cases h with
  | nil => exact absurd rfl hbody
  | cons hline hlines =>
      obtain ⟨-, -, -, -, -, hname⟩ := hnames _ List.mem_cons_self
      exact ⟨_, _, _, _, rfl, nul_not_mem_line hline hname, rfl, hline, hlines⟩

/-- If a text and what follows it are read as entries, the text is that of one. -/
theorem exists_line (h : Lines (textBytes line ++ 0 :: rest) read)
    (hnames : ∀ x ∈ read, IsEntryName x.name) : ∃ e, Line line e := by
  obtain ⟨first, e, after, others, hbytes, hclean, -, hfirst, -⟩ :=
    exists_line_of_lines h (by simp) hnames
  by_cases hnul : '\x00' ∈ line
  · obtain ⟨head, tail, rfl, hhead⟩ := List.eq_append_cons_of_mem hnul
    rw [textBytes_cut, List.append_assoc] at hbytes
    obtain ⟨heq, -⟩ := append_nul_inj (by simpa using hhead) hclean hbytes
    rw [textBytes_injective heq]
    exact ⟨_, hfirst.append _⟩
  · obtain ⟨heq, -⟩ := append_nul_inj (by simpa using hnul) hclean hbytes
    rw [textBytes_injective heq]
    exact ⟨e, hfirst⟩

/-! ### One entry -/

theorem Spilled.lines (h : Spilled e group) (hline : Line line e) {others : List Entry}
    (hrest : Lines rest others) : Lines (textBytes line ++ 0 :: rest) (group ++ others) := by
  induction h generalizing line with
  | whole => exact .cons hline hrest
  | cut _ hname htail _ ih =>
      obtain ⟨front, rfl, hfront⟩ := hline.dropEnd hname
      rw [textBytes_cut, List.append_assoc]
      exact .cons hfront (ih htail)

/-- Whatever is read from the text of an entry came out of it. The induction is on the length of the
text: behind each NUL there is a shorter one. -/
theorem exists_spilled_of_lines (hline : Line line e)
    (h : Lines (textBytes line ++ 0 :: rest) read) (hnames : ∀ x ∈ read, IsEntryName x.name) :
    ∃ group others, Spilled e group ∧ Lines rest others ∧ read = group ++ others := by
  induction hlength : line.length using Nat.strongRecOn generalizing line e read with
  | _ n ih =>
    subst hlength
    obtain ⟨first, e₁, after, others, hbytes, hclean, rfl, hfirst, hafter⟩ :=
      exists_line_of_lines h (by simp) hnames
    by_cases hnul : '\x00' ∈ e.name.toList
    · obtain ⟨head, tail, hname, hhead⟩ := List.eq_append_cons_of_mem hnul
      obtain ⟨front, rfl, hfront⟩ := hline.dropEnd hname
      have hfrontClean : 0 ∉ textBytes front := nul_not_mem_line hfront (by simpa using hhead)
      rw [textBytes_cut, List.append_assoc] at hbytes
      obtain ⟨heq, rfl⟩ := append_nul_inj hfrontClean hclean hbytes
      obtain rfl : e₁ = { e with name := String.ofList head } :=
        hfirst.entry_unique (textBytes_injective heq ▸ hfront)
      have hothers : ∀ x ∈ others, IsEntryName x.name := fun x hx =>
        hnames x (List.mem_cons_of_mem _ hx)
      obtain ⟨inner, htail⟩ := exists_line hafter hothers
      have hshorter : tail.length < (front ++ '\x00' :: tail).length := by
        rw [List.length_append, List.length_cons]
        omega
      obtain ⟨group, others, hgroup, hrest, rfl⟩ := ih _ hshorter htail hafter hothers rfl
      exact ⟨_, others, .cut hhead hname htail hgroup, hrest, rfl⟩
    · obtain ⟨heq, rfl⟩ := append_nul_inj (nul_not_mem_line hline hnul) hclean hbytes
      obtain rfl : e₁ = e := hfirst.entry_unique (textBytes_injective heq ▸ hline)
      exact ⟨[e₁], others, .whole hnul, hafter, rfl⟩

theorem Spilled.eq_singleton (h : Spilled e group) (hnul : '\x00' ∉ e.name.toList) :
    group = [e] := by
  cases h with
  | whole => rfl
  | cut _ hname =>
      rw [hname] at hnul
      exact absurd (List.mem_append_right _ List.mem_cons_self) hnul

/-- The first that comes out of an entry is shorter, if its name has a NUL. -/
theorem Spilled.not_mem_of_head (h : Spilled e group) (hhead : group.head? = some e) :
    '\x00' ∉ e.name.toList := by
  cases h with
  | whole hnul => exact hnul
  | cut hclean =>
      have hname := congrArg (fun x => x.name.toList) (Option.some.inj hhead)
      dsimp only at hname
      rw [String.toList_ofList] at hname
      rwa [hname] at hclean

theorem Spilled.ne_nil (h : Spilled e group) : group ≠ [] := by
  cases h with
  | whole => exact List.cons_ne_nil _ _
  | cut => exact List.cons_ne_nil _ _

/-! ### Listings -/

theorem lines_flatMap_iff (hnames : ∀ x ∈ read, IsEntryName x.name) :
    Lines (entries.flatMap encodeEntry) read ↔ AllSpilled entries read := by
  constructor
  · intro h
    induction entries generalizing read with
    | nil =>
        cases read with
        | nil => exact .nil
        | cons x others =>
            have hbytes : ∀ body, body = [] → ¬ Lines body (x :: others) := by
              rintro body hbody (_ | _)
              exact absurd hbody (by simp)
            exact absurd h (hbytes _ rfl)
    | cons e entries ih =>
        rw [List.flatMap_cons, encodeEntry, List.append_assoc] at h
        obtain ⟨group, others, hgroup, hothers, rfl⟩ :=
          exists_spilled_of_lines (line_entryText e) h hnames
        exact .cons hgroup (ih (fun x hx => hnames x (List.mem_append_right _ hx)) hothers)
  · intro h
    clear hnames
    induction h with
    | nil => exact .nil
    | cons hgroup _ ih =>
        rw [List.flatMap_cons, encodeEntry, List.append_assoc]
        exact hgroup.lines (line_entryText _) ih

/-- Nothing else than a NUL in a name makes a listing come out as another. -/
theorem AllSpilled.eq_iff (h : AllSpilled entries read) :
    read = entries ↔ ∀ e ∈ entries, '\x00' ∉ e.name.toList := by
  induction h with
  | nil => exact ⟨fun _ => nofun, fun _ => rfl⟩
  | cons hgroup _ ih =>
      rw [List.forall_mem_cons, ← ih]
      constructor
      · intro heq
        have hhead := congrArg List.head? heq
        rw [List.head?_append_of_ne_nil _ hgroup.ne_nil, List.head?_cons] at hhead
        have hnul := hgroup.not_mem_of_head hhead
        rw [hgroup.eq_singleton hnul] at heq
        exact ⟨hnul, List.tail_eq_of_cons_eq heq⟩
      · rintro ⟨hnul, rfl⟩
        rw [hgroup.eq_singleton hnul]
        rfl

/-- The entries without a NUL are neither hidden nor altered, and they keep their order. -/
theorem AllSpilled.kept (h : AllSpilled entries read) :
    (entries.filter fun e => '\x00' ∉ e.name.toList).Sublist read := by
  induction h with
  | nil => exact .slnil
  | @cons e _ group _ hgroup _ ih =>
      by_cases hnul : '\x00' ∈ e.name.toList
      · rw [List.filter_cons_of_neg (by simpa using hnul)]
        exact ih.trans (List.sublist_append_right _ _)
      · rw [List.filter_cons_of_pos (by simpa using hnul), hgroup.eq_singleton hnul]
        exact ih.cons_cons e

/-- Each entry that is read came out of one that was written. -/
theorem AllSpilled.exists_origin (h : AllSpilled entries read) {x : Entry} (hx : x ∈ read) :
    ∃ e ∈ entries, ∃ group, Spilled e group ∧ x ∈ group := by
  induction h with
  | nil => cases hx
  | cons hgroup _ ih =>
      rcases List.mem_append.mp hx with hx | hx
      · exact ⟨_, List.mem_cons_self, _, hgroup, hx⟩
      · obtain ⟨e, he, hgroup⟩ := ih hx
        exact ⟨e, List.mem_cons_of_mem _ he, hgroup⟩

/-- The body of a listing is not the word for a dynamic index. -/
theorem flatMap_ne_dynamic (entries : List Entry) {last : UInt8} (hlast : last ≠ 0)
    (front : Bytes) :
    entries.flatMap encodeEntry ≠ front ++ [last] := by
  intro h
  have hend : (entries.flatMap encodeEntry).getLast? = some last := by
    rw [h, List.getLast?_concat]
  cases entries with
  | nil => cases hend
  | cons e rest =>
      have hclosed := flatMap_closed 0 (fun e => textBytes (entryText e)) e rest
      change ((e :: rest).flatMap fun e => textBytes (entryText e) ++ [0]).getLast? = _ at hend
      rw [hclosed, List.getLast?_concat] at hend
      exact hlast (Option.some.inj hend).symm

/-- What is read is what comes out of the entries, if that is a valid listing; there is no other way
for an unchecked index to be read. -/
theorem decode_encode_iff {back : Index} :
    decode (encode index) = .ok back ↔ ReadAs index back := by
  have hmarker : Utf8.encode "LazyFS\n" = markerLine := by decide
  rw [(decode_iff_written _).1]
  constructor
  · intro h
    cases index with
    | dynamic =>
        have hdynamic : decode (encode dynamic) = .ok dynamic := by decide
        rw [← (decode_iff_written _).1, hdynamic] at h
        cases h
        exact .dynamic
    | listing entries =>
        have hbytes : encode (listing entries) = markerLine ++ entries.flatMap encodeEntry := rfl
        generalize encode (listing entries) = bytes at h hbytes
        cases h with
        | dynamicLine rest =>
            -- the marker line ends where this one has a blank
            have hseventh := congrArg (fun l : Bytes => l[6]?) hbytes
            rw [List.getElem?_append_left (by decide), List.getElem?_append_left (by decide)]
              at hseventh
            exact absurd hseventh (by decide)
        | dynamicWord =>
            have hbody : Utf8.encode "LazyFS\nDynamic" = markerLine ++ textBytes dynamicWord := by
              decide
            rw [hbody] at hbytes
            exact absurd (List.append_cancel_left hbytes).symm
              (flatMap_ne_dynamic entries (by decide) [68, 121, 110, 97, 109, 105])
        | dynamicBody =>
            have hbody : Utf8.encode "LazyFS\nDynamic\n" =
                markerLine ++ (textBytes dynamicWord ++ [10]) := by
              decide
            rw [hbody] at hbytes
            exact absurd (List.append_cancel_left hbytes).symm
              (flatMap_ne_dynamic entries (by decide) _)
        | listing hlines hvalid =>
            rw [hmarker] at hbytes
            rw [List.append_cancel_left hbytes] at hlines
            exact .listing ((lines_flatMap_iff hvalid.names).mp hlines) hvalid
  · intro h
    cases h with
    | dynamic => exact .dynamicBody
    | listing hread hvalid =>
        change Written (markerLine ++ _) _
        rw [← hmarker]
        exact .listing ((lines_flatMap_iff hvalid.names).mpr hread) hvalid

/-- A name with a NUL in it takes what follows past every check. -/
def Smuggles (index : Index) : Prop :=
  (∃ e ∈ index.entries, '\x00' ∈ e.name.toList) ∧ ∃ back, ReadAs index back

/-- What the decoder makes of an index that nothing checked. -/
structure Unchecked (index : Index) : Prop where
  read : ∀ back, decode (encode index) = .ok back ↔ ReadAs index back
  /-- It gives the index or an error, unless entries are smuggled in. -/
  safe : (∀ back, decode (encode index) = .ok back → back = index) ↔ ¬ index.Smuggles
  /-- Also then the entries without a NUL are read as they are, in their order. -/
  kept : ∀ back, decode (encode index) = .ok back →
    (index.entries.filter fun e => '\x00' ∉ e.name.toList).Sublist back.entries
  /-- Whatever else is read came out of an entry with a NUL in its name. -/
  added : ∀ back, decode (encode index) = .ok back → ∀ x ∈ back.entries,
    x ∈ index.entries ∨ ∃ e ∈ index.entries, '\x00' ∈ e.name.toList ∧
      ∃ group, Spilled e group ∧ x ∈ group

theorem ReadAs.eq_iff {back : Index} (h : ReadAs index back) :
    back = index ↔ ∀ e ∈ index.entries, '\x00' ∉ e.name.toList := by
  cases h with
  | dynamic => exact ⟨fun _ => nofun, fun _ => rfl⟩
  | listing hread => exact (Index.listing.injEq _ _).to_iff.trans hread.eq_iff

theorem unchecked (index : Index) : index.Unchecked := by
  refine ⟨fun back => decode_encode_iff, ?_, fun back hback => ?_, fun back hback x hx => ?_⟩
  · simp only [decode_encode_iff]
    constructor
    · rintro hsafe ⟨⟨e, he, hnul⟩, back, hback⟩
      exact hback.eq_iff.mp (hsafe back hback) e he hnul
    · intro hnone back hback
      refine hback.eq_iff.mpr fun e he hnul => ?_
      exact hnone ⟨⟨e, he, hnul⟩, back, hback⟩
  · cases decode_encode_iff.mp hback with
    | dynamic => exact List.Sublist.refl _
    | listing hread => exact hread.kept
  · cases decode_encode_iff.mp hback with
    | dynamic => cases hx
    | listing hread =>
        obtain ⟨e, he, group, hgroup, hx⟩ := hread.exists_origin hx
        by_cases hnul : '\x00' ∈ e.name.toList
        · exact .inr ⟨e, he, hnul, group, hgroup, hx⟩
        · rw [hgroup.eq_singleton hnul, List.mem_singleton] at hx
          exact .inl (hx ▸ he)

end OnDemandFs.Index
