import OnDemandFs.Index.Codec
import OnDemandFs.Path
import Mathlib.Data.List.Nodup
import Mathlib.Data.List.TakeDrop
import Mathlib.Tactic.SplitIfs

/-!
# Valid listings

A listing is valid if each of its names can be carried and none comes twice. `Index.ofEntries`
accepts just these, so what `Index.decode` reads is valid, and a name picks the one entry that bears
it.
-/
namespace OnDemandFs

/-- A listing that an index file can hold. -/
structure IsListing (entries : List Entry) : Prop where
  names : ∀ e ∈ entries, IsEntryName e.name
  nodup : (entries.map (·.name)).Nodup

theorem IsEntryName.isSegment {n : String} (h : IsEntryName n) : IsSegment n := by
  obtain ⟨hempty, hdot, -, -, hslash, -⟩ := h
  exact ⟨hempty, hdot, hslash⟩

namespace Index
variable {entries : List Entry}

/-- No fault is found exactly if the names are valid, distinct, and none was seen before. -/
theorem nameFault?_eq_none_iff (seen : List String) (entries : List Entry) :
    nameFault? seen entries = none ↔ IsListing entries ∧ ∀ e ∈ entries, e.name ∉ seen := by
  induction entries generalizing seen with
  | nil => exact ⟨fun _ => ⟨⟨nofun, List.nodup_nil⟩, nofun⟩, fun _ => rfl⟩
  | cons e rest ih =>
      unfold nameFault?
      by_cases hname : IsEntryName e.name
      · by_cases hseen : e.name ∈ seen
        · simp [hname, hseen]
        · simp only [hname, hseen, not_true_eq_false, if_false, ih]
          constructor
          · rintro ⟨⟨hnames, hnodup⟩, hfresh⟩
            have hhead : e.name ∉ rest.map (·.name) := by
              intro hmem
              obtain ⟨e', he', heq⟩ := List.mem_map.mp hmem
              exact hfresh e' he' (heq ▸ List.mem_cons_self)
            refine ⟨⟨?_, List.nodup_cons.mpr ⟨hhead, hnodup⟩⟩, ?_⟩
            · rintro e' (_ | ⟨_, he'⟩)
              · exact hname
              · exact hnames e' he'
            · rintro e' (_ | ⟨_, he'⟩)
              · exact hseen
              · exact fun hmem => hfresh e' he' (List.mem_cons_of_mem _ hmem)
          · rintro ⟨⟨hnames, hnodup⟩, hfresh⟩
            rw [List.map_cons, List.nodup_cons] at hnodup
            refine ⟨⟨fun e' he' => hnames e' (List.mem_cons_of_mem _ he'), hnodup.2⟩, ?_⟩
            intro e' he' hmem
            rcases List.mem_cons.mp hmem with heq | hmem
            · exact hnodup.1 (List.mem_map.mpr ⟨e', he', heq⟩)
            · exact hfresh e' (List.mem_cons_of_mem _ he') hmem
      · simp only [hname, not_false_eq_true, if_true]
        constructor
        · nofun
        · intro h
          exact absurd (h.1.names e List.mem_cons_self) hname

theorem ofEntries_eq_ok_iff {index : Index} :
    ofEntries entries = .ok index ↔ index = .listing entries ∧ IsListing entries := by
  have hfault := nameFault?_eq_none_iff [] entries
  unfold ofEntries
  cases h : nameFault? [] entries with
  | none =>
      have hvalid : IsListing entries := (hfault.mp h).1
      simp [hvalid, eq_comm]
  | some fault =>
      have hinvalid : ¬ IsListing entries := by
        intro hvalid
        rw [hfault.mpr ⟨hvalid, fun _ _ => List.not_mem_nil⟩] at h
        cases h
      simp [hinvalid]

theorem isListing_of_decode {bytes : Bytes} (h : decode bytes = .ok (.listing entries)) :
    IsListing entries := by
  unfold decode at h
  split at h
  · cases h
  · next header body _ =>
      split_ifs at h
      · cases h
      · cases h
      · cases h
        exact ⟨nofun, List.nodup_nil⟩
      · cases hdecoded : decodeEntries body with
        | error fault =>
            rw [hdecoded] at h
            cases h
        | ok read =>
            rw [hdecoded] at h
            obtain ⟨heq, hvalid⟩ := ofEntries_eq_ok_iff.mp h
            cases heq
            exact hvalid

theorem cut_append {α : Type} [DecidableEq α] {sep : α} {before : List α} (h : sep ∉ before)
    (after : List α) : cut sep (before ++ sep :: after) = some (before, after) := by
  have hbefore : ∀ a ∈ before, decide (a ≠ sep) = true := by
    intro a ha
    exact decide_eq_true fun heq => h (heq ▸ ha)
  have hspan : (before ++ sep :: after).span (· ≠ sep) = (before, sep :: after) := by
    rw [List.span_eq_takeWhile_dropWhile, List.takeWhile_append_of_pos hbefore,
      List.dropWhile_append_of_pos hbefore]
    simp
  unfold cut
  rw [hspan]

theorem decodeEntry_textBytes {line kind size mtime name : List Char} {k : EntryKind} {s : UInt64}
    {m : Int64} (hline : fields? line = some (kind, size, mtime, name))
    (hkind : EntryKind.ofTag? kind = some k) (hsize : Numeral.natural? size = some s)
    (hmtime : Numeral.integer? mtime = some m) :
    decodeEntry (textBytes line) = .ok ⟨k, s, m, String.ofList name⟩ := by
  unfold decodeEntry textBytes
  rw [Utf8.decode_encode]
  simp only [String.toList_ofList, hline, hkind, hsize, hmtime]

/-- A body that a NUL ends is read as entries. -/
theorem decode_markerLine {body : Bytes} (h : body.getLast? = some 0) :
    decode (markerLine ++ body) = decodeEntries body >>= ofEntries := by
  have hword : body ≠ textBytes dynamicWord := by
    rintro rfl
    exact absurd h (by decide)
  have hline : body ≠ textBytes dynamicWord ++ [10] := by
    rintro rfl
    exact absurd h (by decide)
  have hbody : body ≠ [] := by
    rintro rfl
    cases h
  have hcut : cut 10 (markerLine ++ body) = some (textBytes marker, body) := by
    rw [markerLine, List.append_assoc]
    exact cut_append (by decide) body
  unfold decode
  rw [hcut]
  dsimp only
  rw [if_neg (by decide), if_neg (not_not_intro rfl), if_neg (not_or.mpr ⟨hword, hline⟩),
    if_neg hbody]

/-- A name picks the entry that bears it. -/
theorem find?_eq_some_iff (h : IsListing entries) {n : String} {e : Entry} :
    (listing entries).find? n = some e ↔ e ∈ entries ∧ e.name = n := by
  change entries.find? (·.name = n) = some e ↔ _
  constructor
  · intro hfind
    exact ⟨List.mem_of_find?_eq_some hfind, by simpa using List.find?_some hfind⟩
  · rintro ⟨hmem, rfl⟩
    cases hfind : entries.find? (·.name = e.name) with
    | none =>
        have hno := List.find?_eq_none.mp hfind e hmem
        simp at hno
    | some e' =>
        have hname : e'.name = e.name := by simpa using List.find?_some hfind
        have heq : e' = e :=
          List.inj_on_of_nodup_map h.nodup (List.mem_of_find?_eq_some hfind) hmem hname
        rw [heq]

theorem find?_eq_none_iff {n : String} :
    (listing entries).find? n = none ↔ ∀ e ∈ entries, e.name ≠ n := by
  change entries.find? (·.name = n) = none ↔ _
  rw [List.find?_eq_none]
  simp

end Index
end OnDemandFs
