import OnDemandFs.Proofs.Index.Listings
import OnDemandFs.Proofs.Path.Spelling

/-!
# The algebra of spellings

A text is tidy if it is how the path that it denotes is spelled. Every path has one tidy text, so
tidying up twice is tidying up once. Parents and names are found on segments, but they can as well
be read off the characters of the tidy text: its last slash stands between the two. Joining tidy
directories and names that an index can carry is one to one, and parent and name undo it.
-/
namespace OnDemandFs

/-- A text is tidy if it is how its path is spelled. -/
def IsTidy (t : String) : Prop := normalize t = t

theorem isTidy_text (p : Path) : IsTidy p.text := congrArg Path.text p.ofText_text

theorem segments_text (p : Path) : segments p.text = p.names := by
  rw [← Path.names_ofText, Path.ofText_text]

namespace Path

/-- A path is its parent's spelling and its name, put together; the root's name is empty. -/
theorem joinText_parent_fileName (p : Path) : joinText p.parent.text p.fileName = p.text := by
  rcases p.eq_root_or_extend with rfl | ⟨q, n, hn, rfl⟩
  · rfl
  · rw [parent_extend q hn, fileName_extend q hn, text_extend q hn]

theorem slash_notMem_fileName (p : Path) : '/' ∉ p.fileName.toList := by
  rcases p.eq_root_or_extend with rfl | ⟨q, n, hn, rfl⟩
  · decide
  · rw [fileName_extend q hn]
    exact hn.2.2

theorem text_eq_slash_iff {p : Path} : p.text = "/" ↔ p = root := by
  constructor
  · intro h
    rw [← p.ofText_text, h]
    exact ext_names (by decide)
  · rintro rfl
    rfl

theorem isRoot_iff {p : Path} : p.isRoot = true ↔ p = root := by
  rw [isRoot, List.isEmpty_iff]
  exact ⟨fun h => ext_names h, fun h => by rw [h]; rfl⟩

end Path

/-- How the spelling of a path comes apart, whatever text denotes the path. -/
structure ComesApart (t : String) : Prop where
  idempotent : normalize (normalize t) = normalize t
  denoted : segments (normalize t) = segments t
  rejoined : joinText (Path.ofText t).parent.text (Path.ofText t).fileName = normalize t
  above : segments (Path.ofText t).parent.text = (segments t).dropLast
  /-- The name is what stands behind the last slash, and the parent is spelled by what stands before
  it, or by the slash itself if nothing does. -/
  cut : ∃ front, normalize t = front ++ "/" ++ (Path.ofText t).fileName ∧
    '/' ∉ (Path.ofText t).fileName.toList ∧
    (Path.ofText t).parent.text = if front = "" then "/" else front
  root : (Path.ofText t).isRoot = true ↔ normalize t = "/"

theorem cut_joinText (dir : Path) (n : String) : ∃ front, joinText dir.text n = front ++ "/" ++ n ∧
    dir.text = if front = "" then "/" else front := by
  unfold joinText
  split
  · next h => exact ⟨"", rfl, by rw [h]; rfl⟩
  · next h =>
      have hne : dir.text ≠ "" := by
        intro hempty
        have htidy := isTidy_text dir
        rw [hempty] at htidy
        exact absurd htidy (by unfold IsTidy; decide +kernel)
      exact ⟨dir.text, rfl, by rw [if_neg hne]⟩

theorem comesApart (t : String) : ComesApart t where
  idempotent := isTidy_text _
  denoted := segments_text (.ofText t)
  rejoined := (Path.ofText t).joinText_parent_fileName
  above := segments_text (Path.ofText t).parent
  cut := by
    obtain ⟨front, hjoin, hparent⟩ := cut_joinText (Path.ofText t).parent (Path.ofText t).fileName
    rw [Path.joinText_parent_fileName] at hjoin
    exact ⟨front, hjoin, (Path.ofText t).slash_notMem_fileName, hparent⟩
  root := Path.isRoot_iff.trans Path.text_eq_slash_iff.symm

/-- What a name behind the spelling of a directory leads to. -/
structure JoinsUp (d n : String) : Prop where
  tidy : IsTidy (joinText d n)
  parent : (Path.ofText (joinText d n)).parent.text = d
  fileName : (Path.ofText (joinText d n)).fileName = n
  unique {d' n' : String} (hd' : IsTidy d') (hn' : IsEntryName n')
    (h : joinText d n = joinText d' n') : d = d' ∧ n = n'

section Join
variable {d n : String}

theorem parent_joinText (hd : IsTidy d) (hn : IsEntryName n) :
    (Path.ofText (joinText d n)).parent.text = d := by
  rw [Path.ofText_joinText, Path.parent_extend _ hn.isSegment]
  exact hd

theorem fileName_joinText (d : String) (hn : IsEntryName n) :
    (Path.ofText (joinText d n)).fileName = n := by
  rw [Path.ofText_joinText, Path.fileName_extend _ hn.isSegment]

theorem isTidy_joinText (hd : IsTidy d) (hn : IsEntryName n) : IsTidy (joinText d n) := by
  have htext := (Path.ofText (joinText d n)).joinText_parent_fileName
  rw [parent_joinText hd hn, fileName_joinText d hn] at htext
  exact htext.symm

theorem joinsUp (hd : IsTidy d) (hn : IsEntryName n) : JoinsUp d n where
  tidy := isTidy_joinText hd hn
  parent := parent_joinText hd hn
  fileName := fileName_joinText d hn
  unique {d' n'} hd' hn' h := by
    have hparent := parent_joinText hd hn
    have hname := fileName_joinText d hn
    rw [h] at hparent hname
    exact ⟨hparent.symm.trans (parent_joinText hd' hn'),
      hname.symm.trans (fileName_joinText d' hn')⟩

end Join

/-- Any text comes apart into a parent and a name that make up its tidy spelling, and a tidy
directory and a valid name make up a path that comes apart into just these. -/
theorem apart_and_joined (t : String) {d n : String} (hd : IsTidy d) (hn : IsEntryName n) :
    ComesApart t ∧ JoinsUp d n :=
  ⟨comesApart t, joinsUp hd hn⟩

/-- An untidy text with letters of several bytes, and a name with dots and a blank. -/
theorem apart_and_joined_untidy : IsTidy "/é/.." ∧ IsEntryName "..x y" ∧
    ComesApart "ö/.//../é/" ∧ JoinsUp "/é/.." "..x y" := by
  have hd : IsTidy "/é/.." := by unfold IsTidy; decide +kernel
  have hn : IsEntryName "..x y" := by decide
  exact ⟨hd, hn, apart_and_joined "ö/.//../é/" hd hn⟩

end OnDemandFs
