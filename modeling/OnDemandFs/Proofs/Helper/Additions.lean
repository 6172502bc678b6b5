import OnDemandFs.Proofs.Helper.Histories

/-!
# What an answer adds

An answer for a path puts a directory or a file in the place of its copy, and an index into a
directory. That is all it can do: everything else stands as it did, no file that was there before
has another body, and outside the cache no object is touched. If the paths on the disk are short
enough the copy or the index is there afterwards.
-/
namespace OnDemandFs

/-- In a directory that is there, nothing new is made on the way to it. -/
theorem Disk.Grows.same {top dir : Location} {d d' : Disk} (hgrows : Disk.Grows top dir d d')
    (h : d.IsTree top) (htop : top <+: dir) (hdir : d.stands dir = some .directory) :
    d'.stands = d.stands := by
  funext l
  rcases hgrows.stands l with hsame | ⟨-, hway, hnone, -⟩
  · exact hsame
  · rw [h.directory_of_prefix htop hdir hway] at hnone
    cases hnone

/-- If the copy of a path is housed, at most its own directory is new on the way to it. -/
theorem Store.eq_of_grows {s : Store} {p : Path} {d : Disk} (h : s.disk.IsTree s.root)
    (hhoused : s.IsHoused p) (hgrows : Disk.Grows s.root (s.physical p) s.disk d) (l : Location) :
    d.stands l = s.disk.stands l ∨ l = s.physical p ∧ d.stands l = some .directory := by
  rcases p.eq_root_or_extend with rfl | ⟨q, n, hn, rfl⟩
  · rw [s.physical_root] at hgrows
    exact .inl (congrFun (hgrows.same h List.prefix_rfl h.isDirectory) l)
  · have hup := (s.isHoused_extend_iff q hn).mp hhoused
    rcases hgrows.stands l with hsame | ⟨-, hway, hnone, hdir⟩
    · exact .inl hsame
    · refine .inr ⟨?_, hdir⟩
      rw [s.physical_extend q hn] at hway ⊢
      rcases List.prefix_concat_iff.mp hway with heq | habove
      · exact heq
      · rw [h.directory_of_prefix (s.root_prefix_physical q) hup habove] at hnone
        cases hnone

namespace Origin

/-- What an answer for a path can put at a place. -/
inductive Added (o : Origin) (s : Store) (p : Path) (d : Disk) : Location → Prop
  | copy {place : Location} (hitem : o.item? s.disk p = some (.directory place))
      (hdir : d.stands (s.physical p) = some .directory) : Added o s p d (s.physical p)
  | index {place : Location} {id : FileId} {t : Timestamp}
      (hitem : o.item? s.disk p = some (.directory place))
      (hfits : Disk.Fits (s.indexPlace p)) (hfile : d.stands (s.indexPlace p) = some (.file id))
      (hbody : d.body? id = some ⟨(o.indexOf s.disk p place).encode, t⟩) :
      Added o s p d (s.indexPlace p)
  | body {b : Body} {id : FileId} (hitem : o.item? s.disk p = some (.file b))
      (hfits : Disk.Fits (s.physical p)) (hfile : d.stands (s.physical p) = some (.file id))
      (hbody : d.body? id = some ⟨b.content, .ofSeconds b.mtime.seconds⟩) :
      Added o s p d (s.physical p)

/-- A later disk, with at most the additions of one answer. -/
structure Adds (o : Origin) (s : Store) (p : Path) (d : Disk) : Prop where
  tree : d.IsTree s.root
  proper : d.IsProper
  nextFile : s.disk.nextFile ≤ d.nextFile
  bodies : ∀ id < s.disk.nextFile, d.body? id = s.disk.body? id
  outside : ∀ l, ¬ s.root <+: l → d.at? l = s.disk.at? l
  stands : ∀ l, d.stands l = s.disk.stands l ∨ Added o s p d l

variable {o : Origin} {s : Store} {p : Path} {d d' : Disk} {place : Location} {b : Body}

theorem Adds.refl (h : s.IsTidy) : Adds o s p s.disk :=
  ⟨h.tree, h.proper, Nat.le_refl _, fun _ _ => rfl, fun _ _ => rfl, fun _ => .inl rfl⟩

/-- A publication that failed added directories at most. -/
theorem Adds.of_grows {top : Location} (hgrows : Disk.Grows s.root top s.disk d)
    (hproper : d.IsProper)
    (hnew : ∀ l, d.stands l = s.disk.stands l ∨ Added o s p d l) : Adds o s p d :=
  ⟨hgrows.tree, hproper, hgrows.nextFile, hgrows.bodies, hgrows.outside, hnew⟩

/-- A file was put where directories had been made. -/
theorem Adds.of_puts {top l : Location} {n : Name} {body : Body}
    (hgrows : Disk.Grows s.root top s.disk d) (hl : s.root <+: l)
    (hputs : Disk.Puts d (l ++ [n]) body d') (htree : d'.IsTree s.root) (hproper : d'.IsProper)
    (hnew : ∀ q, d'.stands q = s.disk.stands q ∨ Added o s p d' q) : Adds o s p d' := by
  refine ⟨htree, hproper, ?_, fun id hid => ?_, fun q hq => ?_, hnew⟩
  · rw [hputs.nextFile]
    exact Nat.le_succ_of_le hgrows.nextFile
  · rw [hputs.bodies id (Nat.lt_of_lt_of_le hid hgrows.nextFile), hgrows.bodies id hid]
  · obtain ⟨hne, hne'⟩ := Disk.ne_of_not_prefix (n := n) hl hq
    rw [hputs.others q hne hne', hgrows.outside q hq]

theorem adds_answer_directory (h : s.IsTidy) (hp : p.IsConfined) (hhoused : s.IsHoused p)
    (hitem : o.item? s.disk p = some (.directory place)) :
    Adds o s p (o.answer s p).1.disk := by
  have hproper : (o.answer s p).1.disk.IsProper := isProper_answer h.proper
  have htree := (tidy_answer (o := o) h hp).tree
  have hcarried := Store.carried_indexPlace h.tree.carried (isCarried_of_item hp hitem)
  have hprefix := s.root_prefix_physical p
  have hroot := root_answer o s p
  have hdisk : (o.answer s p).1.disk = (s.disk.publish (s.physical p) (s.indexPlace p)
      (o.indexOf s.disk p place).encode).1 := by
    rw [answer_of_directory h.proper hitem, Store.publishIndex, Store.change_fst]
  rw [hroot, hdisk] at htree
  rw [hdisk] at hproper ⊢
  rcases Disk.publish_cases h.tree hprefix hcarried Store.indexName_ne_stagingName
    (o.indexOf s.disk p place).encode with ⟨-, hgrows⟩ | ⟨-, hfits, -, d, hgrows, hdir, -, hputs⟩
  · refine .of_grows hgrows hproper fun l => ?_
    rcases Store.eq_of_grows h.tree hhoused hgrows l with hsame | ⟨rfl, hnew⟩
    · exact .inl hsame
    · exact .inr (.copy hitem hnew)
  · refine .of_puts hgrows hprefix hputs htree hproper fun l => ?_
    by_cases hindex : l = s.indexPlace p
    · rw [hindex]
      exact .inr (.index hitem hfits hputs.self hputs.body)
    · have hothers := hputs.of_ne hindex
      rcases Store.eq_of_grows h.tree hhoused hgrows l with hsame | ⟨rfl, hnew⟩
      · exact .inl (hothers.trans hsame)
      · exact .inr (.copy hitem (hothers.trans hnew))

theorem adds_answer_file (h : s.IsTidy) (hp : p.IsConfined) (hne : p ≠ .root)
    (hup : s.disk.stands (s.physical p).dropLast = some .directory)
    (hitem : o.item? s.disk p = some (.file b)) : Adds o s p (o.answer s p).1.disk := by
  have hproper : (o.answer s p).1.disk.IsProper := isProper_answer h.proper
  have hcarried := isCarried_of_item hp hitem
  obtain ⟨q, n, hn, hpath⟩ := p.eq_root_or_extend.resolve_left hne
  have hprefix := s.root_prefix_physical q
  have hplaced := Store.carried_physical h.tree.carried hcarried
  have hreserved : ¬ IsReserved n := ((Path.isConfined_extend_iff hn).mp (hpath ▸ hp)).2.2
  have hplace : s.physical p = s.physical q ++ [Utf8.encode n] := by
    rw [hpath, s.physical_extend q hn]
  have hdropLast : (s.physical p).dropLast = s.physical q := by rw [hplace, List.dropLast_concat]
  have hsome : s.physical p ≠ [] := by simp [hplace]
  rw [hdropLast] at hup
  rw [hplace] at hplaced
  have hcases := Disk.publish_cases h.tree hprefix hplaced (Disk.ne_stagingName_of_encode hreserved)
    b.content
  rw [← hplace, ← hdropLast] at hcases
  rcases hcases with ⟨⟨fault, herror⟩, hgrows⟩ | ⟨hok, hfits, -, d, hgrows, -, hfree, hputs⟩
  · -- what could not be published is not given a time
    have hdisk : (o.answer s p).1.disk =
        (s.disk.publish (s.physical p).dropLast (s.physical p) b.content).1 := by
      rw [answer_of_file hitem, Store.publishFile_of_ne_nil hsome, Store.change_of_error herror]
    rw [hdisk] at hproper ⊢
    have hup' : s.disk.stands (s.physical p).dropLast = some .directory := hdropLast ▸ hup
    have hprefix' : s.root <+: (s.physical p).dropLast := hdropLast ▸ hprefix
    exact .of_grows hgrows hproper fun l => .inl (congrFun (hgrows.same h.tree hprefix' hup') l)
  · rw [hdropLast] at hgrows
    have hstands := hgrows.same h.tree hprefix hup
    have htree : (s.disk.publish (s.physical p).dropLast (s.physical p) b.content).1.IsTree
        s.root := by
      rw [hplace] at hputs hfree ⊢
      exact hputs.tree hgrows.tree hprefix (hstands ▸ hup) hfree
    obtain ⟨d', hanswer, hputs'⟩ := answer_of_puts hitem hcarried hsome hfits hok htree hputs
    have htree' := (tidy_answer (o := o) h hp).tree
    rw [hanswer] at hproper htree' ⊢
    have hself := hputs'.self
    have hbody := hputs'.body
    have hothers : ∀ l, l ≠ s.physical p → d'.stands l = d.stands l := fun l hl => hputs'.of_ne hl
    rw [hplace] at hputs'
    refine .of_puts hgrows hprefix hputs' htree' hproper fun l => ?_
    by_cases hl : l = s.physical p
    · rw [hl]
      exact .inr (.body hitem hfits hself hbody)
    · exact .inl ((hothers l hl).trans (congrFun hstands l))

/-- What an answer does, whatever the origin has at the path. -/
theorem adds_answer (h : s.IsTidy) (hp : p.IsConfined) (hhoused : s.IsHoused p)
    (hroot : ∀ b, o.item? s.disk .root ≠ some (.file b)) :
    Adds o s p (o.answer s p).1.disk := by
  cases hitem : o.item? s.disk p with
  | none =>
      rw [answer_of_none hitem]
      exact .refl h
  | some x =>
      cases x with
      | directory place => exact adds_answer_directory h hp hhoused hitem
      | file b =>
          have hne : p ≠ .root := fun heq => hroot b (heq ▸ hitem)
          exact adds_answer_file h hp hne (hhoused.resolve_left hne) hitem

/-! ### What is there after an answer -/

theorem indexed_answer (h : s.IsTidy) (hhoused : s.IsHoused p) (hcarried : p.IsCarried)
    (hroom : Disk.HasRoom (s.physical p)) (hitem : o.item? s.disk p = some (.directory place))
    (hfree : ∀ id, s.disk.stands (s.physical p) ≠ some (.file id)) :
    ∃ id, (o.answer s p).1.disk.stands (s.indexPlace p) = some (.file id) := by
  obtain ⟨d, d', hanswer, -, -, hcases⟩ := answer_directory h.tree h.proper hitem hcarried
    (Store.fits_indexPlace hroom) hhoused hfree (h.indices p)
  rw [hanswer]
  rcases hcases with ⟨-, t, hputs⟩ | ⟨hnot, -⟩
  · exact ⟨_, hputs.self⟩
  · exact absurd hroom hnot

theorem copied_answer (h : s.IsTidy) (hp : p.IsConfined) (hcarried : p.IsCarried)
    (hup : s.disk.stands (s.physical p).dropLast = some .directory)
    (hfits : Disk.Fits (s.physical p)) (hroom : Disk.HasRoom (s.physical p).dropLast)
    (hitem : o.item? s.disk p = some (.file b))
    (hfree : s.disk.stands (s.physical p) ≠ some .directory) :
    ∃ id, (o.answer s p).1.disk.stands (s.physical p) = some (.file id) := by
  obtain ⟨d, hanswer, hputs⟩ := answer_file h.tree hitem hcarried hp hfits hroom hup hfree
  rw [hanswer]
  exact ⟨_, hputs.self⟩

end Origin
end OnDemandFs
