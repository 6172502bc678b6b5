import OnDemandFs.Proofs.Helper.Answers
import OnDemandFs.Proofs.Resolve.Volatile

/-!
# Histories of an origin and its copies

While the origin changes, requests are answered from it and clients look, the cache is changed by
publications only: it stays a tidy tree. Then one answer does to the copy of a path what
`copy?_answer` says. What the origin has is put where nothing was, and replaces what was there if
that is of the same kind; otherwise what was there stays,
also where the origin has nothing any more.
-/
namespace OnDemandFs

/-! ### Histories of an origin -/

/-- The cache was changed by publications only. -/
structure Store.IsTidy (s : Store) : Prop where
  tree : s.disk.IsTree s.root
  proper : s.disk.IsProper
  indices : ∀ dir, s.disk.stands (s.indexPlace dir) ≠ some .directory
  /-- An index was staged in its directory. -/
  roomy : ∀ dir id, s.disk.stands (s.indexPlace dir) = some (.file id) →
    Disk.HasRoom (s.physical dir)

/-- A cache with nothing in it. -/
theorem Store.isTidy_of_empty {s : Store} (hproper : s.disk.IsProper)
    (hempty : ∀ row ∈ s.disk.objects, s.root <+: row.1 → row.1 = s.root)
    (hcarried : ∀ n ∈ s.root, Disk.IsCarried n) (hfits : Disk.Fits s.root)
    (hway : s.disk.WayDown [] s.root) (hdir : s.disk.stands s.root = some .directory) :
    s.IsTidy := by
  have hnone (dir : Path) : s.disk.stands (s.indexPlace dir) = none := by
    by_contra hindex
    have heq := Disk.eq_top_of_empty hproper hempty (s.root_prefix_indexPlace dir) hindex
    have hlength := congrArg List.length heq
    simp [indexPlace, physical] at hlength
  refine ⟨Disk.isTree_of_empty hproper hempty hcarried hfits hway hdir, hproper, fun dir => ?_,
    fun dir id => ?_⟩
  · rw [hnone]
    intro hdir
    cases hdir
  · rw [hnone]
    intro hfile
    cases hfile

/-- A later disk, changed elsewhere than at and below a place and on the way to it. -/
structure Disk.Elsewhere (top : Location) (d d' : Disk) : Prop where
  stands : ∀ l, top <+: l ∨ l <+: top → d'.stands l = d.stands l
  nextFile : d.nextFile ≤ d'.nextFile
  bodies : ∀ l id, top <+: l → d.stands l = some (.file id) → d'.body? id = d.body? id
  proper : d'.IsProper

theorem Disk.IsTree.elsewhere {d d' : Disk} {top : Location} (h : d.IsTree top)
    (helse : Disk.Elsewhere top d d') : d'.IsTree top := by
  have hbelow {l : Location} (hl : top <+: l) : d'.stands l = d.stands l := helse.stands l (.inl hl)
  refine ⟨h.carried, h.fits, fun pre n hpre => ?_, ?_, fun l n hl hsome => ?_,
    fun l x hl hx => ?_, fun l id hl hfile => ?_⟩
  · have habove : pre <+: top := (List.prefix_append pre [n]).trans hpre
    rw [List.nil_append, helse.stands pre (.inr habove)]
    exact h.way pre n hpre
  · rw [hbelow List.prefix_rfl, h.isDirectory]
  · rw [hbelow (hl.trans (List.prefix_append l [n]))] at hsome
    rw [hbelow hl]
    exact h.parent l n hl hsome
  · rw [hbelow hl] at hx
    exact h.plain l x hl hx
  · rw [hbelow hl] at hfile
    obtain ⟨hid, hbody⟩ := h.filed l id hl hfile
    rw [helse.bodies l id hl hfile]
    exact ⟨Nat.lt_of_lt_of_le hid helse.nextFile, hbody⟩

/-- What is removed beside a place was not there for it. -/
theorem Disk.elsewhere_unlink {d : Disk} {top l : Location} (hproper : d.IsProper)
    (hbelow : ¬ top <+: l) (habove : ¬ l <+: top) : Disk.Elsewhere top d (d.unlink l) := by
  refine ⟨fun q hq => ?_, ?_, fun q id _ _ => ?_, hproper.unlink l⟩
  · rw [stands_unlink, Function.update_of_ne]
    rintro rfl
    exact hq.elim hbelow habove
  · rw [(sameBodies_unlink d l).nextFile]
  · rw [(sameBodies_unlink d l).body?]

namespace Origin

/-- The helper that copies from an origin, and closes each request. -/
def helper (o : Origin) : Helper View :=
  .closing fun _ p v => { v with store := (o.answer v.store p).1 }

/-- How a view comes about while the origin changes, requests are answered and clients look. -/
inductive History (o : Origin) : View → Prop
  | start {v : View} (h : v.store.IsTidy) : History o v
  | change {v : View} {d : Disk} (h : History o v)
      (helse : Disk.Elsewhere v.store.root v.store.disk d) :
      History o { v with store := { v.store with disk := d } }
  | answer {v : View} {p : Path} (h : History o v) (hp : p.IsConfined) :
      History o { v with store := (o.answer v.store p).1 }
  | calm {v w : View} (h : History o v) (hcalm : v.Calm w) : History o w

theorem tidy_answer {o : Origin} {s : Store} {p : Path} (h : s.IsTidy) (hp : p.IsConfined) :
    (o.answer s p).1.IsTidy := by
  have hextends := extends_answer (o := o) h.tree h.proper hp
  rw [answer_fst]
  refine ⟨hextends.tree, isProper_answer h.proper, fun dir hdir => ?_, fun dir id hfile => ?_⟩
  case refine_2 =>
    rcases hextends.files _ id hfile with hold | hroom
    · exact h.roomy dir id hold
    · rwa [Store.indexPlace, List.dropLast_concat] at hroom
  rcases hextends.directories _ hdir with hold | hway
  · exact h.indices dir hold
  · -- the index name is on the way to no confined path
    have hmem : Store.indexName ∈ p.names.map Utf8.encode := by
      have hnames : dir.names.map Utf8.encode ++ [Store.indexName] <+: p.names.map Utf8.encode := by
        have hplaces : s.root ++ (dir.names.map Utf8.encode ++ [Store.indexName]) <+:
            s.root ++ p.names.map Utf8.encode := by
          rw [← List.append_assoc]
          exact hway
        exact (List.prefix_append_right_inj s.root).mp hplaces
      exact hnames.subset (List.mem_append_right _ (List.mem_singleton_self _))
    obtain ⟨n, hn, hencode⟩ := List.mem_map.mp hmem
    exact Store.encode_ne_indexName (hp n hn).2.2.2.2 hencode

theorem History.tidy {o : Origin} {v : View} (h : o.History v) : v.store.IsTidy := by
  induction h with
  | start h => exact h
  | @change v d _ helse ih =>
      have hindex (dir : Path) := helse.stands _ (.inl (v.store.root_prefix_indexPlace dir))
      refine ⟨ih.tree.elsewhere helse, helse.proper, fun dir hdir => ih.indices dir ?_,
        fun dir id hfile => ih.roomy dir id ?_⟩
      · rwa [← hindex]
      · rwa [← hindex]
  | answer _ hp ih => exact tidy_answer ih hp
  | @calm v w _ hcalm ih =>
      refine ⟨?_, ?_, fun dir => ?_, fun dir id => ?_⟩
      · rw [hcalm.store.disk, hcalm.store.root]
        exact ih.tree
      · rw [hcalm.store.disk]
        exact ih.proper
      · unfold Store.indexPlace Store.physical
        rw [hcalm.store.disk, hcalm.store.root]
        exact ih.indices dir
      · unfold Store.indexPlace Store.physical
        rw [hcalm.store.disk, hcalm.store.root]
        exact ih.roomy dir id

/-- What clients do is part of a history, as long as they ask for confined paths. -/
theorem History.run {o : Origin} {v : View} {α : Type} {m : Resolver α}
    (h : o.History v) (hm : Resolver.IsCalm m) {asked : List Path}
    (hasked : ∀ p ∈ (m.run o.helper asked v).asked, p.IsConfined) :
    o.History (m.run o.helper asked v).state := by
  refine hm.run (R := fun v w => o.History v → o.History w) ?_ ?_ ?_ h
  · exact fun _ _ _ huv hvw hu => hvw (huv hu)
  · exact fun _ _ hcalm hv => hv.calm hcalm
  · exact fun _ _ p hp hw => hw.answer (hasked p hp)

end Origin

/-! ### One answer -/

namespace Store
variable {s : Store} {p : Path}

/-- The kind of what stands in the place of a path. -/
def copy? (s : Store) (p : Path) : Option EntryKind :=
  match s.disk.stands (s.physical p) with
  | some .directory => some .directory
  | some (.file _) => some .file
  | _ => none

theorem copy?_eq_directory_iff :
    s.copy? p = some .directory ↔ s.disk.stands (s.physical p) = some .directory := by
  unfold copy?
  rcases s.disk.stands (s.physical p) with _ | _ | _ | _ | _ <;> simp

theorem copy?_eq_file_iff :
    s.copy? p = some .file ↔ ∃ id, s.disk.stands (s.physical p) = some (.file id) := by
  unfold copy?
  rcases s.disk.stands (s.physical p) with _ | _ | _ | _ | _ <;> simp

theorem copy?_eq_none_iff (htree : s.disk.IsTree s.root) :
    s.copy? p = none ↔ s.disk.stands (s.physical p) = none := by
  have hplain := htree.plain (s.physical p)
  unfold copy?
  cases hstands : s.disk.stands (s.physical p) with
  | none => simp
  | some x =>
      rcases hplain x (s.root_prefix_physical p) hstands with rfl | ⟨id, rfl⟩ <;> simp

/-- What stands there is what the walk ends with. -/
theorem standing_of_copy (htree : s.disk.IsTree s.root) (hp : p.IsCarried)
    (hfits : Disk.Fits (s.physical p)) : (s.stat p >>= standing p) =
      match s.copy? p with
      | none => .error (.notFound p.text)
      | some k => .ok { path := p, kind := .ofEntry k, volatile := true } := by
  cases hcopy : s.copy? p with
  | none =>
      rw [stat_of_free htree hp hfits ((copy?_eq_none_iff htree).mp hcopy)]
      rfl
  | some k =>
      cases k with
      | directory =>
          obtain ⟨e, hstat, hkind⟩ :=
            stat_of_directory htree hp hfits (copy?_eq_directory_iff.mp hcopy)
          rw [hstat]
          change standing p (some e) = _
          obtain ⟨kind, size, mtime, file⟩ := e
          cases hkind
          rfl
      | file =>
          obtain ⟨id, hfile⟩ := copy?_eq_file_iff.mp hcopy
          have hkind := kind_entryOf_file s.disk id
          rw [stat_of_file htree hp hfits hfile]
          change standing p (some (entryOf s.disk (.file id))) = _
          revert hkind
          rcases entryOf s.disk (.file id) with ⟨kind, size, mtime, file⟩
          rintro ⟨⟩
          rfl

end Store

namespace Origin
variable {o : Origin} {s : Store} {p : Path}

theorem root_answer (o : Origin) (s : Store) (p : Path) : (o.answer s p).1.root = s.root := by
  rw [answer_fst]

theorem physical_answer (o : Origin) (s : Store) (p q : Path) :
    (o.answer s p).1.physical q = s.physical q := by
  unfold Store.physical
  rw [root_answer]

/-- Whatever else the answer does, the copy of the directory is there after it. -/
theorem directory_of_answer {place : Location} (h : s.IsTidy)
    (hitem : o.item? s.disk p = some (.directory place)) (hconfined : p.IsConfined)
    (hcarried : p.IsCarried) (hfits : Disk.Fits (s.indexPlace p)) (hhoused : s.IsHoused p)
    (hfile : ∀ id, s.disk.stands (s.physical p) ≠ some (.file id)) :
    (o.answer s p).1.disk.stands (s.physical p) = some .directory := by
  obtain ⟨d, d', hanswer, -, hmade, hcases⟩ :=
    answer_directory h.tree h.proper hitem hcarried hfits hhoused hfile (h.indices p)
  have hne : s.physical p ≠ s.indexPlace p := Store.physical_ne_indexPlace hconfined p
  rw [hanswer]
  change d'.stands (s.physical p) = _
  rcases hcases with ⟨-, t, hputs⟩ | ⟨-, hrestores⟩
  · rw [hputs.of_ne hne, hmade, Function.update_self]
  · rw [hrestores.stands, hmade, Function.update_self]

theorem copy?_answer_eq_directory_iff : (o.answer s p).1.copy? p = some .directory ↔
    (o.answer s p).1.disk.stands (s.physical p) = some .directory := by
  rw [Store.copy?_eq_directory_iff, physical_answer]

theorem copy?_answer_eq_file_iff : (o.answer s p).1.copy? p = some .file ↔
    ∃ id, (o.answer s p).1.disk.stands (s.physical p) = some (.file id) := by
  rw [Store.copy?_eq_file_iff, physical_answer]

/-- A directory of the origin is copied, unless a file is in the way. -/
theorem copy?_answer_directory {place : Location} (h : s.IsTidy)
    (hitem : o.item? s.disk p = some (.directory place)) (hconfined : p.IsConfined)
    (hcarried : p.IsCarried) (hfits : Disk.Fits (s.indexPlace p)) (hhoused : s.IsHoused p) :
    (o.answer s p).1.copy? p = (s.copy? p).or (some .directory) := by
  by_cases hfile : ∃ id, s.disk.stands (s.physical p) = some (.file id)
  · obtain ⟨id, hfile⟩ := hfile
    rw [Store.copy?_eq_file_iff.mpr ⟨id, hfile⟩]
    exact copy?_answer_eq_file_iff.mpr
      ⟨id, stands_answer_directory h.tree h.proper hitem hcarried hfile⟩
  · have hdir := directory_of_answer h hitem hconfined hcarried hfits hhoused
      fun id hid => hfile ⟨id, hid⟩
    rw [copy?_answer_eq_directory_iff.mpr hdir]
    cases hbefore : s.copy? p with
    | none => rfl
    | some k =>
        cases k with
        | directory => rfl
        | file => exact absurd (Store.copy?_eq_file_iff.mp hbefore) hfile

/-- A file of the origin is copied, unless a directory is in the way. -/
theorem copy?_answer_file {b : Body} (h : s.IsTidy) (hitem : o.item? s.disk p = some (.file b))
    (hconfined : p.IsConfined) (hcarried : p.IsCarried) (hfits : Disk.Fits (s.physical p))
    (hroom : Disk.HasRoom (s.physical p).dropLast)
    (hup : s.disk.stands (s.physical p).dropLast = some .directory) :
    (o.answer s p).1.copy? p = (s.copy? p).or (some .file) := by
  by_cases hdir : s.disk.stands (s.physical p) = some .directory
  · rw [Store.copy?_eq_directory_iff.mpr hdir]
    refine copy?_answer_eq_directory_iff.mpr ?_
    rw [stands_answer_file h.tree hitem hcarried hfits hdir]
    exact hdir
  · obtain ⟨d, hanswer, hputs⟩ := answer_file h.tree hitem hcarried hconfined hfits hroom hup hdir
    have hfile : ∃ id, (o.answer s p).1.disk.stands (s.physical p) = some (.file id) := by
      rw [hanswer]
      exact ⟨_, hputs.self⟩
    rw [copy?_answer_eq_file_iff.mpr hfile]
    cases hbefore : s.copy? p with
    | none => rfl
    | some k =>
        cases k with
        | file => rfl
        | directory => exact absurd (Store.copy?_eq_directory_iff.mp hbefore) hdir

/-- What was there stays in the way of what the origin has. -/
theorem copy?_answer (h : s.IsTidy) (hp : p.IsConfined) (hcarried : p.IsCarried)
    (hfits : Disk.Fits (s.indexPlace p)) (hroom : Disk.HasRoom (s.physical p).dropLast)
    (hup : s.disk.stands (s.physical p).dropLast = some .directory) :
    (o.answer s p).1.copy? p = (s.copy? p).or ((o.item? s.disk p).map Item.kind) := by
  cases hitem : o.item? s.disk p with
  | none =>
      rw [answer_of_none hitem]
      exact (Option.or_none).symm
  | some x =>
      cases x with
      | directory place => exact copy?_answer_directory h hitem hp hcarried hfits (.inr hup)
      | file b => exact copy?_answer_file h hitem hp hcarried hfits.of_append hroom hup

/-- A directory that was answered for can be told apart. -/
theorem held_answer_directory {place : Location} (h : s.IsTidy)
    (hitem : o.item? s.disk p = some (.directory place)) (hconfined : p.IsConfined)
    (hcarried : p.IsCarried) (hfits : Disk.Fits (s.indexPlace p)) (hhoused : s.IsHoused p)
    (hfile : ∀ id, s.disk.stands (s.physical p) ≠ some (.file id))
    (hsmall : (o.indexOf s.disk p place).encode.length ≤ s.maxIndexBytes) :
    ∃ held, (o.answer s p).1.held p = .ok held := by
  have htidy := tidy_answer (o := o) h hconfined
  have hdir := directory_of_answer h hitem hconfined hcarried hfits hhoused hfile
  obtain ⟨d, d', hanswer, -, hmade, hcases⟩ :=
    answer_directory h.tree h.proper hitem hcarried hfits hhoused hfile (h.indices p)
  rw [hanswer] at htidy hdir ⊢
  rw [Store.held_of_directory htidy.tree hcarried hfits.of_append hdir]
  rcases hcases with ⟨-, t, hputs⟩ | ⟨hroom, hrestores⟩
  · have hdecode := Index.decode_encode (wellListed_indexOf h.proper o p place)
    rcases Store.index?_of_file htidy.tree hcarried hfits hputs.self hputs.body hsmall hdecode with
      htold | ⟨known, -, htold⟩ <;> rw [htold]
    · exact ⟨_, rfl⟩
    · exact ⟨_, rfl⟩
  · -- without room for an index there was none before
    have hnone : s.disk.stands (s.indexPlace p) = none := by
      cases hstands : s.disk.stands (s.indexPlace p) with
      | none => rfl
      | some x =>
          rcases h.tree.plain _ x (s.root_prefix_indexPlace p) hstands with rfl | ⟨id, rfl⟩
          · exact absurd hstands (h.indices p)
          · exact absurd (h.roomy p id hstands) hroom
    have hne : s.indexPlace p ≠ s.physical p := (Store.physical_ne_indexPlace hconfined p).symm
    have hfree : d'.stands (s.indexPlace p) = none := by
      rw [hrestores.stands, hmade, Function.update_of_ne hne, hnone]
    rw [Store.index?_of_free htidy.tree hcarried hfits hfree]
    exact ⟨_, rfl⟩

end Origin
end OnDemandFs
