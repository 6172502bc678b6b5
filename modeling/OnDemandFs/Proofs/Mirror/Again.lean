import OnDemandFs.Proofs.Mirror.Operations
import OnDemandFs.Proofs.Resolve.Volatile

/-!
# Opening again

In a mirror nothing is there without the indices of all directories above it. So once a file has a
body the walk to it asks for nothing, and the body, which has the declared size and the declared
time, is not asked for either, whether or not the mount minds what an index declares.
-/
namespace OnDemandFs

namespace Origin
variable {o : Origin} {s₀ s : Store} {p : Path} {x : Item}

/-- What is there is declared by the indices that are there. -/
theorem Mirrors.declared (h : Mirrors o s₀ s) (hm : o.IsMirrorable s₀)
    (hstands : s.disk.stands (s.physical p) ≠ none) (hexposed : o.Exposes s₀.disk p x) :
    ∃ y, s.Declared y ∧ y.path = p ∧ y.kind = .ofEntry x.kind ∧
      ∀ b, x = .file b → ∃ e, y.hint = some e ∧ x.Declares e := by
  induction p using Path.extendInduction generalizing x with
  | root =>
      cases (exposes_root hm.tree).item.symm.trans hexposed.item
      exact ⟨Store.top, .top, rfl, rfl, nofun⟩
  | extend q n hn ih =>
      have hentry := ((Path.isListable_extend_iff hn).mp hexposed.listable).2
      have habove := hexposed.above hn hm.tree
      have hindex := h.indexed q n hn hexposed.listable.isConfined hstands
      have hdir := h.directory_of_hasIndex hindex
      obtain ⟨y, hy, rfl, hkind, -⟩ := ih (by rw [hdir]; nofun) habove
      have hheld := h.held_of_hasIndex hm habove.listable.isConfined hindex
      obtain ⟨e, hfind⟩ := find?_of_itemAt? hm.proper hentry hexposed.item
      obtain ⟨-, x', hitem, hdeclares⟩ := declares_of_find? hm.proper hfind
      cases hexposed.item.symm.trans hitem
      have hsought : Store.IsSought y n := by
        refine ⟨by rw [hkind]; rfl, fun hroot => hexposed.free n ?_,
          not_or.mpr ⟨hentry.2.2.1, hentry.2.2.2.1⟩⟩
        rw [y.path.names_extend_of_isSegment hn, List.isEmpty_iff.mp hroot]
        rfl
      exact ⟨_, .child hy hn hsought hheld hfind, rfl, congrArg NodeKind.ofEntry hdeclares.kind,
        fun _ _ => ⟨e, rfl, hdeclares⟩⟩

end Origin

namespace Resolver

open Asking Origin

variable {o : Origin} {s₀ : Store} {v : View} {p : Path} {b : Body}

/-- A copied body is as its index declares it. -/
theorem not_isStale (hm : o.IsMirrorable s₀) (hitem : o.itemAt? s₀.disk p = some (.file b))
    {e : Entry} (hdeclares : (Item.file b).Declares e) (v : View) (file : FileId) :
    isStale v ⟨.file, b.content.length, b.mtime.seconds, some file⟩ (some e) = false := by
  obtain ⟨hsize, htime⟩ := hdeclares.file b rfl
  have hlength := hm.sizes p b hitem
  have hlimit : Numeral.signedLimit ≤ UInt64.size := by decide
  have hbytes : e.size.toNat = b.content.length := by
    rw [hsize]
    exact UInt64.toNat_ofNat_of_lt' (by omega)
  have hseconds : e.mtime.toInt = b.mtime.seconds := by
    rw [htime]
    exact Int64.toInt_ofInt_of_le (hm.times p b hitem).1 (hm.times p b hitem).2
  unfold isStale
  simp [hbytes, hseconds]

/-- A file that has its body is opened without a request. -/
theorem openFile_of_hasBody (hm : o.IsMirrorable s₀) (h : Mirrors o s₀ v.store)
    (hexposed : o.Exposes s₀.disk p (.file b)) (hbody : v.store.HasBody p) :
    ∃ w f, openFile p v = .done w (.ok f) := by
  obtain ⟨id, hfile⟩ := hbody
  have hcarried := hm.isCarried hexposed.item
  obtain ⟨hfits, b', c, hitem, hcopy, hcontent, htime⟩ :=
    h.body p id hexposed.listable.isConfined hfile
  cases hexposed.item.symm.trans hitem
  obtain ⟨x, hx, rfl, hkind, hhint⟩ := h.declared hm (by rw [hfile]; nofun) hexposed
  obtain ⟨e, hhint, hdeclares⟩ := hhint b rfl
  have hstat : v.store.stat x.path =
      .ok (some ⟨.file, b.content.length, b.mtime.seconds, some id⟩) := by
    rw [Store.stat_of_file h.tree hcarried hfits hfile]
    simp only [Store.entryOf, hcopy, hcontent, htime]
  obtain ⟨w, hcalm, hwalk⟩ : ∃ w, v.Calm w ∧
      (walkFromRoot x.path).run (.closing fun _ _ v => v) [] v = ⟨[], w, .ok x⟩ :=
    run_walkFromRoot_of_declared hx []
  have hsame : w.store.physical x.path = v.store.physical x.path := by
    unfold Store.physical
    rw [hcalm.store.root]
  have hfind : w.store.disk.find true (w.store.physical x.path) =
      .ok (v.store.physical x.path, .file id) := by
    rw [hsame, hcalm.store.disk]
    exact Store.find_physical h.tree hcarried hfits hfile
  have husable :
      isUsable w x (some ⟨.file, b.content.length, b.mtime.seconds, some id⟩) = true := by
    unfold isUsable
    dsimp only
    rw [hhint, not_isStale hm hexposed.item hdeclares]
    rfl
  obtain ⟨u, f, hrun, -, -⟩ := openFile_of_usable (congrArg Ending.result hwalk) hkind
    (congrArg Ending.state hwalk) ((hcalm.store.stat x.path).trans hstat) husable hfind
  rw [hwalk] at hrun
  exact ⟨u, f, Inquiry.eq_done_of_run hrun⟩

end Resolver
end OnDemandFs
