import OnDemandFs.Proofs.Index.Spilled
import OnDemandFs.Proofs.Store.Atomic

/-!
# How far publishing fails safe

An index is published unchecked, and `readIndex` is what meets its entries first. After a
publication that succeeded a read finds the new file, so its answer is what the decoder makes of the
index: the index itself, or the complaint that it is invalid, unless a name with a NUL has smuggled
entries in.
-/
namespace OnDemandFs

/-- What a read tells of an index that was published unchecked. -/
structure Store.Tells (s : Store) (dir : Path) (index : Index)
    (answer : Except Fault (Option Index)) : Prop where
  found : ∀ told, answer = .ok told ↔
    index.encode.length ≤ s.maxIndexBytes ∧ ∃ back, Index.ReadAs index back ∧ told = some back
  /-- No other fault comes up. -/
  refused : ∀ fault, answer = .error fault →
    ∃ reason, fault = .invalidIndex (pathText (s.indexPlace dir)) reason
  /-- It tells of no other index, unless entries are smuggled in by a file that is small enough. -/
  safe : (∀ told, answer = .ok told → told = some index) ↔
    ¬ (index.Smuggles ∧ index.encode.length ≤ s.maxIndexBytes)

namespace Store
variable {s : Store} {dir : Path} {index : Index}

theorem decoded_eq_ok_iff {body : Body} {told : Option Index} : s.decoded dir body = .ok told ↔
    body.content.length ≤ s.maxIndexBytes ∧
      ∃ back, Index.decode body.content = .ok back ∧ told = some back := by
  unfold decoded
  split_ifs with hlarge
  · refine ⟨fun h => ?_, fun h => absurd h.1 (Nat.not_le.mpr hlarge)⟩
    cases h
  · cases hdecode : Index.decode body.content with
    | error fault =>
        refine ⟨fun h => ?_, ?_⟩
        · cases h
        · rintro ⟨-, back, hback, -⟩
          cases hback
    | ok back =>
        constructor
        · intro h
          cases h
          exact ⟨Nat.not_lt.mp hlarge, back, rfl, rfl⟩
        · rintro ⟨-, _, hback, rfl⟩
          cases hback
          rfl

/-- A body that cannot be decoded makes the index invalid, whatever is wrong with it. -/
theorem refused_of_decoded {body : Body} {fault : Fault} (h : s.decoded dir body = .error fault) :
    ∃ reason, fault = .invalidIndex (pathText (s.indexPlace dir)) reason := by
  unfold decoded at h
  split_ifs at h
  · cases h
    exact ⟨_, rfl⟩
  · split at h
    · cases h
      exact ⟨_, rfl⟩
    · cases h

theorem tells_of_decoded (t : Timestamp) : s.Tells dir index (s.decoded dir ⟨index.encode, t⟩) := by
  have hfound (told : Option Index) : s.decoded dir ⟨index.encode, t⟩ = .ok told ↔
      index.encode.length ≤ s.maxIndexBytes ∧
        ∃ back, Index.ReadAs index back ∧ told = some back := by
    simp only [decoded_eq_ok_iff, Index.decode_encode_iff]
  refine ⟨hfound, fun fault => refused_of_decoded, ?_⟩
  simp only [hfound]
  constructor
  · rintro hsafe ⟨⟨⟨e, he, hnul⟩, back, hback⟩, hsmall⟩
    have hsame := Option.some.inj (hsafe _ ⟨hsmall, back, hback, rfl⟩)
    exact hback.eq_iff.mp hsame e he hnul
  · rintro hnone told ⟨hsmall, back, hback, rfl⟩
    have hclean : ∀ e ∈ index.entries, '\x00' ∉ e.name.toList := fun e he hnul =>
      hnone ⟨⟨⟨e, he, hnul⟩, back, hback⟩, hsmall⟩
    rw [hback.eq_iff.mpr hclean]

/-- After the publication a read finds the new file. -/
theorem readIndex_publishIndex (hrooted : s.disk.IsRooted s.root) (hdir : dir.IsConfined)
    (hstraight : s.disk.Straight (s.physical dir)) (hmemory : s.Recalls)
    (hdone : (s.publishIndex dir index).2 = .ok ()) :
    ((s.publishIndex dir index).1.readIndex dir).2 =
      s.decoded dir ⟨index.encode, s.disk.clock⟩ := by
  have hup : (s.indexPlace dir).dropLast = s.physical dir := List.dropLast_concat
  obtain ⟨r, hr, hreach⟩ := Scene.reachable_publish (s := s) (e := .index dir index)
    (List.concat_ne_nil _ _)
  have hfinished : r = .ok () := by
    rw [show (Edition.index dir index).publish s = s.publishIndex dir index from rfl, hdone] at hr
    cases r with
    | ok _ => rfl
    | error fault => cases hr
  have hsound := Scene.sound_of_reachable (e := .index dir index) hrooted hdir
    (by rwa [Edition.target, hup]) hmemory hreach
  obtain ⟨id, hpublished, -⟩ := hsound.published (by rw [hfinished])
  exact hsound.readIndex rfl hpublished

/-- Publishing fails safe up to names with a NUL: every other index is read back as it is or
refused. -/
theorem publishIndex_failsSafe (index : Index) :
    index.Unchecked ∧ ∀ (s : Store) (dir : Path), s.disk.IsRooted s.root → dir.IsConfined →
      s.disk.Straight (s.physical dir) → s.Recalls → (s.publishIndex dir index).2 = .ok () →
        s.Tells dir index ((s.publishIndex dir index).1.readIndex dir).2 := by
  refine ⟨index.unchecked, fun s dir hrooted hdir hstraight hmemory hdone => ?_⟩
  rw [readIndex_publishIndex hrooted hdir hstraight hmemory hdone]
  exact tells_of_decoded _

/-- A store in which nothing is published yet. -/
def closet : Store := ⟨[], 100, .empty ⟨7, 0⟩, { capacity := 4 }⟩

/-- One entry, with the text of another behind a NUL in its name. -/
def laden : Index := .listing [⟨.file, 1, 1, "a\x00f 2 2 b"⟩]

theorem publishIndex_failsSafe_laden :
    (closet.disk.IsRooted closet.root ∧ (Path.ofText "/d").IsConfined ∧
      closet.disk.Straight (closet.physical (.ofText "/d")) ∧ closet.Recalls) ∧
    (closet.publishIndex (.ofText "/d") laden).2 = .ok () ∧
    closet.Tells (.ofText "/d") laden
      ((closet.publishIndex (.ofText "/d") laden).1.readIndex (.ofText "/d")).2 ∧
    ((closet.publishIndex (.ofText "/d") laden).1.readIndex (.ofText "/d")).2 =
      .ok (some (.listing [⟨.file, 1, 1, "a"⟩, ⟨.file, 2, 2, "b"⟩])) ∧
    laden.Smuggles := by
  have hproper : closet.disk.IsProper := ⟨by decide +kernel, by decide +kernel⟩
  have htree : closet.disk.IsTree closet.root :=
    Disk.isTree_of_rows hproper (fun _ hn => absurd hn List.not_mem_nil) (by decide)
      (Disk.wayDown_nil _ _) rfl (by decide +kernel)
  have hconfined : (Path.ofText "/d").IsConfined := by decide +kernel
  have hstraight : closet.disk.Straight (closet.physical (.ofText "/d")) :=
    htree.straight List.nil_prefix
  have hdone : (closet.publishIndex (.ofText "/d") laden).2 = .ok () := by decide +kernel
  have hread : Index.decode laden.encode =
      .ok (.listing [⟨.file, 1, 1, "a"⟩, ⟨.file, 2, 2, "b"⟩]) := by
    decide
  exact ⟨⟨htree.isRooted, hconfined, hstraight, nofun⟩, hdone,
    (publishIndex_failsSafe laden).2 closet (.ofText "/d") htree.isRooted hconfined hstraight nofun
      hdone,
    by decide +kernel,
    ⟨⟨_, List.mem_cons_self, by decide⟩, _, Index.decode_encode_iff.mp hread⟩⟩

/-- It is read as another index, so publishing does not always fail safe. -/
theorem not_publishIndex_failsSafe :
    ¬ ∀ index back : Index, Index.decode index.encode = .ok back → back = index := by
  intro h
  have hsame := h laden (.listing [⟨.file, 1, 1, "a"⟩, ⟨.file, 2, 2, "b"⟩]) (by decide)
  exact absurd hsame (by decide)

end Store
end OnDemandFs
