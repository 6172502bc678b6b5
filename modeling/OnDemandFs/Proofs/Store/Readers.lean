import OnDemandFs.Proofs.Store.Reports

/-!
# A read of an index, step by step

Others act between the steps of a read: the index file is opened, its stamp is taken from the open
file, the memory is looked up, the content is read, and what it decodes to is remembered. A read
that nobody gets in between of is `Store.readIndex`.
-/
namespace OnDemandFs

/-- How far a read has come. -/
inductive IndexRead where
  | opening
  | opened (id : FileId)
  | stamped (id : FileId) (stamp : Stamp)
  | missed (id : FileId) (stamp : Stamp)
  | loaded (stamp : Stamp) (content : Bytes)
  | finished (answer : Except Fault (Option Index))
deriving DecidableEq

namespace IndexRead

/-- One step of reading the index of `dir`. -/
def advance (s : Store) (dir : Path) : IndexRead → Store × IndexRead
  | .opening =>
    match s.disk.find true (s.indexPlace dir) with
    | .error fault =>
      if Disk.isMissing fault then
        ({ s with indices := s.indices.forget dir }, .finished (.ok none))
      else (s, .finished (.error (.io fault)))
    | .ok (_, .file id) => (s, .opened id)
    | .ok _ => (s, .finished (s.refusal dir "not a regular file"))
  | .opened id =>
    match s.disk.body? id with
    | none => (s, .finished (.ok none))
    | some body => (s, .stamped id (Store.stampOf id body))
  | .stamped id stamp =>
    match s.indices.lookup dir stamp with
    | (indices, some index) => ({ s with indices }, .finished (.ok (some index)))
    | (indices, none) => ({ s with indices }, .missed id stamp)
  | .missed id stamp =>
    if stamp.length > s.maxIndexBytes then
      (s, .finished (s.refusal dir (toString stamp.length ++ " bytes exceeds limit of " ++
        toString s.maxIndexBytes)))
    else (s, .loaded stamp (s.disk.content id))
  | .loaded stamp content =>
    match Index.decode content with
    | .error fault => (s, .finished (s.refusal dir fault.message))
    | .ok index =>
      ({ s with indices := s.indices.remember dir stamp index }, .finished (.ok (some index)))
  | .finished answer => (s, .finished answer)

/-- A read after a number of steps without a pause. -/
def after (s : Store) (dir : Path) : Nat → Store × IndexRead
  | 0 => (s, .opening)
  | n + 1 => (after s dir n).2.advance (after s dir n).1 dir

/-- A read takes five steps. -/
theorem after_five (s : Store) (dir : Path) :
    after s dir 5 = ((s.readIndex dir).1, .finished (s.readIndex dir).2) := by
  cases hfind : s.disk.find true (s.indexPlace dir) with
  | error fault =>
      cases hmissing : Disk.isMissing fault with
      | true => simp only [after, advance, Store.readIndex, hfind, hmissing, if_true]
      | false =>
          simp only [after, advance, Store.readIndex, hfind, hmissing, Bool.false_eq_true, if_false]
  | ok found =>
      obtain ⟨place, o⟩ := found
      cases o with
      | directory | link | pipe => simp only [after, advance, Store.readIndex, hfind, Store.refusal]
      | file id =>
          cases hbody : s.disk.body? id with
          | none => simp only [after, advance, Store.readIndex, hfind, hbody]
          | some body =>
              have hcontent : s.disk.content id = body.content := by rw [Disk.content, hbody]
              rcases hlookup : s.indices.lookup dir (Store.stampOf id body) with
                ⟨indices, _ | index⟩
              · have hlength : (Store.stampOf id body).length = body.content.length := rfl
                by_cases hlarge : body.content.length > s.maxIndexBytes
                · simp only [after, advance, Store.readIndex, hfind, hbody, hlookup, hlength,
                    if_pos hlarge, Store.refusal]
                  rfl
                · cases hdecode : Index.decode body.content with
                  | error fault =>
                      simp only [after, advance, Store.readIndex, hfind, hbody, hlookup, hlength,
                        if_neg hlarge, hcontent, hdecode, Store.refusal]
                      rfl
                  | ok index =>
                      simp only [after, advance, Store.readIndex, hfind, hbody, hlookup, hlength,
                        if_neg hlarge, hcontent, hdecode]
              · simp only [after, advance, Store.readIndex, hfind, hbody, hlookup]

variable {s : Store} {dir q : Path} {r : IndexRead}

/-- A read that cannot open the index file is finished at once. -/
theorem opening_of_error {fault : IoFault}
    (h : s.disk.find true (s.indexPlace dir) = .error fault) :
    (opening.advance s dir).2 =
      .finished (if Disk.isMissing fault then .ok none else .error (.io fault)) := by
  simp only [advance, h]
  split <;> rfl

/-- A read changes nothing but the memory. -/
theorem advance_fst (s : Store) (dir : Path) (r : IndexRead) :
    (r.advance s dir).1 = { s with indices := (r.advance s dir).1.indices } := by
  cases r with
  | opening =>
      unfold advance
      dsimp only
      split
      · split <;> rfl
      · rfl
      · rfl
  | opened id =>
      unfold advance
      dsimp only
      split <;> rfl
  | stamped id stamp =>
      unfold advance
      dsimp only
      split <;> rfl
  | missed id stamp =>
      unfold advance
      dsimp only
      split <;> rfl
  | loaded stamp content =>
      unfold advance
      dsimp only
      split <;> rfl
  | finished answer => rfl

/-- Only the last step of a read adds a row, for what it has loaded. -/
theorem row_advance {row : Stamp × Index}
    (h : (r.advance s dir).1.indices.known.get? q = some row) :
    s.indices.known.get? q = some row ∨
      ∃ content, r = .loaded row.1 content ∧ Index.decode content = .ok row.2 := by
  cases r with
  | opening =>
      left
      unfold advance at h
      dsimp only at h
      split at h
      · split at h
        · exact IndexCache.row_of_forget h
        · exact h
      · exact h
      · exact h
  | opened id =>
      left
      unfold advance at h
      dsimp only at h
      split at h <;> exact h
  | stamped id stamp =>
      left
      have hold := @IndexCache.row_of_lookup s.indices dir stamp q row
      unfold advance at h
      dsimp only at h
      revert h hold
      rcases s.indices.lookup dir stamp with ⟨c, _ | index⟩
      · exact fun h hold => hold h
      · exact fun h hold => hold h
  | missed id stamp =>
      left
      unfold advance at h
      dsimp only at h
      split at h <;> exact h
  | loaded stamp content =>
      unfold advance at h
      dsimp only at h
      split at h
      · exact .inl h
      · next index hdecode =>
          rcases IndexCache.row_of_remember h with hold | ⟨-, rfl⟩
          · exact .inl hold
          · exact .inr ⟨content, rfl, hdecode⟩
  | finished answer => exact .inl h

end IndexRead
end OnDemandFs
