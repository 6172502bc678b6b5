import OnDemandFs.Proofs.Index.Listings
import OnDemandFs.Proofs.Table.Keys
import OnDemandFs.Store.Basic
import Mathlib.Tactic.SplitIfs

/-!
# What a store tells about an index

A read of an index may answer from memory, and it changes the memory. `index?` is the answer alone.
It depends on the disk and on the one row that is remembered for the directory, and a read never
changes the answer of another: what it forgets is out of date, and what it remembers is what it has
just decoded. So the listings it tells of are valid, however old. `indexOnDisk` is the answer that
needs no memory; a store whose memory is truthful gives no other.
-/
namespace OnDemandFs

namespace IndexCache
variable {c : IndexCache} {dir : Path} {stamp : Stamp}

/-- A look-up hits and changes nothing, or leaves no row for the directory. -/
theorem lookup_cases (c : IndexCache) (dir : Path) (stamp : Stamp) :
    (∃ index, c.known.get? dir = some (stamp, index) ∧ c.lookup dir stamp = (c, some index)) ∨
    (∃ c', c.lookup dir stamp = (c', none) ∧ c'.known.get? dir = none ∧
      (∀ q, q ≠ dir → c'.known.get? q = c.known.get? q) ∧
      ∀ index, c.known.get? dir ≠ some (stamp, index)) := by
  unfold IndexCache.lookup
  cases hrow : c.known.get? dir with
  | none => exact .inr ⟨c, rfl, hrow, fun _ _ => rfl, nofun⟩
  | some row =>
      obtain ⟨stamp', index⟩ := row
      by_cases hs : stamp' = stamp
      · subst hs
        exact .inl ⟨index, rfl, if_pos rfl⟩
      · refine .inr ⟨_, if_neg hs, Table.get?_erase_self _ _,
          fun q hq => Table.get?_erase_of_ne _ hq, fun index' he => hs ?_⟩
        cases he
        rfl

theorem get?_remember_of_ne {index : Index} {q : Path} (hq : q ≠ dir) :
    (c.remember dir stamp index).known.get? q = c.known.get? q := by
  unfold IndexCache.remember
  split_ifs
  · rfl
  · exact Table.get?_set_of_ne _ _ hq

theorem get?_remember_self (index : Index) :
    (c.remember dir stamp index).known.get? dir = c.known.get? dir ∨
      (c.remember dir stamp index).known.get? dir = some (stamp, index) := by
  unfold IndexCache.remember
  split_ifs
  · exact .inl rfl
  · exact .inr (Table.get?_set_self _ _ _)

section Rows
variable {q : Path} {row : Stamp × Index}

/-- What is forgotten is not remembered, and nothing else comes in its place. -/
theorem row_of_forget (h : (c.forget dir).known.get? q = some row) : c.known.get? q = some row := by
  by_cases hq : q = dir
  · rw [hq] at h
    cases (Table.get?_erase_self _ _).symm.trans h
  · exact (Table.get?_erase_of_ne _ hq).symm.trans h

theorem row_of_lookup (h : (c.lookup dir stamp).1.known.get? q = some row) :
    c.known.get? q = some row := by
  rcases c.lookup_cases dir stamp with ⟨index, -, hhit⟩ | ⟨c', hmiss, hnone, hothers, -⟩
  · rw [hhit] at h
    exact h
  · rw [hmiss] at h
    by_cases hq : q = dir
    · rw [hq, hnone] at h
      cases h
    · exact (hothers q hq).symm.trans h

theorem row_of_remember {index : Index}
    (h : (c.remember dir stamp index).known.get? q = some row) :
    c.known.get? q = some row ∨ q = dir ∧ row = (stamp, index) := by
  by_cases hq : q = dir
  · rw [hq] at h ⊢
    have hself : (c.remember dir stamp index).known.get? dir = c.known.get? dir ∨ _ :=
      get?_remember_self index
    rcases hself with hkept | hset
    · exact .inl (hkept.symm.trans h)
    · cases hset.symm.trans h
      exact .inr ⟨rfl, rfl⟩
  · exact .inl ((get?_remember_of_ne hq).symm.trans h)

end Rows

/-- Every listing that is remembered is valid, of whatever file it was read. -/
def Valid (c : IndexCache) : Prop :=
  ∀ dir stamp entries, c.known.get? dir = some (stamp, .listing entries) → IsListing entries

theorem valid_of_known_nil (h : c.known = []) : c.Valid := by
  intro dir stamp entries hrow
  rw [h] at hrow
  cases hrow

end IndexCache

/-- The fault is one of looking at the cache: the disk fails, and not for want of a name, or an
index is refused. -/
def Fault.IsOfCache : Fault → Prop
  | .io cause => Disk.isMissing cause = false
  | .invalidIndex _ _ => True
  | _ => False

namespace Store

/-- The answer of a read, without what the read does to the memory. -/
def index? (s : Store) (dir : Path) : Except Fault (Option Index) := (s.readIndex dir).2

def refusal (s : Store) (dir : Path) (reason : String) : Except Fault (Option Index) :=
  .error (.invalidIndex (pathText (s.indexPlace dir)) reason)

/-- The index that a file holds, if it is small enough and well formed. -/
def decoded (s : Store) (dir : Path) (body : Body) : Except Fault (Option Index) :=
  if body.content.length > s.maxIndexBytes then
    s.refusal dir (toString body.content.length ++ " bytes exceeds limit of " ++
      toString s.maxIndexBytes)
  else match Index.decode body.content with
    | .error fault => s.refusal dir fault.message
    | .ok index => .ok (some index)

/-- The answer of a read if a given row is remembered for the directory. -/
def report (s : Store) (dir : Path) (row : Option (Stamp × Index)) : Except Fault (Option Index) :=
  match s.disk.find true (s.indexPlace dir) with
  | .error fault => if Disk.isMissing fault then .ok none else .error (.io fault)
  | .ok (_, .file id) =>
    match s.disk.body? id with
    | none => .ok none
    | some body =>
      match row with
      | some (stamp, index) =>
        if stamp = stampOf id body then .ok (some index) else s.decoded dir body
      | none => s.decoded dir body
  | .ok _ => s.refusal dir "not a regular file"

/-- What the index file of a directory says: it is opened, checked and decoded. -/
def indexOnDisk (s : Store) (dir : Path) : Except Fault (Option Index) := s.report dir none

/-- Each remembered index is what its file decodes to, as long as the file has the stamp that was
remembered with the index. -/
def Truthful (s : Store) : Prop :=
  ∀ dir stamp index, s.indices.known.get? dir = some (stamp, index) →
    ∀ place id body, s.disk.find true (s.indexPlace dir) = .ok (place, .file id) →
      s.disk.body? id = some body → stampOf id body = stamp → s.decoded dir body = .ok (some index)

theorem truthful_of_known_nil {s : Store} (h : s.indices.known = []) : s.Truthful := by
  intro dir stamp index hrow
  rw [h] at hrow
  cases hrow

section Report
variable {s : Store} {dir : Path}

theorem report_of_error {fault : IoFault} (hf : s.disk.find true (s.indexPlace dir) = .error fault)
    (row : Option (Stamp × Index)) :
    s.report dir row = if Disk.isMissing fault then .ok none else .error (.io fault) := by
  simp only [report, hf]

variable {place : Location} {id : FileId} {body : Body}

theorem report_of_ne (hf : s.disk.find true (s.indexPlace dir) = .ok (place, .file id))
    (hb : s.disk.body? id = some body) {row : Option (Stamp × Index)}
    (hrow : ∀ index, row ≠ some (stampOf id body, index)) :
    s.report dir row = s.decoded dir body := by
  simp only [report, hf, hb]
  cases row with
  | none => rfl
  | some row =>
      obtain ⟨stamp, index⟩ := row
      dsimp only
      rw [if_neg]
      intro he
      exact hrow index (by rw [he])

theorem report_none (hf : s.disk.find true (s.indexPlace dir) = .ok (place, .file id))
    (hb : s.disk.body? id = some body) : s.report dir none = s.decoded dir body := by
  simp only [report, hf, hb]

theorem report_of_eq (hf : s.disk.find true (s.indexPlace dir) = .ok (place, .file id))
    (hb : s.disk.body? id = some body) (index : Index) :
    s.report dir (some (stampOf id body, index)) = .ok (some index) := by
  simp only [report, hf, hb, if_true]

end Report

/-- A read answers by the row of its directory, leaves the rows of the others, and puts nothing in
the place of that row that would answer otherwise. -/
theorem readIndex_effect (s : Store) (dir : Path) : ∃ indices,
    s.readIndex dir = ({ s with indices }, s.report dir (s.indices.known.get? dir)) ∧
    (∀ q, q ≠ dir → indices.known.get? q = s.indices.known.get? q) ∧
    s.report dir (indices.known.get? dir) = s.report dir (s.indices.known.get? dir) := by
  cases hf : s.disk.find true (s.indexPlace dir) with
  | error fault =>
      simp only [report_of_error hf]
      cases hm : Disk.isMissing fault with
      | true =>
          refine ⟨s.indices.forget dir, ?_, fun q hq => Table.get?_erase_of_ne _ hq, trivial⟩
          simp only [readIndex, hf, hm, if_true]
      | false =>
          refine ⟨s.indices, ?_, fun _ _ => rfl, trivial⟩
          simp only [readIndex, hf, hm, Bool.false_eq_true, if_false]
  | ok found =>
      obtain ⟨place, o⟩ := found
      cases o with
      | directory | link | pipe =>
          refine ⟨s.indices, ?_, fun _ _ => rfl, rfl⟩
          simp only [readIndex, report, hf, refusal]
      | file id =>
          cases hb : s.disk.body? id with
          | none =>
              refine ⟨s.indices, ?_, fun _ _ => rfl, rfl⟩
              simp only [readIndex, report, hf, hb]
          | some body =>
              rcases s.indices.lookup_cases dir (stampOf id body) with
                ⟨index, hrow, hhit⟩ | ⟨c', hmiss, hnone, hothers, hrow⟩
              · refine ⟨s.indices, ?_, fun _ _ => rfl, rfl⟩
                rw [hrow, report_of_eq hf hb]
                simp only [readIndex, hf, hb, hhit]
              · rw [report_of_ne hf hb hrow]
                by_cases hlarge : body.content.length > s.maxIndexBytes
                · refine ⟨c', ?_, hothers, ?_⟩
                  · simp only [readIndex, hf, hb, hmiss, decoded, if_pos hlarge, refusal]
                  · rw [hnone, report_none hf hb]
                · cases hd : Index.decode body.content with
                  | error fault =>
                      refine ⟨c', ?_, hothers, ?_⟩
                      · simp only [readIndex, hf, hb, hmiss, decoded, if_neg hlarge, hd, refusal]
                      · rw [hnone, report_none hf hb]
                  | ok index =>
                      have hdecoded : s.decoded dir body = .ok (some index) := by
                        simp only [decoded, if_neg hlarge, hd]
                      refine ⟨c'.remember dir (stampOf id body) index, ?_, fun q hq => ?_, ?_⟩
                      · simp only [readIndex, hf, hb, hmiss, if_neg hlarge, hd, hdecoded]
                      · rw [IndexCache.get?_remember_of_ne hq, hothers q hq]
                      · have hrow : (c'.remember dir (stampOf id body) index).known.get? dir =
                            c'.known.get? dir ∨ _ := IndexCache.get?_remember_self index
                        rcases hrow with hkept | hset
                        · rw [hkept, hnone, report_none hf hb]
                        · rw [hset, report_of_eq hf hb, hdecoded]

theorem index?_eq (s : Store) (dir : Path) :
    s.index? dir = s.report dir (s.indices.known.get? dir) := by
  obtain ⟨indices, hread, -⟩ := s.readIndex_effect dir
  rw [index?, hread]

/-! ### What goes wrong -/

theorem fault_of_stat {s : Store} {p : Path} {fault : Fault} (h : s.stat p = .error fault) :
    ∃ cause, Disk.isMissing cause = false ∧ fault = .io cause := by
  unfold stat at h
  split at h
  · cases h
  · next cause _ =>
      split at h
      · cases h
      · next hmissing =>
          cases h
          exact ⟨cause, Bool.eq_false_iff.mpr hmissing, rfl⟩

theorem isOfCache_of_stat {s : Store} {p : Path} {fault : Fault} (h : s.stat p = .error fault) :
    fault.IsOfCache := by
  obtain ⟨cause, hmissing, rfl⟩ := fault_of_stat h
  exact hmissing

theorem isOfCache_of_decoded {s : Store} {dir : Path} {body : Body} {fault : Fault}
    (h : s.decoded dir body = .error fault) : fault.IsOfCache := by
  unfold decoded refusal at h
  split at h
  · cases h
    trivial
  · split at h
    · cases h
      trivial
    · cases h

theorem isOfCache_of_index? {s : Store} {dir : Path} {fault : Fault}
    (h : s.index? dir = .error fault) : fault.IsOfCache := by
  rw [index?_eq] at h
  unfold report at h
  split at h
  · split at h
    · cases h
    · next hmissing =>
        cases h
        exact Bool.eq_false_iff.mpr hmissing
  · split at h
    · cases h
    · split at h
      · split at h
        · cases h
        · exact isOfCache_of_decoded h
      · exact isOfCache_of_decoded h
  · cases h
    trivial

/-! ### Stores that tell the same -/

/-- A store over the same cache, which tells the same of every index. -/
structure Alike (s t : Store) : Prop where
  disk : t.disk = s.disk
  root : t.root = s.root
  index (dir : Path) : t.index? dir = s.index? dir

theorem Alike.refl (s : Store) : Alike s s := ⟨rfl, rfl, fun _ => rfl⟩

theorem Alike.symm {s t : Store} (h : Alike s t) : Alike t s :=
  ⟨h.disk.symm, h.root.symm, fun dir => (h.index dir).symm⟩

theorem Alike.trans {s t u : Store} (h : Alike s t) (h' : Alike t u) : Alike s u :=
  ⟨h'.disk.trans h.disk, h'.root.trans h.root, fun dir => (h'.index dir).trans (h.index dir)⟩

theorem alike_readIndex (s : Store) (dir : Path) : Alike s (s.readIndex dir).1 := by
  obtain ⟨indices, hread, hothers, hsame⟩ := s.readIndex_effect dir
  rw [hread]
  refine ⟨rfl, rfl, fun q => ?_⟩
  rw [index?_eq, index?_eq]
  by_cases hq : q = dir
  · subst hq
    exact hsame
  · change s.report q (indices.known.get? q) = _
    rw [hothers q hq]

theorem Alike.stat {s t : Store} (h : Alike s t) (p : Path) : t.stat p = s.stat p := by
  simp only [Store.stat, physical, h.disk, h.root]

theorem index?_eq_indexOnDisk {s : Store} (h : s.Truthful) (dir : Path) :
    s.index? dir = s.indexOnDisk dir := by
  rw [index?_eq, indexOnDisk]
  cases hrow : s.indices.known.get? dir with
  | none => rfl
  | some row =>
      obtain ⟨stamp, index⟩ := row
      cases hf : s.disk.find true (s.indexPlace dir) with
      | error fault => rw [report_of_error hf, report_of_error hf]
      | ok found =>
          obtain ⟨place, o⟩ := found
          cases o with
          | directory | link | pipe => simp only [report, hf]
          | file id =>
              cases hb : s.disk.body? id with
              | none => simp only [report, hf, hb]
              | some body =>
                  rw [report_none hf hb]
                  by_cases hs : stampOf id body = stamp
                  · rw [← hs, report_of_eq hf hb]
                    exact (h dir stamp index hrow place id body hf hb hs).symm
                  · rw [report_of_ne hf hb fun index' he => hs ?_]
                    cases he
                    rfl

theorem decoded_of_decode {s : Store} {dir : Path} {body : Body} {index : Index}
    (hlength : body.content.length ≤ s.maxIndexBytes) (h : Index.decode body.content = .ok index) :
    s.decoded dir body = .ok (some index) := by
  rw [decoded, if_neg (Nat.not_lt.mpr hlength), h]

theorem isListing_of_decoded {s : Store} {dir : Path} {body : Body} {entries : List Entry}
    (h : s.decoded dir body = .ok (some (.listing entries))) : IsListing entries := by
  unfold decoded refusal at h
  split_ifs at h
  cases hdecode : Index.decode body.content with
  | error fault => rw [hdecode] at h; cases h
  | ok index =>
      rw [hdecode] at h
      cases h
      exact Index.isListing_of_decode hdecode

/-- A listing that is told of is valid, whether it was remembered or is read. -/
theorem isListing_of_report {s : Store} {dir : Path} {row : Option (Stamp × Index)}
    {entries : List Entry}
    (hrow : ∀ stamp, row = some (stamp, .listing entries) → IsListing entries)
    (h : s.report dir row = .ok (some (.listing entries))) : IsListing entries := by
  cases hf : s.disk.find true (s.indexPlace dir) with
  | error fault =>
      rw [report_of_error hf] at h
      split_ifs at h
      cases h
  | ok found =>
      obtain ⟨place, o⟩ := found
      cases o with
      | directory | link | pipe => simp only [report, hf, refusal, reduceCtorEq] at h
      | file id =>
          cases hb : s.disk.body? id with
          | none => simp [report, hf, hb] at h
          | some body =>
              by_cases hknown : ∃ index, row = some (stampOf id body, index)
              · obtain ⟨index, rfl⟩ := hknown
                rw [report_of_eq hf hb] at h
                cases h
                exact hrow _ rfl
              · rw [report_of_ne hf hb fun index heq => hknown ⟨index, heq⟩] at h
                exact isListing_of_decoded h

theorem isListing_of_indexOnDisk {s : Store} {dir : Path} {entries : List Entry}
    (h : s.indexOnDisk dir = .ok (some (.listing entries))) : IsListing entries :=
  isListing_of_report (fun _ hrow => by cases hrow) h

theorem isListing_of_index? {s : Store} {dir : Path} {entries : List Entry}
    (hvalid : s.indices.Valid) (h : s.index? dir = .ok (some (.listing entries))) :
    IsListing entries := by
  rw [index?_eq] at h
  exact isListing_of_report (fun stamp hrow => hvalid dir stamp entries hrow) h

/-- Only what was decoded is remembered. -/
theorem row_readIndex {s : Store} {dir q : Path} {stamp : Stamp} {index : Index}
    (h : (s.readIndex dir).1.indices.known.get? q = some (stamp, index)) :
    s.indices.known.get? q = some (stamp, index) ∨ q = dir ∧ ∃ place id body,
      s.disk.find true (s.indexPlace dir) = .ok (place, .file id) ∧ s.disk.body? id = some body ∧
        Index.decode body.content = .ok index ∧ body.content.length ≤ s.maxIndexBytes ∧
        stamp = stampOf id body := by
  unfold readIndex at h
  dsimp only at h
  split at h
  · split at h
    · exact .inl (IndexCache.row_of_forget h)
    · exact .inl h
  · next place id hfind =>
      split at h
      · exact .inl h
      · next body hbody =>
          have hold := @IndexCache.row_of_lookup s.indices dir (stampOf id body) q (stamp, index)
          revert hold h
          rcases s.indices.lookup dir (stampOf id body) with ⟨c, _ | known⟩
          · intro h hold
            dsimp only at h
            split_ifs at h with hlarge
            · exact .inl (hold h)
            · cases hdecode : Index.decode body.content with
              | error fault =>
                  rw [hdecode] at h
                  exact .inl (hold h)
              | ok known =>
                  rw [hdecode] at h
                  rcases IndexCache.row_of_remember h with hrow | ⟨rfl, hrow⟩
                  · exact .inl (hold hrow)
                  · cases hrow
                    exact .inr ⟨rfl, place, id, body, hfind, hbody, hdecode,
                      Nat.not_lt.mp hlarge, rfl⟩
          · exact fun h hold => .inl (hold h)
  · exact .inl h

theorem valid_readIndex {s : Store} (h : s.indices.Valid) (dir : Path) :
    (s.readIndex dir).1.indices.Valid := by
  intro q stamp entries hrow
  rcases row_readIndex hrow with hold | ⟨-, -, -, body, -, -, hdecode, -⟩
  · exact h q stamp entries hold
  · exact Index.isListing_of_decode hdecode

end Store
end OnDemandFs
