import OnDemandFs.Proofs.Kernel.Apart

/-!
# What the number of a handle is good for

A `Station` is a table of handles with everybody else who uses the broker: clients, and helpers that
have channels and requests of their own. Calls of the table are taken whole, those of the kernel on
any number whatever included, and the actions of the others come between them. A read that has to
wait is one that reads again.

Numbers are given out once and die with their release (`Orderly`). The kernel's calls try one table
after the other and still find what the number was given out for.
-/
namespace OnDemandFs

open Broker TableCall

variable {u : Handles} {c : Broker} {v : World} {x : Option Handle} {notes past : List Note}
  {id : RequestId}

/-- A table of handles with everybody else who uses its broker. -/
structure Station where
  table : Handles := {}
  /-- Everybody else, with the broker and the time. -/
  others : World

namespace Station

inductive Action where
  | others (a : Broker.Action)
  | table (call : TableCall)

def start (timeout : Option Nat) (now : Nat) : Station := { others := .start timeout now }

/-- A call of the table, with what is noted of it. -/
def call (s : Station) (call : TableCall) : List Note × Station :=
  let (notes, table, broker) := call.perform s.table s.others.broker s.others.now
  (notes, { table, others := { s.others with broker } })

/-- Take an action. What nobody can do changes nothing. -/
def act (s : Station) : Action → List Note × Station
  | .others a =>
    match s.others.perform a with
    | some (_, others) => ([], { s with others })
    | none => ([], s)
  | .table call => s.call call

/-- Take actions one after the other; the notes are latest first. -/
def run (s : Station) (past : List Note) : List Action → List Note × Station
  | [] => (past, s)
  | a :: rest => run (s.act a).2 ((s.act a).1 ++ past) rest

variable {s : Station} {call : TableCall}

/-! ### What every run keeps -/

theorem call_of_same (s : Station)
    (hsame : call.perform s.table s.others.broker s.others.now = ([], s.table, s.others.broker)) :
    s.call call = ([], s) := by
  unfold Station.call
  rw [hsame]

structure Kept (past : List Note) (s : Station) : Prop where
  filed : s.others.broker.Filed
  books : Books past s.table
  seats : Seats s.table s.others
  sorted : Sorted s.table s.others.broker

namespace Kept

theorem start (timeout : Option Nat) (now : Nat) : Kept [] (start timeout now) where
  filed := filed_new timeout
  books := .start
  seats := ⟨nofun, nofun, nofun⟩
  sorted := ⟨nofun, nofun, nofun, nofun, nofun⟩

theorem others (h : Kept past s) {a : Broker.Action} {r : Broker.Reply}
    (hs : World.Step s.others a r v) : Kept past { s with others := v } where
  filed := hs.filed h.filed
  books := h.books
  seats := h.seats.others hs
  sorted := h.sorted.advance hs.advances rfl rfl

theorem step (h : Kept past s)
    (hs : TableCall.Step s.table s.others.broker s.others.now x notes u c) :
    Kept (notes ++ past) ⟨u, { s.others with broker := c }⟩ where
  filed := hs.filed h.filed
  books := h.books.step hs h.seats.isSeated
  seats := h.seats.step h.filed hs
  sorted := h.sorted.step h.filed hs

theorem perform (h : Kept past s) (call : TableCall) :
    Kept ((s.call call).1 ++ past) (s.call call).2 := by
  rcases perform_cases s.table s.others.broker s.others.now call with
    hsame | ⟨-, x, hs, -⟩ | ⟨g, -, -, hs⟩
  · rw [s.call_of_same hsame]
    exact h
  · exact h.step hs
  · exact h.step hs

theorem act (h : Kept past s) (a : Action) : Kept ((s.act a).1 ++ past) (s.act a).2 := by
  cases a with
  | others a =>
      simp only [Station.act]
      cases hp : s.others.perform a with
      | none => exact h
      | some answer => exact h.others (World.step_of_perform h.filed hp)
  | table call => exact h.perform call

theorem run (h : Kept past s) (actions : List Action) :
    Kept (s.run past actions).1 (s.run past actions).2 := by
  induction actions generalizing past s with
  | nil => exact h
  | cons a rest ih => exact ih (h.act a)

end Kept

/-! ### What a number is good for -/

/-- At every moment, what the numbers that were given out are good for. -/
structure Orderly (past : List Note) (s : Station) : Prop where
  issued : numbers past = (List.range' 1 s.table.last).reverse
  nodup : (numbers past).Nodup
  /-- The counter does not turn over. -/
  word (hfew : (numbers past).length < 2 ^ 64) {h : Handle} (hh : h ∈ numbers past) :
    (UInt64.ofNat h).toNat = h
  single : s.table.IsSingle
  held_iff {h : Handle} {y : Held} : s.table.held h = [y] ↔ IsLive past h y
  gone {h : Handle} (hh : ∀ y, ¬ IsLive past h y) : s.table.held h = []
  released {h : Handle} (hh : .released h ∈ past) : h ∈ numbers past ∧ s.table.held h = []
  /-- A call that is not for what its number was given out for does nothing. -/
  unfit {h : Handle} {call : TableCall} (hcall : call.handle? = some h)
    (hh : ∀ y, IsLive past h y → call.suits y = false) : s.call call = ([], s)
  control {h : Handle} {session : SessionId} (hh : IsLive past h (.control session)) :
    (∀ m offset size,
      KernelSide.read s.table m h offset size = (.need (.request session), s.table)) ∧
    s.call (.release h) = ([.released h], {
      table := { s.table with control := none, pending := [] }
      others := { s.others with
        broker := (s.others.broker.detach session).closeAll s.table.pending.values } })
  request {h : Handle} {id : RequestId} {p : Path} (hh : IsLive past h (.request id p)) :
    ∃ r, s.table.requests.get? h = some r ∧ r.request = id ∧ r.path = p ∧
      (∀ m offset size, KernelSide.read s.table m h offset size = (.answer (.data r.read.1),
        { s.table with requests := s.table.requests.set h r.read.2 })) ∧
      s.call (.release h) = ([.released h], {
        table := { s.table with requests := s.table.requests.erase h }
        others := { s.others with broker := s.others.broker.close id } })
  file {h : Handle} {f : Opened} (hh : IsLive past h (.file f)) :
    (∀ m offset size, KernelSide.read s.table m h offset size =
      (.answer (if 0 ≤ offset ∧ (size = 0 ∨ offset + size < Numeral.signedLimit)
        then .data (((m.disk.content f.file).drop offset.toNat).take size)
        else .failed Errno.invalid), s.table)) ∧
    s.call (.release h) = ([.released h],
      { s with table := { s.table with files := s.table.files.erase h } })
  /-- What is not live, or is a directory, can neither be read nor released as if it were a file. -/
  idle {h : Handle} (hh : ∀ y, IsLive past h y → ∃ slots, y = .directory slots) :
    (∀ m offset size,
      KernelSide.read s.table m h offset size = (.answer (.failed Errno.badHandle), s.table)) ∧
    s.call (.release h) = ([], s)
  apart {h : Handle} {call : TableCall} (hh : h ∈ numbers past) (hcall : call.handle? ≠ some h) :
    Undisturbed s.table s.others.broker (s.call call).2.table (s.call call).2.others.broker h
  pending {id : RequestId} {r : RequestHandle} (hp : s.table.pending.get? id = some r)
    (call : TableCall) : Fares s.table s.others.broker (s.call call).1 (s.call call).2.table
      (s.call call).2.others.broker id r

namespace Kept

theorem word (h : Kept past s) (hfew : (numbers past).length < 2 ^ 64) {g : Handle}
    (hg : g ∈ numbers past) : (UInt64.ofNat g).toNat = g := by
  have hlast : s.table.last < 2 ^ 64 := by
    rwa [h.books.issued, List.length_reverse, List.length_range'] at hfew
  have hle := (h.books.mem_numbers.mp hg).2
  exact UInt64.toNat_ofNat_of_lt' (Nat.lt_of_le_of_lt hle hlast)

theorem unfit (h : Kept past s) {g : Handle} (hcall : call.handle? = some g)
    (hg : ∀ y, IsLive past g y → call.suits y = false) : s.call call = ([], s) := by
  rcases perform_cases s.table s.others.broker s.others.now call with
    hsame | ⟨hnone, -⟩ | ⟨g', hg', ⟨y, hy, hsuits⟩, -⟩
  · exact s.call_of_same hsame
  · rw [hnone] at hcall
    cases hcall
  · obtain rfl : g = g' := Option.some.inj (hcall.symm.trans hg')
    rw [hg y ((h.books.live g y).mp hy)] at hsuits
    cases hsuits

theorem control (h : Kept past s) {g : Handle} {session : SessionId}
    (hlive : IsLive past g (.control session)) : s.table.controlSession? g = some session :=
  Handles.control_mem_held_iff.mp ((h.books.live g _).mpr hlive)

theorem request (h : Kept past s) {g : Handle} {p : Path} (hlive : IsLive past g (.request id p)) :
    ∃ r, s.table.requests.get? g = some r ∧ r.request = id ∧ r.path = p :=
  Handles.request_mem_held_iff.mp ((h.books.live g _).mpr hlive)

theorem file (h : Kept past s) {g : Handle} {f : Opened} (hlive : IsLive past g (.file f)) :
    s.table.files.get? g = some f :=
  Handles.file_mem_held_iff.mp ((h.books.live g _).mpr hlive)

/-- Only the control file, a request or a file would be found. -/
theorem unread (h : Kept past s) {g : Handle}
    (hg : ∀ y, IsLive past g y → ∃ slots, y = .directory slots) :
    s.table.controlSession? g = none ∧ s.table.requests.get? g = none ∧
      s.table.files.get? g = none := by
  have hnone {y : Held} (hy : y ∈ s.table.held g) (hne : ∀ slots, y ≠ .directory slots) :
      False := by
    obtain ⟨slots, heq⟩ := hg y ((h.books.live g y).mp hy)
    exact hne slots heq
  refine ⟨?_, ?_, ?_⟩ <;> refine Option.eq_none_iff_forall_ne_some.mpr fun z hz => ?_
  · exact hnone (Handles.control_mem_held_iff.mpr hz) nofun
  · exact hnone (Handles.mem_held_of_request hz) nofun
  · exact hnone (Handles.file_mem_held_iff.mpr hz) nofun

theorem undisturbed (h : Kept past s) {g : Handle} (hg : g ∈ numbers past)
    (hcall : call.handle? ≠ some g) :
    Undisturbed s.table s.others.broker (s.call call).2.table (s.call call).2.others.broker g := by
  rcases perform_cases s.table s.others.broker s.others.now call with
    hsame | ⟨-, x, hs, hx⟩ | ⟨g', hg', -, hs⟩
  · rw [s.call_of_same hsame]
    exact .refl h.seats g
  · refine h.seats.undisturbed h.sorted h.filed hs fun heq => h.books.fresh_notMem ?_
    exact hx g heq ▸ hg
  · exact h.seats.undisturbed h.sorted h.filed hs fun heq => hcall (hg'.trans heq)

theorem fares (h : Kept past s) {r : RequestHandle} (hp : s.table.pending.get? id = some r)
    (call : TableCall) : Fares s.table s.others.broker (s.call call).1 (s.call call).2.table
      (s.call call).2.others.broker id r := by
  rcases perform_cases s.table s.others.broker s.others.now call with
    hsame | ⟨-, x, hs, -⟩ | ⟨g, -, -, hs⟩
  · rw [s.call_of_same hsame]
    exact .waits hp rfl
  · exact h.sorted.fares h.filed hs hp
  · exact h.sorted.fares h.filed hs hp

theorem orderly (h : Kept past s) : Orderly past s where
  issued := h.books.issued
  nodup := h.books.nodup_numbers
  word := h.word
  single := h.books.single
  held_iff := h.books.held_eq_iff
  gone := h.books.held_eq_nil
  released hh := ⟨h.books.released hh, h.books.held_eq_nil fun _ hlive => hlive.2 hh⟩
  unfit := h.unfit
  control hlive := by
    have hc := h.control hlive
    refine ⟨fun m offset size => Session.read_control hc, ?_⟩
    rw [Station.call, release_of_control hc]
  request hlive := by
    obtain ⟨r, hr, rfl, rfl⟩ := h.request hlive
    obtain ⟨hc, -⟩ := h.books.single.of_request hr
    refine ⟨r, hr, rfl, rfl, fun m offset size => Session.read_request hc hr, ?_⟩
    rw [Station.call, release_of_request hc hr]
  file hlive := by
    have hf := h.file hlive
    obtain ⟨hc, hr, -⟩ := h.books.single.of_file hf
    refine ⟨fun m offset size => Session.read_file hc hr hf, ?_⟩
    rw [Station.call, release_of_file hc hr hf]
  idle hh := by
    obtain ⟨hc, hr, hf⟩ := h.unread hh
    refine ⟨fun m offset size => Session.read_none hc hr hf, h.unfit rfl fun y hlive => ?_⟩
    obtain ⟨slots, rfl⟩ := hh y hlive
    rfl
  apart := h.undisturbed
  pending hp call := h.fares hp call

end Kept

theorem orderly_of_run (timeout : Option Nat) (now : Nat) (actions : List Action) :
    Orderly ((start timeout now).run [] actions).1 ((start timeout now).run [] actions).2 :=
  ((Kept.start timeout now).run actions).orderly

-- The kernel releases a directory as if it were a file, the control file, and a request twice.
example : ((start none 0).run [] [.table .attachControl, .table (.readControl 1),
    .table (.openRequest 1), .table (.insertDirectory Handles.requestSlots), .table (.release 3),
    .table (.release 1), .table (.release 2), .table (.release 2)]).1 =
    [.released 2, .released 1, .issued 3 (.directory Handles.requestSlots),
      .issued 2 (.request 1 Path.root), .issued 1 (.control 1)] := by decide

end Station
end OnDemandFs
