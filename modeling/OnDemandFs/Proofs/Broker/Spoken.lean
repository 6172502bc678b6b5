import Mathlib.Data.List.TakeWhile
import OnDemandFs.Helper.Serve
import OnDemandFs.Proofs.Broker.Custody
import OnDemandFs.Proofs.Broker.Handles

/-!
# What a helper is told

A client asks for a text, and the handle that goes to a helper for it yields bytes: the tidy
spelling of the path and a NUL, once. The helper takes what stands before the first NUL for the
path. So it is always told some path, and it is told the one that was asked for if, and only if, no
NUL was in the text. Nothing on the way looks for one, and a text may well have one.
-/
namespace OnDemandFs

/-! ### Characters of a spelling -/

section Characters
variable {c : Char} {text : String}

/-- Tidying up takes no character away but slashes and dots. -/
theorem mem_segments_iff (hslash : c ≠ '/') (hdot : c ≠ '.') :
    (∃ n ∈ segments text, c ∈ n.toList) ↔ c ∈ text.toList := by
  rw [← mem_splitOn_iff hslash]
  unfold segments
  constructor
  · rintro ⟨n, hn, hc⟩
    obtain ⟨hn, -⟩ := List.mem_filter.mp hn
    obtain ⟨piece, hpiece, rfl⟩ := List.mem_map.mp hn
    rw [String.toList_ofList] at hc
    exact ⟨piece, hpiece, hc⟩
  · rintro ⟨piece, hpiece, hc⟩
    have hc' : c ∈ (String.ofList piece).toList := by rwa [String.toList_ofList]
    refine ⟨String.ofList piece, List.mem_filter.mpr ⟨List.mem_map_of_mem hpiece, ?_⟩, hc'⟩
    rw [decide_eq_true_eq]
    constructor
    · intro h
      rw [h] at hc'
      cases hc'
    · intro h
      rw [h] at hc'
      exact hdot (List.mem_singleton.mp hc')

theorem mem_normalize_iff (hslash : c ≠ '/') (hdot : c ≠ '.') :
    c ∈ (normalize text).toList ↔ c ∈ text.toList := by
  have hsegments : (∃ n ∈ (Path.ofText text).names, c ∈ n.toList) ↔ c ∈ text.toList :=
    mem_segments_iff hslash hdot
  rw [← hsegments, normalize]
  unfold Path.text
  cases hp : (Path.ofText text).names with
  | nil => simp [hslash]
  | cons n rest =>
      rw [if_neg (by simp), String.toList_ofList, List.mem_flatMap]
      simp only [List.mem_cons, hslash, false_or]

end Characters

/-! ### Up to the first NUL -/

/-- The beginning of a text, as far as there is no NUL. -/
def upToNul (text : String) : String := String.ofList (text.toList.takeWhile (· ≠ '\x00'))

theorem upToNul_eq_self_iff {text : String} : upToNul text = text ↔ '\x00' ∉ text.toList := by
  rw [upToNul, ← String.toList_inj, String.toList_ofList, List.takeWhile_eq_self_iff]
  constructor
  · intro h hnul
    exact absurd (h _ hnul) (by decide)
  · intro h c hc
    rw [decide_eq_true_eq]
    rintro rfl
    exact h hc

/-- The bytes up to the first NUL are those of the characters up to the first NUL. -/
theorem takeWhile_encode (text : String) (rest : Bytes) :
    (Utf8.encode text ++ 0 :: rest).takeWhile (· ≠ 0) = Utf8.encode (upToNul text) := by
  rw [Utf8.encode_eq_flatMap, Utf8.encode_eq_flatMap, upToNul, String.toList_ofList]
  induction text.toList with
  | nil => simp
  | cons c cs ih =>
      have hzero : (0 : UInt8) ∈ String.utf8EncodeChar c ↔ c = '\x00' :=
        Utf8.mem_utf8EncodeChar_iff (by decide : 0 < 128) c
      by_cases hc : c = '\x00'
      · subst hc
        rfl
      · have hbytes : ∀ b ∈ String.utf8EncodeChar c, decide (b ≠ 0) = true := by
          intro b hb
          rw [decide_eq_true_eq]
          rintro rfl
          exact hc (hzero.mp hb)
        rw [List.flatMap_cons, List.append_assoc, List.takeWhile_append_of_pos hbytes, ih,
          List.takeWhile_cons_of_pos (by simpa using hc), List.flatMap_cons]

/-- What a helper reads of a request for a text. -/
def spoken (text : String) : Bytes := Utf8.encode (normalize text) ++ [0]

/-- What the first reads of a handle for a text are to yield: the path once,
and nothing ever after. -/
def said (text : String) : Nat → List Bytes
  | 0 => []
  | n + 1 => spoken text :: List.replicate n []

/-- Whatever the text, a helper makes a path of it. -/
theorem requestPath?_spoken (text : String) :
    requestPath? (spoken text) = some (upToNul (normalize text)) := by
  have hhead : (upToNul (normalize text)).toList.head? = some '/' := by
    rw [upToNul, String.toList_ofList]
    have hslash := (Path.ofText text).head?_text
    change (normalize text).toList.head? = _ at hslash
    cases hlist : (normalize text).toList with
    | nil =>
        rw [hlist] at hslash
        cases hslash
    | cons c cs =>
        rw [hlist] at hslash
        cases hslash
        rfl
  unfold requestPath? spoken
  rw [takeWhile_encode, Utf8.decode_encode]
  dsimp only
  rw [if_pos hhead]

/-- It makes the path that was asked for just of a text without a NUL. -/
theorem requestPath?_spoken_eq_iff {text : String} :
    requestPath? (spoken text) = some (normalize text) ↔ '\x00' ∉ text.toList := by
  rw [requestPath?_spoken, Option.some.injEq, upToNul_eq_self_iff,
    mem_normalize_iff (by decide) (by decide)]

/-! ### The handle -/

namespace RequestHandle

/-- What the first reads of a handle yield, one after the other. -/
def readings (h : RequestHandle) : Nat → List Bytes
  | 0 => []
  | n + 1 => h.read.1 :: h.read.2.readings n

theorem readings_of_sent {h : RequestHandle} (hs : h.sent = true) (n : Nat) :
    h.readings n = List.replicate n [] := by
  have hread : h.read = ([], h) := by
    unfold read
    rw [hs]
    rfl
  induction n with
  | zero => rfl
  | succ n ih => rw [readings, hread, ih, List.replicate_succ]

theorem read_of_fresh {h : RequestHandle} (hs : h.sent = false) :
    h.read = (Utf8.encode h.path.text ++ [0], { h with sent := true }) := by
  unfold read
  rw [hs]
  rfl

end RequestHandle

/-- A handle that speaks for a text. -/
structure Speaks (text : String) (h : RequestHandle) : Prop where
  path : h.path = .ofText text
  readings (n : Nat) : h.readings n = said text n
  /-- A helper that serves the request handles it, under the path that it is told. -/
  served {η : Type} (handle : Handler η) (s : Serving η) (b : Broker) (store : Store) :
    s.finish handle b store h =
      let done := handle s.handler store (upToNul (normalize text))
      ({ s with handler := done.1, served := s.served + 1 }, b.close h.request, done.2.1)

theorem speaks_of_fresh {text : String} {h : RequestHandle} (hs : h.sent = false)
    (hp : h.path = .ofText text) : Speaks text h := by
  have hread : h.read = (spoken text, { h with sent := true }) := by
    rw [RequestHandle.read_of_fresh hs, hp]
    rfl
  refine ⟨hp, fun n => ?_, fun handle s b store => ?_⟩
  · cases n with
    | zero => rfl
    | succ n => rw [RequestHandle.readings, hread, RequestHandle.readings_of_sent rfl, said]
  · unfold Serving.finish
    rw [hread, requestPath?_spoken]

namespace Broker.World

/-- What goes to a helper was not read yet and is for the path of its request. -/
theorem Reachable.delivered {w : World} (h : Reachable w) : ∀ (a : Action) (g : RequestHandle),
    ⟨a, .delivered g⟩ ∈ w.log → g.sent = false ∧ w.Holds g.request g.path := by
  refine h.induct ?_ ?_
  · intro timeout now a g hg
    simp [World.start] at hg
  · intro w b r v hw ih hs a g hg
    rw [hs.log] at hg
    change g.sent = false ∧ v.Holds g.request g.path
    rcases List.mem_cons.mp hg with he | hold
    · cases he
      cases hs with
      | deliver _ _ _ hr => exact ⟨rfl, _, (request?_deliver hr _).trans (if_pos rfl), rfl⟩
    · exact ⟨(ih a g hold).1, (ih a g hold).2.step hs⟩

theorem Reachable.speaks {w : World} (h : Reachable w) {text : String} {f : Fetch}
    (hf : f ∈ w.fetches) (hp : f.path = .ofText text) {a : Action} {g : RequestHandle}
    (hg : ⟨a, .delivered g⟩ ∈ w.log) (hr : g.request = f.request) : Speaks text g := by
  obtain ⟨hs, q, hq, hpath⟩ := h.delivered a g hg
  obtain ⟨k, hk⟩ := List.mem_iff_getElem?.mp hf
  obtain ⟨q', hq', hpath'⟩ := h.custody.fetch hk
  rw [hr, hq'] at hq
  cases hq
  exact speaks_of_fresh hs (hpath.symm.trans (hpath'.trans hp))

/-- A client asks for a name with a NUL in it. -/
def hollowName : String := "/a\x00b"

/-- The helper is told the path of something else. -/
theorem not_told_hollowName : ∃ w f g,
    (start none 0).run? [.fetch (.ofText hollowName), .attach, .read 0, .read 0] = some w ∧
    f ∈ w.fetches ∧ f.path = .ofText hollowName ∧ ⟨.read 0, .delivered g⟩ ∈ w.log ∧
    g.request = f.request ∧ requestPath? g.read.1 = some "/a" ∧
    requestPath? g.read.1 ≠ some (normalize hollowName) :=
  ⟨_, ⟨.ofText hollowName, 1, .waiting⟩, ⟨1, .ofText hollowName, false⟩, rfl, List.mem_cons_self,
    rfl, List.mem_cons_self, rfl, by decide, by decide⟩

end Broker.World
end OnDemandFs
