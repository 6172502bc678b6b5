import OnDemandFs.Proofs.Reading.Positional

/-!
# However the system splits its answers

A system answers each read with as much as it likes, at least a byte until the end is reached, and
it may refuse reads that would end beyond a limit. The bytes that come together do not depend on how
it splits them. The reads that are made on the way are listed by `reads` and `chunkReads`: all of
one call end at the same place, so they are answered or refused together, and none is made twice, so
a function of the offset and the size says all that a system may do, also one that would answer
differently the second time.
-/
namespace OnDemandFs.Reading

variable {content : Bytes} {readAt other : ReadAt} {offset size rounds count : Nat}

/-! ### The reads that are made -/

/-- The reads that `gather` makes, each with its offset and its size. -/
def gatherReads (readAt : ReadAt) : Nat → Nat → Nat → List (Nat × Nat)
  | 0, _, _ => []
  | rounds + 1, offset, size =>
    if size = 0 then []
    else (offset, size) :: match readAt offset size with
      | .error _ | .ok [] => []
      | .ok bytes => gatherReads readAt rounds (offset + bytes.length) (size - bytes.length)

def reads (readAt : ReadAt) (offset size : Nat) : List (Nat × Nat) :=
  gatherReads readAt size offset size

/-- The reads that `gatherAll` makes when so many bytes have come. -/
def chunkReads (readAt : ReadAt) : Nat → Nat → List (Nat × Nat)
  | 0, _ => []
  | rounds + 1, count =>
    reads readAt count chunkSize ++ match readFully readAt count chunkSize with
      | .error _ | .ok [] => []
      | .ok bytes => chunkReads readAt rounds (count + bytes.length)

/-- Nothing but the listed reads is looked at. -/
theorem gather_congr (got : Bytes)
    (h : ∀ r ∈ gatherReads readAt rounds offset size, other r.1 r.2 = readAt r.1 r.2) :
    gather other rounds offset size got = gather readAt rounds offset size got := by
  induction rounds generalizing offset size got with
  | zero => rfl
  | succ rounds ih =>
      unfold gather
      unfold gatherReads at h
      by_cases hsize : size = 0
      · rw [if_pos hsize, if_pos hsize]
      rw [if_neg hsize] at h
      rw [if_neg hsize, if_neg hsize, h _ List.mem_cons_self]
      cases hread : readAt offset size with
      | error fault => rfl
      | ok bytes =>
          cases bytes with
          | nil => rfl
          | cons b rest =>
              rw [hread] at h
              exact ih _ fun r hr => h r (List.mem_cons_of_mem _ hr)

theorem gatherAll_congr (got : Bytes)
    (h : ∀ r ∈ chunkReads readAt rounds got.length, other r.1 r.2 = readAt r.1 r.2) :
    gatherAll other rounds got = gatherAll readAt rounds got := by
  induction rounds generalizing got with
  | zero => rfl
  | succ rounds ih =>
      unfold chunkReads at h
      have hchunk : readFully other got.length chunkSize = readFully readAt got.length chunkSize :=
        gather_congr [] fun r hr => h r (List.mem_append_left _ hr)
      unfold gatherAll
      rw [hchunk]
      cases hread : readFully readAt got.length chunkSize with
      | error fault => rfl
      | ok bytes =>
          cases bytes with
          | nil => rfl
          | cons b rest =>
              rw [hread] at h
              refine ih _ fun r hr => h r (List.mem_append_right _ ?_)
              rwa [List.length_append] at hr

/-- A read never ends elsewhere than the first one. -/
theorem stop_of_mem_gatherReads {r : Nat × Nat} (h : r ∈ gatherReads readAt rounds offset size) :
    offset ≤ r.1 ∧ 0 < r.2 ∧ r.1 + r.2 = offset + size := by
  induction rounds generalizing offset size with
  | zero => cases h
  | succ rounds ih =>
      unfold gatherReads at h
      split at h
      · cases h
      · next hsize =>
          rcases List.mem_cons.mp h with rfl | h
          · exact ⟨Nat.le_refl _, Nat.pos_of_ne_zero hsize, rfl⟩
          · split at h
            · cases h
            · cases h
            · obtain ⟨hstart, hpos, hstop⟩ := ih h
              omega

/-- Later reads of one call start later. -/
theorem pairwise_gatherReads :
    (gatherReads readAt rounds offset size).Pairwise fun r r' => r.1 < r'.1 := by
  induction rounds generalizing offset size with
  | zero => exact .nil
  | succ rounds ih =>
      unfold gatherReads
      split
      · exact .nil
      · refine List.pairwise_cons.mpr ⟨fun r hr => ?_, ?_⟩
        · split at hr
          · cases hr
          · cases hr
          · next bytes hempty _ =>
              have hpos := List.length_pos_of_ne_nil hempty
              have hstart := (stop_of_mem_gatherReads hr).1
              dsimp only
              omega
        · split
          · exact .nil
          · exact .nil
          · exact ih

theorem nodup_gatherReads : (gatherReads readAt rounds offset size).Nodup :=
  pairwise_gatherReads.imp fun hlt heq => absurd (congrArg Prod.fst heq) (Nat.ne_of_lt hlt)

/-- No read starts behind what has come in the end. -/
theorem start_of_mem_gatherReads {got all : Bytes}
    (h : gather readAt rounds offset size got = .ok all) :
    got.length ≤ all.length ∧ ∀ r ∈ gatherReads readAt rounds offset size,
      r.1 + got.length ≤ offset + all.length := by
  induction rounds generalizing offset size got with
  | zero =>
      cases h
      exact ⟨Nat.le_refl _, List.forall_mem_nil _⟩
  | succ rounds ih =>
      unfold gather at h
      unfold gatherReads
      by_cases hsize : size = 0
      · rw [if_pos hsize] at h ⊢
        cases h
        exact ⟨Nat.le_refl _, List.forall_mem_nil _⟩
      rw [if_neg hsize] at h ⊢
      cases hread : readAt offset size with
      | error fault =>
          rw [hread] at h
          cases h
      | ok bytes =>
          rw [hread] at h
          cases bytes with
          | nil =>
              cases h
              refine ⟨Nat.le_refl _, fun r hr => ?_⟩
              obtain rfl := List.mem_singleton.mp hr
              exact Nat.le_refl _
          | cons b rest =>
              obtain ⟨hgrown, hlater⟩ := ih h
              rw [List.length_append] at hgrown hlater
              refine ⟨by omega, fun r hr => ?_⟩
              rcases List.mem_cons.mp hr with rfl | hr
              · dsimp only
                omega
              · have hstart := hlater r hr
                omega

theorem start_of_mem_chunkReads {r : Nat × Nat} (h : r ∈ chunkReads readAt rounds count) :
    count ≤ r.1 ∧ (r.1 = count → r.2 = chunkSize) := by
  induction rounds generalizing count with
  | zero => cases h
  | succ rounds ih =>
      unfold chunkReads at h
      rcases List.mem_append.mp h with h | h
      · obtain ⟨hstart, -, hstop⟩ := stop_of_mem_gatherReads h
        omega
      · split at h
        · cases h
        · cases h
        · next bytes hempty _ =>
            have hpos := List.length_pos_of_ne_nil hempty
            have hstart := (ih h).1
            omega

/-- Chunks start where the last one ended; where that was at the end of the file, the last read of a
chunk and the first of the next start at one place, but they are not of one size. -/
theorem nodup_chunkReads : (chunkReads readAt rounds count).Nodup := by
  induction rounds generalizing count with
  | zero => exact .nil
  | succ rounds ih =>
      have hchunk : (reads readAt count chunkSize).Nodup := nodup_gatherReads
      unfold chunkReads
      cases hread : readFully readAt count chunkSize with
      | error fault => simpa using hchunk
      | ok bytes =>
          cases bytes with
          | nil => simpa using hchunk
          | cons b rest =>
              refine List.nodup_append.mpr ⟨hchunk, ih, fun r hr r' hr' heq => ?_⟩
              subst heq
              have hbefore := (start_of_mem_gatherReads hread).2 r hr
              obtain ⟨-, hpos, hstop⟩ := stop_of_mem_gatherReads hr
              obtain ⟨hafter, hfull⟩ := start_of_mem_chunkReads hr'
              rw [List.length_nil] at hbefore
              rw [List.length_cons] at hbefore hafter hfull
              omega

/-! ### The system -/

/-- A place up to which reads may reach: one before the limit, if there is a limit. -/
def Within (limit : Option Nat) (stop : Nat) : Prop := ∀ l ∈ limit, stop < l

/-- Reads that end within the limit are answered, and those of something that end beyond it are
refused. -/
structure IsSystem (limit : Option Nat) (content : Bytes) (readAt : ReadAt) : Prop where
  answers {offset size : Nat} (h : Within limit (offset + size)) :
    Answers content readAt offset size
  refuses {offset size : Nat} (hsize : size ≠ 0) (h : ¬ Within limit (offset + size)) :
    ∃ fault, readAt offset size = .error fault

variable {limit : Option Nat}

theorem Within.mono {stop stop' : Nat} (h : Within limit stop') (hle : stop ≤ stop') :
    Within limit stop := fun l hl => Nat.lt_of_le_of_lt hle (h l hl)

namespace IsSystem

/-- All reads of one call end at the same place. -/
theorem answers_from (h : IsSystem limit content readAt) (hwithin : Within limit (offset + size)) :
    ∀ k < size, Answers content readAt (offset + k) (size - k) := fun k hk =>
  h.answers (hwithin.mono (by omega))

theorem readFully_of_within (h : IsSystem limit content readAt)
    (hwithin : size = 0 ∨ Within limit (offset + size)) :
    readFully readAt offset size = .ok ((content.drop offset).take size) := by
  rcases hwithin with rfl | hwithin
  · rfl
  · exact readFully_of_answers (h.answers_from hwithin)

theorem readFully_of_beyond (h : IsSystem limit content readAt) (hsize : size ≠ 0)
    (hbeyond : ¬ Within limit (offset + size)) :
    ∃ fault, readFully readAt offset size = .error fault := by
  obtain ⟨fault, hfault⟩ := h.refuses hsize hbeyond
  exact ⟨fault, readFully_of_error hsize hfault⟩

theorem gatherAll_of_within (h : IsSystem limit content readAt)
    (hwithin : Within limit (content.length + chunkSize)) (hrounds : content.length < rounds) :
    gatherAll readAt rounds [] = .ok content :=
  gatherAll_of_answers (Nat.zero_le _) (by omega) fun _ hm =>
    h.answers_from (hwithin.mono (by omega))

/-- The last chunk, in which nothing comes any more, is one that has to be answered too. -/
theorem gatherAll_of_beyond (h : IsSystem limit content readAt)
    (hbeyond : ¬ Within limit (content.length + chunkSize)) {n : Nat} (hn : n ≤ content.length)
    (hrounds : content.length - n < rounds) :
    ∃ fault, gatherAll readAt rounds (content.take n) = .error fault := by
  have hchunk : 0 < chunkSize := by decide
  induction rounds generalizing n with
  | zero => omega
  | succ rounds ih =>
      by_cases hwithin : Within limit (n + chunkSize)
      · have hne : n ≠ content.length := by
          rintro rfl
          exact hbeyond hwithin
        rw [gatherAll_succ rounds hn (h.answers_from hwithin), if_neg hne, List.take_eq_take_min]
        exact ih (Nat.min_le_right _ _) (by omega)
      · obtain ⟨fault, hfault⟩ := h.readFully_of_beyond (Nat.ne_of_gt hchunk) hwithin
        have hcount : (content.take n).length = n := by
          rw [List.length_take]
          omega
        refine ⟨fault, ?_⟩
        rw [gatherAll, hcount, hfault]

/-- A second read is made only if the first one, which ends where it ends, was answered. -/
theorem within_of_mem_reads (h : IsSystem limit content readAt) {r : Nat × Nat}
    (hr : r ∈ reads readAt offset size) : r = (offset, size) ∨ Within limit (offset + size) := by
  by_cases hwithin : Within limit (offset + size)
  · exact .inr hwithin
  · unfold reads at hr
    cases size with
    | zero => cases hr
    | succ rest =>
        obtain ⟨fault, hfault⟩ := h.refuses (Nat.succ_ne_zero rest) hwithin
        rw [gatherReads, if_neg (Nat.succ_ne_zero rest), hfault] at hr
        exact .inl (List.mem_singleton.mp hr)

/-- Where the limit is that of the word, no start of a read goes beyond it. -/
theorem start_of_mem_reads {l bound : Nat} (h : IsSystem (some l) content readAt) (hl : l ≤ bound)
    (hoffset : offset < bound) {r : Nat × Nat} (hr : r ∈ reads readAt offset size) :
    r.1 < bound := by
  rcases h.within_of_mem_reads hr with rfl | hwithin
  · exact hoffset
  · have hstop := (stop_of_mem_gatherReads hr).2.2
    have hlimit : offset + size < l := hwithin l rfl
    omega

theorem start_of_mem_chunkReads {l bound : Nat} (h : IsSystem (some l) content readAt)
    (hl : l ≤ bound) (hcount : count < bound) {r : Nat × Nat}
    (hr : r ∈ chunkReads readAt rounds count) : r.1 < bound := by
  induction rounds generalizing count with
  | zero => cases hr
  | succ rounds ih =>
      unfold chunkReads at hr
      rcases List.mem_append.mp hr with hr | hr
      · exact h.start_of_mem_reads hl hcount hr
      · by_cases hwithin : Within (some l) (count + chunkSize)
        · rw [h.readFully_of_within (.inr hwithin)] at hr
          split at hr
          · cases hr
          · cases hr
          · next bytes hbytes =>
              refine ih ?_ hr
              have hlimit : count + chunkSize < l := hwithin l rfl
              have hlength := List.length_take_le chunkSize (content.drop count)
              rw [Except.ok.inj hbytes] at hlength
              omega
        · obtain ⟨fault, hfault⟩ := h.readFully_of_beyond (by decide) hwithin
          rw [hfault] at hr
          cases hr

end IsSystem

/-- A call is over after as many reads as bytes were asked for, if not before. -/
theorem gather_of_le {more : Nat} (got : Bytes) (hrounds : size ≤ rounds) (hmore : size ≤ more) :
    gather readAt rounds offset size got = gather readAt more offset size got := by
  have hnone (rounds : Nat) : gather readAt rounds offset 0 got = .ok got := by
    cases rounds <;> rfl
  induction rounds generalizing offset size got more with
  | zero =>
      obtain rfl : size = 0 := by omega
      rw [hnone, hnone]
  | succ rounds ih =>
      by_cases hsize : size = 0
      · rw [hsize, hnone, hnone]
      obtain ⟨more, rfl⟩ := Nat.exists_eq_succ_of_ne_zero (Nat.ne_of_gt (by omega : 0 < more))
      unfold gather
      rw [if_neg hsize, if_neg hsize]
      cases readAt offset size with
      | error fault => rfl
      | ok bytes =>
          cases bytes with
          | nil => rfl
          | cons b rest =>
              have hless : size - (b :: rest).length < size :=
                Nat.sub_lt (Nat.pos_of_ne_zero hsize) (Nat.succ_pos _)
              exact ih _ (by omega) (by omega) fun rounds => by cases rounds <;> rfl

/-- What reading through a system comes to, for all offsets and sizes. -/
structure ReadsOut (limit : Option Nat) (content : Bytes) (readAt : ReadAt) : Prop where
  /-- The bytes from the offset up to the end of the read, or of the content. -/
  exact {offset size : Nat} (h : size = 0 ∨ Within limit (offset + size)) :
    readFully readAt offset size = .ok (content.extract offset (min (offset + size) content.length))
  short {offset size : Nat} {bytes : Bytes} (h : readFully readAt offset size = .ok bytes)
    (hshort : bytes.length < size) : content.length ≤ offset + bytes.length
  refused {offset size : Nat} (hsize : size ≠ 0) (h : ¬ Within limit (offset + size)) :
    ∃ fault, readFully readAt offset size = .error fault
  /-- More rounds are not made use of. -/
  ends {offset size rounds : Nat} (h : size ≤ rounds) :
    gather readAt rounds offset size [] = readFully readAt offset size
  whole {length : Nat} (h : Within limit (content.length + chunkSize))
    (hlength : content.length ≤ length) : readToEnd readAt length = .ok content
  /-- What reaches up to the limit so nearly that a chunk behind it would reach beyond. -/
  cutOff {length : Nat} (h : ¬ Within limit (content.length + chunkSize))
    (hlength : content.length ≤ length) : ∃ fault, readToEnd readAt length = .error fault
  /-- Where a call goes on is still a word, if no read is answered that ends beyond the largest
  signed offset. -/
  inRange {l offset size : Nat} (hl : limit = some l) (h : l ≤ Numeral.signedLimit)
    (hoffset : offset < Numeral.wordLimit) :
    (∀ r ∈ reads readAt offset size, r.1 < Numeral.wordLimit) ∧
      ∀ rounds, ∀ r ∈ chunkReads readAt rounds 0, r.1 < Numeral.wordLimit
  /-- The listed reads are all that are made, and each is made once. -/
  listed (offset size : Nat) : (reads readAt offset size).Nodup ∧
    ∀ other : ReadAt, (∀ r ∈ reads readAt offset size, other r.1 r.2 = readAt r.1 r.2) →
      readFully other offset size = readFully readAt offset size
  listedAll (length : Nat) : (chunkReads readAt (length + 1) 0).Nodup ∧
    ∀ other : ReadAt, (∀ r ∈ chunkReads readAt (length + 1) 0, other r.1 r.2 = readAt r.1 r.2) →
      readToEnd other length = readToEnd readAt length

/-- However the system splits its answers, what is read is the content. -/
theorem reads_out (h : IsSystem limit content readAt) : ReadsOut limit content readAt where
  exact {offset size} hwithin := by
    rw [h.readFully_of_within hwithin]
    rw [List.extract_eq_take_drop, List.take_eq_take_iff.mpr]
    rw [List.length_drop]
    omega
  short {offset size bytes} hread hshort := by
    by_cases hwithin : size = 0 ∨ Within limit (offset + size)
    · rw [h.readFully_of_within hwithin] at hread
      have hlength := congrArg List.length (Except.ok.inj hread)
      rw [List.length_take, List.length_drop] at hlength
      omega
    · obtain ⟨hsize, hbeyond⟩ := not_or.mp hwithin
      obtain ⟨fault, hfault⟩ := h.readFully_of_beyond hsize hbeyond
      rw [hfault] at hread
      cases hread
  refused hsize hbeyond := h.readFully_of_beyond hsize hbeyond
  ends hrounds := gather_of_le [] hrounds (Nat.le_refl _)
  whole hwithin hlength := h.gatherAll_of_within hwithin (Nat.lt_succ_of_le hlength)
  cutOff hbeyond hlength :=
    h.gatherAll_of_beyond hbeyond (Nat.zero_le _) (by omega)
  inRange {l offset size} hl hsigned hoffset := by
    subst hl
    have hword : l ≤ Numeral.wordLimit := Nat.le_trans hsigned (by decide)
    exact ⟨fun r hr => h.start_of_mem_reads hword hoffset hr,
      fun rounds r hr => h.start_of_mem_chunkReads hword (by decide) hr⟩
  listed offset size := ⟨nodup_gatherReads, fun other hother => gather_congr [] hother⟩
  listedAll length := ⟨nodup_chunkReads, fun other hother => gatherAll_congr [] hother⟩

/-- The same system, with its answers cut shorter, here and there to one byte. -/
def shorten (keep : Nat → Nat → Nat) (readAt : ReadAt) : ReadAt := fun offset size =>
  (readAt offset size).map (List.take (keep offset size + 1))

theorem IsSystem.shorten (h : IsSystem limit content readAt) (keep : Nat → Nat → Nat) :
    IsSystem limit content (shorten keep readAt) where
  answers {offset size} hwithin := by
    obtain ⟨n, hn, hlength, hread, hend⟩ := h.answers hwithin
    refine ⟨min (keep offset size + 1) n, by omega, by omega, ?_, fun hzero => hend (by omega)⟩
    rw [Reading.shorten, hread, Except.map, List.take_take]
  refuses {offset size} hsize hbeyond := by
    obtain ⟨fault, hfault⟩ := h.refuses hsize hbeyond
    exact ⟨fault, by rw [Reading.shorten, hfault, Except.map]⟩

theorem isSystem_ofContent (content : Bytes) :
    IsSystem (some Numeral.signedLimit) content (ofContent content) where
  answers hwithin := isPositional_ofContent content _ _ (hwithin _ rfl)
  refuses {offset size} hsize hbeyond := by
    have hlimit : Numeral.signedLimit ≤ offset + size := by
      by_contra hless
      exact hbeyond fun l hl => Option.some.inj hl ▸ Nat.lt_of_not_le hless
    refine ⟨.io (.system Errno.invalid), ?_⟩
    unfold ofContent
    rw [if_neg hsize, if_pos hlimit, ite_self]

/-- Ten bytes from a system that gives one, two or three at a time. -/
theorem reads_out_hiccups :
    let content : Bytes := [0, 1, 2, 3, 4, 5, 6, 7, 8, 9]
    let readAt := shorten (fun offset _ => offset % 3) (ofContent content)
    IsSystem (some Numeral.signedLimit) content readAt ∧
      reads readAt 1 5 = [(1, 5), (3, 3), (4, 2)] ∧
      readFully readAt 1 5 = .ok [1, 2, 3, 4, 5] ∧
      ReadsOut (some Numeral.signedLimit) content readAt := by
  intro content readAt
  have hsystem : IsSystem (some Numeral.signedLimit) content readAt :=
    (isSystem_ofContent content).shorten _
  exact ⟨hsystem, by decide, by decide, reads_out hsystem⟩

end OnDemandFs.Reading
