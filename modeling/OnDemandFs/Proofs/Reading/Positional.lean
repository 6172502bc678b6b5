import OnDemandFs.Reading
import Mathlib.Data.List.Basic

/-!
# Reading through positional reads

However the system cuts its answers, reading on until enough has come gives the bytes from the
offset on, and reading on until nothing comes any more gives the whole content.
-/
namespace OnDemandFs.Reading

/-- A read is answered with some of the bytes from its offset on, no more than were asked for, and
at least one of them until the end is reached. -/
def Answers (content : Bytes) (readAt : ReadAt) (offset size : Nat) : Prop :=
  ∃ n, n ≤ size ∧ n ≤ content.length - offset ∧
    readAt offset size = .ok ((content.drop offset).take n) ∧
    (n = 0 → size = 0 ∨ content.length ≤ offset)

/-- A positional read of the content, which brings at least one byte until the end is reached. -/
def IsPositional (content : Bytes) (readAt : ReadAt) : Prop :=
  ∀ offset size, offset + size < Numeral.signedLimit → ∃ n, n ≤ size ∧ n ≤ content.length - offset ∧
    readAt offset size = .ok ((content.drop offset).take n) ∧
    (n = 0 → size = 0 ∨ content.length ≤ offset)

variable {content : Bytes} {readAt : ReadAt} {offset size : Nat}

theorem isPositional_ofContent (content : Bytes) : IsPositional content (ofContent content) := by
  intro offset size hlimit
  refine ⟨min size (content.length - offset), by omega, by omega, ?_, fun hn => by omega⟩
  have htake : (content.drop offset).take (min size (content.length - offset)) =
      (content.drop offset).take size := by
    rw [← List.length_drop, ← List.take_eq_take_min]
  unfold ofContent
  rw [htake, if_neg (by omega)]
  by_cases hsize : size = 0
  · rw [if_pos hsize, hsize, List.take_zero]
  · rw [if_neg hsize, if_neg (by omega)]

/-- Each read that is made ends where the first one was to end. -/
theorem gather_of_answers {rounds : Nat} (got : Bytes) (hrounds : size ≤ rounds)
    (h : ∀ k < size, Answers content readAt (offset + k) (size - k)) :
    gather readAt rounds offset size got = .ok (got ++ (content.drop offset).take size) := by
  induction rounds generalizing offset size got with
  | zero =>
      obtain rfl : size = 0 := by omega
      rw [gather, List.take_zero, List.append_nil]
  | succ rounds ih =>
      unfold gather
      by_cases hsize : size = 0
      · rw [if_pos hsize, hsize, List.take_zero, List.append_nil]
      rw [if_neg hsize]
      obtain ⟨n, hn, hlength, hread, hend⟩ : Answers content readAt offset size :=
        h 0 (Nat.pos_of_ne_zero hsize)
      have hcount : ((content.drop offset).take n).length = n := by
        rw [List.length_take, List.length_drop]
        omega
      rw [hread]
      cases hbytes : (content.drop offset).take n with
      | nil =>
          -- nothing came, so the end is reached
          rw [hbytes, List.length_nil] at hcount
          have hover : content.length ≤ offset := (hend hcount.symm).resolve_left hsize
          rw [List.drop_eq_nil_of_le hover, List.take_nil, List.append_nil]
      | cons b rest =>
          rw [hbytes] at hcount
          have hpos : 0 < n := by rw [← hcount]; exact Nat.succ_pos _
          have hsplit : (content.drop offset).take size =
              (b :: rest) ++ (content.drop (offset + n)).take (size - n) := by
            rw [← hbytes, ← List.drop_drop, ← List.take_add, Nat.add_sub_cancel' hn]
          have hlater (k : Nat) (hk : k < size - n) :
              Answers content readAt (offset + n + k) (size - n - k) := by
            rw [Nat.add_assoc, Nat.sub_sub]
            exact h (n + k) (by omega)
          dsimp only
          rw [hcount, ih _ (by omega) hlater, hsplit, List.append_assoc]

theorem readFully_of_answers (h : ∀ k < size, Answers content readAt (offset + k) (size - k)) :
    readFully readAt offset size = .ok ((content.drop offset).take size) :=
  gather_of_answers [] (Nat.le_refl size) h

theorem readFully_eq (h : IsPositional content readAt)
    (hlimit : offset + size < Numeral.signedLimit) :
    readFully readAt offset size = .ok ((content.drop offset).take size) :=
  readFully_of_answers fun k hk => h (offset + k) (size - k) (by omega)

theorem readFully_of_error {fault : Fault} (hsize : size ≠ 0)
    (h : readAt offset size = .error fault) : readFully readAt offset size = .error fault := by
  obtain ⟨rounds, hrounds⟩ := Nat.exists_eq_succ_of_ne_zero hsize
  unfold readFully
  rw [hrounds, gather, ← hrounds, if_neg hsize, h]

/-- Beyond the largest offset there is nothing to be read, not even for one byte. -/
theorem readFully_ofContent (content : Bytes) (offset size : Nat) :
    readFully (ofContent content) offset size =
      if size = 0 ∨ offset + size < Numeral.signedLimit then .ok ((content.drop offset).take size)
      else .error (.io (.system Errno.invalid)) := by
  split
  · next hread =>
      rcases hread with rfl | hlimit
      · rfl
      · exact readFully_eq (isPositional_ofContent content) hlimit
  · next hbeyond =>
      obtain ⟨hsize, hlimit⟩ := not_or.mp hbeyond
      refine readFully_of_error hsize ?_
      unfold ofContent
      rw [if_neg hsize, if_pos (Nat.le_of_not_lt hlimit), ite_self]

/-- One more chunk, if the system answers it. -/
theorem gatherAll_succ {n : Nat} (rounds : Nat) (hn : n ≤ content.length)
    (h : ∀ k < chunkSize, Answers content readAt (n + k) (chunkSize - k)) :
    gatherAll readAt (rounds + 1) (content.take n) =
      if n = content.length then .ok content
      else gatherAll readAt rounds (content.take (n + chunkSize)) := by
  have hcount : (content.take n).length = n := by
    rw [List.length_take]
    omega
  rw [gatherAll, hcount, readFully_of_answers h]
  cases hbytes : (content.drop n).take chunkSize with
  | nil =>
      have hlength := congrArg List.length hbytes
      have hchunk : 0 < chunkSize := by decide
      rw [List.length_take, List.length_drop, List.length_nil] at hlength
      rw [if_pos (by omega), List.take_of_length_le (by omega)]
  | cons b rest =>
      have hlength := congrArg List.length hbytes
      rw [List.length_take, List.length_drop, List.length_cons] at hlength
      dsimp only
      rw [if_neg (by omega), ← hbytes, List.take_add]

theorem gatherAll_of_answers {rounds n : Nat} (hn : n ≤ content.length)
    (hrounds : content.length - n < rounds)
    (h : ∀ m ≤ content.length, ∀ k < chunkSize, Answers content readAt (m + k) (chunkSize - k)) :
    gatherAll readAt rounds (content.take n) = .ok content := by
  induction rounds generalizing n with
  | zero => omega
  | succ rounds ih =>
      rw [gatherAll_succ rounds hn (h n hn)]
      split
      · rfl
      · have hchunk : 0 < chunkSize := by decide
        rw [List.take_eq_take_min]
        exact ih (Nat.min_le_right _ _) (by omega)

theorem readToEnd_eq (h : IsPositional content readAt)
    (hlimit : content.length + chunkSize < Numeral.signedLimit) :
    readToEnd readAt content.length = .ok content :=
  gatherAll_of_answers (Nat.zero_le _) (by omega) fun m hm k hk =>
    h (m + k) (chunkSize - k) (by omega)

end OnDemandFs.Reading
