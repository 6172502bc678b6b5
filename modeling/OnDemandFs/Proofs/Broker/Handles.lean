import OnDemandFs.Broker
import OnDemandFs.Proofs.Path.Spelling
import OnDemandFs.Proofs.Text.Ascii

/-!
# What the handle of a request tells

A helper reads the path of a request as bytes that end with a NUL. If the path has no NUL in it the
helper comes to just the path that was asked for.
-/
namespace OnDemandFs

theorem Path.head?_text (p : Path) : p.text.toList.head? = some '/' := by
  unfold Path.text
  cases p.names with
  | nil => rfl
  | cons n rest => simp

theorem Path.nul_not_mem_text {p : Path} (h : ∀ n ∈ p.names, '\x00' ∉ n.toList) :
    '\x00' ∉ p.text.toList := by
  unfold Path.text
  cases hp : p.names with
  | nil => decide
  | cons n rest =>
      rw [hp] at h
      rw [if_neg (by simp), String.toList_ofList, List.mem_flatMap]
      intro hmem
      obtain ⟨m, hm, hnul⟩ := hmem
      rcases List.mem_cons.mp hnul with hslash | hnul
      · cases hslash
      · exact h m hm hnul

theorem requestPath?_read {h : RequestHandle} (hsent : h.sent = false)
    (hnul : '\x00' ∉ h.path.text.toList) : requestPath? h.read.1 = some h.path.text := by
  have hbytes : (Utf8.encode h.path.text ++ [0]).takeWhile (· ≠ 0) = Utf8.encode h.path.text := by
    have hall : ∀ b ∈ Utf8.encode h.path.text, decide (b ≠ 0) = true := by
      intro b hb
      rw [decide_eq_true_eq]
      rintro rfl
      exact hnul ((Utf8.nul_mem_encode_iff _).mp hb)
    rw [List.takeWhile_append_of_pos hall]
    simp
  have hread : h.read.1 = Utf8.encode h.path.text ++ [0] := by
    unfold RequestHandle.read
    rw [hsent]
    rfl
  unfold requestPath?
  rw [hread, hbytes, Utf8.decode_encode]
  dsimp only
  rw [if_pos h.path.head?_text]

end OnDemandFs
