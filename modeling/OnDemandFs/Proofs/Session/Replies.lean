import OnDemandFs.Proofs.Mirror.Rest

/-!
# Replies to calls that need nothing more

Some calls of the kernel are answered from what the session has at hand. The step of such a call
replies what was planned, whatever else comes to an end in the same step: those operations were
begun before, under labels of their own.
-/
namespace OnDemandFs

/-- What is got part by part has at most one part for each item, if there is one in each. -/
theorem length_le_of_flatten {α : Type} {parts : List (List α)} {whole : List α}
    (hgot : parts.flatten <+: whole) (hne : ∀ part ∈ parts, part ≠ []) :
    parts.length ≤ whole.length := by
  refine Nat.le_trans ?_ hgot.length_le
  rw [List.length_flatten, ← List.length_map (List.length : List α → Nat)]
  refine List.length_le_sum_of_one_le _ fun n hn => ?_
  obtain ⟨part, hpart, rfl⟩ := List.mem_map.mp hn
  exact List.length_pos_iff.mpr (hne part hpart)

namespace Session

variable {s t u : Session} {label : String}

/-- The kernel's call is answered at once. -/
def Answers (s : Session) (call : KernelCall) (reply : KernelReply) : Prop :=
  ∃ k, s.kernel = some k ∧ (k.plan s.table s.mount s.now call).1 = .answer reply

/-- Only operations that wait in one session are reported until the other. -/
structure Reports (s t : Session) : Prop where
  ended : ∃ more, t.ended = more ++ s.ended ∧ ∀ x ∈ more, x.1 ∈ s.waiting.map labelOf
  waiting : ∀ w ∈ t.waiting, labelOf w ∈ s.waiting.map labelOf

theorem Reports.refl (s : Session) : Reports s s :=
  ⟨⟨[], rfl, nofun⟩, fun _ hw => List.mem_map_of_mem hw⟩

theorem Reports.trans (h : Reports s t) (h' : Reports t u) : Reports s u := by
  have hlabel {l : String} (hl : l ∈ t.waiting.map labelOf) : l ∈ s.waiting.map labelOf := by
    obtain ⟨w, hw, rfl⟩ := List.mem_map.mp hl
    exact h.waiting w hw
  obtain ⟨more, hmore, hold⟩ := h.ended
  obtain ⟨more', hmore', hnew⟩ := h'.ended
  refine ⟨⟨more' ++ more, by rw [hmore', hmore, List.append_assoc], fun x hx => ?_⟩,
    fun w hw => hlabel (h'.waiting w hw)⟩
  rcases List.mem_append.mp hx with hx | hx
  · exact hlabel (hnew x hx)
  · exact hold x hx

theorem Reports.of_eq (hended : t.ended = s.ended) (hwaiting : t.waiting = s.waiting) :
    Reports s t := by
  refine ⟨⟨[], hended, nofun⟩, fun w hw => ?_⟩
  rw [hwaiting] at hw
  exact List.mem_map_of_mem hw

theorem ended_waiting_readChannel {channel : SessionId} {reader : ChannelReader} {reply : Reply}
    (h : s.readChannel channel reader = some (reply, t)) :
    t.ended = s.ended ∧ t.waiting = s.waiting := by
  unfold readChannel at h
  split at h
  · cases h
    exact ⟨rfl, rfl⟩
  · cases reader with
    | helper name =>
        cases h
        unfold keepHandle
        dsimp only
        split <;> exact ⟨rfl, rfl⟩
    | controlFile | kernel =>
        cases h
        exact ⟨rfl, rfl⟩
  · cases h

/-- An operation that was taken out is reported, or waits again. -/
theorem reports_moveWaiting {before after : List Waiting} {w : Waiting}
    (hwaiting : s.waiting = before ++ w :: after) :
    Reports s ({ s with waiting := before ++ after }.moveWaiting w) := by
  have hlabel : labelOf w ∈ s.waiting.map labelOf := by
    rw [hwaiting]
    exact List.mem_map_of_mem (List.mem_append_right _ List.mem_cons_self)
  have hothers {v : Waiting} (hv : v ∈ before ++ after) : labelOf v ∈ s.waiting.map labelOf := by
    rw [hwaiting]
    refine List.mem_map_of_mem (List.mem_append.mpr ?_)
    exact (List.mem_append.mp hv).imp_right (List.mem_cons_of_mem w)
  have hreport {t : Session} (hended : t.ended = s.ended) (hleft : t.waiting = before ++ after)
      (reply : Reply) : Reports s (t.report (labelOf w) reply) := by
    refine ⟨⟨[(labelOf w, reply)], by rw [report, hended]; rfl, ?_⟩, fun v hv => ?_⟩
    · intro x hx
      rw [List.mem_singleton.mp hx]
      exact hlabel
    · rw [report, hleft] at hv
      exact hothers hv
  have hwait {t : Session} {v : Waiting} (hended : t.ended = s.ended)
      (hleft : t.waiting = before ++ after ++ [v]) (hv : labelOf v = labelOf w) : Reports s t := by
    refine ⟨⟨[], hended, nofun⟩, fun v' hv' => ?_⟩
    rw [hleft] at hv'
    rcases List.mem_append.mp hv' with hv' | hv'
    · exact hothers hv'
    · rw [List.mem_singleton.mp hv', hv]
      exact hlabel
  have hproceed (label : String) (call : Call) (i : Inquiry View Answer)
      (heq : label = labelOf w) :
      Reports s ({ s with waiting := before ++ after : Session }.proceed label call i) := by
    subst heq
    cases i with
    | done v r =>
        obtain ⟨hleft, hended, -, -⟩ :=
          ({ s with waiting := before ++ after : Session }.setView v).finish_frame call r
        exact hreport hended hleft _
    | asks v p resume =>
        unfold proceed
        dsimp only
        split
        · cases call with
          | kernel need => refine hreport ?_ ?_ _ <;> rfl
          | _ => exact ⟨⟨[], rfl, nofun⟩, fun v hv => hothers hv⟩
        · exact hwait rfl rfl rfl
  cases w with
  | forRequest label call id resume =>
      unfold moveWaiting
      dsimp only
      split
      · exact hproceed label call _ rfl
      · next fault _ =>
          obtain ⟨hleft, hended, -, -⟩ :=
            finish_frame { s with waiting := before ++ after } call (.error fault)
          exact hreport hended hleft _
      · exact hwait rfl rfl rfl
  | forChannel label channel reader =>
      unfold moveWaiting
      dsimp only
      split
      · next reply t hread =>
          obtain ⟨hended, hleft⟩ := ended_waiting_readChannel hread
          exact hreport hended hleft _
      · exact hwait rfl rfl rfl

theorem reports_move (h : s.move = some t) : Reports s t := by
  unfold move at h
  split at h
  · next hfirst =>
      cases h
      obtain ⟨before, w, after, hwaiting, -, rfl⟩ := exists_of_moveFirst hfirst
      exact reports_moveWaiting hwaiting
  · split at h
    · next hexpire =>
        cases h
        obtain ⟨w, -, hw⟩ := List.exists_of_findSome?_eq_some hexpire
        split at hw
        · split at hw
          · cases hw
            exact .of_eq rfl rfl
          · cases hw
        · cases hw
    · unfold serveOne at h
      split at h
      · cases h
      · split at h
        · cases h
          exact .of_eq rfl rfl
        · cases h

theorem reports_settle (s : Session) : Reports s s.settle := by
  have hall (fuel : Nat) (s : Session) : Reports s (moveAll fuel s) := by
    induction fuel generalizing s with
    | zero => exact .refl s
    | succ fuel ih =>
        unfold moveAll
        split
        · next hmove => exact (reports_move hmove).trans (ih _)
        · exact .refl s
  exact hall _ s

theorem kernelCall_of_plan {call : KernelCall} {reply : KernelReply} {k : KernelSide}
    (hk : s.kernel = some k) (hplan : (k.plan s.table s.mount s.now call).1 = .answer reply)
    (label : String) :
    s.kernelCall label call = { s with
      kernel := some (k.plan s.table s.mount s.now call).2.1
      table := (k.plan s.table s.mount s.now call).2.2.1
      mount := (k.plan s.table s.mount s.now call).2.2.2
      ended := (label, .kernel reply) :: s.ended } := by
  unfold kernelCall
  rw [hk]
  dsimp only
  rw [hplan]
  rfl

/-- A call that is answered at once has that answer as the reply of its step, if it goes under a
label of its own. -/
theorem reply_step_of_answers {call : KernelCall} {reply : KernelReply} (h : s.Answers call reply)
    (hlabel : ∀ w ∈ s.waiting, labelOf w ≠ label) :
    (s.step label (.kernel call)).1.reply = .kernel reply := by
  obtain ⟨k, hk, hplan⟩ := h
  have hcall := kernelCall_of_plan hk hplan label
  obtain ⟨more, hmore, hothers⟩ := (reports_settle (s.kernelCall label call)).ended
  have hown : (s.kernelCall label call).settle.ended.find? (·.1 = label) =
      some (label, .kernel reply) := by
    rw [hmore, List.find?_append, List.find?_eq_none.mpr, Option.none_or, hcall]
    · simp
    · intro x hx heq
      have hx := hothers x hx
      rw [hcall] at hx
      obtain ⟨w, hw, hlabelled⟩ := List.mem_map.mp hx
      exact hlabel w hw (hlabelled.trans (of_decide_eq_true heq))
  have hprompt : s.promptStep (.kernel call) = none := rfl
  have hbegin : s.beginStep label (.kernel call) = s.kernelCall label call := rfl
  unfold step
  rw [hprompt]
  dsimp only
  rw [hbegin, hown]

end Session
end OnDemandFs
