import OnDemandFs.Proofs.Mapping.Usage

/-!
# The pages that the kernel keeps

When the kernel is given a handle of a file it is told whether it may keep the pages that it has of
the node. It may just if the file is that of the node's last open: `advised_of_run`. The pages are
then those of the last open, while the content of the file is what was written into it since; so
they are out of date after the file was written in place, and only then: `not_kept_pages_current`.
-/
namespace OnDemandFs.Usage
variable {u v : Usage} {notes past more : List Note} {n : NodeId} {file : FileId} {old : Bytes}

/-! ### The last open of a node -/

/-- A handle of the node was given to the kernel. -/
def opens (n : NodeId) : Note → Bool
  | .opened n' .. => n' = n
  | .rewrote .. => false

/-- The file of the last open of a node, with its content then. -/
def lastOpened? (n : NodeId) (notes : List Note) : Option (FileId × Bytes) :=
  notes.findSome? fun
    | .opened n' file content _ => if n' = n then some (file, content) else none
    | .rewrote .. => none

/-- What was noted since the last open of a node. -/
def recent (n : NodeId) (notes : List Note) : List Note :=
  notes.takeWhile fun note => ¬ opens n note

theorem lastOpened?_cons_opened (n n' : NodeId) (file : FileId) (content : Bytes) (flags : Nat) :
    lastOpened? n (.opened n' file content flags :: past) =
      if n' = n then some (file, content) else lastOpened? n past := by
  unfold lastOpened?
  by_cases h : n' = n <;> simp [h]

theorem recent_cons_opened (n n' : NodeId) (file : FileId) (content : Bytes) (flags : Nat) :
    recent n (.opened n' file content flags :: past) =
      if n' = n then [] else .opened n' file content flags :: recent n past := by
  unfold recent
  rw [List.takeWhile_cons]
  by_cases h : n' = n <;> simp [opens, h]

theorem lastOpened?_append (h : ∀ note ∈ more, opens n note = false) :
    lastOpened? n (more ++ past) = lastOpened? n past := by
  unfold lastOpened?
  rw [List.findSome?_append, List.findSome?_eq_none_iff.mpr, Option.none_or]
  intro note hnote
  have hother := h note hnote
  cases note with
  | opened n' file content flags =>
      have hne : n' ≠ n := of_decide_eq_false hother
      exact if_neg hne
  | rewrote => rfl

theorem recent_append (h : ∀ note ∈ more, opens n note = false) :
    recent n (more ++ past) = more ++ recent n past := by
  unfold recent
  rw [List.takeWhile_append_of_pos]
  intro note hnote
  simp [h note hnote]

/-! ### What the kernel is told -/

/-- The table has the file of each node's last open, and that file has now what it had then or what
was written into it in place since. -/
structure Recalls (past : List Note) (u : Usage) : Prop where
  generations : ∀ n, u.table.generations.get? n = (lastOpened? n past).map (·.1)
  made : ∀ n file old, lastOpened? n past = some (file, old) → file < u.mount.disk.nextFile
  content : ∀ n file old, lastOpened? n past = some (file, old) →
    u.mount.disk.content file = (written? file (recent n past)).getD old

/-- A step other than giving a handle to the kernel. -/
theorem Recalls.silent (h : Recalls past u) (hsound : Sound u) (hstep : Step u notes v)
    (hnotes : ∀ n, ∀ note ∈ notes, opens n note = false)
    (htable : v.table.generations = u.table.generations) : Recalls (notes ++ past) v := by
  refine ⟨fun n => ?_, fun n file old hlast => ?_, fun n file old hlast => ?_⟩
  · rw [htable, lastOpened?_append (hnotes n)]
    exact h.generations n
  · rw [lastOpened?_append (hnotes n)] at hlast
    exact Nat.lt_of_lt_of_le (h.made n file old hlast) (hstep.nextFile hsound)
  · rw [lastOpened?_append (hnotes n)] at hlast
    rw [hstep.content hsound (h.made n file old hlast), h.content n file old hlast,
      recent_append (hnotes n), written?_append]
    cases written? file notes <;> rfl

/-- The kernel is given a handle: what it is told of the node's pages, and what is noted of it. -/
structure Advised (n : NodeId) (file : FileId) (content : Bytes) (flags : Nat) (past : List Note) :
    Prop where
  /-- It may keep them just if the file is that of the last open. -/
  flags : flags = if (lastOpened? n past).map (·.1) = some file then KernelSide.keepCache else 0
  /-- Then the content is what was last written into the file since, or as it was. -/
  content : ∀ old, lastOpened? n past = some (file, old) →
    content = (written? file (recent n past)).getD old

/-- When the kernel may keep its pages, they are up to date just if nothing else was written into
the file in place since the last open. -/
theorem Advised.kept {content : Bytes} (h : Advised n file content KernelSide.keepCache past) :
    ∃ old, lastOpened? n past = some (file, old) ∧
      (content = old ↔ ∀ bytes, written? file (recent n past) = some bytes → bytes = old) := by
  have hflags := h.flags
  have hcontent := h.content
  cases hlast : lastOpened? n past with
  | none => simp [hlast, KernelSide.keepCache] at hflags
  | some last =>
      obtain ⟨file', old⟩ := last
      by_cases hfile : file' = file
      · subst hfile
        refine ⟨old, rfl, ?_⟩
        rw [hcontent old hlast]
        cases written? file' (recent n past) <;> simp
      · simp [hlast, hfile, KernelSide.keepCache] at hflags

theorem Recalls.advised (h : Recalls past u) (f : Opened) {handle : Handle} {flags : Nat}
    {table : Handles} (hreply : KernelSide.replyOpened u.table f = (.opened handle flags, table)) :
    Advised f.node.id f.file (u.mount.disk.content f.file) flags past := by
  rw [replyOpened_eq, h.generations] at hreply
  refine ⟨?_, h.content f.node.id f.file⟩
  cases hreply
  rfl

theorem Recalls.register (h : Recalls past u) {f : Opened} (hmade : f.file < u.mount.disk.nextFile)
    {handle : Handle} {flags : Nat} {table : Handles}
    (hreply : KernelSide.replyOpened u.table f = (.opened handle flags, table))
    (files : List Opened) :
    Recalls (.opened f.node.id f.file (u.mount.disk.content f.file) flags :: past)
      { u with files, table } := by
  have htable : table.generations = u.table.generations.set f.node.id f.file := by
    rw [replyOpened_eq] at hreply
    cases hreply
    rfl
  refine ⟨fun n => ?_, fun n file old hlast => ?_, fun n file old hlast => ?_⟩
  · rw [lastOpened?_cons_opened, htable, Table.get?_set]
    by_cases hn : n = f.node.id
    · simp [hn]
    · rw [if_neg hn, if_neg (Ne.symm hn)]
      exact h.generations n
  · rw [lastOpened?_cons_opened] at hlast
    split_ifs at hlast
    · cases hlast
      exact hmade
    · exact h.made n file old hlast
  · rw [lastOpened?_cons_opened] at hlast
    rw [recent_cons_opened]
    split_ifs at hlast ⊢
    · cases hlast
      rfl
    · rw [written?_opened]
      exact h.content n file old hlast

theorem opened_suffix {content : Bytes} {flags : Nat} {older : List Note}
    (hmore : ∀ n, ∀ note ∈ more, opens n note = false)
    (h : .opened n file content flags :: older <:+ more ++ past) :
    .opened n file content flags :: older <:+ past := by
  induction more with
  | nil => exact h
  | cons note rest ih =>
      rcases List.suffix_cons_iff.mp h with heq | hrest
      · have hopens := hmore n note List.mem_cons_self
        rw [← (List.cons.inj heq).1] at hopens
        simp [opens] at hopens
      · exact ih (fun n note hnote => hmore n note (List.mem_cons_of_mem _ hnote)) hrest

theorem recalls_of_run (h : Sound u) (hnew : u.table.generations = []) (hrun : Run u notes v) :
    Recalls notes v ∧ ∀ n file content flags older,
      .opened n file content flags :: older <:+ notes → Advised n file content flags older := by
  induction hrun with
  | start =>
      refine ⟨⟨fun n => ?_, nofun, nofun⟩, fun n file content flags older hnote => ?_⟩
      · rw [hnew]
        rfl
      · cases List.suffix_nil.mp hnote
  | @step v w past notes hrun hstep ih =>
      have hsound := hrun.sound h
      -- a step that gives no handle to the kernel
      have hsilent (hnotes : ∀ n, ∀ note ∈ notes, opens n note = false)
          (htable : w.table.generations = v.table.generations) :
          Recalls (notes ++ past) w ∧ ∀ n file content flags older,
            .opened n file content flags :: older <:+ notes ++ past →
              Advised n file content flags older :=
        ⟨ih.1.silent hsound hstep hnotes htable, fun n file content flags older hnote =>
          ih.2 n file content flags older (opened_suffix hnotes hnote)⟩
      cases hstep with
      | move | revise | unmap | close | release =>
          exact hsilent (fun n note hnote => by cases hnote) rfl
      | rewrite p content =>
          refine hsilent (fun n note hnote => ?_) rfl
          obtain ⟨file, -, rfl⟩ := List.mem_map.mp hnote
          rfl
      | map hf made =>
          exact hsilent (fun n note hnote => by cases hnote) (by rw [(v.view_map _ made).2])
      | @register before after f handle flags table hfiles hreply =>
          have hmade : f.file < v.mount.disk.nextFile := by
            apply hsound.files f
            left
            rw [hfiles]
            exact List.mem_append_right _ List.mem_cons_self
          refine ⟨ih.1.register hmade hreply _, fun n file content flags' older hnote => ?_⟩
          rcases List.suffix_cons_iff.mp hnote with heq | hpast
          · cases heq
            exact ih.1.advised f hreply
          · exact ih.2 n file content flags' older hpast

/-- However a mount is used, the kernel is told to keep the pages of a node just if the file is that
of the node's last open, and they are up to date unless it was written in place since. -/
theorem advised_of_run {d : Disk} {root : List Name} {settings : Settings} {m : Mount}
    (hopen : Mount.openAt d root settings = .ok m) (hd : d.IsNumbered)
    (hrun : Run { mount := m } notes u) {content : Bytes} {flags : Nat}
    (hnote : .opened n file content flags :: past <:+ notes) :
    Advised n file content flags past ∧ (flags = KernelSide.keepCache →
      ∃ old, lastOpened? n past = some (file, old) ∧
        (content = old ↔ ∀ bytes, written? file (recent n past) = some bytes → bytes = old)) := by
  have h := (recalls_of_run (sound_start hopen hd) rfl hrun).2 n file content flags past hnote
  refine ⟨h, fun hkeep => ?_⟩
  subst hkeep
  exact h.kept

/-- The file that was opened last is handed to the kernel. -/
theorem Run.registers {f : Opened} {rest : List Opened} {content : Bytes} {flags : Nat}
    (h : Run u past v) (hfiles : v.files = f :: rest)
    (hcontent : v.mount.disk.content f.file = content)
    (hflags : (if v.table.generations.get? f.node.id = some f.file then
      KernelSide.keepCache else 0) = flags) :
    Run u (.opened f.node.id f.file content flags :: past) { v with
      files := rest
      table := { v.table with
        last := v.table.last + 1
        files := v.table.files.set (v.table.last + 1) f
        generations := v.table.generations.set f.node.id f.file } } := by
  have hsplit : v.files = [] ++ f :: rest := hfiles
  subst hcontent hflags
  exact h.step (.register hsplit (replyOpened_eq v.table f))

/-- A file is written in place. -/
theorem Run.rewrites (h : Run u past v) {p : Path}
    (hwritten : v.mount.store.disk.writtenFile? (v.mount.store.physical p) = some file)
    (content : Bytes) :
    Run u (.rewrote file content :: past)
      (v.setStore (v.mount.store.overwriteFile p content).1) := by
  have hstep := h.step (.rewrite p content)
  rw [hwritten] at hstep
  exact hstep

/-- The mount after the file of the drawer was opened, and after it was written in place. -/
def drawerRead : Mount :=
  { drawer.mount with view := (Call.start (.openFile drawerPath "f") drawer.mount.view).state }

def drawerRewritten : Mount :=
  drawerRead.setStore (drawerRead.store.overwriteFile drawerPath [4, 5]).1

/-- The mount after the file was opened again. -/
def drawerReread : Mount :=
  { drawerRewritten with
    view := (Call.start (.openFile drawerPath "f") drawerRewritten.view).state }

/-- A file is opened by the kernel, written in place and opened again. -/
theorem run_drawerReread : ∃ u, Run { mount := drawerMount }
    [.opened 2 2 [4, 5] KernelSide.keepCache, .rewrote 2 [4, 5], .opened 2 2 [1, 2, 3] 0] u := by
  have hopened : (Call.start (.openFile drawerPath "f") drawer.mount.view).answer? =
      some (.opened ⟨⟨2, drawerPath, .file, ⟨3, 7⟩, false⟩, 2⟩) := by decide +kernel
  have hagain : (Call.start (.openFile drawerPath "f") drawerRewritten.view).answer? =
      some (.opened ⟨⟨2, drawerPath, .file, ⟨2, 7⟩, false⟩, 2⟩) := by decide +kernel
  have hread : drawerRead.disk.content 2 = [1, 2, 3] := by decide +kernel
  have hreread : drawerReread.disk.content 2 = [4, 5] := by decide +kernel
  have hwritten :
      drawerRead.store.disk.writtenFile? (drawerRead.store.physical drawerPath) = some 2 := by
    decide +kernel
  obtain ⟨others, hrun⟩ := run_drawer.opens hopened
  have hrewritten := (hrun.registers rfl hread rfl).rewrites hwritten [4, 5]
  obtain ⟨others', hrun'⟩ := hrewritten.opens hagain
  exact ⟨_, hrun'.registers rfl hreread rfl⟩

/-- The last of these opens may keep the pages of the first. -/
theorem advised_of_run_drawer : ∃ u, Run { mount := drawerMount }
    [.opened 2 2 [4, 5] KernelSide.keepCache, .rewrote 2 [4, 5], .opened 2 2 [1, 2, 3] 0] u ∧
    Advised 2 2 [4, 5] KernelSide.keepCache [.rewrote 2 [4, 5], .opened 2 2 [1, 2, 3] 0] := by
  obtain ⟨u, hrun⟩ := run_drawerReread
  exact ⟨u, hrun, (advised_of_run openAt_drawerMount (Disk.isNumbered_empty _) hrun
    List.suffix_rfl).1⟩

/-- It is not so that the kernel only keeps pages that are up to date. -/
theorem not_kept_pages_current : ¬ ∀ (u : Usage) (notes past : List Note) (n : NodeId)
    (file file' : FileId) (content old : Bytes), Run { mount := drawerMount } notes u →
    .opened n file content KernelSide.keepCache :: past <:+ notes →
    lastOpened? n past = some (file', old) → content = old := by
  intro h
  obtain ⟨u, hrun⟩ := run_drawerReread
  have hsame := h u _ _ 2 2 2 [4, 5] [1, 2, 3] hrun List.suffix_rfl rfl
  cases hsame

end OnDemandFs.Usage
